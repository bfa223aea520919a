import TickReplay.Text.Utf8

/- Files and directories below a working directory, and how a path finds its way. What lies
   above the working directory is out of scope: its directories exist and all names in them are
   unknown. -/
namespace TickReplay

inductive OsError where
  | notFound
  | notDirectory
  | isDirectory
  | nameTooLong
  | nulByte
  | addressInUse
  | addressTooLong
  | addressNul
  | abstractTooLong
  deriving DecidableEq, Repr

def OsError.message : OsError → String
  | .notFound => "No such file or directory (os error 2)"
  | .notDirectory => "Not a directory (os error 20)"
  | .isDirectory => "Is a directory (os error 21)"
  | .nameTooLong => "File name too long (os error 36)"
  | .nulByte => "file name contained an unexpected NUL byte"
  | .addressInUse => "Address already in use (os error 98)"
  | .addressTooLong => "path must be shorter than SUN_LEN"
  | .addressNul => "paths must not contain interior null bytes"
  | .abstractTooLong => "abstract socket name must be shorter than SUN_LEN"

inductive Node where
  | file (content : List UInt8)
  | directory
  deriving DecidableEq, Repr

/- Each entry is listed under the names that lead to it; the directories on its way are implied. -/
structure FileTree where
  entries : List (List (List Char) × Node)
  deriving DecidableEq, Repr

inductive Place where
  | above
  | below (names : List (List Char))
  deriving DecidableEq, Repr

namespace FileTree

def nameLimit : Nat := 255
def pathLimit : Nat := 4096

def parts (path : List Char) : List (List Char) := path.splitOn '/'

def further (names : List (List Char)) (part : List Char) : List (List Char) :=
  if part = [] ∨ part = ['.'] then names
  else if part = ['.', '.'] then names.dropLast
  else names ++ [part]

def trail (names : List (List Char)) : List (List Char) → List (List (List Char)) × List (List Char)
  | [] => ([], names)
  | part :: more =>
    let (passed, last) := trail (further names part) more
    (names :: passed, last)

/-- A tree of files and directories made one after another, with the directories on their way. -/
def ofFiles (files : List (String × Node)) : FileTree :=
  let trails := files.map fun file => (trail [] (parts file.1.toList), file.2)
  { entries := trails.reverse.map (fun (path, node) => (path.2, node)) ++
      trails.flatMap fun (path, _) => path.1.map fun names => (names, .directory) }

def lookup (tree : FileTree) (names : List (List Char)) : Option Node :=
  match tree.entries.find? fun entry => entry.1 == names with
  | some entry => some entry.2
  | none =>
    if names.isEmpty || tree.entries.any fun entry => names.isPrefixOf entry.1 then
      some .directory
    else none

def node (tree : FileTree) : Place → Option Node
  | .above => some .directory
  | .below names => tree.lookup names

def enter (tree : FileTree) (place : Place) (name : List Char) : Except OsError Place :=
  if nameLimit < Utf8.size name then .error .nameTooLong
  else match place with
    | .above => .error .notFound
    | .below names =>
      match tree.lookup (names ++ [name]) with
      | some _ => .ok (.below (names ++ [name]))
      | none => .error .notFound

def leave : Place → Place
  | .above => .above
  | .below [] => .above
  | .below names => .below names.dropLast

def step (tree : FileTree) (place : Place) (part : List Char) : Except OsError Place :=
  match tree.node place with
  | some .directory =>
    if part = [] ∨ part = ['.'] then .ok place
    else if part = ['.', '.'] then .ok (leave place)
    else tree.enter place part
  | _ => .error .notDirectory

def walk (tree : FileTree) (place : Place) : List (List Char) → Except OsError Place
  | [] => .ok place
  | part :: more => tree.step place part >>= fun next => tree.walk next more

def resolve (tree : FileTree) (path : String) : Except OsError Place :=
  let cs := path.toList
  if cs.contains '\x00' then .error .nulByte
  else if cs.isEmpty then .error .notFound
  else if pathLimit ≤ Utf8.size cs then .error .nameTooLong
  else tree.walk (if cs.head? = some '/' then .above else .below []) (parts cs)

def find (tree : FileTree) (path : String) : Except OsError Node := do
  let place ← tree.resolve path
  (tree.node place).elim (.error .notFound) .ok

end FileTree

abbrev Lookup := String → Except OsError Node

def Lookup.isFile (find : Lookup) (path : String) : Bool :=
  match find path with
  | .ok (.file _) => true
  | _ => false

end TickReplay
