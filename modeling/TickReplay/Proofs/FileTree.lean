import TickReplay.FileTree
import TickReplay.Proofs.Text.Utf8

/- How a path leads through a tree. Its parts are taken one after another, each from a directory: blank
   parts stay, two dots leave, a name enters what it names. The walk ends where the parts end, at a file
   or a directory, or at the first part that leads nowhere. -/
namespace TickReplay.FileTree

variable {tree : FileTree}

def IsName (part : List Char) : Prop := part ≠ [] ∧ part ≠ ['.'] ∧ part ≠ ['.', '.']

inductive Walks (tree : FileTree) : Place → List (List Char) → Except OsError Place → Prop where
  | arrived {place : Place} : Walks tree place [] (.ok place)
  | stay {place : Place} {part : List Char} {more : List (List Char)}
      {result : Except OsError Place} (directory : tree.node place = some .directory)
      (blank : part = [] ∨ part = ['.']) (rest : Walks tree place more result) :
      Walks tree place (part :: more) result
  | leave {place : Place} {more : List (List Char)} {result : Except OsError Place}
      (directory : tree.node place = some .directory)
      (rest : Walks tree (FileTree.leave place) more result) :
      Walks tree place (['.', '.'] :: more) result
  | enter {names : List (List Char)} {name : List Char} {more : List (List Char)}
      {result : Except OsError Place} {node : Node}
      (directory : tree.node (.below names) = some .directory) (is_name : IsName name)
      (short : (Utf8.encode name).length ≤ nameLimit) (known : tree.lookup (names ++ [name]) = some node)
      (rest : Walks tree (.below (names ++ [name])) more result) :
      Walks tree (.below names) (name :: more) result
  | unknown {place : Place} {name : List Char} {more : List (List Char)}
      (directory : tree.node place = some .directory) (is_name : IsName name)
      (short : (Utf8.encode name).length ≤ nameLimit)
      (absent : ∀ names, place = .below names → tree.lookup (names ++ [name]) = none) :
      Walks tree place (name :: more) (.error .notFound)
  | tooLong {place : Place} {name : List Char} {more : List (List Char)}
      (directory : tree.node place = some .directory) (is_name : IsName name)
      (long : nameLimit < (Utf8.encode name).length) : Walks tree place (name :: more) (.error .nameTooLong)
  | blocked {place : Place} {part : List Char} {more : List (List Char)}
      (file : tree.node place ≠ some .directory) :
      Walks tree place (part :: more) (.error .notDirectory)

def start (path : String) : Place := if path.toList.head? = some '/' then .above else .below []

structure Usable (path : String) : Prop where
  noNul : '\x00' ∉ path.toList
  some : path ≠ ""
  short : (Utf8.encode path.toList).length < pathLimit

/-- What a path leads to, or why it leads nowhere. -/
inductive Leads (tree : FileTree) (path : String) : Except OsError Node → Prop where
  | nul (nul : '\x00' ∈ path.toList) : Leads tree path (.error .nulByte)
  | empty (empty : path = "") : Leads tree path (.error .notFound)
  | tooLong (noNul : '\x00' ∉ path.toList) (long : pathLimit ≤ (Utf8.encode path.toList).length) :
      Leads tree path (.error .nameTooLong)
  | lost {cause : OsError} (usable : Usable path)
      (walks : Walks tree (start path) (parts path.toList) (.error cause)) :
      Leads tree path (.error cause)
  | found {place : Place} {node : Node} (usable : Usable path)
      (walks : Walks tree (start path) (parts path.toList) (.ok place))
      (here : tree.node place = Option.some node) : Leads tree path (.ok node)

end TickReplay.FileTree
