import TickReplay.Binary64.Basic
import TickReplay.FileTree
import TickReplay.Text.Character
import TickReplay.Text.Integer

/- Endpoints, `transport://address`, and whether one can be bound or connected to. Addresses of
   hosts are not looked up; local sockets are found through the file tree. -/
namespace TickReplay

inductive Endpoint where
  | tcp (host : List Char) (service : Nat)
  | ipc (path : List Char)
  deriving DecidableEq, Repr

inductive EndpointError where
  | noTransport
  | unknownTransport (name : String)
  | noHostAndService
  | serviceOutOfRange
  deriving DecidableEq, Repr

def EndpointError.message : EndpointError → String
  | .noTransport => "Invalid Syntax: Could not parse transport"
  | .unknownTransport name => s!"Unknown transport type {name}"
  | .noHostAndService => "Invalid Syntax: Could not parse host and port"
  | .serviceOutOfRange => "Invalid Syntax: Port must be a u16 but was out of range"

inductive SocketError where
  | endpoint (cause : EndpointError)
  | network (cause : OsError)
  deriving DecidableEq, Repr

/- The kind of error repeats its cause, which then follows once more as the cause. -/
def SocketError.message : SocketError → String
  | .endpoint cause => s!"Endpoint Error: {cause.message}: {cause.message}"
  | .network cause => s!"Network Error: {cause.message}: {cause.message}"

namespace Endpoint

def isLower (c : Char) : Bool := 'a' ≤ c && c ≤ 'z'

def serviceLimit : Nat := word16 - 1

def splitLastColon (cs : List Char) : Option (List Char × List Char) :=
  let back := (cs.reverse.takeWhile (· != ':')).reverse
  let front := cs.take (cs.length - back.length)
  if front.isEmpty then none else some (front.dropLast, back)

/- A service number may be written in the digits of any script, but only the usual ones have a
   value. -/
def readTcp (address : List Char) : Except EndpointError Endpoint :=
  match splitLastColon address with
  | none => .error .noHostAndService
  | some (host, service) =>
    if host.isEmpty || service.isEmpty || !service.all Text.isDecimalDigit then
      .error .noHostAndService
    else match Text.readCount serviceLimit service with
      | .ok service => .ok (.tcp host service)
      | .error _ => .error .serviceOutOfRange

def read (text : String) : Except EndpointError Endpoint :=
  let cs := text.toList
  let transport := cs.takeWhile isLower
  match cs.dropWhile isLower with
  | ':' :: '/' :: '/' :: address =>
    if transport.isEmpty || address.isEmpty || address.contains '\n' then .error .noTransport
    else if transport = "tcp".toList then readTcp address
    else if transport = "ipc".toList then .ok (.ipc address)
    else .error (.unknownTransport (String.ofList transport))
  | _ => .error .noTransport

def socketPathLimit : Nat := 108

/-- A path that begins with a NUL is an abstract name, which is no file's. -/
def isAbstract (path : List Char) : Bool := path.head? == some '\x00'

/-- The bound of a path leaves room for a closing NUL, which an abstract name does not need. -/
def checkPath (path : List Char) : Except OsError Unit :=
  if isAbstract path then
    if socketPathLimit < Utf8.size path then .error .abstractTooLong else .ok ()
  else if path.contains '\x00' then .error .addressNul
  else if socketPathLimit ≤ Utf8.size path then .error .addressTooLong
  else .ok ()

/-- Makes a new name in the tree; the last part of the path must not exist yet. -/
def bindPath (tree : FileTree) (path : List Char) : Except OsError Unit := do
  checkPath path
  if isAbstract path then return ()
  let parts := FileTree.parts path
  let trailing := (parts.getLast?.getD []).isEmpty
  match (parts.reverse.dropWhile List.isEmpty) with
  | [] => throw .addressInUse
  | last :: front =>
    let place ← tree.walk (if path.head? = some '/' then .above else .below []) front.reverse
    match tree.step place last with
    | .ok _ => throw .addressInUse
    | .error .notFound => if trailing then throw .notFound else return ()
    | .error cause => throw cause

def findPath (tree : FileTree) (path : List Char) : Except OsError Unit := do
  checkPath path
  if isAbstract path then return ()
  let _ ← tree.find (String.ofList path)
  return ()

/-- The text of an endpoint in force; an abstract name does not show. -/
def inForce (text : String) (path : List Char) : String :=
  if isAbstract path then "ipc://????" else text

def visit (text : String) (atPath : List Char → Except OsError Unit) : Except SocketError String :=
  match read text with
  | .error cause => .error (.endpoint cause)
  | .ok (.tcp _ _) => .ok text
  | .ok (.ipc path) =>
    match atPath path with
    | .ok _ => .ok (inForce text path)
    | .error cause => .error (.network cause)

def accept (text : String) : Except SocketError String := visit text fun _ => .ok ()

def bind (tree : FileTree) (text : String) : Except SocketError String := visit text (bindPath tree)

def connect (tree : FileTree) (text : String) : Except SocketError String :=
  visit text (findPath tree)

end Endpoint
end TickReplay
