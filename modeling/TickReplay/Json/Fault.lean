import TickReplay.Json.Number
import TickReplay.Text.Character
import TickReplay.Text.Utf8

/- Why a text is refused and where the reader stood. The place is kept as the number of bytes left
   unread, so that a reader needs to know only the rest of its text. -/
namespace TickReplay.Json

inductive Found where
  | null
  | boolean (value : Bool)
  | number (value : Number)
  | text (value : String)
  | list
  | object
  deriving DecidableEq, Repr

def Found.description : Found → String
  | .null => "null"
  | .boolean value => s!"boolean `{value}`"
  | .number (.integer n) => s!"integer `{String.ofList (integerText n)}`"
  | .number (.real x) => s!"floating point `{String.ofList (realText x)}`"
  | .text value => s!"string {Text.quoted value}"
  | .list => "sequence"
  | .object => "map"

inductive Cause where
  | endOfValue
  | endOfString
  | endOfList
  | endOfObject
  | expectedValue
  | expectedIdent
  | expectedColon
  | expectedListEnd
  | expectedObjectEnd
  | keyNotString
  | trailingComma
  | trailingText
  | invalidNumber
  | numberOutOfRange
  | controlCharacter
  | invalidEscape
  | loneSurrogate
  | brokenPair
  | wrongType (found : Found) (wanted : String)
  | wrongValue (found : Found) (wanted : String)
  | wrongLength (length : Nat) (wanted : String)
  | unknownMember (name : String) (known : List String)
  | repeatedMember (name : String)
  | missingMember (name : String)
  deriving DecidableEq, Repr

def ticked (name : String) : String := s!"`{name}`"

def Cause.message : Cause → String
  | .endOfValue => "EOF while parsing a value"
  | .endOfString => "EOF while parsing a string"
  | .endOfList => "EOF while parsing a list"
  | .endOfObject => "EOF while parsing an object"
  | .expectedValue => "expected value"
  | .expectedIdent => "expected ident"
  | .expectedColon => "expected `:`"
  | .expectedListEnd => "expected `,` or `]`"
  | .expectedObjectEnd => "expected `,` or `\x7d`"
  | .keyNotString => "key must be a string"
  | .trailingComma => "trailing comma"
  | .trailingText => "trailing characters"
  | .invalidNumber => "invalid number"
  | .numberOutOfRange => "number out of range"
  | .controlCharacter => "control character (\\u0000-\\u001F) found while parsing a string"
  | .invalidEscape => "invalid escape"
  | .loneSurrogate => "lone leading surrogate in hex escape"
  | .brokenPair => "unexpected end of hex escape"
  | .wrongType found wanted => s!"invalid type: {found.description}, expected {wanted}"
  | .wrongValue found wanted => s!"invalid value: {found.description}, expected {wanted}"
  | .wrongLength length wanted => s!"invalid length {length}, expected {wanted}"
  | .unknownMember name known =>
    s!"unknown field {ticked name}, expected one of " ++ String.intercalate ", " (known.map ticked)
  | .repeatedMember name => s!"duplicate field {ticked name}"
  | .missingMember name => s!"missing field {ticked name}"

structure Fault where
  cause : Cause
  unread : Nat
  deriving DecidableEq, Repr

def Fault.here (cause : Cause) (rest : List Char) : Fault := ⟨cause, Utf8.size rest⟩

/-- A fault in the next byte of the rest, which counts as read unless the text has ended. -/
def Fault.next (cause : Cause) (rest : List Char) : Fault := ⟨cause, Utf8.size rest - 1⟩

structure Position where
  line : Nat
  column : Nat
  deriving DecidableEq, Repr

def newline : UInt8 := 10

/-- Lines count from one, columns count the bytes after the last newline. -/
def Position.after (bytes : List UInt8) : Position :=
  ⟨bytes.count newline + 1, (bytes.reverse.takeWhile (· != newline)).length⟩

def Fault.position (text : List Char) (fault : Fault) : Position :=
  let bytes := Utf8.encode text
  Position.after (bytes.take (bytes.length - fault.unread))

def Fault.message (text : List Char) (fault : Fault) : String :=
  let position := fault.position text
  s!"{fault.cause.message} at line {position.line} column {position.column}"

def isSpace (c : Char) : Bool := c == ' ' || c == '\t' || c == '\n' || c == '\r'

def skipSpace (cs : List Char) : List Char := cs.dropWhile isSpace

end TickReplay.Json
