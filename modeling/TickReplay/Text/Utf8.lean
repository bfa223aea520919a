/- Reading and writing UTF-8. A refusal tells the length of the valid part and, unless the text
   just breaks off, how many of the following bytes can start no character together. -/
namespace TickReplay.Utf8

structure Fault where
  validUpTo : Nat
  length : Option Nat
  deriving DecidableEq, Repr

def Fault.message (fault : Fault) : String :=
  match fault.length with
  | some n => s!"invalid utf-8 sequence of {n} bytes from index {fault.validUpTo}"
  | none => s!"incomplete utf-8 byte sequence from index {fault.validUpTo}"

def isTail (b : UInt8) : Bool := 0x80 ≤ b && b ≤ 0xBF

def second3 (a b : UInt8) : Bool :=
  if a = 0xE0 then 0xA0 ≤ b && b ≤ 0xBF
  else if a = 0xED then 0x80 ≤ b && b ≤ 0x9F
  else isTail b

def second4 (a b : UInt8) : Bool :=
  if a = 0xF0 then 0x90 ≤ b && b ≤ 0xBF
  else if a = 0xF4 then 0x80 ≤ b && b ≤ 0x8F
  else isTail b

/-- The number of bytes that a first byte announces; none starts with a tail. -/
def width (a : UInt8) : Nat :=
  if a < 0x80 then 1
  else if 0xC2 ≤ a && a ≤ 0xDF then 2
  else if 0xE0 ≤ a && a ≤ 0xEF then 3
  else if 0xF0 ≤ a && a ≤ 0xF4 then 4
  else 0

def low (b : UInt8) : Nat := b.toNat % 64

/-- The first character and how many bytes it takes, or the length of what is refused. -/
def first (a : UInt8) (rest : List UInt8) : Except (Option Nat) (Char × Nat) :=
  match width a, rest with
  | 1, _ => .ok (Char.ofNat a.toNat, 1)
  | 2, [] => .error none
  | 2, b :: _ =>
    if isTail b then .ok (Char.ofNat (a.toNat % 32 * 64 + low b), 2) else .error (some 1)
  | 3, [] => .error none
  | 3, b :: more =>
    if !second3 a b then .error (some 1)
    else match more with
      | [] => .error none
      | c :: _ =>
        if isTail c then .ok (Char.ofNat ((a.toNat % 16 * 64 + low b) * 64 + low c), 3)
        else .error (some 2)
  | 4, [] => .error none
  | 4, b :: more =>
    if !second4 a b then .error (some 1)
    else match more with
      | [] => .error none
      | [c] => if isTail c then .error none else .error (some 2)
      | c :: d :: _ =>
        if !isTail c then .error (some 2)
        else if isTail d then
          .ok (Char.ofNat (((a.toNat % 8 * 64 + low b) * 64 + low c) * 64 + low d), 4)
        else .error (some 3)
  | _, _ => .error (some 1)

/- `skip` counts the bytes of the last character that are still to be passed over. -/
def decodeFrom (position : Nat) : Nat → List UInt8 → List Char → Except Fault (List Char)
  | _, [], read => .ok read.reverse
  | skip + 1, _ :: rest, read => decodeFrom (position + 1) skip rest read
  | 0, a :: rest, read =>
    match first a rest with
    | .ok (c, taken) => decodeFrom (position + 1) (taken - 1) rest (c :: read)
    | .error length => .error ⟨position, length⟩

def decode (bytes : List UInt8) : Except Fault (List Char) := decodeFrom 0 0 bytes []

def encode (cs : List Char) : List UInt8 := cs.flatMap String.utf8EncodeChar

def size : List Char → Nat
  | [] => 0
  | c :: rest => c.utf8Size + size rest

end TickReplay.Utf8
