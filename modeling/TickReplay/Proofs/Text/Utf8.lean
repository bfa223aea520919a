import TickReplay.Text.Utf8

/- Reading UTF-8 is the inverse of writing it: a list of bytes is read exactly when some text is
   written as it, and then as that text. Writing keeps the order of texts. In front stands which
   results steps that may fail can have, one behind the other. -/
namespace TickReplay

section Results

variable {ε α β : Type}

theorem bind_ok_iff (x : Except ε α) (f : α → Except ε β) (b : β) :
    x >>= f = .ok b ↔ ∃ a, x = .ok a ∧ f a = .ok b := by
  cases x <;> simp [bind, Except.bind]

theorem bind_error_iff (x : Except ε α) (f : α → Except ε β) (e : ε) :
    x >>= f = .error e ↔ x = .error e ∨ ∃ a, x = .ok a ∧ f a = .error e := by
  cases x <;> simp [bind, Except.bind]

theorem map_ok_iff (x : Except ε α) (f : α → β) (b : β) :
    x.map f = .ok b ↔ ∃ a, x = .ok a ∧ f a = b := by
  cases x <;> simp [Except.map]

theorem map_error_iff (x : Except ε α) (f : α → β) (e : ε) :
    x.map f = .error e ↔ x = .error e := by
  cases x <;> simp [Except.map]

theorem toOption_eq_some_iff (x : Except ε α) (a : α) : x.toOption = some a ↔ x = .ok a := by
  cases x <;> simp [Except.toOption]

end Results

namespace Utf8

theorem isTail_iff (b : UInt8) : isTail b ↔ 128 ≤ b.toNat ∧ b.toNat ≤ 191 := by
  simp only [isTail, Bool.and_eq_true, decide_eq_true_eq, UInt8.le_iff_toNat_le]
  rfl

theorem second3_iff (a b : UInt8) : second3 a b ↔ 128 ≤ b.toNat ∧ b.toNat ≤ 191 ∧
    (a.toNat = 224 → 160 ≤ b.toNat) ∧ (a.toNat = 237 → b.toNat ≤ 159) := by
  have e0 : a = 0xE0 ↔ a.toNat = 224 := UInt8.toNat_inj.symm
  have ed : a = 0xED ↔ a.toNat = 237 := UInt8.toNat_inj.symm
  unfold second3
  split
  · rename_i same
    have at_ := e0.mp same
    simp only [Bool.and_eq_true, decide_eq_true_eq, UInt8.le_iff_toNat_le, UInt8.toNat_ofNat]
    omega
  split
  · rename_i other same
    have at_ := ed.mp same
    simp only [Bool.and_eq_true, decide_eq_true_eq, UInt8.le_iff_toNat_le, UInt8.toNat_ofNat]
    omega
  · rename_i other other'
    rw [e0] at other
    rw [ed] at other'
    rw [isTail_iff]
    omega

theorem second4_iff (a b : UInt8) : second4 a b ↔ 128 ≤ b.toNat ∧ b.toNat ≤ 191 ∧
    (a.toNat = 240 → 144 ≤ b.toNat) ∧ (a.toNat = 244 → b.toNat ≤ 143) := by
  have f0 : a = 0xF0 ↔ a.toNat = 240 := UInt8.toNat_inj.symm
  have f4 : a = 0xF4 ↔ a.toNat = 244 := UInt8.toNat_inj.symm
  unfold second4
  split
  · rename_i same
    have at_ := f0.mp same
    simp only [Bool.and_eq_true, decide_eq_true_eq, UInt8.le_iff_toNat_le, UInt8.toNat_ofNat]
    omega
  split
  · rename_i other same
    have at_ := f4.mp same
    simp only [Bool.and_eq_true, decide_eq_true_eq, UInt8.le_iff_toNat_le, UInt8.toNat_ofNat]
    omega
  · rename_i other other'
    rw [f0] at other
    rw [f4] at other'
    rw [isTail_iff]
    omega

theorem width_eq (a : UInt8) : width a =
    if a.toNat < 128 then 1
    else if 194 ≤ a.toNat ∧ a.toNat ≤ 223 then 2
    else if 224 ≤ a.toNat ∧ a.toNat ≤ 239 then 3
    else if 240 ≤ a.toNat ∧ a.toNat ≤ 244 then 4
    else 0 := by
  simp [width, UInt8.lt_iff_toNat_lt, UInt8.le_iff_toNat_le]

theorem toNat_ofNat {n : Nat} (scalar : n.isValidChar) : (Char.ofNat n).toNat = n := by
  rw [Char.ofNat, dif_pos scalar]
  rfl

theorem ofNat_byte {n : Nat} {b : UInt8} (same : n = b.toNat) : UInt8.ofNat n = b := by
  rw [same, UInt8.ofNat_toNat]

theorem encodeChar_eq (c : Char) : String.utf8EncodeChar c =
    if c.toNat < 128 then [UInt8.ofNat c.toNat]
    else if c.toNat < 2048 then
      [UInt8.ofNat (c.toNat / 64 + 192), UInt8.ofNat (c.toNat % 64 + 128)]
    else if c.toNat < 65536 then
      [UInt8.ofNat (c.toNat / 4096 + 224), UInt8.ofNat (c.toNat / 64 % 64 + 128),
        UInt8.ofNat (c.toNat % 64 + 128)]
    else
      [UInt8.ofNat (c.toNat / 262144 + 240), UInt8.ofNat (c.toNat / 4096 % 64 + 128),
        UInt8.ofNat (c.toNat / 64 % 64 + 128), UInt8.ofNat (c.toNat % 64 + 128)] := by
  have limit : c.toNat < 1114112 := by
    have valid : c.toNat.isValidChar := c.valid
    omega
  unfold String.utf8EncodeChar
  simp only [Char.toNat_val]
  by_cases one : c.toNat < 128
  · rw [if_pos (by omega), if_pos one]
  by_cases two : c.toNat < 2048
  · have high : c.toNat / 64 % 32 = c.toNat / 64 := by omega
    rw [if_neg (by omega), if_pos (by omega), if_neg one, if_pos two, high]
  by_cases three : c.toNat < 65536
  · have high : c.toNat / 4096 % 16 = c.toNat / 4096 := by omega
    rw [if_neg (by omega), if_neg (by omega), if_pos (by omega), if_neg one, if_neg two,
      if_pos three, high]
  · have high : c.toNat / 262144 % 8 = c.toNat / 262144 := by omega
    rw [if_neg (by omega), if_neg (by omega), if_neg (by omega), if_neg one, if_neg two,
      if_neg three, high]

theorem encodeChar_two {a b : UInt8} (lead : 194 ≤ a.toNat ∧ a.toNat ≤ 223) (tail : isTail b) :
    String.utf8EncodeChar (Char.ofNat (a.toNat % 32 * 64 + low b)) = [a, b] := by
  have range := (isTail_iff b).mp tail
  have value := toNat_ofNat (n := a.toNat % 32 * 64 + low b) (by left; unfold low; omega)
  unfold low at value
  rw [encodeChar_eq, low, value, if_neg (by omega), if_pos (by omega),
    ofNat_byte (b := a) (by omega), ofNat_byte (b := b) (by omega)]

theorem encodeChar_three {a b d : UInt8} (lead : 224 ≤ a.toNat ∧ a.toNat ≤ 239)
    (second : second3 a b) (tail : isTail d) :
    String.utf8EncodeChar (Char.ofNat ((a.toNat % 16 * 64 + low b) * 64 + low d)) = [a, b, d] := by
  have ranges := (second3_iff a b).mp second
  have range := (isTail_iff d).mp tail
  have value := toNat_ofNat (n := (a.toNat % 16 * 64 + b.toNat % 64) * 64 + d.toNat % 64)
    (by unfold Nat.isValidChar; omega)
  rw [encodeChar_eq, low, low, value, if_neg (by omega), if_neg (by omega), if_pos (by omega),
    ofNat_byte (b := a) (by omega), ofNat_byte (b := b) (by omega),
    ofNat_byte (b := d) (by omega)]

theorem encodeChar_four {a b d e : UInt8} (lead : 240 ≤ a.toNat ∧ a.toNat ≤ 244)
    (second : second4 a b) (tail : isTail d) (tail' : isTail e) :
    String.utf8EncodeChar
        (Char.ofNat (((a.toNat % 8 * 64 + low b) * 64 + low d) * 64 + low e)) = [a, b, d, e] := by
  have ranges := (second4_iff a b).mp second
  have range := (isTail_iff d).mp tail
  have range' := (isTail_iff e).mp tail'
  have value := toNat_ofNat
    (n := ((a.toNat % 8 * 64 + b.toNat % 64) * 64 + d.toNat % 64) * 64 + e.toNat % 64)
    (by unfold Nat.isValidChar; omega)
  rw [encodeChar_eq, low, low, low, value, if_neg (by omega), if_neg (by omega),
    if_neg (by omega), ofNat_byte (b := a) (by omega), ofNat_byte (b := b) (by omega),
    ofNat_byte (b := d) (by omega), ofNat_byte (b := e) (by omega)]

theorem encodeChar_of_first {a : UInt8} {rest : List UInt8} {c : Char} {taken : Nat}
    (read : first a rest = .ok (c, taken)) :
    ∃ tail more, rest = tail ++ more ∧ taken = tail.length + 1 ∧
      String.utf8EncodeChar c = a :: tail := by
  have size := a.toNat_lt
  unfold first at read
  rw [width_eq] at read
  split at read
  case h_1 wide =>
    have one : a.toNat < 128 := by grind
    cases read
    have value := toNat_ofNat (n := a.toNat) (by left; omega)
    refine ⟨[], _, rfl, rfl, ?_⟩
    rw [encodeChar_eq, value, if_pos one, UInt8.ofNat_toNat]
  case h_3 b more wide =>
    have two : 194 ≤ a.toNat ∧ a.toNat ≤ 223 := by grind
    split at read
    case isFalse => cases read
    case isTrue tail =>
      cases read
      exact ⟨[b], more, rfl, rfl, encodeChar_two two tail⟩
  case h_5 b more wide =>
    have three : 224 ≤ a.toNat ∧ a.toNat ≤ 239 := by grind
    cases second : second3 a b
    · simp [second] at read
    rw [second] at read
    rcases more with _ | ⟨d, more⟩
    · cases read
    cases tail : isTail d
    · simp [tail] at read
    simp only [Bool.not_true, Bool.false_eq_true, if_false, tail, if_true] at read
    cases read
    exact ⟨[b, d], more, rfl, rfl, encodeChar_three three second tail⟩
  case h_7 b more wide =>
    have four : 240 ≤ a.toNat ∧ a.toNat ≤ 244 := by grind
    cases second : second4 a b
    · simp [second] at read
    rw [second] at read
    rcases more with _ | ⟨d, _ | ⟨e, more⟩⟩
    · cases read
    · by_cases tail : isTail d <;> simp [tail] at read
    cases tail : isTail d
    · simp [tail] at read
    cases tail' : isTail e
    · simp [tail, tail'] at read
    simp only [Bool.not_true, Bool.false_eq_true, if_false, tail, tail', if_true] at read
    cases read
    exact ⟨[b, d, e], more, rfl, rfl, encodeChar_four four second tail tail'⟩
  case h_2 | h_4 | h_6 | h_8 => all_goals cases read

theorem toNat_byte {n : Nat} (small : n < 256) : (UInt8.ofNat n).toNat = n := by
  rw [UInt8.toNat_ofNat', Nat.mod_eq_of_lt small]

theorem first_one {n : Nat} (small : n < 128) (more : List UInt8) :
    first (UInt8.ofNat n) more = .ok (Char.ofNat n, 1) := by
  have head := toNat_byte (n := n) (by omega)
  have wide : width (UInt8.ofNat n) = 1 := by rw [width_eq, head, if_pos small]
  simp only [first, wide, head]

theorem first_two {n : Nat} (least : 128 ≤ n) (most : n < 2048) (more : List UInt8) :
    first (UInt8.ofNat (n / 64 + 192)) (UInt8.ofNat (n % 64 + 128) :: more) =
      .ok (Char.ofNat n, 2) := by
  have head := toNat_byte (n := n / 64 + 192) (by omega)
  have second := toNat_byte (n := n % 64 + 128) (by omega)
  have wide : width (UInt8.ofNat (n / 64 + 192)) = 2 := by
    rw [width_eq, head, if_neg (by omega), if_pos (by omega)]
  have point : (n / 64 + 192) % 32 * 64 + (n % 64 + 128) % 64 = n := by omega
  have tail : isTail (UInt8.ofNat (n % 64 + 128)) := by rw [isTail_iff]; omega
  simp only [first, wide, tail, if_true, low, head, second, point]

theorem first_three {n : Nat} (scalar : n.isValidChar) (least : 2048 ≤ n) (most : n < 65536)
    (more : List UInt8) :
    first (UInt8.ofNat (n / 4096 + 224))
        (UInt8.ofNat (n / 64 % 64 + 128) :: UInt8.ofNat (n % 64 + 128) :: more) =
      .ok (Char.ofNat n, 3) := by
  unfold Nat.isValidChar at scalar
  have head := toNat_byte (n := n / 4096 + 224) (by omega)
  have second := toNat_byte (n := n / 64 % 64 + 128) (by omega)
  have third := toNat_byte (n := n % 64 + 128) (by omega)
  have wide : width (UInt8.ofNat (n / 4096 + 224)) = 3 := by
    rw [width_eq, head, if_neg (by omega), if_neg (by omega), if_pos (by omega)]
  have point : ((n / 4096 + 224) % 16 * 64 + (n / 64 % 64 + 128) % 64) * 64
      + (n % 64 + 128) % 64 = n := by omega
  have fits : second3 (UInt8.ofNat (n / 4096 + 224)) (UInt8.ofNat (n / 64 % 64 + 128)) := by
    rw [second3_iff]
    omega
  have tail : isTail (UInt8.ofNat (n % 64 + 128)) := by rw [isTail_iff]; omega
  simp only [first, wide, fits, Bool.not_true, Bool.false_eq_true, if_false, tail, if_true, low,
    head, second, third, point]

theorem first_four {n : Nat} (scalar : n.isValidChar) (least : 65536 ≤ n) (more : List UInt8) :
    first (UInt8.ofNat (n / 262144 + 240))
        (UInt8.ofNat (n / 4096 % 64 + 128) :: UInt8.ofNat (n / 64 % 64 + 128) ::
          UInt8.ofNat (n % 64 + 128) :: more) =
      .ok (Char.ofNat n, 4) := by
  unfold Nat.isValidChar at scalar
  have head := toNat_byte (n := n / 262144 + 240) (by omega)
  have second := toNat_byte (n := n / 4096 % 64 + 128) (by omega)
  have third := toNat_byte (n := n / 64 % 64 + 128) (by omega)
  have fourth := toNat_byte (n := n % 64 + 128) (by omega)
  have wide : width (UInt8.ofNat (n / 262144 + 240)) = 4 := by
    rw [width_eq, head, if_neg (by omega), if_neg (by omega), if_neg (by omega),
      if_pos (by omega)]
  have point : (((n / 262144 + 240) % 8 * 64 + (n / 4096 % 64 + 128) % 64) * 64
      + (n / 64 % 64 + 128) % 64) * 64 + (n % 64 + 128) % 64 = n := by omega
  have fits : second4 (UInt8.ofNat (n / 262144 + 240)) (UInt8.ofNat (n / 4096 % 64 + 128)) := by
    rw [second4_iff]
    omega
  have tail : isTail (UInt8.ofNat (n / 64 % 64 + 128)) := by rw [isTail_iff]; omega
  have tail' : isTail (UInt8.ofNat (n % 64 + 128)) := by rw [isTail_iff]; omega
  simp only [first, wide, fits, Bool.not_true, Bool.false_eq_true, if_false, tail, tail', if_true,
    low, head, second, third, fourth, point]

theorem first_of_encodeChar {a : UInt8} {tail : List UInt8} {c : Char}
    (written : String.utf8EncodeChar c = a :: tail) (more : List UInt8) :
    first a (tail ++ more) = .ok (c, tail.length + 1) := by
  have scalar : c.toNat.isValidChar := c.valid
  rw [encodeChar_eq] at written
  split at written
  · rename_i one
    cases written
    have read := first_one one more
    rw [Char.ofNat_toNat] at read
    exact read
  rename_i least
  split at written
  · rename_i two
    cases written
    have read := first_two (by omega) two more
    rw [Char.ofNat_toNat] at read
    exact read
  rename_i least
  split at written
  · rename_i three
    cases written
    have read := first_three scalar (by omega) three more
    rw [Char.ofNat_toNat] at read
    exact read
  · cases written
    have read := first_four scalar (by omega) more
    rw [Char.ofNat_toNat] at read
    exact read

theorem encodeChar_ne_nil (c : Char) : String.utf8EncodeChar c ≠ [] := by
  rw [encodeChar_eq]
  split
  · simp
  split
  · simp
  split <;> simp

/-- A byte below 128 is written for the character of that number only. -/
theorem toNat_of_mem_encodeChar {c : Char} {b : UInt8} (member : b ∈ String.utf8EncodeChar c)
    (ascii : b.toNat < 128) : c.toNat = b.toNat := by
  have scalar : c.toNat < 1114112 := by
    have valid : c.toNat.isValidChar := c.valid
    unfold Nat.isValidChar at valid
    omega
  have wide {n : Nat} (least : 128 ≤ n) (most : n < 256) : b ≠ UInt8.ofNat n := by
    rintro rfl
    rw [toNat_byte most] at ascii
    omega
  rw [encodeChar_eq] at member
  split at member
  · rename_i one
    rw [List.mem_singleton.mp member, toNat_byte (by omega)]
  split at member
  · simp only [List.mem_cons, List.not_mem_nil, or_false] at member
    rcases member with same | same
    · exact absurd same (wide (by omega) (by omega))
    · exact absurd same (wide (by omega) (by omega))
  split at member
  · simp only [List.mem_cons, List.not_mem_nil, or_false] at member
    rcases member with same | same | same <;> exact absurd same (wide (by omega) (by omega))
  · simp only [List.mem_cons, List.not_mem_nil, or_false] at member
    rcases member with same | same | same | same <;>
      exact absurd same (wide (by omega) (by omega))

theorem encode_append (a b : List Char) : encode (a ++ b) = encode a ++ encode b :=
  List.flatMap_append

theorem encode_cons (c : Char) (cs : List Char) :
    encode (c :: cs) = String.utf8EncodeChar c ++ encode cs :=
  List.flatMap_cons

theorem decodeFrom_skip (position : Nat) (tail rest : List UInt8) (read : List Char) :
    decodeFrom position tail.length (tail ++ rest) read
      = decodeFrom (position + tail.length) 0 rest read := by
  induction tail generalizing position with
  | nil => rfl
  | cons a tail ih =>
    simp only [List.length_cons, List.cons_append, decodeFrom, ih]
    congr 1
    omega

theorem decodeFrom_encode (text : List Char) (rest : List UInt8) (position : Nat)
    (read : List Char) : decodeFrom position 0 (encode text ++ rest) read
      = decodeFrom (position + (encode text).length) 0 rest (text.reverse ++ read) := by
  induction text generalizing position read with
  | nil => rfl
  | cons c text ih =>
    obtain ⟨a, tail, written⟩ := List.exists_cons_of_ne_nil (encodeChar_ne_nil c)
    have bytes : encode (c :: text) = a :: tail ++ encode text := by
      rw [encode_cons, written]
    rw [bytes]
    simp only [List.cons_append, List.append_assoc, decodeFrom, first_of_encodeChar written]
    rw [Nat.add_sub_cancel, decodeFrom_skip, ih]
    congr 1
    · simp only [List.length_cons, List.length_append]
      omega
    · simp

theorem decode_encode (text : List Char) : decode (encode text) = .ok text := by
  have run := decodeFrom_encode text [] 0 []
  rw [List.append_nil, List.append_nil] at run
  rw [decode, run, decodeFrom, List.reverse_reverse]

theorem decodeFrom_ok {position : Nat} {bytes : List UInt8} {read text : List Char}
    (decoded : decodeFrom position 0 bytes read = .ok text) :
    ∃ more, text = read.reverse ++ more ∧ bytes = encode more := by
  induction h : bytes.length using Nat.strongRecOn generalizing position bytes read with
  | ind size ih =>
  rcases bytes with _ | ⟨a, rest⟩
  · cases decoded
    exact ⟨[], by simp, rfl⟩
  rw [decodeFrom] at decoded
  rcases step : first a rest with fault | ⟨c, taken⟩
  · rw [step] at decoded
    cases decoded
  · rw [step] at decoded
    obtain ⟨tail, more, rfl, rfl, written⟩ := encodeChar_of_first step
    simp only [Nat.add_sub_cancel] at decoded
    rw [decodeFrom_skip] at decoded
    obtain ⟨others, rfl, rfl⟩ := ih more.length (by simp at h; omega) decoded rfl
    refine ⟨c :: others, by simp, ?_⟩
    rw [encode_cons, written]
    rfl

theorem decode_ok_iff (bytes : List UInt8) (text : List Char) :
    decode bytes = .ok text ↔ encode text = bytes := by
  constructor
  · intro decoded
    obtain ⟨more, rfl, rfl⟩ := decodeFrom_ok decoded
    rfl
  · rintro rfl
    exact decode_encode text

structure ValidUpTo (bytes : List UInt8) (n : Nat) : Prop where
  refused : ∀ text, encode text ≠ bytes
  valid : ∃ text rest, bytes = encode text ++ rest ∧ (encode text).length = n
  longest : ∀ text rest, bytes = encode text ++ rest → (encode text).length ≤ n

theorem ValidUpTo.eq {bytes : List UInt8} {n m : Nat} (one : ValidUpTo bytes n)
    (other : ValidUpTo bytes m) : n = m := by
  obtain ⟨text, rest, split, length⟩ := one.valid
  obtain ⟨text', rest', split', length'⟩ := other.valid
  have below := other.longest text rest split
  have above := one.longest text' rest' split'
  omega

theorem position_le_fault {position skip : Nat} {bytes : List UInt8} {read : List Char}
    {fault : Fault} (failed : decodeFrom position skip bytes read = .error fault) :
    position ≤ fault.validUpTo := by
  induction bytes generalizing position skip read with
  | nil => cases skip <;> cases failed
  | cons a rest ih =>
    cases skip with
    | succ skip =>
      have later := ih failed
      omega
    | zero =>
      rw [decodeFrom] at failed
      split at failed
      · have later := ih failed
        omega
      · cases failed
        exact Nat.le_refl _

theorem fault_behind_text {position : Nat} {bytes : List UInt8} {read : List Char} {fault : Fault}
    (failed : decodeFrom position 0 bytes read = .error fault) :
    ∃ text rest, bytes = encode text ++ rest ∧ fault.validUpTo = position + (encode text).length := by
  induction h : bytes.length using Nat.strongRecOn generalizing position bytes read with
  | ind size ih =>
  rcases bytes with _ | ⟨a, rest⟩
  · cases failed
  rw [decodeFrom] at failed
  rcases step : first a rest with length | ⟨c, taken⟩
  · rw [step] at failed
    cases failed
    exact ⟨[], a :: rest, rfl, rfl⟩
  · rw [step] at failed
    obtain ⟨tail, more, rfl, rfl, written⟩ := encodeChar_of_first step
    simp only [Nat.add_sub_cancel] at failed
    rw [decodeFrom_skip] at failed
    obtain ⟨text, others, rfl, place⟩ := ih more.length (by simp at h; omega) failed rfl
    have bytes : encode (c :: text) = a :: tail ++ encode text := by
      rw [encode_cons, written]
    refine ⟨c :: text, others, by simp [bytes], ?_⟩
    rw [place, bytes]
    simp only [List.length_append, List.length_cons]
    omega

theorem decode_error_validUpTo {bytes : List UInt8} {fault : Fault}
    (failed : decode bytes = .error fault) : ValidUpTo bytes fault.validUpTo where
  refused := by
    intro text same
    rw [(decode_ok_iff bytes text).mpr same] at failed
    cases failed
  valid := by
    obtain ⟨text, rest, split, place⟩ := fault_behind_text failed
    exact ⟨text, rest, split, by omega⟩
  longest := by
    rintro text rest rfl
    rw [decode, decodeFrom_encode] at failed
    have behind := position_le_fault failed
    omega

theorem byte_cons_lt {m n : Nat} (small : m < 256) (small' : n < 256) (as bs : List UInt8) :
    UInt8.ofNat m :: as < UInt8.ofNat n :: bs ↔ m < n ∨ m = n ∧ as < bs := by
  rw [List.cons_lt_cons_iff, UInt8.lt_iff_toNat_lt, toNat_byte small, toNat_byte small',
    ← UInt8.toNat_inj, toNat_byte small, toNat_byte small']

theorem encodeChar_lt {c d : Char} (less : c < d) (as bs : List UInt8) :
    String.utf8EncodeChar c ++ as < String.utf8EncodeChar d ++ bs := by
  have order : c.toNat < d.toNat := less
  have limit : d.toNat < 1114112 := by
    have valid : d.toNat.isValidChar := d.valid
    omega
  rw [encodeChar_eq c, encodeChar_eq d]
  -- A longer character has a larger first byte; in one length the digits to base 64 decide.
  repeat' split
  all_goals
    simp (disch := omega) only [List.cons_append, List.nil_append, byte_cons_lt]
    omega

theorem encode_lt {text other : List Char} (less : text < other) : encode text < encode other := by
  induction less with
  | nil =>
    rename_i c cs
    obtain ⟨b, bs, front⟩ := List.exists_cons_of_ne_nil (encodeChar_ne_nil c)
    rw [encode_cons, front, List.cons_append]
    exact List.nil_lt_cons b (bs ++ encode cs)
  | cons _ ih =>
    rw [encode_cons, encode_cons]
    exact List.append_left_lt ih
  | rel less =>
    rw [encode_cons, encode_cons]
    exact encodeChar_lt less _ _

end Utf8
end TickReplay
