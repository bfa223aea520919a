import TickReplay.Proofs.Binary64.Nearest
import TickReplay.Settings

/- Lengths of time from a number of seconds. Taken are the numbers from zero up to below 2^64, minus zero
   included; the length is the nearest one in whole nanoseconds, so a greater number makes no shorter
   length. -/
namespace TickReplay

namespace Binary64

theorem unitsPerOne_pos_rat : (0 : ℚ) < unitsPerOne := by
  exact_mod_cast Decimal.unitsPerOne_pos

theorem units_zero : units 0 = 0 := units_eq_of_lt (by decide)

theorem toRat_of_positive {x : Binary64} (positive : x.negative = false) :
    x.toRat = units x.code / unitsPerOne := by
  simp [toRat, positive]

theorem toRat_nonneg_iff (x : Binary64) : 0 ≤ x.toRat ↔ x.negative = false ∨ x.code = 0 := by
  have one := unitsPerOne_pos_rat
  cases sign : x.negative with
  | false =>
    rw [toRat_of_positive sign]
    simp only [true_or, iff_true]
    positivity
  | true =>
    simp only [toRat, sign, if_true, Bool.true_eq_false, false_or]
    by_cases zero : x.code = 0
    · simp [zero, units_zero]
    · have greater : (0 : ℚ) < units x.code := by exact_mod_cast Decimal.units_pos zero
      have value : 0 < (units x.code : ℚ) / unitsPerOne := by positivity
      simp only [zero, iff_false, not_le]
      linarith

theorem toRat_of_nonneg {x : Binary64} (nonneg : 0 ≤ x.toRat) :
    x.toRat = units x.code / unitsPerOne := by
  rcases (toRat_nonneg_iff x).mp nonneg with positive | zero
  · exact toRat_of_positive positive
  · simp [toRat, zero, units_zero]

theorem toRat_le_of_code {x y : Binary64} (first : 0 ≤ x.toRat) (second : 0 ≤ y.toRat)
    (le : x.code ≤ y.code) : x.toRat ≤ y.toRat := by
  rw [toRat_of_nonneg first, toRat_of_nonneg second]
  refine div_le_div_of_nonneg_right ?_ (le_of_lt unitsPerOne_pos_rat)
  exact_mod_cast units_le le

theorem toRat_lt_iff {x : Binary64} (nonneg : 0 ≤ x.toRat) (n : Nat) :
    x.toRat < n ↔ units x.code / unitsPerOne < n := by
  rw [toRat_of_nonneg nonneg, div_lt_iff₀ unitsPerOne_pos_rat,
    Nat.div_lt_iff_lt_mul Decimal.unitsPerOne_pos]
  exact_mod_cast Iff.rfl

theorem floor_toRat {x : Binary64} (nonneg : 0 ≤ x.toRat) :
    ⌊x.toRat⌋ = (units x.code / unitsPerOne : Nat) := by
  rw [toRat_of_nonneg nonneg, Rat.floor_natCast_div_natCast, Int.natCast_ediv]

theorem fract_toRat {x : Binary64} (nonneg : 0 ≤ x.toRat) :
    Int.fract x.toRat = (units x.code % unitsPerOne : Nat) / unitsPerOne := by
  have one := unitsPerOne_pos_rat
  have parts : (unitsPerOne : ℚ) * (units x.code / unitsPerOne : Nat) +
      (units x.code % unitsPerOne : Nat) = units x.code := by
    exact_mod_cast Nat.div_add_mod (units x.code) unitsPerOne
  rw [Int.fract, floor_toRat nonneg, toRat_of_nonneg nonneg, ← parts, Int.cast_natCast]
  field_simp
  ring

end Binary64

namespace Duration

open Binary64 (units unitsPerOne)

/-- A length made of whole seconds and of the nanoseconds nearest to what is left, which may be a full
    second. -/
inductive Splits (q : ℚ) (d : Duration) : Prop where
  | plain (whole : (d.seconds : ℤ) = ⌊q⌋) (rest : NearestInt (Int.fract q * 10 ^ 9) d.nanos)
  | carried (whole : (d.seconds : ℤ) = ⌊q⌋ + 1) (none : d.nanos = 0)
      (rest : NearestInt (Int.fract q * 10 ^ 9) (10 ^ 9))

theorem Splits.nearest {q : ℚ} {d : Duration} (splits : Splits q d) :
    NearestInt (q * 10 ^ 9) d.total := by
  have even : Even (⌊q⌋ * 10 ^ 9) := Even.mul_left (by decide) _
  have parts : q * 10 ^ 9 = Int.fract q * 10 ^ 9 + (⌊q⌋ * 10 ^ 9 : ℤ) := by
    conv_lhs => rw [← Int.fract_add_floor q]
    push_cast
    ring
  rw [parts]
  cases splits with
  | plain whole rest =>
    have total : (d.total : ℤ) = d.nanos + ⌊q⌋ * 10 ^ 9 := by
      rw [total, ← whole]
      push_cast
      ring
    rw [total]
    exact rest.add_even even
  | carried whole none rest =>
    have total : (d.total : ℤ) = 10 ^ 9 + ⌊q⌋ * 10 ^ 9 := by
      rw [total, none]
      push_cast
      rw [whole]
      ring
    rw [total]
    exact rest.add_even even

def Accepts (value : Binary64) : Prop := value.isFinite ∧ 0 ≤ value.toRat ∧ value.toRat < 2 ^ 64

theorem nearest_nanos (units : Nat) :
    NearestInt ((units % unitsPerOne : Nat) / unitsPerOne * 10 ^ 9)
      (Binary64.roundDiv (units % unitsPerOne * 1000000000) unitsPerOne) := by
  have nearest := Binary64.nearest_roundDiv (units % unitsPerOne * 1000000000)
    Decimal.unitsPerOne_pos
  have same : ((units % unitsPerOne * 1000000000 : Nat) : ℚ) / unitsPerOne =
      (units % unitsPerOne : Nat) / unitsPerOne * 10 ^ 9 := by
    push_cast
    ring
  rwa [same] at nearest

theorem ofSeconds?_of_accepts {value : Binary64} (accepts : Accepts value) :
    ∃ d, ofSeconds? value = some d ∧ Splits value.toRat d := by
  obtain ⟨finite, nonneg, small⟩ := accepts
  have sign : (value.negative && !value.isZero) = false := by
    rcases (Binary64.toRat_nonneg_iff value).mp nonneg with positive | zero
    · simp [positive]
    · simp [Binary64.isZero, zero]
  have below : ¬ secondsLimit ≤ units value.code / unitsPerOne :=
    Nat.not_le.mpr ((Binary64.toRat_lt_iff nonneg secondsLimit).mp (by
      rw [show ((secondsLimit : Nat) : ℚ) = 2 ^ 64 by norm_num [secondsLimit, word64]]
      exact small))
  have whole := Binary64.floor_toRat nonneg
  have rest := nearest_nanos (units value.code)
  rw [← Binary64.fract_toRat nonneg] at rest
  simp only [ofSeconds?, finite, sign, Bool.not_true, Bool.or_false, Bool.false_eq_true, if_false,
    below]
  split
  · rename_i nanos_lt
    exact ⟨_, rfl, .plain whole.symm rest⟩
  · rename_i full
    have second : NearestInt ((10 ^ 9 : ℤ) : ℚ) (10 ^ 9) := .self _
    push_cast at second
    have less : Int.fract value.toRat * 10 ^ 9 ≤ 10 ^ 9 := by
      have fraction := Int.fract_lt_one value.toRat
      linarith
    have most := rest.mono less second
    have nanos : (Binary64.roundDiv (units value.code % unitsPerOne * 1000000000) unitsPerOne : ℤ) =
        10 ^ 9 := by omega
    rw [nanos] at rest
    refine ⟨_, rfl, .carried ?_ rfl rest⟩
    rw [whole]
    push_cast
    rfl

theorem accepts_of_ofSeconds? {value : Binary64} {d : Duration} (taken : ofSeconds? value = some d) :
    Accepts value := by
  unfold ofSeconds? at taken
  dsimp only at taken
  split at taken
  · cases taken
  rename_i number
  split at taken
  · cases taken
  rename_i small
  simp only [Bool.or_eq_true, Bool.not_eq_true', Bool.and_eq_true, not_or, not_and,
    Bool.not_eq_false, Binary64.isZero, beq_eq_false_iff_ne, Decidable.not_not] at number
  obtain ⟨finite, sign⟩ := number
  have nonneg : 0 ≤ value.toRat := by
    rw [Binary64.toRat_nonneg_iff]
    cases negative : value.negative with
    | false => exact .inl rfl
    | true => exact .inr (sign negative)
  refine ⟨finite, nonneg, ?_⟩
  have below := (Binary64.toRat_lt_iff nonneg secondsLimit).mpr (Nat.not_le.mp small)
  rwa [show ((secondsLimit : Nat) : ℚ) = 2 ^ 64 by norm_num [secondsLimit, word64]] at below

theorem splits_of_ofSeconds? {value : Binary64} {d : Duration} (taken : ofSeconds? value = some d) :
    Splits value.toRat d := by
  obtain ⟨e, same, splits⟩ := ofSeconds?_of_accepts (accepts_of_ofSeconds? taken)
  cases Option.some.inj (taken.symm.trans same)
  exact splits

theorem ofSeconds?_mono {v w : Binary64} {d e : Duration} (le : v.toRat ≤ w.toRat)
    (first : ofSeconds? v = some d) (second : ofSeconds? w = some e) : d.total ≤ e.total := by
  have scaled : v.toRat * 10 ^ 9 ≤ w.toRat * 10 ^ 9 := mul_le_mul_of_nonneg_right le (by norm_num)
  exact_mod_cast (splits_of_ofSeconds? first).nearest.mono scaled (splits_of_ofSeconds? second).nearest

end Duration

namespace Settings

theorem seconds_ok_iff (name : String) (value : Binary64) (d : Duration) :
    seconds name value = .ok d ↔ Duration.ofSeconds? value = some d := by
  cases taken : Duration.ofSeconds? value <;> simp [seconds, taken]

theorem accepts_iff (value : Binary64) : Duration.Accepts value ↔
    value = .zero true ∨ (value.isFinite ∧ 0 ≤ value.toRat ∧ value.toRat < 2 ^ 64) := by
  constructor
  · exact .inr
  · intro given
    rcases given with rfl | accepts
    · have zero : (Binary64.zero true).toRat = 0 := by
        simp [Binary64.toRat, Binary64.zero, Binary64.ofCode, Binary64.units_zero]
      refine ⟨by decide, ?_, ?_⟩ <;> rw [zero]
      norm_num
    · exact accepts

/-- Which numbers of seconds are taken, and how long they are. -/
theorem seconds_nearest (name : String) (v : Binary64) :
    ((∃ d, seconds name v = .ok d) ↔
      v = .zero true ∨ (v.isFinite ∧ 0 ≤ v.toRat ∧ v.toRat < 2 ^ 64)) ∧
    ((¬ ∃ d, seconds name v = .ok d) → seconds name v = .error (.invalidSeconds name v)) ∧
    (∀ d, seconds name v = .ok d →
      d.nanos < 10 ^ 9 ∧ NearestInt (v.toRat * 10 ^ 9) d.total ∧ d.Splits v.toRat) ∧
    (∀ w d e, v.toRat ≤ w.toRat → seconds name v = .ok d → seconds name w = .ok e →
      d.total ≤ e.total) := by
  simp only [seconds_ok_iff]
  refine ⟨?_, ?_, ?_, ?_⟩
  · rw [← accepts_iff]
    constructor
    · intro given
      obtain ⟨d, taken⟩ := given
      exact Duration.accepts_of_ofSeconds? taken
    · intro accepts
      obtain ⟨d, taken, _⟩ := Duration.ofSeconds?_of_accepts accepts
      exact ⟨d, taken⟩
  · intro refused
    cases taken : Duration.ofSeconds? v with
    | none => simp [seconds, taken]
    | some d => exact absurd ⟨d, taken⟩ refused
  · intro d taken
    have splits := Duration.splits_of_ofSeconds? taken
    exact ⟨d.nanos_lt, splits.nearest, splits⟩
  · intro w d e le first second
    exact Duration.ofSeconds?_mono le first second

/-- A number right below two, whose nanoseconds make up a full second, and two itself. -/
theorem seconds_nearest_carry :
    let v : Binary64 := ⟨false, 0x3fffffffffffffff, by decide⟩
    let w : Binary64 := ⟨false, 0x4000000000000000, by decide⟩
    let d : Duration := ⟨2, 0, by decide⟩
    (¬ ∃ e, seconds "--delay" (.nan true) = .ok e) ∧ seconds "--delay" v = .ok d ∧
      v.toRat ≤ w.toRat ∧ seconds "--delay" w = .ok d ∧
    seconds "--delay" (.nan true) = .error (.invalidSeconds "--delay" (.nan true)) ∧
    d.total = 2000000000 ∧ NearestInt (v.toRat * 10 ^ 9) d.total ∧ d.Splits v.toRat ∧
      d.total ≤ d.total := by
  intro v w d
  have refused : ¬ ∃ e, seconds "--delay" (.nan true) = .ok e := by
    rintro ⟨e, taken⟩
    revert taken
    simp [seconds, Duration.ofSeconds?, Binary64.nan, Binary64.isFinite]
  have first : seconds "--delay" v = .ok d := by decide +kernel
  have second : seconds "--delay" w = .ok d := by decide +kernel
  have le : v.toRat ≤ w.toRat := Binary64.toRat_le_of_code
    ((Binary64.toRat_nonneg_iff v).mpr (.inl rfl)) ((Binary64.toRat_nonneg_iff w).mpr (.inl rfl))
    (by decide)
  obtain ⟨_, nothing, _, _⟩ := seconds_nearest "--delay" (.nan true)
  obtain ⟨_, _, lengths, ordered⟩ := seconds_nearest "--delay" v
  obtain ⟨_, nearest, splits⟩ := lengths d first
  exact ⟨refused, first, le, second, nothing refused, by decide, nearest, splits,
    ordered w d d le first second⟩

end Settings
end TickReplay
