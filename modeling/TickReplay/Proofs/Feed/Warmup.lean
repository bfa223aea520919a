import TickReplay.Feed.Broadcast
import TickReplay.Proofs.Duration

/- The warm-up that a replay logs. One word of 64 bits holds the milliseconds of every warm-up shorter
   than 2^64 of them; the longest ones that are taken have more, and of those the log shows what is left
   of the count in the word. -/
namespace TickReplay

namespace Duration

theorem millis_eq (d : Duration) : d.millis = d.total / 10 ^ 6 := by
  simp only [millis, total]
  omega

end Duration

namespace Binary64

theorem toRat_eq {x : Binary64} (positive : x.negative = false) {n : Nat}
    (whole : units x.code = n * unitsPerOne) : x.toRat = n := by
  have one := unitsPerOne_pos_rat
  rw [toRat_of_positive positive, whole]
  push_cast
  field_simp

/-- The greatest number of seconds with fewer than 2^64 milliseconds, and the number after it. -/
def lastFitting : Binary64 := ⟨false, 0x4350624dd2f1a9fb, by decide⟩
def firstExceeding : Binary64 := ⟨false, 0x4350624dd2f1a9fc, by decide⟩

theorem toRat_lastFitting : lastFitting.toRat = (18446744073709548 : Nat) :=
  toRat_eq rfl (by decide +kernel)

theorem toRat_firstExceeding : firstExceeding.toRat = (18446744073709552 : Nat) :=
  toRat_eq rfl (by decide +kernel)

end Binary64

namespace Duration

open Binary64 (lastFitting firstExceeding toRat_lastFitting toRat_firstExceeding)

variable {value : Binary64} {d : Duration} {n : Nat}

theorem nearest_whole (n : Nat) : NearestInt (n * 10 ^ 9) ((n * 10 ^ 9 : Nat) : ℤ) := by
  have nearest := NearestInt.self ((n * 10 ^ 9 : Nat) : ℤ)
  push_cast at nearest ⊢
  exact nearest

theorem total_le (le : value.toRat ≤ n) (taken : ofSeconds? value = some d) :
    d.total ≤ n * 10 ^ 9 := by
  have scaled : value.toRat * 10 ^ 9 ≤ n * 10 ^ 9 := mul_le_mul_of_nonneg_right le (by norm_num)
  exact_mod_cast (splits_of_ofSeconds? taken).nearest.mono scaled (nearest_whole n)

theorem le_total (le : n ≤ value.toRat) (taken : ofSeconds? value = some d) :
    n * 10 ^ 9 ≤ d.total := by
  have scaled : (n : ℚ) * 10 ^ 9 ≤ value.toRat * 10 ^ 9 :=
    mul_le_mul_of_nonneg_right le (by norm_num)
  exact_mod_cast (nearest_whole n).mono scaled (splits_of_ofSeconds? taken).nearest

/-- The milliseconds of a length fit the word exactly when the number of seconds is below 2^64
    thousandths. No number lies so close to this bound that rounding could pass it. -/
theorem millis_lt_iff (taken : ofSeconds? value = some d) :
    d.millis < word64 ↔ value.toRat < 2 ^ 64 / 1000 := by
  obtain ⟨_, nonneg, _⟩ := accepts_of_ofSeconds? taken
  have last : 0 ≤ lastFitting.toRat := by rw [toRat_lastFitting]; positivity
  have first : 0 ≤ firstExceeding.toRat := by rw [toRat_firstExceeding]; positivity
  have word : word64 = 18446744073709551616 := rfl
  rw [millis_eq, word]
  by_cases fits : value.code ≤ lastFitting.code
  · have le := Binary64.toRat_le_of_code nonneg last fits
    rw [toRat_lastFitting] at le
    have most := total_le le taken
    have below : value.toRat < 2 ^ 64 / 1000 := lt_of_le_of_lt le (by norm_num)
    simp only [below, iff_true]
    omega
  · have next : firstExceeding.code ≤ value.code := Nat.lt_of_not_le fits
    have le := Binary64.toRat_le_of_code first nonneg next
    rw [toRat_firstExceeding] at le
    have least := le_total le taken
    have above : ¬ value.toRat < 2 ^ 64 / 1000 := not_lt.mpr (le_trans (by norm_num) le)
    simp only [above, iff_false]
    omega

end Duration

namespace Feed

/-- The first line of a replay: the milliseconds of the warm-up as far as one word holds them, which is
    all of them exactly when the warm-up is shorter than 2^64 milliseconds. -/
theorem replay_warmup {value : Binary64} {warmup : Duration}
    (taken : Settings.seconds "--warmup" value = .ok warmup) (conditions : Conditions)
    (delay : Duration) (ticks : List Tick) (scene : Scene) :
    ∃ logged, (replay conditions warmup delay ticks scene).trace.head? =
        some (.logged ⟨.info, "feeder.warmup", "Waiting for subscribers to connect",
          .object [("warmup_ms", Json.ofNat logged)]⟩) ∧
      logged = warmup.total / 10 ^ 6 % 2 ^ 64 ∧
      (logged = warmup.seconds * 1000 + warmup.nanos / 10 ^ 6 ↔ value.toRat < 2 ^ 64 / 1000) := by
  have fits := Duration.millis_lt_iff ((Settings.seconds_ok_iff _ _ _).mp taken)
  have whole : warmup.seconds * 1000 + warmup.nanos / 10 ^ 6 = warmup.millis := rfl
  refine ⟨warmup.millis % word64, rfl, ?_, ?_⟩
  · rw [← Duration.millis_eq]
    rfl
  · rw [← fits, whole, Nat.mod_eq_iff_lt (by decide)]

theorem replay_warmup_last_fitting :
    let warmup : Duration := ⟨18446744073709548, 0, by decide⟩
    Settings.seconds "--warmup" .lastFitting = .ok warmup ∧
    (replay {} warmup (.ofMillis 10) [] ⟨0, .initial .none, []⟩).trace.head? =
      some (.logged ⟨.info, "feeder.warmup", "Waiting for subscribers to connect",
        .object [("warmup_ms", Json.ofNat 18446744073709548000)]⟩) := by
  intro warmup
  have taken : Settings.seconds "--warmup" .lastFitting = .ok warmup := by decide +kernel
  obtain ⟨logged, line, _, whole⟩ :=
    replay_warmup taken {} (.ofMillis 10) [] ⟨0, .initial .none, []⟩
  have shorter : Binary64.toRat .lastFitting < 2 ^ 64 / 1000 := by
    rw [Binary64.toRat_lastFitting]
    norm_num
  have all : logged = 18446744073709548000 := by
    rw [whole.mpr shorter]
    norm_num [warmup]
  exact ⟨taken, by rw [line, all]⟩

/-- Four seconds more are 18446744073709552000 milliseconds, and 384 are logged. -/
theorem replay_warmup_wraps :
    let warmup : Duration := ⟨18446744073709552, 0, by decide⟩
    Settings.seconds "--warmup" .firstExceeding = .ok warmup ∧
    (replay {} warmup (.ofMillis 10) [] ⟨0, .initial .none, []⟩).trace.head? ≠
      some (.logged ⟨.info, "feeder.warmup", "Waiting for subscribers to connect",
        .object [("warmup_ms", Json.ofNat (warmup.seconds * 1000 + warmup.nanos / 10 ^ 6))]⟩) := by
  intro warmup
  refine ⟨by decide +kernel, fun same => ?_⟩
  have line : (replay {} warmup (.ofMillis 10) [] ⟨0, .initial .none, []⟩).trace.head? =
      some (.logged (warmingUp warmup)) := rfl
  rw [line] at same
  simp only [warmingUp, Option.some.injEq, Happening.logged.injEq, Log.Entry.mk.injEq, true_and,
    Json.object.injEq, List.cons.injEq, Prod.mk.injEq, and_true, Json.ofNat, Json.number.injEq,
    Json.Number.integer.injEq, Nat.cast_inj] at same
  exact absurd same (by decide)

end Feed
end TickReplay
