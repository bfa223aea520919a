import TickReplay.Proofs.Binary64.Order

/- Where a shortest decimal lies. It is one of the two neighbours of the magnitude on its own grid, and
   it reads back, unless it was taken from the finest grid without a look. -/
namespace TickReplay.Decimal

open Binary64 (units unitsPerOne infinityCode ofDecimal)

structure Neighbour (code : Nat) (x : Decimal) : Prop where
  below : gridNum code x.exponent / gridDen x.exponent ≤ x.coefficient
  above : x.coefficient ≤ gridNum code x.exponent / gridDen x.exponent + 1

theorem coarser_grid (code : Nat) (exponent : Int) :
    gridNum code (exponent + 1) / gridDen (exponent + 1) =
      gridNum code exponent / gridDen exponent / 10 := by
  have cross : gridNum code (exponent + 1) * (gridDen exponent * 10) =
      gridNum code exponent * gridDen (exponent + 1) := by
    rw [gridNum, gridNum, gridDen, gridDen]
    calc
      units code * pow10 (-(exponent + 1)).toNat * (unitsPerOne * pow10 exponent.toNat * 10)
          = units code * unitsPerOne *
              (10 * (pow10 exponent.toNat * pow10 (-(exponent + 1)).toNat)) := by ring
      _ = units code * pow10 (-exponent).toNat * (unitsPerOne * pow10 (exponent + 1).toNat) := by
        rw [← Binary64.pow10_next]
        ring
  have fine : 0 < gridDen exponent * 10 := Nat.mul_pos (gridDen_pos exponent) (by decide)
  have coarse := gridDen_pos (exponent + 1)
  rw [Nat.div_div_eq_div_mul]
  exact Nat.le_antisymm (Binary64.quotient_le coarse fine (Nat.le_of_eq cross))
    (Binary64.quotient_le fine coarse (Nat.le_of_eq cross.symm))

theorem trimmed_neighbour {code coefficient : Nat} {exponent : Int}
    (near : Neighbour code ⟨coefficient, exponent⟩) :
    Neighbour code (trimmed coefficient exponent) := by
  unfold trimmed
  split
  · have below := near.below
    have above := near.above
    have grid := coarser_grid code exponent
    constructor
    · dsimp only at below above ⊢
      omega
    · dsimp only at below above ⊢
      omega
  · exact near

theorem trimmed_reads {code coefficient : Nat} {exponent : Int}
    (reads : Reads code coefficient exponent) :
    Reads code (trimmed coefficient exponent).coefficient (trimmed coefficient exponent).exponent := by
  unfold trimmed
  split
  · rename_i zero
    have tens : coefficient = 10 * (coefficient / 10) := by omega
    unfold Reads at reads ⊢
    rw [← reads]
    conv_rhs => rw [tens]
    exact (Binary64.ofDecimal_tenfold _ _).symm
  · exact reads

theorem found_reads {tie : Tie} {code k : Nat} {x : Decimal} (result : found tie code k = some x) :
    Neighbour code x ∧ Reads code x.coefficient x.exponent := by
  obtain ⟨coefficient, grid, rfl⟩ := Option.map_eq_some_iff.mp result
  obtain ⟨reads, near⟩ := onGrid_neighbour grid
  refine ⟨trimmed_neighbour ⟨?_, ?_⟩, trimmed_reads reads⟩
  · dsimp only
    omega
  · dsimp only
    omega

theorem finest_neighbour (tie : Tie) (code : Nat) : Neighbour code (finest tie code) := by
  have near := nearer_neighbour tie (gridNum code (leading code - 16)) (gridDen (leading code - 16))
  constructor
  · change _ ≤ nearer tie _ _
    rcases near with at_ | at_
    · exact Nat.le_of_eq at_.symm
    · exact Nat.le_trans (Nat.le_succ _) (Nat.le_of_eq at_.symm)
  · change nearer tie _ _ ≤ _
    rcases near with at_ | at_
    · exact Nat.le_trans (Nat.le_of_eq at_) (Nat.le_succ _)
    · exact Nat.le_of_eq at_

/-- Only a decimal of the finest grid can fail to read back. -/
theorem shortest_reads (tie : Tie) {code : Nat} (nonzero : code ≠ 0) :
    Neighbour code (shortest tie code) ∧
      (Reads code (shortest tie code).coefficient (shortest tie code).exponent ∨
        (shortest tie code).exponent = leading code - 16) := by
  rw [shortest, if_neg nonzero]
  cases search : (List.range 16).findSome? (found tie code) with
  | none => exact ⟨finest_neighbour tie code, .inr rfl⟩
  | some x =>
    obtain ⟨k, _, result⟩ := List.exists_of_findSome?_eq_some search
    obtain ⟨near, reads⟩ := found_reads result
    exact ⟨near, .inl reads⟩

theorem lt_of_pow10_lt {m n : Nat} (less : pow10 m < pow10 n) : m < n :=
  (Nat.pow_lt_pow_iff_right (by decide)).mp less

theorem leading_le {code : Nat} (nonzero : code ≠ 0) (finite : code < infinityCode) :
    leading code ≤ 308 := by
  have largest : pow2 2098 ≤ unitsPerOne * pow10 309 := by decide +kernel
  have below : unitsPerOne * pow10 (log10 (leastDecimals code)) < unitsPerOne * pow10 633 := by
    calc
      unitsPerOne * pow10 (log10 (leastDecimals code)) ≤ units code * pow10 324 :=
        leading_le_units nonzero
      _ < pow2 2098 * pow10 324 := Nat.mul_lt_mul_of_pos_right (units_lt finite) (pow10_pos _)
      _ ≤ unitsPerOne * pow10 309 * pow10 324 := Nat.mul_le_mul_right _ largest
      _ = unitsPerOne * pow10 633 := by rw [pow10_add 309 324, Nat.mul_assoc]
  have digits : log10 (leastDecimals code) < 633 :=
    lt_of_pow10_lt (Nat.lt_of_mul_lt_mul_left below)
  rw [leading_eq]
  omega

end TickReplay.Decimal
