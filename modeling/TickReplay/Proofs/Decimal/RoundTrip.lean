import TickReplay.Proofs.Binary64.Exact
import TickReplay.Proofs.Decimal.Neighbour

/- Shortest decimals read back. The finest grid has seventeen digits, so its nearest decimal is closer
   to the magnitude than any other magnitude is; and a coarser grid would have been taken if the last
   digit were a zero. -/
namespace TickReplay.Decimal

open Binary64 (units unitsPerOne infinityCode tolerance)

theorem nearer_close (tie : Tie) (num : Nat) {den : Nat} (den_pos : 0 < den) :
    2 * (nearer tie num den * den) ≤ 2 * num + den ∧
      2 * num ≤ 2 * (nearer tie num den * den) + den := by
  have parts := Nat.div_add_mod num den
  have rest := Nat.mod_lt num den_pos
  have next : (num / den + 1) * den = num / den * den + den := Nat.succ_mul _ den
  rw [Nat.mul_comm] at parts
  unfold nearer
  dsimp only
  split
  · omega
  split
  · omega
  · have middle : 2 * (num % den) = den := by omega
    cases tie with
    | toEven =>
      rcases Nat.mod_two_eq_zero_or_one (num / den) with even | odd
      · dsimp only
        rw [even, Nat.add_zero]
        omega
      · dsimp only
        rw [odd]
        omega
    | upward =>
      dsimp only
      omega

/-- A decimal half a step from a magnitude on its grid of seventeen digits. -/
theorem reads_of_close {code coefficient : Nat} {exponent : Int} (finite : code < infinityCode)
    (digits : pow10 16 * gridDen exponent ≤ gridNum code exponent)
    (below : 2 * (coefficient * gridDen exponent) ≤ 2 * gridNum code exponent + gridDen exponent)
    (above : 2 * gridNum code exponent ≤ 2 * (coefficient * gridDen exponent) + gridDen exponent) :
    Reads code coefficient exponent := by
  have num : gridNum code exponent = units code * pow10 (-exponent).toNat := by rw [gridNum]
  have product : coefficient * pow10 exponent.toNat * unitsPerOne =
      coefficient * gridDen exponent := by
    rw [gridDen]
    ring
  have whole : pow10 16 = 10000000000000000 := by decide
  have wide : tolerance = 20000000000000000 := by decide
  rw [num, whole] at digits
  rw [num] at below above
  refine Binary64.nearest_close finite (pow10_pos _) ?_ ?_ <;> rw [product, wide] <;> omega

theorem finest_reads (tie : Tie) {code : Nat} (nonzero : code ≠ 0) (finite : code < infinityCode) :
    Reads code (finest tie code).coefficient (finest tie code).exponent := by
  obtain ⟨below, above⟩ := nearer_close tie (gridNum code (leading code - 16))
    (gridDen_pos (leading code - 16))
  exact reads_of_close finite (le_gridNum nonzero 16) below above

theorem shortest_identifies (tie : Tie) {code : Nat} (nonzero : code ≠ 0)
    (finite : code < infinityCode) :
    Reads code (shortest tie code).coefficient (shortest tie code).exponent := by
  rw [shortest, if_neg nonzero]
  cases search : (List.range 16).findSome? (found tie code) with
  | none => exact finest_reads tie nonzero finite
  | some x =>
    obtain ⟨k, _, result⟩ := List.exists_of_findSome?_eq_some search
    exact (found_reads result).2

theorem onGrid_coarser (tie : Tie) {code coefficient : Nat} {exponent : Int}
    (reads : Reads code coefficient exponent)
    (near : coefficient = gridNum code exponent / gridDen exponent ∨
      coefficient = gridNum code exponent / gridDen exponent + 1)
    (zero : coefficient % 10 = 0) : (onGrid tie code (exponent + 1)).isSome := by
  have tens : coefficient = 10 * (coefficient / 10) := by omega
  have coarse : Reads code (coefficient / 10) (exponent + 1) := by
    unfold Reads at reads ⊢
    rw [← reads]
    conv_rhs => rw [tens]
    exact (Binary64.ofDecimal_tenfold _ _).symm
  have grid := coarser_grid code exponent
  have either : coefficient / 10 = gridNum code (exponent + 1) / gridDen (exponent + 1) ∨
      coefficient / 10 = gridNum code (exponent + 1) / gridDen (exponent + 1) + 1 := by omega
  rw [onGrid_eq]
  dsimp only
  rcases either with at_ | at_
  · rw [← at_, if_pos coarse]
    split <;> rfl
  · rw [← at_, if_pos coarse]
    split
    · rfl
    · rfl

theorem found_last {tie : Tie} {code k coefficient : Nat} (before : ∀ j < k, found tie code j = none)
    (reads : Reads code coefficient (leading code - k))
    (near : coefficient = gridNum code (leading code - k) / gridDen (leading code - k) ∨
      coefficient = gridNum code (leading code - k) / gridDen (leading code - k) + 1)
    (some_ : 0 < k) : coefficient % 10 ≠ 0 := by
  intro zero
  have hit := onGrid_coarser tie reads near zero
  have none_ := before (k - 1) (by omega)
  have place : leading code - (k : Int) + 1 = leading code - ((k - 1 : Nat) : Int) := by omega
  rw [found, Option.map_eq_none_iff, ← place] at none_
  rw [none_] at hit
  cases hit

theorem shortest_last (tie : Tie) {code : Nat} (nonzero : code ≠ 0) (finite : code < infinityCode) :
    (shortest tie code).coefficient % 10 ≠ 0 := by
  rw [shortest, if_neg nonzero]
  cases search : (List.range 16).findSome? (found tie code) with
  | none =>
    have before : ∀ j < 16, found tie code j = none := by
      intro j less
      exact List.findSome?_eq_none_iff.mp search j (List.mem_range.mpr less)
    exact found_last (k := 16) before (finest_reads tie nonzero finite) (nearer_neighbour ..)
      (by decide)
  | some x =>
    obtain ⟨front, k, back, split, result, none_⟩ := List.findSome?_eq_some_iff.mp search
    have before : ∀ j < k, found tie code j = none := by
      intro j less
      have sorted := @List.pairwise_lt_range 16
      have last : k ∈ List.range 16 := by simp [split]
      have inside : j ∈ List.range 16 :=
        List.mem_range.mpr (Nat.lt_trans less (List.mem_range.mp last))
      rw [split, List.pairwise_append, List.pairwise_cons] at sorted
      rw [split, List.mem_append, List.mem_cons] at inside
      rcases inside with inFront | rfl | inBack
      · exact none_ j inFront
      · exact absurd less (Nat.lt_irrefl j)
      · exact absurd less (Nat.lt_asymm (sorted.2.1.1 j inBack))
    obtain ⟨coefficient, grid, rfl⟩ := Option.map_eq_some_iff.mp result
    obtain ⟨reads, near⟩ := onGrid_neighbour grid
    have positive := reads_pos nonzero reads
    have most := neighbour_le near
    change (trimmed coefficient (leading code - k)).coefficient % 10 ≠ 0
    unfold trimmed
    split
    · rename_i zero
      rcases Nat.eq_zero_or_pos k with rfl | some_
      · change coefficient / 10 % 10 ≠ 0
        change coefficient ≤ 10 at most
        omega
      · exact absurd zero (found_last before reads near some_)
    · assumption

end TickReplay.Decimal
