import TickReplay.Proofs.Json.Compact
import TickReplay.Proofs.Text.Utf8

/- The canonical form of a value. It is the value with the members of its objects in the order of their
   keys, and values that differ in the order of members alone have the same one. -/
namespace TickReplay.Json

mutual
/-- The same value but for the order of members, at any depth. -/
inductive Reordered : Json → Json → Prop where
  | null : Reordered .null .null
  | boolean (value : Bool) : Reordered (.boolean value) (.boolean value)
  | number (value : Number) : Reordered (.number value) (.number value)
  | text (value : String) : Reordered (.text value) (.text value)
  | list {items items' : List Json} (same : ReorderedItems items items') :
      Reordered (.list items) (.list items')
  | object {members members' order : List (String × Json)}
      (same : ReorderedMembers members members') (shuffled : members'.Perm order) :
      Reordered (.object members) (.object order)

inductive ReorderedItems : List Json → List Json → Prop where
  | nil : ReorderedItems [] []
  | cons {item item' : Json} {more more' : List Json} (head : Reordered item item')
      (tail : ReorderedItems more more') : ReorderedItems (item :: more) (item' :: more')

inductive ReorderedMembers : List (String × Json) → List (String × Json) → Prop where
  | nil : ReorderedMembers [] []
  | cons (key : String) {value value' : Json} {more more' : List (String × Json)}
      (head : Reordered value value') (tail : ReorderedMembers more more') :
      ReorderedMembers ((key, value) :: more) ((key, value') :: more')
end

def Ascending (keys : List String) : Prop :=
  keys.Pairwise fun key other => Utf8.encode key.toList < Utf8.encode other.toList

theorem before_of_lt {key other : String} (less : key < other) :
    Utf8.encode key.toList < Utf8.encode other.toList :=
  Utf8.encode_lt (String.lt_iff.mp less)

theorem insertMember_perm {key : String} (value : Json) {members : List (String × Json)}
    (absent : key ∉ members.map Prod.fst) :
    (insertMember key value members).Perm ((key, value) :: members) := by
  induction members with
  | nil => exact .rfl
  | cons member more ih =>
    rw [List.map_cons, List.mem_cons, not_or] at absent
    unfold insertMember
    split
    · exact .rfl
    split
    · rename_i same
      exact absurd same absent.1
    · exact ((ih absent.2).cons member).trans (.swap _ _ _)

theorem insertMember_ascending {key : String} (value : Json) {members : List (String × Json)}
    (absent : key ∉ members.map Prod.fst) (ascending : Ascending (members.map Prod.fst)) :
    Ascending ((insertMember key value members).map Prod.fst) := by
  induction members with
  | nil => exact List.pairwise_singleton _ key
  | cons member more ih =>
    obtain ⟨first, others⟩ := List.pairwise_cons.mp ascending
    rw [List.map_cons, List.mem_cons, not_or] at absent
    unfold insertMember
    split
    · rename_i less
      refine List.pairwise_cons.mpr ⟨?_, ascending⟩
      intro other inside
      rcases List.mem_cons.mp inside with rfl | behind
      · exact before_of_lt less
      · exact List.lt_trans (before_of_lt less) (first other behind)
    split
    · rename_i same
      exact absurd same absent.1
    · rename_i noLess noSame
      have less : member.1 < key := Std.lt_of_le_of_ne noLess (Ne.symm noSame)
      refine List.pairwise_cons.mpr ⟨?_, ih absent.2 others⟩
      intro other inside
      have moved := ((insertMember_perm value absent.2).map Prod.fst).mem_iff.mp inside
      rcases List.mem_cons.mp moved with rfl | behind
      · exact before_of_lt less
      · exact first other behind

theorem foldl_insertMember {sorted members : List (String × Json)}
    (distinct : ((sorted ++ members).map Prod.fst).Nodup)
    (ascending : Ascending (sorted.map Prod.fst)) :
    let result := members.foldl (fun sorted (key, value) => insertMember key value sorted) sorted
    result.Perm (sorted ++ members) ∧ Ascending (result.map Prod.fst) := by
  induction members generalizing sorted with
  | nil => exact ⟨by simp, ascending⟩
  | cons member more ih =>
    obtain ⟨key, value⟩ := member
    have moved : (sorted ++ (key, value) :: more).Perm ((key, value) :: sorted ++ more) :=
      List.perm_middle
    have absent : key ∉ (sorted ++ more).map Prod.fst :=
      (List.nodup_cons.mp ((moved.map Prod.fst).nodup_iff.mp distinct)).1
    rw [List.map_append, List.mem_append, not_or] at absent
    have one := insertMember_perm value absent.1
    have distinct' : ((insertMember key value sorted ++ more).map Prod.fst).Nodup :=
      (((one.append_right more).trans moved.symm).map Prod.fst).nodup_iff.mpr distinct
    obtain ⟨same, sorted'⟩ := ih distinct' (insertMember_ascending value absent.1 ascending)
    exact ⟨same.trans ((one.append_right more).trans moved.symm), sorted'⟩

theorem sortMembers_perm {members : List (String × Json)}
    (distinct : (members.map Prod.fst).Nodup) : (sortMembers members).Perm members := by
  rw [← List.nil_append members] at distinct
  exact (foldl_insertMember distinct List.Pairwise.nil).1

theorem sortMembers_ascending {members : List (String × Json)}
    (distinct : (members.map Prod.fst).Nodup) :
    Ascending ((sortMembers members).map Prod.fst) := by
  rw [← List.nil_append members] at distinct
  exact (foldl_insertMember distinct List.Pairwise.nil).2

theorem sortMembers_pairwise {members : List (String × Json)}
    (distinct : (members.map Prod.fst).Nodup) : (sortMembers members).Pairwise fun m other =>
      Utf8.encode m.1.toList < Utf8.encode other.1.toList := by
  have ascending := sortMembers_ascending distinct
  rwa [Ascending, List.pairwise_map] at ascending

theorem sortMembers_eq {members order : List (String × Json)}
    (distinct : (members.map Prod.fst).Nodup) (shuffled : members.Perm order) :
    sortMembers members = sortMembers order := by
  have distinct' := (shuffled.map Prod.fst).nodup_iff.mp distinct
  have same : (sortMembers members).Perm (sortMembers order) :=
    (sortMembers_perm distinct).trans (shuffled.trans (sortMembers_perm distinct').symm)
  refine same.eq_of_pairwise ?_ (sortMembers_pairwise distinct) (sortMembers_pairwise distinct')
  intro a b _ _ before behind
  exact absurd (List.lt_trans before behind) (List.lt_irrefl _)

theorem canonicalMembers_eq_map (members : List (String × Json)) :
    canonicalMembers members = members.map fun m => (m.1, m.2.canonical) := by
  induction members with
  | nil => rfl
  | cons member more ih => rw [canonicalMembers, ih, List.map_cons]

theorem canonicalMembers_keys (members : List (String × Json)) :
    (canonicalMembers members).map Prod.fst = members.map Prod.fst := by
  rw [canonicalMembers_eq_map, List.map_map]
  rfl

theorem throughoutMembers_iff (number : Number → Prop) (keys : List String → Prop)
    (members : List (String × Json)) :
    ThroughoutMembers number keys members ↔ ∀ m ∈ members, Throughout number keys m.2 := by
  induction members with
  | nil => simp [ThroughoutMembers]
  | cons member more ih => simp [ThroughoutMembers, ih]

mutual
theorem reordered_canonical {number : Number → Prop} (value : Json)
    (proper : Throughout number List.Nodup value) : Reordered value value.canonical := by
  match value with
  | .null => exact .null
  | .boolean value => exact .boolean value
  | .number value => exact .number value
  | .text value => exact .text value
  | .list items => exact .list (reordered_canonicalItems items proper)
  | .object members =>
    have distinct : ((canonicalMembers members).map Prod.fst).Nodup := by
      rw [canonicalMembers_keys]
      exact proper.1
    exact .object (reordered_canonicalMembers members proper.2) (sortMembers_perm distinct).symm

theorem reordered_canonicalItems {number : Number → Prop} (items : List Json)
    (proper : ThroughoutItems number List.Nodup items) :
    ReorderedItems items (canonicalItems items) := by
  match items with
  | [] => exact .nil
  | item :: more =>
    exact .cons (reordered_canonical item proper.1) (reordered_canonicalItems more proper.2)

theorem reordered_canonicalMembers {number : Number → Prop} (members : List (String × Json))
    (proper : ThroughoutMembers number List.Nodup members) :
    ReorderedMembers members (canonicalMembers members) := by
  match members with
  | [] => exact .nil
  | (key, value) :: more =>
    exact .cons key (reordered_canonical value proper.1) (reordered_canonicalMembers more proper.2)
end

mutual
theorem throughout_canonical {number : Number → Prop} (value : Json)
    (proper : Throughout number List.Nodup value) :
    Throughout number Ascending value.canonical := by
  match value with
  | .null => trivial
  | .boolean _ => trivial
  | .number _ => exact proper
  | .text _ => trivial
  | .list items => exact throughout_canonicalItems items proper
  | .object members =>
    have distinct : ((canonicalMembers members).map Prod.fst).Nodup := by
      rw [canonicalMembers_keys]
      exact proper.1
    have inside := throughout_canonicalMembers members proper.2
    rw [throughoutMembers_iff] at inside
    refine ⟨sortMembers_ascending distinct, (throughoutMembers_iff _ _ _).mpr ?_⟩
    intro member sorted
    exact inside member ((sortMembers_perm distinct).mem_iff.mp sorted)

theorem throughout_canonicalItems {number : Number → Prop} (items : List Json)
    (proper : ThroughoutItems number List.Nodup items) :
    ThroughoutItems number Ascending (canonicalItems items) := by
  match items with
  | [] => trivial
  | item :: more =>
    exact ⟨throughout_canonical item proper.1, throughout_canonicalItems more proper.2⟩

theorem throughout_canonicalMembers {number : Number → Prop} (members : List (String × Json))
    (proper : ThroughoutMembers number List.Nodup members) :
    ThroughoutMembers number Ascending (canonicalMembers members) := by
  match members with
  | [] => trivial
  | (_, value) :: more =>
    exact ⟨throughout_canonical value proper.1, throughout_canonicalMembers more proper.2⟩
end

mutual
theorem canonical_eq {number : Number → Prop} (value : Json)
    (proper : Throughout number List.Nodup value) {other : Json} (same : Reordered value other) :
    value.canonical = other.canonical := by
  match value with
  | .null =>
    cases same
    rfl
  | .boolean _ =>
    cases same
    rfl
  | .number _ =>
    cases same
    rfl
  | .text _ =>
    cases same
    rfl
  | .list items =>
    cases same with
    | list same => rw [canonical, canonical, canonicalItems_eq items proper same]
  | .object members =>
    cases same with
    | object same shuffled =>
      have distinct : ((canonicalMembers members).map Prod.fst).Nodup := by
        rw [canonicalMembers_keys]
        exact proper.1
      have step := canonicalMembers_eq members proper.2 same
      rw [step] at distinct
      have moved := shuffled.map fun m : String × Json => (m.1, m.2.canonical)
      rw [← canonicalMembers_eq_map, ← canonicalMembers_eq_map] at moved
      rw [canonical, canonical, step, sortMembers_eq distinct moved]

theorem canonicalItems_eq {number : Number → Prop} (items : List Json)
    (proper : ThroughoutItems number List.Nodup items) {others : List Json}
    (same : ReorderedItems items others) : canonicalItems items = canonicalItems others := by
  match items with
  | [] =>
    cases same
    rfl
  | item :: more =>
    cases same with
    | cons head tail =>
      rw [canonicalItems, canonicalItems, canonical_eq item proper.1 head,
        canonicalItems_eq more proper.2 tail]

theorem canonicalMembers_eq {number : Number → Prop} (members : List (String × Json))
    (proper : ThroughoutMembers number List.Nodup members) {others : List (String × Json)}
    (same : ReorderedMembers members others) :
    canonicalMembers members = canonicalMembers others := by
  match members with
  | [] =>
    cases same
    rfl
  | (key, value) :: more =>
    cases same with
    | cons _ head tail =>
      rw [canonicalMembers, canonicalMembers, canonical_eq value proper.1 head,
        canonicalMembers_eq more proper.2 tail]
end

end TickReplay.Json
