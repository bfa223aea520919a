import Mathlib.Logic.Equiv.Basic
import Mathlib.Logic.Relation
import TickReplay.Proofs.Tick.Rows

/- The columns of a table. A load takes of every required name the cells below its first place in the header
   and nothing else. So the order of the columns, columns of other names and fields behind the header make
   no difference, neither to the ticks nor to the first bad row, its column and its value. -/
namespace TickReplay.Tick

/-- The cells below the first place of a name in the header, none if it is not there. A row that is too
    short has no cell. -/
def cellsBelow (table : List (List (List Char))) (field : Field) :
    Option (List (Option (List Char))) :=
  ((table.headD []).findIdx? fun name => name == field.name.toList).map fun index =>
    table.tail.map fun row => row[index]?

theorem cellsBelow_of_column {table : List (List (List Char))} {field : Field} {index : Nat}
    (first : IsFirst (table.headD []) field.name.toList index) :
    cellsBelow table field = some (table.tail.map fun row => row[index]?) := by
  have found := (column_ok_iff _ field index).mpr first
  unfold column at found
  rw [cellsBelow]
  cases place : (table.headD []).findIdx? fun name => name == field.name.toList with
  | none =>
    rw [place] at found
    cases found
  | some other =>
    rw [place] at found
    cases found
    rfl

theorem cellsBelow_isSome (table : List (List (List Char))) (field : Field) :
    (cellsBelow table field).isSome ↔ field.name.toList ∈ table.headD [] := by
  rw [cellsBelow, Option.isSome_map, List.findIdx?_isSome, List.any_eq_true]
  simp

theorem ofRow_congr {columns columns' : Columns} {texts texts' : List (List Char)}
    (same : ∀ field, texts[columns.of field]? = texts'[columns'.of field]?) (row : Nat) :
    ofRow columns row texts = ofRow columns' row texts' := by
  have timestamp : texts[columns.timestamp]? = texts'[columns'.timestamp]? := same .timestamp
  have symbol : texts[columns.symbol]? = texts'[columns'.symbol]? := same .symbol
  have price : texts[columns.price]? = texts'[columns'.price]? := same .price
  have volume : texts[columns.volume]? = texts'[columns'.volume]? := same .volume
  simp only [ofRow, cell, timestamp, symbol, price, volume]

theorem ofTexts_congr {columns columns' : Columns} {rows rows' : List (List (List Char))}
    (same : ∀ field, (rows.map fun texts => texts[columns.of field]?) =
      rows'.map fun texts => texts[columns'.of field]?) (row : Nat) :
    ofTexts columns row rows = ofTexts columns' row rows' := by
  induction rows generalizing rows' row with
  | nil =>
    have none_ : rows' = [] := List.map_eq_nil_iff.mp (same .timestamp).symm
    rw [none_]
    rfl
  | cons texts rows ih =>
    cases rows' with
    | nil => cases same .timestamp
    | cons texts' rows' =>
      have first : ∀ field, texts[columns.of field]? = texts'[columns'.of field]? := by
        intro field
        exact (List.cons.inj (same field)).1
      have rest := ih fun field => (List.cons.inj (same field)).2
      rw [ofTexts, ofTexts, ofRow_congr first row, rest (row + 1)]

/-- Tables with the same cells below every required name load alike, whatever else they hold. -/
theorem ofTable_congr {table table' : List (List (List Char))}
    (same : ∀ field, cellsBelow table field = cellsBelow table' field) :
    ofTable table = ofTable table' := by
  have named (field : Field) :
      field.name.toList ∈ table.headD [] ↔ field.name.toList ∈ table'.headD [] := by
    rw [← cellsBelow_isSome, ← cellsBelow_isSome, same]
  rw [ofTable, ofTable]
  cases read : Columns.ofHeader (table.headD []) with
  | error cause =>
    rw [ofHeader_error_iff] at read
    simp only [named] at read
    rw [(ofHeader_error_iff _ cause).mpr read]
    rfl
  | ok columns =>
    have first := (ofHeader_ok_iff _ columns).mp read
    obtain ⟨columns', read'⟩ := ofHeader_of_names fun field =>
      (named field).mp (List.mem_of_getElem? (first field).1)
    have first' := (ofHeader_ok_iff _ columns').mp read'
    rw [read']
    refine ofTexts_congr ?_ 1
    intro field
    have cells := same field
    rw [cellsBelow_of_column (first field), cellsBelow_of_column (first' field)] at cells
    exact Option.some.inj cells

/-- A table that has every required name once and no row shorter than its header. -/
structure Sheet where
  header : List (List Char)
  rows : List (List (List Char))
  named : ∀ field : Field, header.count field.name.toList = 1
  wide : ∀ row ∈ rows, header.length ≤ row.length

def Permuted {n : Nat} (order : Equiv.Perm (Fin n)) (row row' : List (List Char)) : Prop :=
  (∀ i : Fin n, row'[i]? = row[order i]?) ∧ row'.drop n = row.drop n

/-- One change of the columns of a sheet: another order, a further column of another name, or further
    fields behind the header. -/
inductive Rearranged (t u : Sheet) : Prop where
  | permuted (order : Equiv.Perm (Fin t.header.length)) (header : Permuted order t.header u.header)
      (rows : List.Forall₂ (Permuted order) t.rows u.rows) : Rearranged t u
  | inserted (place : Nat) (name : List Char) (inside : place ≤ t.header.length)
      (other : ∀ field : Field, name ≠ field.name.toList)
      (header : u.header = t.header.insertIdx place name)
      (rows : List.Forall₂ (fun row row' => ∃ cell, row' = row.insertIdx place cell) t.rows u.rows) :
      Rearranged t u
  | extended (header : u.header = t.header) (rows : List.Forall₂ (· <+: ·) t.rows u.rows) :
      Rearranged t u

theorem place_unique {names : List (List Char)} {name : List Char} (once : names.count name = 1)
    {i j : Nat} (here : names[i]? = some name) (there : names[j]? = some name) : i = j := by
  induction names generalizing i j with
  | nil => cases once
  | cons first names ih =>
    by_cases same : first = name
    · subst same
      have absent : first ∉ names := by
        rw [List.count_cons_self] at once
        exact List.count_eq_zero.mp (by omega)
      cases i with
      | succ i =>
        rw [List.getElem?_cons_succ] at here
        exact absurd (List.mem_of_getElem? here) absent
      | zero =>
        cases j with
        | succ j =>
          rw [List.getElem?_cons_succ] at there
          exact absurd (List.mem_of_getElem? there) absent
        | zero => rfl
    · rw [List.count_cons_of_ne same] at once
      cases i with
      | zero => exact absurd (Option.some.inj here) same
      | succ i =>
        cases j with
        | zero => exact absurd (Option.some.inj there) same
        | succ j => rw [ih once here there]

def Sheet.table (t : Sheet) : List (List (List Char)) := t.header :: t.rows

theorem cellsBelow_at {t : Sheet} {field : Field} {index : Nat}
    (here : t.header[index]? = some field.name.toList) :
    cellsBelow t.table field = some (t.rows.map fun row => row[index]?) := by
  refine cellsBelow_of_column ⟨here, ?_⟩
  intro i less there
  have same := place_unique (t.named field) here there
  omega

theorem exists_place (t : Sheet) (field : Field) :
    ∃ index, index < t.header.length ∧ t.header[index]? = some field.name.toList := by
  have member : field.name.toList ∈ t.header := by
    refine List.count_pos_iff.mp ?_
    rw [t.named field]
    exact Nat.one_pos
  obtain ⟨index, inside, same⟩ := List.getElem_of_mem member
  exact ⟨index, inside, by rw [List.getElem?_eq_getElem inside, same]⟩

theorem map_of_forall₂ {α β : Type} {related : α → α → Prop} {f g : α → β} {xs ys : List α}
    (rows : List.Forall₂ related xs ys) (same : ∀ x ∈ xs, ∀ y, related x y → f x = g y) :
    xs.map f = ys.map g := by
  induction rows with
  | nil => rfl
  | @cons x y xs ys first _ ih =>
    rw [List.map_cons, List.map_cons, same x (by simp) y first,
      ih fun x member => same x (List.mem_cons_of_mem _ member)]

theorem getElem?_inserted (row : List (List Char)) (place index : Nat) (cell : List Char) :
    (row.insertIdx place cell)[if index < place then index else index + 1]? = row[index]? := by
  by_cases before : index < place
  · rw [if_pos before, List.getElem?_insertIdx_of_lt before]
  · rw [if_neg before, List.getElem?_insertIdx_of_gt (by omega), Nat.add_sub_cancel]

theorem rearranged_cells {t u : Sheet} (change : Rearranged t u) (field : Field) :
    cellsBelow t.table field = cellsBelow u.table field := by
  obtain ⟨index, inside, here⟩ := exists_place t field
  -- Where the name has gone, and what every row holds there.
  obtain ⟨index', here', cells⟩ : ∃ index' : Nat, u.header[index']? = some field.name.toList ∧
      (t.rows.map fun row => row[index]?) = u.rows.map fun row => row[index']? := by
    cases change with
    | permuted order header rows =>
      have back : (order (order.symm ⟨index, inside⟩) : Nat) = index := by
        rw [Equiv.apply_symm_apply]
      have moved {row row' : List (List Char)} (permuted : Permuted order row row') :
          row[index]? = row'[(order.symm ⟨index, inside⟩ : Nat)]? := by
        have field := permuted.1 (order.symm ⟨index, inside⟩)
        simp only [Fin.getElem?_fin, back] at field
        exact field.symm
      refine ⟨order.symm ⟨index, inside⟩, ?_, map_of_forall₂ rows fun _ _ _ => moved⟩
      rw [← moved header]
      exact here
    | inserted place name _ _ header rows =>
      refine ⟨if index < place then index else index + 1, ?_, map_of_forall₂ rows ?_⟩
      · rw [header, getElem?_inserted]
        exact here
      · rintro row _ _ ⟨cell, rfl⟩
        exact (getElem?_inserted row place index cell).symm
    | extended header rows =>
      refine ⟨index, by rw [header]; exact here, map_of_forall₂ rows ?_⟩
      rintro row member _ ⟨more, rfl⟩
      have wide := t.wide row member
      rw [List.getElem?_append_left (by omega)]
  rw [cellsBelow_at here, cellsBelow_at here', cells]

theorem changed_cells {t u : Sheet} (changes : Relation.EqvGen Rearranged t u) (field : Field) :
    cellsBelow t.table field = cellsBelow u.table field := by
  induction changes with
  | rel t u change => exact rearranged_cells change field
  | refl t => rfl
  | symm t u _ ih => exact ih.symm
  | trans t u v _ _ ih ih' => exact ih.trans ih'

/-- Files whose tables differ by changes of their columns load alike, the same ticks or the same first bad
    row. And whatever a file holds besides the cells below the first place of every required name,
    further places of these names included, makes no difference. -/
theorem load_columns {find : Lookup} {path path' : String} {text text' : List Char}
    (file : find path = .ok (.file (Utf8.encode text)))
    (file' : find path' = .ok (.file (Utf8.encode text'))) :
    (∀ t u : Sheet, Csv.table text = t.table → Csv.table text' = u.table →
      Relation.EqvGen Rearranged t u → load find path = load find path' ∧
        ((∃ ticks, load find path = .ok ticks) ∨
          ∃ row field value, load find path = .error (.malformed row field value))) ∧
    ((∀ field, cellsBelow (Csv.table text) field = cellsBelow (Csv.table text') field) →
      load find path = load find path') := by
  rw [load_text file, load_text file']
  refine ⟨?_, ofTable_congr⟩
  intro t u first second changes
  rw [first, second]
  refine ⟨ofTable_congr (changed_cells changes), ofTable_named ?_⟩
  intro field
  obtain ⟨index, _, here⟩ := exists_place t field
  exact List.mem_of_getElem? here

/-- Another order, a column of another name, a field behind the header, and a bad price in the second
    row; then a header with a second column of prices. -/
theorem load_columns_bad_price :
    let text := "timestamp_ms,symbol,price,volume\n1,A,2,3\n4,B,x,5\n".toList
    let moved := "volume,symbol,note,price,timestamp_ms\n3,A,,2,1,late\n5,B,n,x,4\n".toList
    let repeated := "timestamp_ms,symbol,price,volume,price\n1,A,2,3,9\n4,B,x,5\n".toList
    let find : Lookup := fun path => .ok (.file (Utf8.encode
      (if path = "moved.csv" then moved else if path = "repeated.csv" then repeated else text)))
    (∃ t u : Sheet, Csv.table text = t.table ∧ Csv.table moved = u.table ∧
      Relation.EqvGen Rearranged t u) ∧
    (∀ field, cellsBelow (Csv.table text) field = cellsBelow (Csv.table repeated) field) ∧
    load find "ticks.csv" = .error (.malformed 2 .price "x") ∧
    load find "moved.csv" = load find "ticks.csv" ∧
    load find "repeated.csv" = load find "ticks.csv" := by
  intro text moved repeated find
  let cells (rows : List (List String)) := rows.map fun row => row.map String.toList
  let first : Sheet := ⟨["timestamp_ms", "symbol", "price", "volume"].map String.toList,
    cells [["1", "A", "2", "3"], ["4", "B", "x", "5"]], by intro field; cases field <;> decide, by decide⟩
  let turned : Sheet := ⟨["volume", "symbol", "price", "timestamp_ms"].map String.toList,
    cells [["3", "A", "2", "1"], ["5", "B", "x", "4"]], by intro field; cases field <;> decide, by decide⟩
  let noted : Sheet := ⟨["volume", "symbol", "note", "price", "timestamp_ms"].map String.toList,
    cells [["3", "A", "", "2", "1"], ["5", "B", "n", "x", "4"]],
    by intro field; cases field <;> decide, by decide⟩
  let last : Sheet := ⟨["volume", "symbol", "note", "price", "timestamp_ms"].map String.toList,
    cells [["3", "A", "", "2", "1", "late"], ["5", "B", "n", "x", "4"]],
    by intro field; cases field <;> decide, by decide⟩
  have turning : Rearranged first turned :=
    .permuted (Equiv.swap (⟨0, by decide⟩ : Fin 4) ⟨3, by decide⟩) ⟨by decide, by decide⟩
      (.cons ⟨by decide, by decide⟩ (.cons ⟨by decide, by decide⟩ .nil))
  have noting : Rearranged turned noted :=
    .inserted 2 "note".toList (by decide) (by intro field; cases field <;> decide) (by decide)
      (.cons ⟨"".toList, by decide⟩ (.cons ⟨"n".toList, by decide⟩ .nil))
  have extending : Rearranged noted last :=
    .extended rfl (.cons ⟨["late".toList], by decide⟩ (.cons ⟨[], by decide⟩ .nil))
  have changes : Relation.EqvGen Rearranged first last :=
    .trans _ _ _ (.rel _ _ turning) (.trans _ _ _ (.rel _ _ noting) (.rel _ _ extending))
  have before : Csv.table text = first.table := by decide +kernel
  have behind : Csv.table moved = last.table := by decide +kernel
  have twice : Csv.table repeated =
      cells [["timestamp_ms", "symbol", "price", "volume", "price"], ["1", "A", "2", "3", "9"],
        ["4", "B", "x", "5"]] := by
    decide +kernel
  have below : ∀ field, cellsBelow (Csv.table text) field = cellsBelow (Csv.table repeated) field := by
    intro field
    rw [before, twice]
    cases field <;> decide
  have read : load find "ticks.csv" = .error (.malformed 2 .price "x") := by decide +kernel
  have same := (@load_columns find "ticks.csv" "moved.csv" text moved rfl rfl).1 first last before behind
    changes
  have same' := (@load_columns find "ticks.csv" "repeated.csv" text repeated rfl rfl).2 below
  exact ⟨⟨first, last, before, behind, changes⟩, below, read, same.1.symm, same'.symm⟩

end TickReplay.Tick
