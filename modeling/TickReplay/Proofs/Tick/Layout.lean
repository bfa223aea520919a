import Mathlib.Logic.Relation
import TickReplay.Proofs.Tick.Rows

/- The physical layout of a file without quotes. Which line ends it has, how many blank lines and whether the
   last line ends make no difference, and bad rows count rows of data. A byte order mark is none unless it
   stands at the very front, so a blank line ahead of one turns it into a part of the first name. -/
namespace TickReplay.Csv

def AtLineStart (front : List Char) : Prop :=
  front = [] ∨ ∃ before c, front = before ++ [c] ∧ (c = '\n' ∨ c = '\r')

/-- One change of the layout of a text: another line end, a blank line, or a line end at the end. -/
inductive Relaid : List Char → List Char → Prop where
  | lineEnd (front back : List Char) (one other : LineEnd) :
      Relaid (front ++ (one.text ++ back)) (front ++ (other.text ++ back))
  | blank {front : List Char} (start : AtLineStart front) (back : List Char) (ends : LineEnd) :
      Relaid (front ++ back) (front ++ (ends.text ++ back))
  | last (text : List Char) (ends : LineEnd) : Relaid text (text ++ ends.text)

theorem leads_ends {p : Progress} (outside : p.Outside) (ends : LineEnd) :
    Leads ends.text p .between p.pending := by
  cases ends with
  | newline => exact leads_lineEnd outside (.inl rfl)
  | carriageReturn => exact leads_lineEnd outside (.inr rfl)
  | both =>
    have second := leads_lineEnd between_outside (.inl rfl : '\n' = '\n' ∨ _)
    rw [between_pending] at second
    have both := leads_append (leads_lineEnd outside (.inr rfl : '\r' = '\n' ∨ '\r' = '\r')) second
    rw [List.append_nil] at both
    exact both

theorem leads_outside {text : List Char} (noQuote : '"' ∉ text) :
    ∃ p closed, Leads text .between p closed ∧ p.Outside := by
  obtain ⟨p, closed, leads, outside⟩ := leads_text .between text
  exact ⟨p, closed, leads, outside noQuote between_outside⟩

/-- Without quotes the start of a line is the start of a record. -/
theorem leads_lineStart {front : List Char} (start : AtLineStart front) (noQuote : '"' ∉ front) :
    ∃ closed, Leads front .between .between closed := by
  rcases start with rfl | ⟨before, c, rfl, ends⟩
  · exact ⟨[], leads_nil _⟩
  · rw [List.mem_append, not_or] at noQuote
    obtain ⟨p, closed, first, outside⟩ := leads_outside noQuote.1
    exact ⟨_, leads_append first (leads_lineEnd outside ends)⟩

theorem noQuote_ends (ends : LineEnd) : '"' ∉ ends.text := by
  cases ends <;> decide

theorem quote_relaid {t u : List Char} (change : Relaid t u) : '"' ∈ t ↔ '"' ∈ u := by
  cases change with
  | lineEnd front back one other =>
    simp only [List.mem_append, noQuote_ends, false_or]
  | blank start back ends => simp only [List.mem_append, noQuote_ends, false_or]
  | last text ends => simp only [List.mem_append, noQuote_ends, or_false]

theorem bareTable_relaid {t u : List Char} (change : Relaid t u) (noQuote : '"' ∉ t) :
    bareTable t = bareTable u := by
  cases change with
  | lineEnd front back one other =>
    rw [List.mem_append, not_or] at noQuote
    obtain ⟨p, closed, first, outside⟩ := leads_outside noQuote.1
    obtain ⟨q, later, second, _⟩ := leads_text .between back
    have whole (ends : LineEnd) :
        bareTable (front ++ (ends.text ++ back)) = closed ++ (p.pending ++ later) ++ q.pending :=
      bareTable_eq (leads_append first (leads_append (leads_ends outside ends) second))
    rw [whole, whole]
  | @blank front start back ends =>
    rw [List.mem_append, not_or] at noQuote
    obtain ⟨closed, first⟩ := leads_lineStart start noQuote.1
    obtain ⟨q, later, second, _⟩ := leads_text .between back
    have blank := leads_ends between_outside ends
    rw [bareTable_eq (leads_append first second),
      bareTable_eq (leads_append first (leads_append blank second)), between_pending, List.nil_append]
  | last text ends =>
    obtain ⟨p, closed, first, outside⟩ := leads_outside noQuote
    rw [bareTable_eq first, bareTable_eq (leads_append first (leads_ends outside ends)),
      between_pending, List.append_nil]

theorem bareTable_layout {t u : List Char} (changes : Relation.EqvGen Relaid t u) :
    ('"' ∈ t ↔ '"' ∈ u) ∧ ('"' ∉ t → bareTable t = bareTable u) := by
  induction changes with
  | rel t u change => exact ⟨quote_relaid change, bareTable_relaid change⟩
  | refl t => exact ⟨Iff.rfl, fun _ => rfl⟩
  | symm t u _ ih =>
    refine ⟨ih.1.symm, ?_⟩
    intro noQuote
    exact (ih.2 (mt ih.1.mp noQuote)).symm
  | trans t u v _ _ ih ih' =>
    refine ⟨ih.1.trans ih'.1, ?_⟩
    intro noQuote
    exact (ih.2 noQuote).trans (ih'.2 (mt ih.1.mpr noQuote))

theorem table_unmarked {text : List Char} (unmarked : text.head? ≠ some mark) :
    table text = bareTable text := by
  rw [table_body]
  cases text with
  | nil => rfl
  | cons c text => rw [body, if_neg (by simpa using unmarked)]

theorem table_marked (text : List Char) : table (mark :: text) = bareTable text := by
  rw [table_body, body, if_pos rfl]

theorem encode_marked (text : List Char) :
    byteOrderMark ++ Utf8.encode text = Utf8.encode (mark :: text) := by
  rw [Utf8.encode_cons]
  rfl

end TickReplay.Csv

namespace TickReplay.Tick

open Csv (Relaid mark byteOrderMark)

/-- A file without quotes and without a mark in front loads alike in every layout, with a mark in front or
    without one: the same ticks, the same missing column, or the same bad row with its column and
    value. Only a mark of its own may not come to the front by the change of the layout. -/
theorem load_layout {find : Lookup} {path path' : String} {text text' : List Char} {marked : Bool}
    (file : find path = .ok (.file (Utf8.encode text)))
    (file' : find path' = .ok (.file ((if marked then byteOrderMark else []) ++ Utf8.encode text')))
    (noQuote : '"' ∉ text) (unmarked : text.head? ≠ some mark)
    (changes : Relation.EqvGen Relaid text text')
    (unmarked' : marked = false → text'.head? ≠ some mark) :
    load find path' = load find path ∧ TextLoad (load find path) := by
  have same := (Csv.bareTable_layout changes).2 noQuote
  have first : load find path = ofTable (Csv.bareTable text) := by
    rw [load_text file, Csv.table_unmarked unmarked]
  have second : load find path' = ofTable (Csv.bareTable text') := by
    cases marked with
    | true =>
      rw [if_pos rfl, Csv.encode_marked] at file'
      rw [load_text file', Csv.table_marked]
    | false =>
      rw [if_neg (by decide), List.nil_append] at file'
      rw [load_text file', Csv.table_unmarked (unmarked' rfl)]
  rw [first, second, same]
  exact ⟨rfl, ofTable_textLoad _⟩

/-- A blank line in front, other line ends, one behind the last row and a mark in front of all. -/
theorem load_layout_bad_row :
    let header := "timestamp_ms,symbol,price,volume".toList
    let rows := "1,A,2,3\n4,B,x,5".toList
    let text := header ++ (['\n'] ++ rows)
    let text' := ['\r', '\n'] ++ (header ++ (['\r'] ++ rows)) ++ ['\r']
    let find : Lookup := fun path => .ok (.file
      (if path = "text.csv" then Utf8.encode text else byteOrderMark ++ Utf8.encode text'))
    '"' ∉ text ∧ text.head? ≠ some mark ∧ Relation.EqvGen Relaid text text' ∧
      load find "text.csv" = .error (.malformed 2 .price "x") ∧
      load find "marked.csv" = .error (.malformed 2 .price "x") := by
  intro header rows text text' find
  have noQuote : '"' ∉ text := by decide +kernel
  have unmarked : text.head? ≠ some mark := by decide +kernel
  have ends : Relaid text (header ++ (['\r'] ++ rows)) :=
    .lineEnd header rows .newline .carriageReturn
  have blank : Relaid (header ++ (['\r'] ++ rows)) (['\r', '\n'] ++ (header ++ (['\r'] ++ rows))) :=
    .blank (.inl rfl) _ .both
  have changes : Relation.EqvGen Relaid text text' :=
    .trans _ _ _ (.rel _ _ ends) (.trans _ _ _ (.rel _ _ blank) (.rel _ _ (.last _ .carriageReturn)))
  have read : load find "text.csv" = .error (.malformed 2 .price "x") := by decide +kernel
  have same := @load_layout find "text.csv" "marked.csv" text text' true rfl rfl noQuote unmarked
    changes nofun
  exact ⟨noQuote, unmarked, changes, read, same.1.trans read⟩

/-- Without the blank line ahead of it, the mark stands in front and is dropped. -/
theorem load_layout_inner_mark :
    let text' := "\ufefftimestamp_ms,symbol,price,volume\n1,A,2,3\n".toList
    let text := '\n' :: text'
    let find : Lookup := fun path =>
      .ok (.file (Utf8.encode (if path = "text.csv" then text else text')))
    '"' ∉ text ∧ text.head? ≠ some mark ∧ Relation.EqvGen Relaid text text' ∧
      load find "text.csv" = .error (.missingColumn .timestamp) ∧
      load find "changed.csv" ≠ load find "text.csv" := by
  intro text' text find
  have changes : Relation.EqvGen Relaid text text' :=
    .symm _ _ (.rel _ _ (.blank (.inl rfl) text' .newline))
  have read : load find "text.csv" = .error (.missingColumn .timestamp) := by decide +kernel
  refine ⟨by decide +kernel, by decide +kernel, changes, read, ?_⟩
  rw [read]
  decide +kernel

end TickReplay.Tick
