import TickReplay.Tick.File

/- Loading is all or nothing. A file loads exactly when its header names the columns and every row
   behind it reads, and then there is one tick a row, in file order. -/
namespace TickReplay.Tick

def readRow (columns : Columns) (row : Nat) (record : Csv.Record) : Except LoadError Tick :=
  decodeRecord row record >>= ofRow columns row

theorem ofRows_cons (columns : Columns) (row : Nat) (record : Csv.Record)
    (more : List Csv.Record) : ofRows columns row (record :: more) =
      match readRow columns row record with
      | .error cause => .error cause
      | .ok tick => (ofRows columns (row + 1) more).map (tick :: ·) := by
  simp only [ofRows, readRow, bind, Except.bind]
  cases decodeRecord row record with
  | error cause => rfl
  | ok fields =>
    dsimp only
    cases ofRow columns row fields with
    | error cause => rfl
    | ok tick => cases ofRows columns (row + 1) more <;> rfl

theorem ofRows_ok_iff (columns : Columns) (row : Nat) (records : List Csv.Record)
    (ticks : List Tick) : ofRows columns row records = .ok ticks ↔
      (records.mapIdx fun i record => readRow columns (row + i) record) =
        ticks.map Except.ok := by
  induction records generalizing row ticks with
  | nil =>
    cases ticks with
    | nil => simp [ofRows]
    | cons tick more => simp [ofRows]
  | cons record records ih =>
    have shift : (fun i => readRow columns (row + (i + 1))) =
        fun i => readRow columns (row + 1 + i) := by
      funext i
      rw [Nat.add_right_comm, Nat.add_assoc]
    rw [ofRows_cons, List.mapIdx_cons, shift, Nat.add_zero]
    cases first : readRow columns row record with
    | error cause =>
      refine ⟨nofun, ?_⟩
      intro same
      cases ticks with
      | nil => cases same
      | cons tick more => cases (List.cons.inj same).1
    | ok tick =>
      cases ticks with
      | nil =>
        refine ⟨?_, nofun⟩
        intro same
        cases rest : ofRows columns (row + 1) records <;> simp [rest, Except.map] at same
      | cons other more =>
        rw [List.map_cons, List.cons.injEq, ← ih (row + 1) more, Except.ok.injEq]
        cases ofRows columns (row + 1) records with
        | error cause => simp [Except.map]
        | ok rest => simp [Except.map]

def dataRows (bytes : List UInt8) : List Csv.Record := (Csv.records bytes).tail

def readHeader (bytes : List UInt8) : Except LoadError Columns :=
  match Csv.records bytes with
  | [] => Columns.ofHeader []
  | header :: _ => decodeRecord 0 header >>= Columns.ofHeader

def ReadsAs (bytes : List UInt8) (ticks : List Tick) : Prop :=
  ∃ columns, readHeader bytes = .ok columns ∧
    ((dataRows bytes).mapIdx fun i record => readRow columns (i + 1) record) = ticks.map Except.ok

theorem ofBytes_ok_iff (bytes : List UInt8) (ticks : List Tick) :
    ofBytes bytes = .ok ticks ↔ ReadsAs bytes ticks := by
  simp only [ofBytes, ReadsAs, readHeader, dataRows]
  cases Csv.records bytes with
  | nil =>
    simp only [ofRecords, List.tail_nil, List.mapIdx_nil]
    cases Columns.ofHeader [] with
    | error cause => simp [Except.map]
    | ok columns =>
      cases ticks with
      | nil => simp [Except.map]
      | cons tick more => simp [Except.map]
  | cons header rows =>
    simp only [ofRecords, List.tail_cons, bind, Except.bind]
    cases decodeRecord 0 header with
    | error cause => simp
    | ok fields =>
      dsimp only
      cases Columns.ofHeader fields with
      | error cause => simp
      | ok columns =>
        simp only [ofRows_ok_iff, Except.ok.injEq, exists_eq_left', Nat.add_comm 1]

theorem ReadsAs.length_eq {bytes : List UInt8} {ticks : List Tick} (reads : ReadsAs bytes ticks) :
    ticks.length = (dataRows bytes).length := by
  obtain ⟨columns, _, rows⟩ := reads
  have lengths := congrArg List.length rows
  simpa using lengths.symm

theorem load_ok_iff (find : Lookup) (path : String) (ticks : List Tick) :
    load find path = .ok ticks ↔ ∃ bytes, find path = .ok (.file bytes) ∧ ReadsAs bytes ticks := by
  simp only [load]
  cases find path with
  | error cause => cases cause <;> simp
  | ok node =>
    cases node with
    | directory => simp
    | file bytes => simp [ofBytes_ok_iff]

end TickReplay.Tick
