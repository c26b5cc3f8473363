import Mathlib.Data.List.Nodup
import Mathlib.Logic.Function.Basic
import Tumgrd.Effect.Program
import Tumgrd.Text

/-! `tumgrd_db_init_schema` on a table of an older version. Each statement of it
commits on its own, and an attempt may stop behind any of them. -/
namespace Tumgrd

open Effect

/-- A value by its storage class; a real is its bit pattern, which is no NaN. -/
inductive SqlValue where
  | null
  | integer (value : Int)
  | real (bits : UInt64)
  | text (value : Str)
  | blob (bytes : List UInt8)
  deriving DecidableEq

/-- `value > 0`: texts and blobs sort behind all numbers. -/
def SqlValue.positive : SqlValue → Bool
  | .null => false
  | .integer value => 0 < value
  | .real bits => 0 < bits && bits < 0x8000000000000000
  | .text _ | .blob _ => true

/-- `value = 0`. -/
def SqlValue.isZero : SqlValue → Bool
  | .integer value => value = 0
  | .real bits => bits = 0 || bits = 0x8000000000000000
  | .null | .text _ | .blob _ => false

/-- The columns that later versions added. -/
inductive Column where
  | lifetime
  | lastAppliedAt
  | rotationState
  | xorKeyPending
  deriving DecidableEq

/-- The `DEFAULT` of the column. -/
def Column.default : Column → SqlValue
  | .lifetime | .lastAppliedAt | .rotationState => .integer 0
  | .xorKeyPending => .text []

/-- A row: its `last_updated`, its values in those of the added columns that the
table has, and its values in the columns no statement names. -/
structure LegacyRow (β : Type) where
  others : β
  lastUpdated : SqlValue
  cells : Column → SqlValue

/-- The table `nodes`, with the added columns it has in their order. -/
structure NodesTable (β : Type) where
  columns : List Column
  rows : List (LegacyRow β)

variable {β : Type}

def LegacyRow.set (r : LegacyRow β) (c : Column) (value : SqlValue) : LegacyRow β :=
  { r with cells := Function.update r.cells c value }

/-- `ALTER TABLE nodes ADD COLUMN`. -/
def NodesTable.addColumn (t : NodesTable β) (c : Column) : NodesTable β where
  columns := t.columns ++ [c]
  rows := t.rows.map fun r => r.set c c.default

/-- The `UPDATE` behind the second `ALTER TABLE`. -/
def NodesTable.backfill (t : NodesTable β) : NodesTable β :=
  { t with
    rows := t.rows.map fun r =>
      if (r.cells .lastAppliedAt).isZero && r.lastUpdated.positive then
        r.set .lastAppliedAt r.lastUpdated
      else r }

inductive SchemaReq where
  | createTable
  | tableInfo
  | addColumn (c : Column)
  | backfill
  deriving DecidableEq

/-- What `sqlite3_exec` says of an `ALTER TABLE`. -/
inductive Added where
  | ok
  | duplicate
  | failed
  deriving DecidableEq

@[reducible] def SchemaResp : SchemaReq → Type
  | .createTable => Bool
  | .tableInfo => Option (List Column)
  | .addColumn _ => Added
  | .backfill => Bool

abbrev Schema := Program SchemaReq SchemaResp

def createTable : Schema Bool := Program.perform SchemaReq.createTable
def tableInfo : Schema (Option (List Column)) := Program.perform SchemaReq.tableInfo
def alterTable (c : Column) : Schema Added := Program.perform (SchemaReq.addColumn c)
def updateNodes : Schema Bool := Program.perform SchemaReq.backfill

/-- `goto err_cleanup` unless the statement succeeded. -/
def orFail (statement : Schema Bool) (rest : Schema Int) : Schema Int := do
  let ok ← statement
  if ok then rest else pure (-1)

def migrateAddColumn (c : Column) : Schema Bool := do
  match ← alterTable c with
  | .ok | .duplicate => pure true
  | .failed => pure false

/-- The columns that `PRAGMA table_info` did not list are added. -/
def addMissing (columns : List Column) (c : Column) (rest : Schema Int) : Schema Int :=
  if c ∈ columns then rest else orFail (migrateAddColumn c) rest

def addLastApplied (columns : List Column) (rest : Schema Int) : Schema Int :=
  if .lastAppliedAt ∈ columns then rest
  else orFail (migrateAddColumn .lastAppliedAt) (orFail updateNodes rest)

def addColumns (columns : List Column) : Schema Int :=
  addMissing columns .lifetime <| addLastApplied columns <| addMissing columns .rotationState <|
    addMissing columns .xorKeyPending <| pure 0

/-- `tumgrd_db_init_schema`. -/
def initSchema : Schema Int :=
  orFail createTable do
    match ← tableInfo with
    | none => pure (-1)
    | some columns => addColumns columns

section Attempts

/-- The table, which exists, and the statements of this attempt that took effect,
newest first. -/
structure Migration (β : Type) where
  table : NodesTable β
  done : List SchemaReq

def SchemaReq.effect : SchemaReq → NodesTable β → NodesTable β
  | .createTable, t | .tableInfo, t => t
  | .addColumn c, t => t.addColumn c
  | .backfill, t => t.backfill

def succeeded : (q : SchemaReq) → SchemaResp q → Bool
  | .createTable, ok | .backfill, ok => ok
  | .tableInfo, columns => columns.isSome
  | .addColumn _, added => added = .ok

def Migration.after (w : Migration β) (q : SchemaReq) (r : SchemaResp q) : Migration β :=
  if succeeded q r then ⟨q.effect w.table, q :: w.done⟩ else w

/-- A statement may fail, which leaves the table as it is. -/
def schemaAllowed (w : Migration β) : (q : SchemaReq) → SchemaResp q → Prop
  | .tableInfo, columns => ∀ listed, columns = some listed → listed = w.table.columns
  | .addColumn c, added =>
      (added = .ok → c ∉ w.table.columns) ∧ (added = .duplicate → c ∈ w.table.columns)
  | .createTable, _ | .backfill, _ => True

abbrev schemaSem (β : Type) : Semantics SchemaReq SchemaResp (Migration β) :=
  ⟨schemaAllowed, Migration.after⟩

/-- An attempt that stops anywhere, with the statements that took effect. -/
def Attempt (t : NodesTable β) (done : List SchemaReq) (t' : NodesTable β) : Prop :=
  ∃ p, (schemaSem β).Runs initSchema ⟨t, []⟩ p ⟨t', done⟩

/-- An attempt in which no statement fails and that runs to its end. -/
def Completes (t t' : NodesTable β) : Prop :=
  ∃ done, (schemaSem β).Runs initSchema ⟨t, []⟩ (.done 0) ⟨t', done⟩

/-- One attempt after the other. -/
inductive Attempts : NodesTable β → List (List SchemaReq) → NodesTable β → Prop
  | none (t : NodesTable β) : Attempts t [] t
  | more {t s t' : NodesTable β} {done : List SchemaReq} {log : List (List SchemaReq)} :
      Attempt t done s → Attempts s log t' → Attempts t (done :: log) t'

end Attempts

section Tables

/-- The columns a table lacks, in the order in which they are added. -/
def missing (columns : List Column) : List Column :=
  [.lifetime, .lastAppliedAt, .rotationState, .xorKeyPending].filter (· ∉ columns)

/-- The table with all columns, the new ones with these values. -/
def NodesTable.filledBy (t : NodesTable β) (value : SqlValue → Column → SqlValue) :
    NodesTable β where
  columns := t.columns ++ missing t.columns
  rows := t.rows.map fun r =>
    { r with cells := fun c => if c ∈ t.columns then r.cells c else value r.lastUpdated c }

/-- What the new columns of a row are to hold. -/
def backfilled (lastUpdated : SqlValue) (c : Column) : SqlValue :=
  if c = .lastAppliedAt ∧ lastUpdated.positive then lastUpdated else c.default

/-- The table that a migration is to make: all other columns of a row as they
were, and the new ones at their defaults or back-filled. -/
def NodesTable.migrated (t : NodesTable β) : NodesTable β := t.filledBy backfilled

/-- The same without the back-fill. -/
def NodesTable.unfilled (t : NodesTable β) : NodesTable β := t.filledBy fun _ c => c.default

theorem nodup_missing (columns : List Column) : (missing columns).Nodup :=
  List.Nodup.filter _ (by decide)

theorem mem_missing {columns : List Column} {c : Column} :
    c ∈ missing columns ↔ c ∉ columns := by
  unfold missing
  rw [List.mem_filter, decide_eq_true_eq, and_iff_right_iff_imp]
  intro _
  cases c <;> decide

theorem missing_addColumn {columns rest : List Column} {c : Column}
    (h : missing columns = c :: rest) : missing (columns ++ [c]) = rest := by
  have split : missing (columns ++ [c]) = (missing columns).filter (· ≠ c) := by
    unfold missing
    rw [List.filter_filter]
    refine List.filter_congr fun d _ => ?_
    simp [and_comm]
  have other := nodup_missing columns
  rw [h, List.nodup_cons] at other
  rw [split, h, List.filter_cons_of_neg (by simp), List.filter_eq_self]
  intro d hd
  rw [decide_eq_true_eq]
  rintro rfl
  exact other.1 hd

variable {t : NodesTable β} {value value' : SqlValue → Column → SqlValue} {c : Column}
  {rest : List Column}

theorem filledBy_congr (same : ∀ lastUpdated, ∀ c ∉ t.columns,
    value lastUpdated c = value' lastUpdated c) : t.filledBy value = t.filledBy value' := by
  unfold NodesTable.filledBy
  congr 1
  refine List.map_congr_left fun r _ => ?_
  congr 1
  funext c
  split
  · rfl
  · exact same _ c ‹_›

theorem filledBy_self (whole : missing t.columns = []) : t.filledBy value = t := by
  have present (c : Column) : c ∈ t.columns := by
    by_contra absent
    rw [← mem_missing, whole] at absent
    contradiction
  unfold NodesTable.filledBy
  simp only [whole, List.append_nil, present, if_true]
  cases t
  simp

/-- A column whose default is right may be added first. -/
theorem filledBy_addColumn (h : missing t.columns = c :: rest)
    (plain : ∀ lastUpdated, value lastUpdated c = c.default) :
    (t.addColumn c).filledBy value = t.filledBy value := by
  have absent : c ∉ t.columns := mem_missing.mp (h ▸ List.mem_cons_self)
  unfold NodesTable.filledBy NodesTable.addColumn
  dsimp only
  rw [missing_addColumn h, h, List.append_assoc, List.map_map]
  congr 1
  refine List.map_congr_left fun r _ => ?_
  unfold LegacyRow.set
  simp only [Function.comp_apply, LegacyRow.mk.injEq, true_and]
  funext d
  by_cases same : d = c
  · subst same
    rw [if_pos (by simp), if_neg absent, Function.update_self, plain]
  · simp [same, Function.update_of_ne]

theorem backfilled_of_ne (other : c ≠ .lastAppliedAt) (lastUpdated : SqlValue) :
    backfilled lastUpdated c = c.default := if_neg fun h => other h.1

/-- The back-fill makes up for the default of its column. -/
theorem migrated_backfill (h : missing t.columns = .lastAppliedAt :: rest) :
    (t.addColumn .lastAppliedAt).backfill.migrated = t.migrated := by
  have absent : .lastAppliedAt ∉ t.columns := mem_missing.mp (h ▸ List.mem_cons_self)
  unfold NodesTable.migrated NodesTable.filledBy NodesTable.backfill NodesTable.addColumn
  dsimp only
  rw [missing_addColumn h, h, List.append_assoc, List.map_map, List.map_map]
  congr 1
  refine List.map_congr_left fun r _ => ?_
  have zero : (Column.default .lastAppliedAt).isZero = true := rfl
  simp only [Function.comp_apply, LegacyRow.set, Function.update_self, zero, Bool.true_and]
  split
  · rename_i positive
    simp only [LegacyRow.mk.injEq, true_and]
    funext d
    by_cases same : d = .lastAppliedAt
    · subst same
      simp [absent, backfilled, positive]
    · simp [same, Function.update_of_ne]
  · rename_i positive
    simp only [LegacyRow.mk.injEq, true_and]
    funext d
    by_cases same : d = .lastAppliedAt
    · subst same
      simp [absent, backfilled, positive]
    · simp [same, Function.update_of_ne]

end Tables

section Steps

/-- The program adds these columns, up to the first statement that fails. -/
inductive Adds : List Column → Schema Int → Prop
  | ended : Adds [] (pure 0)
  | column {c : Column} {rest : List Column} {p : Schema Int} :
    c ≠ .lastAppliedAt → Adds rest p →
      Adds (c :: rest) (orFail (migrateAddColumn c) p)
  | lastApplied {rest : List Column} {p : Schema Int} : Adds rest p →
      Adds (.lastAppliedAt :: rest)
        (orFail (migrateAddColumn .lastAppliedAt) (orFail updateNodes p))

/-- The code behind `PRAGMA table_info` adds what is missing. -/
theorem adds_missing (columns : List Column) :
    Adds (missing columns) (addColumns columns) := by
  have one {c : Column} {rest : List Column} {p : Schema Int} (other : c ≠ .lastAppliedAt)
      (h : Adds (rest.filter (· ∉ columns)) p) :
      Adds ((c :: rest).filter (· ∉ columns)) (addMissing columns c p) := by
    unfold addMissing
    by_cases present : c ∈ columns
    · rw [List.filter_cons_of_neg (by simpa using present), if_pos present]
      exact h
    · rw [List.filter_cons_of_pos (by simpa using present), if_neg present]
      exact .column other h
  have two {rest : List Column} {p : Schema Int} (h : Adds (rest.filter (· ∉ columns)) p) :
      Adds ((.lastAppliedAt :: rest).filter (· ∉ columns)) (addLastApplied columns p) := by
    unfold addLastApplied
    by_cases present : .lastAppliedAt ∈ columns
    · rw [List.filter_cons_of_neg (by simpa using present), if_pos present]
      exact h
    · rw [List.filter_cons_of_pos (by simpa using present), if_neg present]
      exact .lastApplied h
  exact one (by decide) (two (one (by decide) (one (by decide) .ended)))

/-- The last statement is the `ALTER TABLE` that waits for its back-fill. -/
def severed (done : List SchemaReq) : Prop := done.head? = some (.addColumn .lastAppliedAt)

instance (done : List SchemaReq) : Decidable (severed done) := by
  unfold severed
  infer_instance

/-- What an attempt on `t` has made of it, while it can still be completed. -/
structure Resumable (t : NodesTable β) (w : Migration β) : Prop where
  migrated : w.table.migrated = t.migrated
  unfilled : .lastAppliedAt ∉ w.table.columns → w.table.unfilled = t.unfilled
  columns : t.columns ⊆ w.table.columns
  done : ¬severed w.done

/-- What it has made of it without the back-fill. -/
structure Severed (t : NodesTable β) (w : Migration β) : Prop where
  migrated : w.table.migrated = t.unfilled
  absent : .lastAppliedAt ∉ t.columns
  present : .lastAppliedAt ∈ w.table.columns
  done : severed w.done

variable {t t' : NodesTable β} {w : Migration β} {rest : List Column} {p : Schema Int}
  {done : List SchemaReq}

def Stage (t : NodesTable β) (w : Migration β) : Prop := Resumable t w ∨ Severed t w

theorem Resumable.column {c : Column} (h : Resumable t w)
    (next : missing w.table.columns = c :: rest)
    (other : c ≠ .lastAppliedAt) :
    Resumable t ⟨w.table.addColumn c, .addColumn c :: w.done⟩ where
  migrated := (filledBy_addColumn next (backfilled_of_ne other)).trans h.migrated
  unfilled := by
    intro absent
    refine (filledBy_addColumn next fun _ => rfl).trans (h.unfilled ?_)
    exact fun present => absent (List.mem_append_left _ present)
  columns := List.Subset.trans h.columns (List.subset_append_left _ _)
  done := by
    simp only [severed, List.head?_cons, Option.some.injEq, SchemaReq.addColumn.injEq]
    exact other

theorem Resumable.sever (h : Resumable t w)
    (next : missing w.table.columns = .lastAppliedAt :: rest) :
    Severed t ⟨w.table.addColumn .lastAppliedAt, .addColumn .lastAppliedAt :: w.done⟩ where
  migrated := by
    have absent : .lastAppliedAt ∉ w.table.columns := mem_missing.mp (next ▸ List.mem_cons_self)
    rw [← h.unfilled absent]
    refine Eq.trans ?_ (filledBy_addColumn next fun _ => rfl)
    refine filledBy_congr fun lastUpdated c lacking => backfilled_of_ne ?_ lastUpdated
    rintro rfl
    exact lacking (List.mem_append_right _ List.mem_cons_self)
  absent := fun present =>
    mem_missing.mp (next ▸ List.mem_cons_self) (h.columns present)
  present := List.mem_append_right _ List.mem_cons_self
  done := rfl

theorem Resumable.lastApplied (h : Resumable t w)
    (next : missing w.table.columns = .lastAppliedAt :: rest) :
    Resumable t ⟨(w.table.addColumn .lastAppliedAt).backfill,
      .backfill :: .addColumn .lastAppliedAt :: w.done⟩ where
  migrated := (migrated_backfill next).trans h.migrated
  unfilled := fun absent => absurd (List.mem_append_right _ List.mem_cons_self) absent
  columns := List.Subset.trans h.columns (List.subset_append_left _ _)
  done := by
    unfold severed
    simp

/-- How an attempt on `t` ends. -/
def Concludes (t : NodesTable β) (rc : Int) (w : Migration β) : Prop :=
  Stage t w ∧ (rc = 0 → w.table = t.migrated)

theorem Stage.failed (h : Stage t w) : Concludes t (-1) w :=
    ⟨h, fun zero => absurd zero (by decide)⟩

theorem safe_adds (adds : Adds rest p) (resumable : Resumable t w)
    (next : missing w.table.columns = rest) :
    (schemaSem β).Safe (fun w _ => Stage t w) p w (Concludes t) := by
  induction adds generalizing w with
  | ended => exact ⟨.inl resumable, fun _ => resumable.migrated ▸ (filledBy_self next).symm⟩
  | @column c rest p other _ ih =>
    refine ⟨.inl resumable, ?_⟩
    rintro (_ | _ | _) allowed
    · exact ih (resumable.column next other) (missing_addColumn next)
    · have absent : c ∉ w.table.columns := mem_missing.mp (next ▸ List.mem_cons_self)
      exact absurd (allowed.2 rfl) absent
    · exact Stage.failed (.inl resumable)
  | lastApplied _ ih =>
    refine ⟨.inl resumable, ?_⟩
    rintro (_ | _ | _) allowed
    · refine ⟨.inr (resumable.sever next), ?_⟩
      rintro (_ | _) -
      · exact Stage.failed (.inr (resumable.sever next))
      · exact ih (resumable.lastApplied next) (missing_addColumn next)
    · have absent : .lastAppliedAt ∉ w.table.columns :=
        mem_missing.mp (next ▸ List.mem_cons_self)
      exact absurd (allowed.2 rfl) absent
    · exact Stage.failed (.inl resumable)

theorem safe_initSchema (t : NodesTable β) : (schemaSem β).Safe (fun w _ => Stage t w)
    initSchema ⟨t, []⟩ (Concludes t) := by
  have resumable {done : List SchemaReq} (whole : ¬severed done) : Resumable t ⟨t, done⟩ :=
    ⟨rfl, fun _ => rfl, List.Subset.refl _, whole⟩
  have none : ¬severed [] := by decide
  have one : ¬severed [.createTable] := by decide
  have two : ¬severed [.tableInfo, .createTable] := by decide
  refine ⟨.inl (resumable none), ?_⟩
  rintro (_ | _) -
  · exact Stage.failed (.inl (resumable none))
  refine ⟨.inl (resumable one), ?_⟩
  rintro (_ | columns) allowed
  · exact Stage.failed (.inl (resumable one))
  cases allowed columns rfl
  exact safe_adds (adds_missing t.columns) (resumable two) rfl

theorem Attempt.stage (h : Attempt t done t') : Stage t ⟨t', done⟩ := by
  obtain ⟨p, runs⟩ := h
  have safe := (safe_initSchema t).runs runs
  cases p with
  | done rc => exact safe.1
  | call q next => exact safe.1

theorem Completes.migrated (h : Completes t t') : t' = t.migrated := by
  obtain ⟨done, runs⟩ := h
  exact ((safe_initSchema t).result runs).2 rfl

end Steps

section Runs

variable {t s t' u : NodesTable β} {done : List SchemaReq} {log : List (List SchemaReq)}

/-- What an attempt leaves of what a complete one would make. -/
theorem Attempt.migrated (h : Attempt t done s) :
    s.migrated = if severed done then t.unfilled else t.migrated := by
  rcases h.stage with resumable | cut
  · rw [if_neg resumable.done]
    exact resumable.migrated
  · rw [if_pos cut.done]
    exact cut.migrated

/-- Only one attempt can stop in front of the back-fill. -/
theorem Attempts.absent (h : Attempts t log t') (some : ∃ done ∈ log, severed done) :
    .lastAppliedAt ∉ t.columns := by
  induction h with
  | none => simp at some
  | more attempt _ ih =>
    rcases attempt.stage with resumable | cut
    · obtain ⟨done, member, broken⟩ := some
      rcases List.mem_cons.mp member with rfl | later
      · exact absurd broken resumable.done
      · exact fun present => ih ⟨done, later, broken⟩ (resumable.columns present)
    · exact cut.absent

/-- What a run of attempts leaves of what one complete attempt would make. -/
theorem Attempts.migrated (h : Attempts t log t') :
    t'.migrated = if ∃ done ∈ log, severed done then t.unfilled else t.migrated := by
  induction h with
  | none => simp
  | @more t s t' done log attempt rest ih =>
    rcases attempt.stage with resumable | cut
    · have same : (∃ d ∈ done :: log, severed d) ↔ ∃ d ∈ log, severed d := by
        simp [show ¬severed done from resumable.done]
      simp only [same]
      split at ih
      · rename_i broken
        rw [ih, if_pos broken]
        exact resumable.unfilled (rest.absent broken)
      · rename_i whole
        rw [ih, if_neg whole]
        exact resumable.migrated
    · have whole : ¬∃ d ∈ log, severed d := fun broken => rest.absent broken cut.present
      rw [if_neg whole] at ih
      rw [if_pos ⟨done, List.mem_cons_self, cut.done⟩, ih]
      exact cut.migrated

/-- A row shows whether the back-fill has been done. -/
theorem unfilled_eq_migrated_iff (absent : .lastAppliedAt ∉ t.columns) :
    t.unfilled = t.migrated ↔ ∀ r ∈ t.rows, r.lastUpdated.positive = false := by
  unfold NodesTable.unfilled NodesTable.migrated NodesTable.filledBy
  simp only [NodesTable.mk.injEq, true_and, List.map_inj_left, LegacyRow.mk.injEq]
  refine forall₂_congr fun r _ => ?_
  constructor
  · intro same
    have cell := congrFun same .lastAppliedAt
    rw [if_neg absent, if_neg absent] at cell
    by_contra positive
    rw [Bool.not_eq_false] at positive
    rw [backfilled, if_pos ⟨rfl, positive⟩] at cell
    rw [← cell] at positive
    contradiction
  · intro zero
    funext c
    split
    · rfl
    · rw [backfilled, zero, if_neg (by simp)]

/-- Nothing is left to do for a table with all columns. -/
theorem migrated_migrated (t : NodesTable β) : missing t.migrated.columns = [] := by
  unfold NodesTable.migrated NodesTable.filledBy
  rw [List.eq_nil_iff_forall_not_mem]
  intro c lacking
  have absent := mem_missing.mp lacking
  rw [List.mem_append, not_or, mem_missing] at absent
  exact absent.2 absent.1

theorem adds_nil {p : Schema Int} (h : Adds [] p) : p = pure 0 := by
  cases h
  rfl

/-- Such a table is left alone. -/
theorem Attempt.idle (h : Attempt t done s) (whole : missing t.columns = []) : s = t := by
  have safe : (schemaSem β).Safe (fun w _ => w.table = t) initSchema ⟨t, []⟩
      fun _ w => w.table = t := by
    refine ⟨rfl, ?_⟩
    rintro (_ | _) -
    · rfl
    refine ⟨rfl, ?_⟩
    rintro (_ | columns) allowed
    · rfl
    cases allowed columns rfl
    have adds := adds_missing t.columns
    rw [whole] at adds
    show (schemaSem β).Safe _ (addColumns t.columns) _ _
    rw [adds_nil adds]
    rfl
  obtain ⟨p, runs⟩ := h
  have later := safe.runs runs
  cases p with
  | done rc => exact later
  | call q next => exact later.1

theorem exists_runs_adds {w : Migration β} {rest : List Column} {p : Schema Int}
    (adds : Adds rest p) (next : missing w.table.columns = rest) :
    ∃ w', (schemaSem β).Runs p w (.done 0) w' := by
  induction adds generalizing w with
  | ended => exact ⟨w, .refl _ _⟩
  | @column c rest p _ _ ih =>
    have absent : c ∉ w.table.columns := mem_missing.mp (next ▸ List.mem_cons_self)
    obtain ⟨w', runs⟩ :=
      ih (w := ⟨w.table.addColumn c, _ :: w.done⟩) (missing_addColumn next)
    have added : (schemaSem β).allowed w (.addColumn c) Added.ok := ⟨fun _ => absent, by simp⟩
    exact ⟨w', Semantics.Runs.head _ added runs⟩
  | lastApplied _ ih =>
    have absent : .lastAppliedAt ∉ w.table.columns := mem_missing.mp (next ▸ List.mem_cons_self)
    obtain ⟨w', runs⟩ := ih
      (w := ⟨(w.table.addColumn .lastAppliedAt).backfill, _ :: _ :: w.done⟩)
        (missing_addColumn next)
    have added : (schemaSem β).allowed w (.addColumn .lastAppliedAt) Added.ok :=
      ⟨fun _ => absent, by simp⟩
    have filled : (schemaSem β).allowed ⟨w.table.addColumn .lastAppliedAt,
      .addColumn .lastAppliedAt :: w.done⟩ .backfill true := trivial
    exact ⟨w', Semantics.Runs.head _ added (Semantics.Runs.head _ filled runs)⟩

/-- A complete attempt is possible on every table. -/
theorem completes (t : NodesTable β) : Completes t t.migrated := by
  obtain ⟨w', runs⟩ := exists_runs_adds (adds_missing t.columns)
    (w := ⟨t, [.tableInfo, .createTable]⟩) rfl
  have created : (schemaSem β).allowed ⟨t, []⟩ .createTable true := trivial
  have listed : (schemaSem β).allowed ⟨t, [.createTable]⟩ .tableInfo (some t.columns) := by
    rintro _ ⟨⟩
    rfl
  have whole : Completes t w'.table :=
    ⟨w'.done, Semantics.Runs.head _ created (Semantics.Runs.head _ listed runs)⟩
  exact whole.migrated ▸ whole

/-- What a complete attempt makes of `u` is what it should have made of `t`, and
nothing changes it any more. -/
structure Converged (t u : NodesTable β) : Prop where
  single : ∀ u₀, Completes t u₀ → u = u₀
  migrated : u = t.migrated
  idle : ∀ done u', Attempt u done u' → u' = u

/-- Attempts that stop anywhere and a complete one make what a complete one
alone makes, unless there is something to back-fill and one of them added the
column and stopped right there. -/
theorem migration_restarts_iff (attempts : Attempts t log t') (whole : Completes t' u) :
    Converged t u ↔ .lastAppliedAt ∈ t.columns ∨
      (∀ r ∈ t.rows, r.lastUpdated.positive = false) ∨ ∀ done ∈ log, ¬severed done := by
  have left := attempts.migrated
  rw [← whole.migrated] at left
  have good : Converged t u ↔ u = t.migrated := by
    refine ⟨Converged.migrated,
      fun same => ⟨fun u₀ alone => ?_, same, fun done u' again => ?_⟩⟩
    · rw [same, alone.migrated]
    · exact again.idle (same ▸ migrated_migrated t)
  rw [good, left]
  by_cases broken : ∃ done ∈ log, severed done
  · have absent := attempts.absent broken
    rw [if_pos broken, unfilled_eq_migrated_iff absent]
    constructor
    · exact fun none => .inr (.inl none)
    · rintro (present | none | none)
      · exact absurd present absent
      · exact none
      · obtain ⟨done, member, cut⟩ := broken
        exact absurd cut (none done member)
  · rw [if_neg broken]
    refine ⟨fun _ => .inr (.inr fun done member cut => broken ⟨done, member, cut⟩),
      fun _ => rfl⟩

end Runs

section Samples

/-- Every statement succeeds. -/
def schemaAnswer (w : Migration β) : (q : SchemaReq) → SchemaResp q
  | .createTable | .backfill => true
  | .tableInfo => some w.table.columns
  | .addColumn c => if c ∈ w.table.columns then .duplicate else .ok

theorem schemaAnswer_allowed (w : Migration β) (q : SchemaReq) :
    schemaAllowed w q (schemaAnswer w q) := by
  cases q with
  | tableInfo =>
    rintro _ ⟨⟩
    rfl
  | addColumn c =>
    by_cases present : c ∈ w.table.columns <;> simp [schemaAllowed, schemaAnswer, present]
  | _ => trivial

/-- An attempt that stops behind its first statements. -/
def stopping (steps : Nat) (t : NodesTable β) : Schema Int × Migration β :=
  Semantics.playFor Migration.after schemaAnswer steps initSchema ⟨t, []⟩

theorem attempt_stopping (steps : Nat) (t : NodesTable β) :
    Attempt t (stopping steps t).2.done (stopping steps t).2.table :=
  ⟨_, Semantics.runs_playFor (S := schemaSem β) schemaAnswer_allowed steps initSchema
    ⟨t, []⟩⟩

/-- A table of the first version, with one node. -/
def oldTable : NodesTable Unit := ⟨[], [⟨(), .integer 1700000000, fun _ => .null⟩]⟩

/-- A crash in front of the back-fill leaves the node at zero for good. -/
theorem backfill_lost : ∃ log t' u, Attempts oldTable log t' ∧ Completes t' u ∧
    u.rows.map (fun r => r.cells .lastAppliedAt) = [.integer 0] ∧
    oldTable.migrated.rows.map (fun r => r.cells .lastAppliedAt) = [.integer 1700000000] ∧
    ¬Converged oldTable u := by
  have lost : (stopping 4 oldTable).2.table.migrated.rows.map (fun r => r.cells .lastAppliedAt) =
      [.integer 0] := by decide
  have wanted : oldTable.migrated.rows.map (fun r => r.cells .lastAppliedAt) =
      [.integer 1700000000] := by decide
  refine ⟨_, _, _, .more (attempt_stopping 4 _) (.none _), completes _, lost, wanted, ?_⟩
  intro converged
  rw [converged.migrated, wanted] at lost
  revert lost
  decide

/-- A crash behind it does no harm. -/
theorem migration_restarts_iff_behind : ∃ log t' u, Attempts oldTable log t' ∧
    Completes t' u ∧
    Converged oldTable u := by
  have attempts := Attempts.more (attempt_stopping 5 oldTable) (.none _)
  refine ⟨_, _, _, attempts, completes _, ?_⟩
  refine (migration_restarts_iff attempts (completes _)).mpr (.inr (.inr ?_))
  have done : (stopping 5 oldTable).2.done =
      [.backfill, .addColumn .lastAppliedAt, .addColumn .lifetime, .tableInfo, .createTable] := by
    decide
  rw [done]
  decide

end Samples

end Tumgrd
