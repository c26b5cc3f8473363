import Tumgrd.Columns
import Tumgrd.Conduct
import Tumgrd.Effect.Abstraction

/-! The cells behind a row. SQLite keeps any integer and any text, of which
`row_to_node` reads the low 32 bits and what fits the field; the `WHERE` clauses
of the daemon look at what is kept. -/
namespace Tumgrd

open Effect Program Semantics

section Raw

/-- `sqlite3_column_int`. -/
def columnInt (value : Int) : Int32 := .ofInt value

/-- `column_text` into the field of a key. -/
def columnKey (column : Option Str) : Option (Buf 129) := column.map .copy

/-- A row as it is kept, beside the row that is read from it. -/
structure RawRow where
  row : Row
  rotationState : Int
  xorKey : Option Str
  xorKeyPending : Option Str
  readsState : row.rotationState = columnInt rotationState
  readsKey : row.xorKey = columnKey xorKey
  readsPending : row.xorKeyPending = columnKey xorKeyPending

/-- `Guard.holds`, of the integer that is kept. -/
def Guard.matches : Guard → Int → Bool
  | .any, _ => true
  | .zero, state => state = 0
  | .nonzero, state => state ≠ 0
  | .pending, state => state = 1 || state = 2

theorem columnKey_text (key : Buf 129) : columnKey (some key.text) = some key :=
  congrArg some (Buf.copy_text key)

theorem columnInt_toInt (state : Int32) : columnInt state.toInt = state := Int32.ofInt_toInt state

namespace RawRow

def assign (c : RawRow) (set : Assign) : RawRow where
  row := c.row.assign set
  rotationState := (set.rotationState.map Int32.toInt).getD c.rotationState
  xorKey := (set.xorKey.map Buf.text).or c.xorKey
  xorKeyPending := (set.xorKeyPending.map Buf.text).or c.xorKeyPending
  readsState := by
    unfold Row.assign
    cases set.rotationState with
    | none => exact c.readsState
    | some state => exact (columnInt_toInt state).symm
  readsKey := by
    unfold Row.assign
    cases set.xorKey with
    | none => exact c.readsKey
    | some key => exact (columnKey_text key).symm
  readsPending := by
    unfold Row.assign
    cases set.xorKeyPending with
    | none => exact c.readsPending
    | some key => exact (columnKey_text key).symm

def update (set : Assign) (guard : Guard) (c : RawRow) : RawRow :=
  if guard.matches c.rotationState then c.assign set else c

def key (c : RawRow) : Key := c.row.key

def slot (c : RawRow) : Slot := c.row.slot

theorem key_update (set : Assign) (guard : Guard) (c : RawRow) :
    (c.update set guard).key = c.key := by
  unfold update
  split <;> rfl

theorem slot_update (set : Assign) (guard : Guard) (c : RawRow) :
    (c.update set guard).slot = c.slot := by
  unfold update
  split <;> rfl

/-- The key is read as it is kept. -/
def Whole (c : RawRow) : Prop := (c.xorKey.getD []).length < 129

end RawRow

abbrev RawTable := Keyed RawRow.key RawRow.slot

/-- The rows that are read from a table. -/
def RawTable.read (t : RawTable) : Table where
  rows := t.rows.map RawRow.row
  keys := by
    rw [List.map_map]
    exact t.keys
  slots := by
    rw [List.map_map]
    exact t.slots

def RawTable.update (t : RawTable) (k : Key) (set : Assign) (guard : Guard) : RawTable :=
  t.updateAt k (RawRow.update set guard) (RawRow.key_update set guard)
    (RawRow.slot_update set guard)

/-- The world, with the cells behind its table. -/
structure Disk where
  cells : RawTable
  trace : List Event
  timedOut : Bool
  booting : Bool

namespace Disk

/-- What the daemon sees of it. -/
def read (w : Disk) : World := ⟨w.cells.read, w.trace, w.timedOut, w.booting⟩

def cellsAfter (t : RawTable) : (q : Req) → Resp q → RawTable
  | .sql (.update k set guard), .ok _ _ => t.update k set guard
  | _, _ => t

def after (w : Disk) (q : Req) (r : Resp q) : Disk where
  cells := cellsAfter w.cells q r
  trace := ⟨q, r⟩ :: w.trace
  timedOut := World.timedOutAfter w.timedOut q r
  booting := World.bootingAfter w.booting q

/-- The answers to the requests of a call. It writes by updates alone; of the
other statements that write, only the failure is described. -/
def allowed (w : Disk) : (q : Req) → Resp q → Prop
  | .sql (.update k _ guard), reply =>
      reply = .ok [] (w.cells.countAt k fun c => guard.matches c.rotationState) ∨ reply = .error
  | .sql (.upsert _ _), reply | .sql (.delete _), reply => reply = .error
  | q, r => Tumgrd.allowed True w.read q r

end Disk

abbrev diskSem : Semantics Req Resp Disk := ⟨Disk.allowed, Disk.after⟩

end Raw

section Columns

/-- The values of a row whose rotation columns hold anything. -/
def RawRow.columns (c : RawRow) : Cells := fun column =>
  if column = .rotationState then .integer c.rotationState
  else if column = .xorKey then c.xorKey.elim .null .text
  else if column = .xorKeyPending then c.xorKeyPending.elim .null .text
  else c.row.cells column

theorem columnText_key (column : Option Str) :
    (column.elim Cell.null Cell.text).columnText = columnText (columnKey column) := by
  cases column <;> rfl

/-- `row_to_node` makes of what is kept the node of the row that is read. -/
theorem rowToNodeAt_columns (c : RawRow) (now : Int) :
    rowToNodeAt now (getColumns.map c.columns) = c.row.toNode now := by
  rw [← rowToNodeAt_get]
  have state : Int32.ofInt (c.columns .rotationState).columnInt =
      Int32.ofInt (c.row.cells .rotationState).columnInt :=
    c.readsState.symm.trans (Int32.ofInt_toInt _).symm
  have key : ((c.columns .xorKey).columnText : Buf 129) = (c.row.cells .xorKey).columnText := by
    refine (columnText_key c.xorKey).trans ?_
    rw [← c.readsKey]
    exact (columnText_ofText _).symm
  have pending : ((c.columns .xorKeyPending).columnText : Buf 129) =
      (c.row.cells .xorKeyPending).columnText := by
    refine (columnText_key c.xorKeyPending).trans ?_
    rw [← c.readsPending]
    exact (columnText_ofText _).symm
  simp only [rowToNodeAt, getColumns, List.map_cons, List.getD_cons_zero,
    List.getD_cons_succ, state,
    key, pending]
  rfl

end Columns

section Blind

/-- To a call, an update that finds no row is one that fails. -/
def Req.Alike : (q : Req) → Resp q → Resp q → Prop
  | .sql (.update _ _ guard), r, r' => r = r' ∨ guard ≠ .any ∧ r = .ok [] 0 ∧ r' = .error
  | _, r, r' => r = r'

abbrev Unseeing {α : Type} (p : Prog α) : Prop := p.Blind Req.Alike

variable {cfg : Config} {n : Node} {l : Locals} {now : Int} {issue : Issue}

theorem blind_time : Unseeing time := blind_perform fun _ _ same => same

theorem blind_randomKey : Unseeing randomKey := blind_perform fun _ _ same => same

theorem blind_detect {url ipVersion : Str} : Unseeing (detect url ipVersion) :=
  blind_perform fun _ _ same => same

theorem blind_exec {call : Invocation} : Unseeing (exec issue call) :=
  blind_perform fun _ _ same => same

theorem blind_readTimedOut : Unseeing readTimedOut := blind_perform fun _ _ same => same

theorem blind_log {level : Level} {text : Str} : Unseeing (log level text) :=
  blind_perform fun _ _ same => same

theorem blind_report {what : Report} : Unseeing (report what) := blind_perform fun _ _ same => same

theorem blind_runTuctlScript {script marker : Str} :
    Unseeing (runTuctlScript issue script marker) := by
  refine .bind blind_log fun _ => .bind blind_exec fun result => .bind blind_log fun _ => ?_
  split
  · exact blind_pure _
  split
  · exact .bind blind_log fun _ => blind_pure _
  · exact blind_pure _

theorem blind_runKtuctl {argv : List Str} : Unseeing (runKtuctl issue argv) :=
  .bind blind_log fun _ => .bind blind_exec fun _ => .bind blind_log fun _ => blind_pure _

theorem blind_serverAdd {ip : Str} : Unseeing (serverAdd n cfg ip) := by
  have detected : Unseeing (serverAddDetected n ip) :=
    .bind blind_log fun _ => blind_runTuctlScript
  unfold serverAdd
  split
  · exact blind_pure _
  split
  · refine .bind blind_log fun _ => .bind blind_runTuctlScript fun rc => ?_
    split
    · exact blind_pure _
    refine .bind blind_readTimedOut fun late => ?_
    split
    · exact .bind blind_log fun _ => blind_pure _
    · exact .bind blind_log fun _ => detected
  · exact detected

theorem blind_resetLocalClient : Unseeing (resetLocalClient n) := by
  refine .bind blind_runKtuctl fun _ => .bind blind_readTimedOut fun late => ?_
  split
  · exact blind_pure _
  · exact blind_runKtuctl

theorem blind_dbUpdateOne {k : Key} {set : Assign} {guard : Guard} :
    Unseeing (dbUpdateOne k set guard) := by
  refine ⟨?_, fun reply => ?_⟩
  · rintro _ _ (rfl | ⟨-, rfl, rfl⟩) <;> rfl
  · cases reply <;> exact blind_pure _

theorem blind_markRuntime {ip : Buf 64} {status : Buf 32} : Unseeing (markRuntime n ip status) := by
  refine .bind blind_time fun now => ⟨?_, fun reply => ?_⟩
  · rintro _ _ (rfl | ⟨other, -⟩)
    · rfl
    · exact absurd rfl other
  · cases reply <;> exact blind_pure _

/-- A stage that goes on when its statement succeeded. -/
theorem blind_unless {p : Prog Int} {failed : Int → Prop} [DecidablePred failed]
    {err : Int → Flow}
    {f : Locals} (first : Unseeing p) :
    Unseeing (p >>= fun rc => if failed rc then pure (err rc) else pure (.next f)) := by
  refine first.bind fun rc => ?_
  split <;> exact blind_pure _

theorem blind_andThen {p : Prog Flow} {f : Locals → Prog Flow} (first : Unseeing p)
    (rest : ∀ l, Unseeing (f l)) : Unseeing (andThen p f) := by
  refine first.bind fun flow => ?_
  cases flow with
  | next l => exact rest l
  | skip l => exact blind_pure _
  | fail l err => exact blind_pure _

theorem blind_repairRotation {damaged : Node → Bool} :
    Unseeing (repairRotation cfg now damaged l) := by
  unfold repairRotation
  split
  · exact blind_pure _
  split
  · refine .bind blind_randomKey fun key => ?_
    cases key with
    | none => exact blind_pure _
    | some key => exact blind_unless blind_dbUpdateOne
  · exact blind_unless blind_dbUpdateOne

theorem blind_checkExpiry : Unseeing (checkExpiry cfg now l) := by
  have begins (l : Locals) : Unseeing (beginRotation cfg now l) := by
    unfold beginRotation
    split
    · refine .bind blind_randomKey fun key => ?_
      cases key with
      | none => exact blind_pure _
      | some key => exact blind_unless blind_dbUpdateOne
    · exact blind_pure _
  unfold checkExpiry
  dsimp only
  repeat' split
  all_goals first | exact begins _ | exact blind_pure _

theorem blind_applyServer : Unseeing (applyServer cfg l) := by
  refine .bind blind_serverAdd fun rc => ?_
  split
  · exact blind_pure _
  dsimp only
  split
  · refine blind_unless ?_
    unfold dbUpdateRotationState
    split
    · exact blind_pure _
    · exact blind_dbUpdateOne
  · exact blind_pure _

theorem blind_recordApplied : Unseeing (recordApplied now l) := by
  unfold recordApplied
  dsimp only
  split
  · exact blind_unless blind_dbUpdateOne
  split
  · exact blind_unless blind_dbUpdateOne
  · exact blind_pure _

theorem blind_finishReconcile (flow : Flow) : Unseeing (finishReconcile flow) := by
  cases flow with
  | next l => exact .bind blind_report fun _ => blind_pure _
  | skip l => exact .bind blind_report fun _ => .bind blind_report fun _ => blind_pure _
  | fail l err => exact .bind blind_markRuntime fun _ => .bind blind_report fun _ => blind_pure _

theorem blind_reconcileOne {force : Bool} : Unseeing (reconcileOne cfg n force) := by
  refine .bind blind_report fun _ => .bind blind_time fun now =>
    .bind (blind_andThen ?_ fun l => ?_) blind_finishReconcile
  · refine blind_andThen blind_repairRotation fun l => blind_andThen blind_repairRotation fun l =>
      blind_andThen blind_checkExpiry fun l => blind_andThen ?_ fun l => ?_
    · refine .bind blind_detect fun found => ?_
      dsimp only
      split <;> exact blind_pure _
    · unfold skipUnchanged
      split <;> exact blind_pure _
  · refine blind_andThen blind_applyServer fun l => blind_andThen ?_ fun l =>
      blind_andThen ?_ fun l => blind_recordApplied
    · exact blind_unless blind_resetLocalClient
    · exact blind_unless blind_markRuntime

end Blind

section Tracking

/-- An event, whatever a statement answered. -/
def Event.blur : Event → Event
  | ⟨.sql s, _⟩ => ⟨.sql s, .error⟩
  | e => e

/-- What has become of the cells of the node of a call. -/
structure RawRow.Stays (c : Call) (cell start : RawRow) : Prop where
  state : cell.rotationState = start.rotationState ∨
    c.node.rotationState ≠ rotationNone ∧ cell.rotationState = cell.row.rotationState.toInt
  xorKey : cell.xorKey = start.xorKey ∨ c.node.damaged = true ∧ c.node.rotates c.cfg = true

/-- A world that is to a call what the world with the cells is. -/
structure Tracks (c : Call) (start : RawRow) (w : Disk) (u : World) : Prop where
  table : u.table = w.cells.read
  timedOut : u.timedOut = w.timedOut
  trace : u.trace.map Event.blur = w.trace.map Event.blur
  cell : ∃ cell, w.cells.find? c.key = some cell ∧ cell.Stays c start

variable {c : Call} {start cell : RawRow} {w : Disk} {u : World} {k : Key} {set : Assign}
  {guard : Guard}

theorem RawTable.find?_read (t : RawTable) (k : Key) :
    t.read.find? k = (t.find? k).map RawRow.row := by
  obtain ⟨rows, keys, slots⟩ := t
  change (rows.map RawRow.row).find? _ = (rows.find? _).map RawRow.row
  rw [List.find?_map]
  rfl

theorem RawRow.row_update_of_agree
    (agree : guard.matches cell.rotationState = guard.holds cell.row.rotationState) :
    (cell.update set guard).row = cell.row.update set guard := by
  unfold RawRow.update Row.update
  rw [agree]
  split <;> rfl

/-- Where the integer and what is read of it meet the `WHERE` clause alike, the
statement does to the rows that are read what it does to the cells. -/
theorem RawTable.read_update (t : RawTable) (stored : t.find? k = some cell)
    (agree : guard.matches cell.rotationState = guard.holds cell.row.rotationState) :
    (t.update k set guard).read = (Stmt.update k set guard).effect t.read := by
  refine Keyed.ext ?_
  change ((t.rows.map fun s => if s.key = k then s.update set guard else s).map RawRow.row) =
    (t.rows.map RawRow.row).map fun r => if r.key = k then r.update set guard else r
  rw [List.map_map, List.map_map]
  refine List.map_congr_left fun s mem => ?_
  rw [Function.comp_apply, Function.comp_apply]
  by_cases own : s.key = k
  · have same : s = cell :=
      Option.some.inj ((Keyed.find?_eq_some.mpr ⟨mem, own⟩).symm.trans stored)
    rw [same] at own ⊢
    rw [if_pos own, if_pos (show cell.row.key = k from own), RawRow.row_update_of_agree agree]
  · rw [if_neg own, if_neg (show ¬s.row.key = k from own)]

theorem RawTable.update_refused (t : RawTable) (stored : t.find? k = some cell)
    (refused : guard.matches cell.rotationState = false) : t.update k set guard = t := by
  unfold RawTable.update
  refine Keyed.updateAt_eq_self fun s hs => ?_
  cases stored.symm.trans hs
  simp [RawRow.update, refused]

theorem RawTable.find?_update (t : RawTable) (stored : t.find? k = some cell) :
    (t.update k set guard).find? k = some (cell.update set guard) := by
  unfold RawTable.update
  rw [Keyed.find?_updateAt_self, stored]
  rfl

theorem RawTable.find?_update_of_ne {k' : Key} (t : RawTable) (other : k' ≠ k) :
    (t.update k set guard).find? k' = t.find? k' :=
  Keyed.find?_updateAt_of_ne other

/-- Whatever a statement answers, a blurred trace is the same behind it. -/
theorem Tracks.blur (tracks : Tracks c start w u) (reply reply' : SqlReply) :
    (u.after (.sql (.update c.key set guard)) reply').trace.map Event.blur =
      (w.after (.sql (.update c.key set guard)) reply).trace.map Event.blur :=
  congrArg (List.cons _) tracks.trace

theorem Tracks.find (tracks : Tracks c start w u) (stored : w.cells.find? c.key = some cell) :
    u.table.find? c.key = some cell.row := by
  rw [tracks.table, RawTable.find?_read, stored]
  rfl

/-- A statement of the call that finds its row changes what is read of it as well. -/
theorem Tracks.updated (tracks : Tracks c start w u) (stored : w.cells.find? c.key = some cell)
    (matched : guard.matches cell.rotationState = true)
    (holds : guard.holds cell.row.rotationState = true) (kept : (cell.assign set).Stays c start) :
    Tumgrd.allowed True u (.sql (.update c.key set guard)) (.ok [] 1) ∧
      Tracks c start (w.after (.sql (.update c.key set guard)) (.ok [] 1))
        (u.after (.sql (.update c.key set guard)) (.ok [] 1)) := by
  refine ⟨.inl ?_, ?_, tracks.timedOut, tracks.blur _ _, _, w.cells.find?_update stored, ?_⟩
  · change _ = SqlReply.ok [] (u.table.countAt c.key fun r => guard.holds r.rotationState)
    rw [Keyed.countAt_eq, tracks.find stored]
    simp [holds]
  · change (Stmt.update c.key set guard).effect u.table = _
    rw [tracks.table]
    exact (w.cells.read_update stored (matched.trans holds.symm)).symm
  · rw [RawRow.update, if_pos matched]
    exact kept

/-- One that finds no row has failed, where what is read should be found. -/
theorem Tracks.unmatched (tracks : Tracks c start w u)
    (stored : w.cells.find? c.key = some cell) (stays : cell.Stays c start)
    (refused : guard.matches cell.rotationState = false) :
    ∃ reply', Req.Alike (.sql (.update c.key set guard)) (.ok [] 0) reply' ∧
      Tumgrd.allowed True u (.sql (.update c.key set guard)) reply' ∧
      Tracks c start (w.after (.sql (.update c.key set guard)) (.ok [] 0))
        (u.after (.sql (.update c.key set guard)) reply') := by
  have same : (w.after (.sql (.update c.key set guard)) (.ok [] 0)).cells = w.cells :=
    w.cells.update_refused stored refused
  have kept (reply' : SqlReply)
      (table : (u.after (.sql (.update c.key set guard)) reply').table = u.table) :
      Tracks c start (w.after (.sql (.update c.key set guard)) (.ok [] 0))
        (u.after (.sql (.update c.key set guard)) reply') :=
    ⟨by rw [same, table, tracks.table], tracks.timedOut, tracks.blur _ _, cell,
      by rw [same]; exact stored, stays⟩
  cases holds : guard.holds cell.row.rotationState with
  | true =>
    have guarded : guard ≠ .any := by
      rintro rfl
      contradiction
    exact ⟨.error, .inr ⟨guarded, rfl, rfl⟩, .inr ⟨trivial, rfl⟩, kept _ rfl⟩
  | false =>
    refine ⟨.ok [] 0, .inl rfl, .inl ?_, kept _ (effect_refused (tracks.find stored) holds)⟩
    change _ = SqlReply.ok [] (u.table.countAt c.key fun r => guard.holds r.rotationState)
    rw [Keyed.countAt_eq, tracks.find stored]
    simp [holds]

/-- A statement of the call whose `WHERE` clause never holds of the cells alone. -/
theorem Tracks.update (tracks : Tracks c start w u) {reply : SqlReply}
    (met : ∀ cell, w.cells.find? c.key = some cell → cell.Stays c start →
      guard.matches cell.rotationState = true →
        guard.holds cell.row.rotationState = true ∧ (cell.assign set).Stays c start)
    (allowed : w.allowed (.sql (.update c.key set guard)) reply) :
    ∃ reply', Req.Alike (.sql (.update c.key set guard)) reply reply' ∧
      Tumgrd.allowed True u (.sql (.update c.key set guard)) reply' ∧
      Tracks c start (w.after (.sql (.update c.key set guard)) reply)
        (u.after (.sql (.update c.key set guard)) reply') := by
  obtain ⟨cell, stored, stays⟩ := tracks.cell
  rcases allowed with rfl | rfl
  · rw [Keyed.countAt_eq, stored, Option.elim_some]
    cases matched : guard.matches cell.rotationState with
    | true =>
      obtain ⟨holds, kept⟩ := met cell stored stays matched
      exact ⟨.ok [] 1, .inl rfl, tracks.updated stored matched holds kept⟩
    | false => exact tracks.unmatched stored stays matched
  · exact ⟨.error, .inl rfl, .inr ⟨trivial, rfl⟩, tracks.table, tracks.timedOut,
      tracks.blur _ _, cell, stored, stays⟩

theorem Tracks.during (tracks : Tracks c start w u) {n : Node} {now : Int} {found : Buf 64}
    (during : During c now n found u) (rotating : n.rotationState ≠ rotationNone) :
    ∀ cell, w.cells.find? c.key = some cell → cell.row.rotationState = n.rotationState := by
  intro cell stored
  obtain ⟨r, hr, linked, -⟩ := during.row
  rw [tracks.table, RawTable.find?_read, stored] at hr
  cases hr
  exact (linked.isFaithful (.inl rotating)).2.rotationState

/-- Cells that no statement has moved are read as at the start. -/
theorem RawRow.Stays.rotating (stays : cell.Stays c start)
    (read : start.row.rotationState = c.node.rotationState)
    (rotating : cell.row.rotationState ≠ rotationNone) :
    c.node.rotationState ≠ rotationNone := by
  rcases stays.state with same | ⟨rotating, -⟩
  · rw [cell.readsState, same, ← start.readsState, read] at rotating
    exact rotating
  · exact rotating

theorem rotating_of_damaged {n : Node} (damaged : n.damaged = true) :
    n.rotationState ≠ rotationNone := by
  intro resting
  simp [Node.damaged, Node.stateInvalid, Node.keyMismatch, resting] at damaged

theorem holds_of_matches_pending {state : Int} (pending : Guard.pending.matches state = true) :
    Guard.pending.holds (columnInt state) = true := by
  simp only [Guard.matches, Bool.or_eq_true, decide_eq_true_eq] at pending
  rcases pending with rfl | rfl <;> decide

/-- A request that leaves the cells alone. -/
theorem Tracks.passive (tracks : Tracks c start w u) {q : Req} {r : Resp q}
    (own : q.Alike r r) (given : Tumgrd.allowed True u q r)
    (cells : (w.after q r).cells = w.cells) (table : (u.after q r).table = u.table) :
    ∃ r', q.Alike r r' ∧ Tumgrd.allowed True u q r' ∧
      Tracks c start (w.after q r) (u.after q r') := by
  refine ⟨r, own, given, ?_, ?_, congrArg (List.cons _) tracks.trace, ?_⟩
  · rw [table, cells, tracks.table]
  · exact congrArg (fun flag => World.timedOutAfter flag q r) tracks.timedOut
  · rw [cells]
    exact tracks.cell

/-- Every request of a call is answered to the rows as it is to the cells. -/
theorem Tracks.step (kept : start.rotationState ≠ 0)
    (read : start.row.rotationState = c.node.rotationState)
    {q : Req} {r : Resp q} (issued : Issued True c u q) (tracks : Tracks c start w u)
    (allowed : w.allowed q r) : ∃ r', q.Alike r r' ∧ Tumgrd.allowed True u q r' ∧
      Tracks c start (w.after q r) (u.after q r') := by
  have passive := tracks.passive (q := q) (r := r)
  cases issued with
  | quiet quiet =>
    cases q with
    | timedOut => exact passive rfl (allowed.trans tracks.timedOut.symm) rfl rfl
    | sql s =>
      cases s with
      | select k =>
        have given : Tumgrd.allowed True u (.sql (.select k)) r := by
          change _ ∨ _
          rw [tracks.table]
          exact allowed
        cases r <;> exact passive rfl given rfl rfl
      | list =>
        have given : Tumgrd.allowed True u (.sql .list) r := by
          change _ ∨ _
          rw [tracks.table]
          exact allowed
        cases r <;> exact passive rfl given rfl rfl
      | _ => contradiction
    | exec issue call => contradiction
    | report what => contradiction
    | _ => exact passive rfl allowed rfl rfl
  | called | skipped | returned => exact passive rfl trivial rfl rfl
  | exec => exact passive rfl allowed rfl rfl
  | replace damaged rotates =>
    refine tracks.update (fun cell _ _ _ => ⟨rfl, ?_, .inr ⟨damaged, rotates⟩⟩) allowed
    exact .inr ⟨rotating_of_damaged damaged, rfl⟩
  | clear damaged =>
    refine tracks.update (fun cell _ stays _ => ⟨rfl, ?_, stays.xorKey⟩) allowed
    exact .inr ⟨rotating_of_damaged damaged, rfl⟩
  | begin _ resting =>
    refine tracks.update (fun cell _ stays zero => ?_) allowed
    rcases stays.state with same | ⟨rotating, -⟩
    · rw [same] at zero
      exact absurd (by simpa [Guard.matches] using zero) kept
    · exact absurd resting rotating
  | promote during pending =>
    have rotating : rotationNone ≠ rotationPendingRemote := by decide
    have follows := tracks.during during (pending ▸ rotating.symm)
    refine tracks.update (fun cell stored stays matched =>
      ⟨?_, .inr ⟨?_, rfl⟩, stays.xorKey⟩) allowed
    · rw [cell.readsState]
      exact holds_of_matches_pending matched
    · refine stays.rotating read ?_
      rw [follows cell stored, pending]
      exact rotating.symm
  | runtime =>
    exact tracks.update (fun cell _ stays _ => ⟨rfl, stays.state, stays.xorKey⟩) allowed
  | complete applying _ rotating =>
    have follows := tracks.during applying.during rotating
    refine tracks.update (fun cell stored stays _ =>
      ⟨?_, .inr ⟨?_, rfl⟩, stays.xorKey⟩) allowed
    · simpa [Guard.holds, follows cell stored] using rotating
    · exact stays.rotating read (follows cell stored ▸ rotating)
  | applied =>
    exact tracks.update (fun cell _ stays _ => ⟨rfl, stays.state, stays.xorKey⟩) allowed

end Tracking

section Rekeying

/-- The key at `k` is one that the daemon wrote, or is read whole for another reason. -/
def Disk.Exact (k : Key) (w : Disk) : Prop :=
  ∃ cell, w.cells.find? k = some cell ∧ cell.xorKey = cell.row.xorKey.map Buf.text

variable {k : Key} {w : Disk} {cfg : Config} {l : Locals} {now : Int} {α : Type}

theorem Disk.Exact.after (exact : w.Exact k) (q : Req) (r : Resp q) : (w.after q r).Exact k := by
  obtain ⟨cell, stored, same⟩ := exact
  have still (cells : (w.after q r).cells = w.cells) : (w.after q r).Exact k :=
    ⟨cell, cells ▸ stored, same⟩
  cases q with
  | sql s =>
    cases s with
    | update k' set guard =>
      cases r with
      | error => exact still rfl
      | ok rows changes =>
        by_cases own : k = k'
        · subst own
          refine ⟨_, w.cells.find?_update stored, ?_⟩
          unfold RawRow.update
          split
          · change (set.xorKey.map Buf.text).or cell.xorKey =
              (set.xorKey.or cell.row.xorKey).map Buf.text
            cases set.xorKey with
            | none => exact same
            | some key => rfl
          · exact same
        · exact ⟨cell, (w.cells.find?_update_of_ne own).trans stored, same⟩
    | _ => cases r <;> exact still rfl
  | _ => exact still rfl

theorem safe_trivial (p : Prog α) (w : Disk) :
    diskSem.Safe (fun _ _ => True) p w fun _ _ => True := by
  induction p generalizing w with
  | done value => trivial
  | call q rest ih => exact ⟨trivial, fun r _ => ih r _⟩

/-- A key that is exact stays so. -/
theorem safe_exact (p : Prog α) (exact : w.Exact k) :
    diskSem.Safe (fun _ _ => True) p w fun _ v => v.Exact k := by
  exact ((safe_trivial p w).invariant exact fun _ q r exact _ _ => exact.after q r).mono
    (fun _ _ _ => trivial) fun _ _ h => h.2

/-- The key is exact, or the call is about to fail. -/
def Flow.Rekeyed (k : Key) (flow : Flow) (v : Disk) : Prop :=
  v.Exact k ∨ ∃ l err, flow = .fail l err ∧ err ≠ 0

theorem safe_andThen_rekeyed {p : Prog Flow} {f : Locals → Prog Flow}
    (first : diskSem.Safe (fun _ _ => True) p w (Flow.Rekeyed k)) :
    diskSem.Safe (fun _ _ => True) (andThen p f) w (Flow.Rekeyed k) := by
  rw [safe_andThen]
  refine first.post fun flow v rekeyed => ?_
  rcases rekeyed with exact | ⟨l, err, rfl, nonzero⟩
  · cases flow with
    | next l => exact (safe_exact (f l) exact).post fun _ _ exact => .inl exact
    | skip l => exact .inl exact
    | fail l err => exact .inl exact
  · exact .inr ⟨l, err, rfl, nonzero⟩

/-- A repair block with a damaged node that rotates writes a key of its own, or fails. -/
theorem safe_repairRotation_rekeyed {damaged : Node → Bool} {cell : RawRow}
    (damage : damaged l.node = true) (rotates : l.node.rotates cfg = true)
    (stored : w.cells.find? l.node.key = some cell) : diskSem.Safe (fun _ _ => True)
      (repairRotation cfg now damaged l) w (Flow.Rekeyed l.node.key) := by
  have fails (err : Int) (nonzero : err ≠ 0) (v : Disk) :
      Flow.Rekeyed l.node.key (.fail l err) v :=
    .inr ⟨l, err, rfl, nonzero⟩
  unfold repairRotation
  rw [if_neg (by simp [damage]), if_pos rotates, safe_bind]
  refine ⟨trivial, fun key _ => ?_⟩
  cases key with
  | none => exact fails (-1) (by decide) _
  | some key =>
    change diskSem.Safe _ (_ >>= _) _ _
    rw [safe_bind]
    refine ⟨trivial, fun reply allowed => ?_⟩
    rcases allowed with rfl | rfl
    · have one : ((w.after .randomKey (some key)).cells.countAt l.node.key fun c =>
          Guard.any.matches c.rotationState) = 1 := by
        rw [Keyed.countAt_eq, show (w.after .randomKey (some key)).cells = w.cells from rfl, stored]
        rfl
      rw [one]
      exact .inl ⟨_, w.cells.find?_update stored, rfl⟩
    · exact fails (-1) (by decide) _

/-- A damaged rotation of a node that rotates is replaced by one with an exact key. -/
theorem safe_reconcileOne_rekeyed {n : Node} {force : Bool} {cell : RawRow}
    (damaged : n.damaged = true)
    (rotates : n.rotates cfg = true) (stored : w.cells.find? n.key = some cell) :
    diskSem.Safe (fun _ _ => True) (reconcileOne cfg n force) w fun result v =>
      result.1 = 0 → v.Exact n.key := by
  have decides (now : Int) (w : Disk) (stored : w.cells.find? n.key = some cell) :
      diskSem.Safe (fun _ _ => True) (decideApply cfg now ⟨n, force, false, .empty, false⟩) w
        (Flow.Rekeyed n.key) := by
    unfold decideApply
    cases invalid : n.stateInvalid with
    | true => exact safe_andThen_rekeyed (safe_repairRotation_rekeyed invalid rotates stored)
    | false =>
      have mismatch : n.keyMismatch = true := by simpa [Node.damaged, invalid] using damaged
      rw [safe_andThen, repairRotation, if_pos (by simp [invalid])]
      exact safe_andThen_rekeyed (safe_repairRotation_rekeyed mismatch rotates stored)
  simp only [reconcileOne, safe_bind]
  refine ⟨trivial, fun _ _ => ⟨trivial, fun now _ => ?_⟩⟩
  change diskSem.Safe _ (andThen _ _) _ _
  refine (safe_andThen_rekeyed (decides now _ ?_)).post fun flow v rekeyed => ?_
  · exact stored
  rcases rekeyed with exact | ⟨l, err, rfl, nonzero⟩
  · exact (safe_exact (finishReconcile flow) exact).post fun _ _ exact _ => exact
  · unfold finishReconcile
    rw [safe_bind]
    refine (safe_trivial _ v).post fun _ _ _ => ⟨trivial, fun _ _ => ?_⟩
    exact fun succeeded => absurd succeeded nonzero

end Rekeying

end Tumgrd
