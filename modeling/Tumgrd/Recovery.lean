import Tumgrd.RawRows
import Tumgrd.Scenario

/-! A call for a row that rotates, whatever is kept in its rotation columns.
When it returns 0, the rotation is over and both ends have the key that is kept,
unless the call cleared a damaged rotation and then skipped the node, or the
integer or the key is not read as it is kept. -/
namespace Tumgrd

open Effect Semantics

/-- The row at `k` has come to rest with a key that this call gave to both ends. -/
def World.Recovered (w : World) (k : Key) : Prop :=
  ∃ r, w.table.find? k = some r ∧ r.rotationState = rotationNone ∧
    columnText r.xorKeyPending = .empty ∧ r.status = some statusActive ∧
    ∃ n ip, n.key = k ∧ n.xorKey = columnText r.xorKey ∧ Installed w.callCommands n ip

/-- The same of what is kept. -/
def Disk.Recovered (w : Disk) (k : Key) : Prop :=
  ∃ cell, w.cells.find? k = some cell ∧ cell.rotationState = 0 ∧
    cell.xorKeyPending.getD [] = [] ∧ cell.row.status = some statusActive ∧
    ∃ n ip, n.key = k ∧ n.xorKey.text = cell.xorKey.getD [] ∧
      Installed w.read.callCommands n ip

/-- The rotation is sound or is replaced, or the node is to be applied anyway. -/
def Applies (cfg : Config) (n : Node) (force : Bool) (now : Int) (ip : Buf 64) : Prop :=
  n.damaged = false ∨ n.rotates cfg = true ∨ force = true ∨ n.wasError = true ∨
    streqcase n.currentIp.text ip.text = false ∨ n.seeds now ∨ n.overdue now

/-- The node is read as rotating; and its damaged rotation is replaced, or its
key is read whole and it is applied. -/
def Heals (cfg : Config) (cell : RawRow) (load : Int) (force : Bool) (now : Int)
    (ip : Buf 64) : Prop :=
  let n := cell.row.toNode load
  n.rotationState ≠ rotationNone ∧
    (n.damaged = true ∧ n.rotates cfg = true ∨ cell.Whole ∧ Applies cfg n force now ip)

variable {sqlMayFail : Prop} {cfg : Config} {force : Bool} {load now : Int} {r : Row} {c : Call}
  {l : Locals} {w w' : World} {result : Int × Node}

/-- A call that applies a rotating node had a reason to. -/
theorem Completed.applies (h : Completed c now l w)
    (rotating : c.node.rotationState ≠ rotationNone) :
    Applies c.cfg c.node c.force now l.detectedIp := by
  obtain ⟨m, t, decided, -⟩ := h.origin
  have needed := h.needed
  generalize hforce : l.force = f at decided
  generalize l.expired = e at decided
  cases decided with
  | unexpired _ resting => exact absurd resting rotating
  | resumed healthy => exact .inl healthy
  | seeded healthy => exact .inl healthy
  | unkeyed healthy => exact .inl healthy
  | begun _ _ healthy => exact .inl healthy
  | replaced _ _ _ rotates => exact .inr (.inl rotates)
  | cleared expired _ damaged rotates expires =>
    rw [needApply, hforce, Bool.or_eq_true, Bool.or_eq_true, Bool.or_eq_true,
      Bool.not_eq_true'] at needed
    rcases needed with ((forced | expired) | changed) | error
    · exact .inr (.inr (.inl forced))
    · exact .inr (.inr (.inr (.inr (.inr (expires.mp expired)))))
    · rw [h.kept] at changed
      exact .inr (.inr (.inr (.inr (.inl changed))))
    · rw [h.kept] at error
      exact .inr (.inr (.inr (.inl error)))

theorem Completed.recovered (h : Completed c now l w)
    (rotating : c.node.rotationState ≠ rotationNone) (faithful : c.faithful = true) :
    w.Recovered c.key := by
  obtain ⟨r, hr, linked, -, status, -⟩ := h.row
  rw [faithful] at linked
  have mirrors := linked.mirrors
  refine ⟨r, hr, mirrors.rotationState.trans h.rotationState, ?_, status, l.node, _, h.key,
    mirrors.xorKey.symm, h.commands⟩
  rw [mirrors.xorKeyPending]
  exact h.xorKeyPending.resolve_right fun resting => rotating resting.1

/-- A skip after a rotating row was read: its rotation was damaged and is
cleared, and nothing else asks for the node to be applied. -/
theorem Ready.not_applies (h : Ready c now l w) (unneeded : needApply l = false)
    (rotating : c.node.rotationState ≠ rotationNone) :
    ¬Applies c.cfg c.node c.force now l.detectedIp := by
  have decided := h.decided
  rw [needApply, Bool.or_eq_false_iff, Bool.or_eq_false_iff, Bool.not_eq_false'] at unneeded
  obtain ⟨⟨unforced, same⟩, clean⟩ := unneeded
  generalize l.node = m at decided same clean
  generalize l.force = f at decided unforced
  generalize l.expired = e at decided
  generalize w.table = t at decided
  cases decided with
  | unexpired _ resting => exact absurd resting rotating
  | resumed => contradiction
  | seeded => contradiction
  | unkeyed => contradiction
  | begun => contradiction
  | replaced => contradiction
  | cleared expired _ damaged rotates expires =>
    obtain ⟨notForced, notExpired⟩ := Bool.or_eq_false_iff.mp unforced
    rintro (healthy | keyed | forced | error | changed | seeds | overdue)
    · simp [damaged] at healthy
    · simp [rotates] at keyed
    · simp [notForced] at forced
    · exact absurd (clean.symm.trans error) Bool.false_ne_true
    · exact absurd (changed.symm.trans same) Bool.false_ne_true
    · simp [expires.mpr (.inl seeds)] at notExpired
    · simp [expires.mpr (.inr overdue)] at notExpired

/-- What a call that returned 0 has detected decides, with its arguments and its
reading of the clock, whether it recovered its row. -/
theorem Outcome.recovered_iff (h : Outcome sqlMayFail c now result w) (succeeded : result.1 = 0)
    (faithful : c.faithful = true) :
    ∃ url ipVersion ip, ⟨.detect url ipVersion, ⟨true, ip⟩⟩ ∈ w.callTrace ∧
      (c.node.rotationState ≠ rotationNone →
        (w.Recovered c.key ↔ Applies c.cfg c.node c.force now ip)) := by
  cases h with
  | skipped ready unneeded table commands callCommands callTrace =>
    obtain ⟨url, ipVersion, found⟩ := ready.detection
    refine ⟨url, ipVersion, _, callTrace.subset found, fun rotating =>
      iff_of_false ?_ (ready.not_applies unneeded rotating)⟩
    rintro ⟨r, -, -, -, -, n, ip, -, -, add, del, rest, installed, -⟩
    rw [callCommands, ready.idle] at installed
    contradiction
  | applied completed =>
    obtain ⟨url, ipVersion, found⟩ := completed.found
    exact ⟨url, ipVersion, _, found, fun rotating =>
      iff_of_true (completed.recovered rotating faithful) (completed.applies rotating)⟩
  | failed nonzero => contradiction

section Reading

variable {u : World} {w w' : Disk} {k : Key} {cell start : RawRow} {n : Node}

theorem callTrace_blur (u : World) :
    u.callTrace.map Event.blur = (u.trace.map Event.blur).takeWhile fun e => !e.req.isCall := by
  have same : (fun e : Event => !e.blur.req.isCall) = fun e => !e.req.isCall := by
    funext ⟨q, r⟩
    cases q <;> rfl
  rw [List.takeWhile_map]
  exact congrArg (fun p => (u.trace.takeWhile p).map Event.blur) same.symm

/-- What a call did, it did before the cells as well, up to the answers of statements. -/
theorem Tracks.callTrace (tracks : Tracks c start w u) :
    u.callTrace.map Event.blur = w.read.callTrace.map Event.blur := by
  rw [callTrace_blur, callTrace_blur]
  exact congrArg (List.takeWhile _) tracks.trace

theorem Tracks.callCommands (tracks : Tracks c start w u) :
    u.callCommands = w.read.callCommands := by
  have same (trace : List Event) :
      trace.filterMap Event.command? = (trace.map Event.blur).filterMap Event.command? := by
    rw [List.filterMap_map]
    congr 1
    funext ⟨q, r⟩
    cases q <;> rfl
  unfold World.callCommands
  rw [same, tracks.callTrace, ← same]

/-- Only statements are blurred. -/
theorem eq_of_blur {e e' : Event} (blurred : e'.blur = e)
    (other : ∀ s, e.req ≠ .sql s) : e' = e := by
  obtain ⟨q, r⟩ := e'
  cases q with
  | sql s => exact absurd (congrArg Event.req blurred).symm (other s)
  | _ => exact blurred

theorem blur_eq {e : Event} (other : ∀ s, e.req ≠ .sql s) : e.blur = e := by
  obtain ⟨q, r⟩ := e
  cases q with
  | sql s => exact absurd rfl (other s)
  | _ => rfl

theorem Tracks.mem_callTrace (tracks : Tracks c start w u) {e : Event}
    (other : ∀ s, e.req ≠ .sql s)
    (mem : e ∈ u.callTrace) : e ∈ w.read.callTrace := by
  have found : e ∈ w.read.callTrace.map Event.blur := by
    rw [← tracks.callTrace, ← blur_eq other]
    exact List.mem_map_of_mem mem
  obtain ⟨e', mem', blurred⟩ := List.mem_map.mp found
  exact eq_of_blur blurred other ▸ mem'

theorem Tracks.getLast?_callTrace (tracks : Tracks c start w u) {e : Event}
    (other : ∀ s, e.req ≠ .sql s) (last : u.callTrace.getLast? = some e) :
    w.read.callTrace.getLast? = some e := by
  have found : (w.read.callTrace.map Event.blur).getLast? = some e := by
    rw [← tracks.callTrace, List.getLast?_map, last, Option.map_some, blur_eq other]
  rw [List.getLast?_map] at found
  obtain ⟨e', last', blurred⟩ := Option.map_eq_some_iff.mp found
  rw [last', eq_of_blur blurred other]

/-- A key that is read whole is read as it is kept. -/
theorem RawRow.Whole.text (whole : cell.Whole) :
    (columnText cell.row.xorKey).text = cell.xorKey.getD [] := by
  unfold RawRow.Whole at whole
  rw [cell.readsKey]
  cases kept : cell.xorKey with
  | none => rfl
  | some text =>
    rw [kept] at whole
    exact Buf.text_copy_of_fits whole

theorem whole_of_exact (exact : cell.xorKey = cell.row.xorKey.map Buf.text) : cell.Whole := by
  unfold RawRow.Whole
  rw [exact]
  cases cell.row.xorKey with
  | none => decide
  | some key => exact key.fits

/-- Nothing that is kept is read as nothing, and only that. -/
theorem RawRow.pending_iff (cell : RawRow) :
    columnText cell.row.xorKeyPending = .empty ↔ cell.xorKeyPending.getD [] = [] := by
  rw [cell.readsPending]
  cases cell.xorKeyPending with
  | none => exact iff_of_true rfl rfl
  | some text =>
    rw [← Buf.text_eq_nil_iff]
    change text.take 128 = [] ↔ text = []
    simp

/-- At the end of a call for a row that is read as rotating, the row that is read
has recovered if and only if the one that is kept has, or its key is cut. -/
theorem Tracks.recovered_iff (tracks : Tracks c start w u)
    (read : start.row.rotationState = c.node.rotationState)
    (rotating : c.node.rotationState ≠ rotationNone) :
    w.Recovered c.key ↔ u.Recovered c.key ∧
      ∀ cell, w.cells.find? c.key = some cell → cell.Whole := by
  obtain ⟨cell, stored, stays⟩ := tracks.cell
  have row : u.table.find? c.key = some cell.row := by
    rw [tracks.table, RawTable.find?_read, stored]
    rfl
  have resting : cell.rotationState = 0 ↔ cell.row.rotationState = rotationNone := by
    rcases stays.state with same | ⟨-, exact⟩
    · refine iff_of_false (fun zero => rotating ?_) fun none => rotating ?_
      · rw [← read, start.readsState, ← same, zero]
        rfl
      · rw [← read, start.readsState, ← same, ← cell.readsState, none]
    · rw [exact]
      exact @Int32.toInt_inj cell.row.rotationState 0
  constructor
  · rintro ⟨cell', stored', state, pending, status, n, ip, key, sent, installed⟩
    cases stored.symm.trans stored'
    have whole : cell.Whole := by
      unfold RawRow.Whole
      rw [← sent]
      exact n.xorKey.fits
    refine ⟨⟨cell.row, row, resting.mp state, cell.pending_iff.mpr pending, status, n, ip, key,
      ?_, ?_⟩, ?_⟩
    · exact Buf.ext (sent.trans whole.text.symm)
    · rw [tracks.callCommands]
      exact installed
    · rintro other stored'
      cases stored.symm.trans stored'
      exact whole
  · rintro ⟨⟨r, stored', state, pending, status, n, ip, key, sent, installed⟩, whole⟩
    cases row.symm.trans stored'
    refine ⟨cell, stored, resting.mpr state, cell.pending_iff.mp pending, status, n, ip,
      key, ?_, ?_⟩
    · rw [sent]
      exact (whole cell stored).text
    · rw [← tracks.callCommands]
      exact installed

/-- For every stored row whose rotation state is not zero, whatever integer and
keys are kept, every configuration, force flag, clock reading and detected
address: a call that returns 0 has recovered the row if and only if `Heals`. -/
theorem recovered_iff_heals (stored : w.cells.find? cell.row.key = some cell)
    (rotating : cell.rotationState ≠ 0)
    (runs : diskSem.Runs (reconcileOne cfg (cell.row.toNode load) force) w (.done (0, n)) w') :
    ∃ now url ipVersion ip, w'.read.callTrace.getLast? = some ⟨.time, now⟩ ∧
      ⟨.detect url ipVersion, ⟨true, ip⟩⟩ ∈ w'.read.callTrace ∧
      (w'.Recovered cell.row.key ↔ Heals cfg cell load force now ip) := by
  have row : w.read.table.find? cell.row.key = some cell.row := by
    change w.cells.read.find? _ = _
    rw [RawTable.find?_read, stored]
    rfl
  let c := cell.row.call cfg force load w.read row
  have tracks : Tracks c cell w w.read := ⟨rfl, rfl, rfl, cell, stored, .inl rfl, .inl rfl⟩
  have coarse : (sem True).Safe (Issued True c) (reconcileOne cfg (cell.row.toNode load) force)
      w.read fun result w' => ∃ now, Outcome True c now result w' := safe_reconcileOne rfl rfl
  obtain ⟨u, runs', tracks'⟩ := coarse.simulation blind_reconcileOne tracks
    (fun _ _ _ _ issued tracks allowed => tracks.step rotating rfl issued allowed) runs
  obtain ⟨now, outcome⟩ := coarse.runs runs'
  obtain ⟨url, ipVersion, ip, found, recovered⟩ := outcome.recovered_iff rfl rfl
  refine ⟨now, url, ipVersion, ip, tracks'.getLast?_callTrace (by simp) (outcome.clock rfl),
    tracks'.mem_callTrace (by simp) found, ?_⟩
  by_cases resting : c.node.rotationState = rotationNone
  · refine iff_of_false ?_ fun heals => heals.1 resting
    rintro ⟨final, stored', state, -⟩
    obtain ⟨final', stored'', stays⟩ := tracks'.cell
    cases stored'.symm.trans stored''
    rcases stays.state with same | ⟨rotates, -⟩
    · exact rotating (same.symm.trans state)
    · exact rotates resting
  rw [show w'.Recovered cell.row.key ↔ _ from tracks'.recovered_iff rfl resting,
    recovered resting]
  by_cases replaced : c.node.damaged = true ∧ c.node.rotates cfg = true
  · refine iff_of_true ⟨.inr (.inl replaced.2), fun final stored' => ?_⟩
      ⟨resting, .inl replaced⟩
    obtain ⟨final', stored'', exact⟩ :=
      (safe_reconcileOne_rekeyed replaced.1 replaced.2 stored).runs runs rfl
    cases stored'.symm.trans stored''
    exact whole_of_exact exact
  · obtain ⟨final, stored', stays⟩ := tracks'.cell
    have same : final.xorKey = cell.xorKey := stays.xorKey.resolve_right replaced
    have whole : (∀ other, w'.cells.find? c.key = some other → other.Whole) ↔ cell.Whole := by
      unfold RawRow.Whole
      rw [← same]
      constructor
      · exact fun all => all final stored'
      · rintro whole other stored''
        cases stored'.symm.trans stored''
        exact whole
    rw [whole]
    constructor
    · exact fun ⟨applies, whole⟩ => ⟨resting, .inr ⟨whole, applies⟩⟩
    · exact fun heals => (heals.2.resolve_left replaced).symm

end Reading

section Damaged

/-- The cells that the daemon writes itself. -/
def RawRow.ofRow (r : Row) : RawRow where
  row := r
  rotationState := r.rotationState.toInt
  xorKey := r.xorKey.map Buf.text
  xorKeyPending := r.xorKeyPending.map Buf.text
  readsState := (columnInt_toInt _).symm
  readsKey := by cases r.xorKey <;> simp [columnKey]
  readsPending := by cases r.xorKeyPending <;> simp [columnKey]

def Disk.ofCells (cell : RawRow) : Disk :=
  ⟨⟨[cell], List.nodup_singleton _, List.nodup_singleton _⟩, [], false, false⟩

theorem Disk.find_ofCells (cell : RawRow) :
    (Disk.ofCells cell).cells.find? cell.row.key = some cell :=
  Keyed.mem_rows.mp (List.mem_singleton_self cell)

def Scenario.diskAnswer (sc : Scenario) (w : Disk) : (q : Req) → Resp q
  | .sql (.update k _ guard) => .ok [] (w.cells.countAt k fun c => guard.matches c.rotationState)
  | .sql (.upsert _ _) | .sql (.delete _) => .error
  | q => sc.answer w.read q

theorem Scenario.diskFair (sc : Scenario) (w : Disk) (q : Req) :
    diskSem.allowed w q (sc.diskAnswer w q) := by
  cases q with
  | sql s =>
    cases s with
    | update => exact .inl rfl
    | upsert | delete => rfl
    | select k => exact @Scenario.fair sc True w.read (.sql (.select k))
    | list => exact @Scenario.fair sc True w.read (.sql .list)
  | detect => exact sc.detected
  | exec issue call => exact sc.exits issue.tool
  | timedOut => rfl
  | _ => trivial

/-- A call for the only cells of a database, to its end. -/
@[irreducible] def Scenario.recovering (sc : Scenario) (cfg : Config) (cell : RawRow) (load : Int)
    (force : Bool) : Prog (Int × Node) × Disk :=
  playFor Disk.after sc.diskAnswer 40 (reconcileOne cfg (cell.row.toNode load) force)
    (.ofCells cell)

theorem Scenario.recovering_runs {sc : Scenario} {cfg : Config} {cell : RawRow} {load : Int}
    {force : Bool} {result : Int × Node}
    (returns : (sc.recovering cfg cell load force).1.result? = some result) :
    diskSem.Runs (reconcileOne cfg (cell.row.toNode load) force) (.ofCells cell) (.done result)
      (sc.recovering cfg cell load force).2 := by
  rw [← Program.eq_done returns]
  unfold Scenario.recovering
  exact runs_playFor (S := diskSem) sc.diskFair 40 _ _

/-- A row that says it rotates to no key, in a daemon that makes no keys. -/
def sampleDamaged : RawRow := .ofRow { sampleRow with rotationState := 1 }

/-- The rotation is cleared, and the node is skipped as healthy. -/
theorem damaged_row_skipped :
    (Disk.ofCells sampleDamaged).cells.find? sampleDamaged.row.key = some sampleDamaged ∧
    sampleDamaged.rotationState ≠ 0 ∧
    diskSem.Runs (reconcileOne keyless (sampleDamaged.row.toNode 1700000200) false)
      (.ofCells sampleDamaged) (.done (0, (sampleDamaged.row.toNode 1700000200).clearRotation))
      ((sample 1700000200).recovering keyless sampleDamaged 1700000200 false).2 ∧
    ¬((sample 1700000200).recovering keyless sampleDamaged 1700000200 false).2.Recovered
      sampleDamaged.row.key := by
  refine ⟨Disk.find_ofCells _, by decide, Scenario.recovering_runs (by decide +kernel), ?_⟩
  have idle : ((sample 1700000200).recovering keyless sampleDamaged 1700000200
      false).2.read.callCommands.length = 0 := by decide +kernel
  rintro ⟨cell, -, -, -, -, n, ip, -, -, add, del, rest, installed, -⟩
  simp [installed] at idle

/-- The same row is recovered by a forced call. -/
theorem recovered_iff_heals_forced :
    ((sample 1700000200).recovering keyless sampleDamaged 1700000200 true).2.Recovered
      sampleDamaged.row.key := by
  have runs : diskSem.Runs (reconcileOne keyless (sampleDamaged.row.toNode 1700000200) true)
      (.ofCells sampleDamaged) (.done (0, (sampleDamaged.row.toNode 1700000200).clearRotation))
      ((sample 1700000200).recovering keyless sampleDamaged 1700000200 true).2 :=
    Scenario.recovering_runs (by decide +kernel)
  obtain ⟨now, url, ipVersion, ip, -, -, recovered⟩ :=
    recovered_iff_heals (Disk.find_ofCells _) (by decide) runs
  exact recovered.mpr ⟨by decide, .inr ⟨whole_of_exact rfl, .inr (.inr (.inl rfl))⟩⟩

end Damaged

end Tumgrd
