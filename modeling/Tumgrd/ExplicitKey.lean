import Tumgrd.ClockStep
import Tumgrd.Merge

/-! A key that a registration names. It is cut to its buffer, the upsert leaves
it out of a row that rotates, and the forced call may replace it at once. -/
namespace Tumgrd

open Effect Program Semantics

section Overdue

variable {sqlMayFail : Prop} {cfg : Config} {force : Bool} {n m : Node} {now : Int} {w u v : World}
  {r : Row} {flow : Flow} {l : Locals}

/-- How `tumgrd_db_begin_rotation` goes for a node whose row is `r`. -/
inductive Begun (w : World) (n : Node) (r : Row) (now : Int) : Node → World → Prop
  | undelivered : Begun w n r now n (w.after .randomKey none)
  | failed (key : HexKey) : Begun w n r now n
      ((w.after .randomKey (some key)).after (beginAt n.key key.buf now) .error)
  | refused (key : HexKey) : r.rotationState ≠ 0 → Begun w n r now n
      ((w.after .randomKey (some key)).after (beginAt n.key key.buf now) (.ok [] 0))
  | begun (key : HexKey) : r.rotationState = 0 → Begun w n r now (n.rotateTo key)
      ((w.after .randomKey (some key)).after (beginAt n.key key.buf now) (.ok [] 1))

theorem begun_of_runs (rotates : l.node.rotates cfg = true)
    (stored : w.table.find? l.node.key = some r)
    (runs : (sem sqlMayFail).Runs (beginRotation cfg now l) w (.done flow) v) :
    Begun w l.node r now flow.locals.node v := by
  have safe : (sem sqlMayFail).Safe (fun _ _ => True) (beginRotation cfg now l) w
      fun flow v => Begun w l.node r now flow.locals.node v := by
    unfold beginRotation
    rw [if_pos rotates]
    simp only [safe_bind, safe_randomKey, true_and]
    intro key
    cases key with
    | none => exact .undelivered
    | some key =>
      simp only [safe_bind, dbBeginRotation]
      refine safe_dbUpdateOne stored trivial (fun holds => ?_) (fun holds => ?_) fun _ => ?_
      · exact .begun key (by simpa [Guard.holds] using holds)
      · exact .refused key (by simpa [Guard.holds] using holds)
      · exact .failed key
  exact safe.result runs

/-- The call from the end of the expiry check on. -/
def resume (cfg : Config) (now : Int) (flow : Flow) : Prog (Int × Node) := do
  let flow ← andThen (andThen (pure flow) fun l => andThen (detectIp l) skipUnchanged)
    (applyNode cfg now)
  finishReconcile flow

theorem emits_resume {rekeys : Prop} (continues : n.Continues flow.locals.node rekeys) :
    Emits (Req.Serves n rekeys) (fun result => n.Continues result.2 rekeys)
      (resume cfg now flow) := by
  unfold resume
  rw [emits_bind]
  have decided :
      Staged n rekeys (andThen (pure flow) fun l => andThen (detectIp l) skipUnchanged) :=
    staged_andThen continues fun l continues =>
      staged_andThen (staged_detectIp continues) fun l => staged_skipUnchanged
  exact (staged_andThen decided fun l => staged_applyNode).post fun flow => emits_finishReconcile

theorem afterClock_of_overdue (resting : n.rotationState = rotationNone) (due : n.overdue now) :
    afterClock cfg n force now =
      beginRotation cfg now ⟨n, true, true, .empty, false⟩ >>= resume cfg now := by
  unfold afterClock
  rw [decideApply_of_healthy (healthy_of_resting resting),
    checkExpiry_of_overdue (l := ⟨n, force, false, .empty, false⟩) resting due]
  simp only [andThen, LawfulMonad.bind_assoc]
  refine bind_congr fun flow => ?_
  simp only [resume, andThen, LawfulMonad.bind_assoc]
  rfl

/-- An overdue call, cut behind its attempt to begin a rotation. -/
theorem begun_of_call (resting : n.rotationState = rotationNone) (due : n.overdue now)
    (rotates : n.rotates cfg = true) (stored : w.table.find? n.key = some r)
    {result : Int × Node}
    (runs : (sem sqlMayFail).Runs (afterClock cfg n force now) (w.read n force now)
      (.done result) v) :
    ∃ m u, Begun (w.read n force now) n r now m u ∧ Served m False u v := by
  rw [afterClock_of_overdue resting due] at runs
  obtain ⟨flow, u, begins, runs⟩ := runs_bind runs
  have begun := begun_of_runs (l := ⟨n, true, true, .empty, false⟩) (w := w.read n force now)
    (r := r) rotates stored begins
  have emits : Emits (Req.Serves flow.locals.node False) (fun _ => True) (resume cfg now flow) :=
    (emits_resume (.refl _ _)).post fun _ _ => trivial
  exact ⟨_, u, begun, (served_of_emits emits (.refl _ _ u) runs).1⟩

/-- An attempt that changes nothing. -/
theorem Begun.served {u' : World} (h : Begun u n r now m u') (rotating : r.rotationState ≠ 0)
    (stored : u.table.find? n.key = some r) : m = n ∧ Served n False u u' := by
  have keyed : ∀ key, Served n False u (u.after .randomKey key) := fun key =>
    (Served.refl n False u).keeps (World.keeps_after (q := .randomKey) rfl key)
  cases h with
  | undelivered => exact ⟨rfl, keyed none⟩
  | failed key => exact ⟨rfl, (keyed (some key)).keeps (World.keeps_after_error _)⟩
  | refused key =>
    refine ⟨rfl, ⟨fun k other => ?_, fun r' hr' => ?_, ⟨[], rfl, by simp⟩, ?_⟩⟩
    · rw [World.table_after_ok, find?_update_of_ne other]
      rfl
    · cases stored.symm.trans hr'
      refine ⟨r, ?_, fun _ => rfl⟩
      rw [World.table_after_ok, World.table_after_randomKey, find?_update stored]
      simp [Row.update, Guard.holds, rotating]
    · exact (List.suffix_cons _ _).trans (List.suffix_cons _ _)
  | begun key resting => exact absurd resting rotating

/-- The call leaves the key alone when the lifetime is not reached, and when the
row rotates already. -/
theorem served_of_spared (resting : n.rotationState = rotationNone)
    (stored : w.table.find? n.key = some r)
    (spared : r.rotationState ≠ 0 ∨ ¬(n.overdue now ∧ n.rotates cfg = true))
    {result : Int × Node}
    (runs : (sem sqlMayFail).Runs (afterClock cfg n force now) (w.read n force now)
      (.done result) v) : Served n False w v := by
  have start := Served.read n False w force now
  by_cases overdue : n.overdue now ∧ n.rotates cfg = true
  · have rotating := spared.resolve_right (not_not.mpr overdue)
    obtain ⟨m, u, begun, rest⟩ := begun_of_call resting overdue.1 overdue.2 stored runs
    obtain ⟨rfl, attempt⟩ := begun.served rotating stored
    exact (start.trans attempt).trans rest
  · have sound : n.damaged = true → False := by simp [healthy_of_resting resting]
    have emits : Emits (Req.Serves n False) (fun _ => True) (afterClock cfg n force now) :=
      (emits_afterClock sound fun due rotates => overdue ⟨due, rotates⟩).post fun _ _ => trivial
    exact (served_of_emits emits start runs).1

/-- Between `w` and `v` no statement failed, and every key that was asked for
was delivered and differs from `key`. -/
structure Smooth (w v : World) (key : Str) : Prop where
  statements : ∀ s, ¬w.Did v ⟨.sql s, .error⟩
  keys : ¬w.Did v ⟨.randomKey, none⟩
  fresh : ∀ generated : HexKey, w.Did v ⟨.randomKey, some generated⟩ →
    generated.buf.text ≠ key

/-- An overdue call on a row at rest gives it another key. -/
theorem rekeyed_of_overdue {key : Str} (resting : n.rotationState = rotationNone)
    (due : n.overdue now) (rotates : n.rotates cfg = true) (stored : w.table.find? n.key = some r)
    (rest : r.rotationState = 0) (smooth : Smooth w v key) {result : Int × Node}
    (runs : (sem sqlMayFail).Runs (afterClock cfg n force now) (w.read n force now)
      (.done result) v) :
    ∃ r', v.table.find? n.key = some r' ∧ (columnText r'.xorKey).text ≠ key := by
  obtain ⟨m, u, begun, later⟩ := begun_of_call resting due rotates stored runs
  have since : w.trace <:+ (w.read n force now).trace :=
    (List.suffix_cons _ _).trans (List.suffix_cons _ _)
  cases begun with
  | undelivered => exact absurd (World.did_of_suffix since later.trace) smooth.keys
  | failed generated =>
    have did : w.Did v ⟨.sql (.update n.key (setRotation generated.buf rotationPendingRemote now)
        .zero), .error⟩ := World.did_of_suffix (since.trans (List.suffix_cons _ _)) later.trace
    exact absurd did (smooth.statements _)
  | refused _ rotating => exact absurd rest rotating
  | begun generated =>
    have did : w.Did v ⟨.randomKey, some generated⟩ :=
      World.did_of_suffix since ((List.suffix_cons _ _).trans later.trace)
    have row : Keyed.find? _ n.key =
        some (r.update (setRotation generated.buf rotationPendingRemote now) .zero) :=
      find?_update stored
    obtain ⟨r', hr', kept⟩ := later.row _ row
    refine ⟨r', hr', ?_⟩
    rw [kept not_false]
    simp only [Row.update, Guard.holds, rest, decide_true, if_true, Row.assign, setRotation]
    exact smooth.fresh generated did

theorem Smooth.within {u' : World} {key : Str} (h : Smooth w v key) (before : w.trace <:+ u.trace)
    (after : u'.trace <:+ v.trace) : Smooth u u' key where
  statements := fun s did => h.statements s ((did.later after).earlier before)
  keys := fun did => h.keys ((did.later after).earlier before)
  fresh := fun generated did => h.fresh generated ((did.later after).earlier before)

end Overdue

section Honoured

variable {sqlMayFail : Prop} {cfg : Config} {args : RegisterArgs} {reg : Registration}
  {action : Action} {base n : Node} {key : Str} {createdAt lastUpdated err load now : Int}
  {w u u' v : World}

/-- The node a registration starts from, apart from a generated key. -/
def Registration.draft (reg : Registration) (cfg : Config) (t : Table) (load : Int) : Node :=
  reg.fill ((t.find? reg.key).elim (.fresh cfg load) (Row.toNode load))

theorem toNode_of_negative {r : Row} (negative : r.lastAppliedAt < 0) (load load' : Int) :
    r.toNode load = r.toNode load' := by
  simp [Row.toNode, clampAppliedAt, negative]

theorem Drafted.complete (given : args.xor = some key) (drafted : Drafted cfg reg w v action base)
    (reads : w.Reads v load) :
    args.complete reg base = args.complete reg (reg.draft cfg w.table load) := by
  unfold Registration.draft
  cases drafted with
  | updated found reading =>
    rw [found, Option.elim_some]
    rcases reading with negative | read
    · rw [toNode_of_negative negative]
    · rw [read.unique reads]
  | plain absent _ read => rw [absent, Option.elim_none, read.unique reads]
  | keyed absent _ read =>
    rw [absent, Option.elim_none, read.unique reads]
    simp [RegisterArgs.complete, given, RegisterArgs.fillOptional]

/-- The key of the request is the stored one, and the commands that set up the
node carried it. -/
structure Honoured (w v : World) (k : Key) (key : Str) : Prop where
  stored : ∃ r, v.table.find? k = some r ∧ (columnText r.xorKey).text = key
  carried : ∃ new, v.commands = new ++ w.commands ∧ ∀ cmd ∈ new,
    cmd.issue.tool = .serverAdd ∨ cmd.issue.tool = .clientAdd →
      cmd.issue.node.xorKey.text = key ∧ cmd.issue.Builds cmd.call

/-- The key fits, a row that rotates has it already, and a row at rest is not
due for another one. -/
structure KeepsKey (cfg : Config) (args : RegisterArgs) (reg : Registration) (w : World)
    (load now : Int) (key : Str) : Prop where
  fits : key.length ≤ 128
  rotating : ∀ r, w.table.find? reg.storedKey = some r → r.rotationState ≠ 0 →
    (columnText r.xorKey).text = key
  resting : (∀ r, w.table.find? reg.storedKey = some r → r.rotationState = 0) →
    cfg.enableXor = true → ¬(args.complete reg (reg.draft cfg w.table load)).overdue now

theorem complete_xorKey (given : args.xor = some key) :
    (args.complete reg base).xorKey = .copy key := by
  simp [RegisterArgs.complete, given]

/-- A row that rotates keeps its key, any other takes the one of the request. -/
theorem Registering.row
    (h : Registering sqlMayFail cfg args w reg action base n createdAt lastUpdated u u' err v)
    (given : args.xor = some key) :
    ∃ r, u'.table.find? n.key = some r ∧
      ((∃ old, w.table.find? n.key = some old ∧ old.rotationState ≠ 0 ∧
          r.rotationState ≠ 0 ∧ r.xorKey = old.xorKey) ∨
        (∀ old, w.table.find? n.key = some old → old.rotationState = 0) ∧
          r.rotationState = 0 ∧
          r.xorKey = some (.copy key)) := by
  obtain ⟨rfl, accepts⟩ := finish_eq h.finish
  obtain ⟨safe, resting⟩ := accepts.xor key given
  have named : bindTextOrNull (args.complete reg base).xorKey = some (.copy key) := by
    rw [complete_xorKey given]
    exact bindTextOrNull_of_ne (text_copy_ne_nil (by decide) (ne_nil_of_isSafeId safe))
  refine ⟨_, h.written, ?_⟩
  cases stored : w.table.find? (args.complete reg base).key with
  | none =>
    rw [Table.written_of_absent stored]
    exact .inr ⟨fun _ => by simp, resting, named⟩
  | some old =>
    rw [Table.written_of_found stored]
    by_cases rotating : old.rotationState = 0
    · refine .inr ⟨fun _ => by rintro ⟨⟩; exact rotating, rotating, ?_⟩
      exact (if_neg (not_not.mpr rotating)).trans named
    · exact .inl ⟨old, rfl, rotating, rotating, if_pos rotating⟩

/-- The whole of a request whose call leaves the key alone. -/
theorem honoured_iff_of_served {r : Row} {u : World} (served : Served n False u v)
    (stored : u.table.find? n.key = some r) (commands : u.commands = w.commands)
    (fits : n.xorKey.text = key) :
    Honoured w v n.key key ↔ (columnText r.xorKey).text = key := by
  obtain ⟨r', hr', kept⟩ := served.row r stored
  rw [← kept not_false]
  constructor
  · rintro ⟨⟨r'', hr'', same⟩, -⟩
    cases hr'.symm.trans hr''
    exact same
  · intro same
    refine ⟨⟨r', hr', same⟩, ?_⟩
    obtain ⟨new, hnew, own⟩ := served.commands
    refine ⟨new, hnew.trans (by rw [commands]), fun cmd hcmd _ => ?_⟩
    obtain ⟨-, xorKey, builds⟩ := own cmd hcmd
    rw [xorKey not_false]
    exact ⟨fits, builds⟩

/-- What the forced call makes of the request's key, in the row `r` left by the upsert. -/
theorem honoured_of_call {r : Row} {m : Node} {v' : World}
    (resting : n.rotationState = rotationNone)
    (xorKey : n.xorKey = .copy key) (stored : u.table.find? n.key = some r)
    (commands : u.commands = w.commands) (since : w.trace <:+ u.trace)
    (called : (sem True).Runs (reconcileOne cfg n true) u (.done (err, m)) v') (keeps : v'.Keeps v)
    (reading : v.callTrace.getLast? = some ⟨.time, now⟩) :
    ((r.rotationState ≠ 0 ∨ ¬(n.overdue now ∧ n.rotates cfg = true)) →
      key.length ≤ 128 →
        (Honoured w v n.key key ↔ (columnText r.xorKey).text = key)) ∧
      (r.rotationState = 0 → n.overdue now → n.rotates cfg = true → Smooth w v key →
        ¬Honoured w v n.key key) := by
  obtain ⟨now', runs⟩ := read_of_runs called
  have inCall := (inCall_of_runs runs).keeps keeps
  have clock : now' = now := by
    have same := inCall.reading.symm.trans reading
    simpa using same
  subst clock
  constructor
  · intro spared fits
    have served := (served_of_spared resting stored spared runs).keeps keeps
    refine honoured_iff_of_served served stored commands ?_
    rw [xorKey]
    exact Buf.text_copy_of_fits (Nat.lt_succ_of_le fits)
  · intro rest due rotates smooth honoured
    have within := smooth.within since keeps.trace
    obtain ⟨r', hr', other⟩ := rekeyed_of_overdue resting due rotates stored rest within runs
    obtain ⟨r'', hr'', same⟩ := honoured.stored
    rw [keeps.table, hr'] at hr''
    cases hr''
    exact other same

/-- An explicit key is honoured when it fits, is not kept out by a rotation and
not replaced by one; otherwise it is not, if all goes well. -/
theorem explicit_key_honoured {fields : Fields} (given : args.xor = some key)
    (check : args.check = some reg)
    (runs : (sem True).Runs (handleRegister cfg args) w (.done (.ok fields)) v)
    (loaded : w.Reads v load) (reading : v.callTrace.getLast? = some ⟨.time, now⟩) :
    (KeepsKey cfg args reg w load now key → Honoured w v reg.storedKey key) ∧
      (Smooth w v key → Honoured w v reg.storedKey key →
          KeepsKey cfg args reg w load now key) := by
  cases registerRun_of_runs runs with
  | refused _ refused => exact absurd rfl (refused fields)
  | @stored reg' action base n final createdAt lastUpdated err u u' _ h _ =>
    cases check.symm.trans h.check
    obtain ⟨hn, accepts⟩ := finish_eq h.finish
    obtain ⟨safe, rest⟩ := accepts.xor key given
    have resting : n.rotationState = rotationNone := by
      rw [hn]
      exact rest
    have xorKey : n.xorKey = .copy key := by
      rw [hn]
      exact complete_xorKey given
    have rotates : n.rotates cfg = true ↔ cfg.enableXor = true := by
      have named := text_copy_ne_nil (n := 129) (by decide) (ne_nil_of_isSafeId safe)
      simp [Node.rotates, xorKey, named]
    obtain ⟨changes, hu'⟩ := h.statement
    have later : u.trace <:+ u'.trace := by
      rw [hu']
      exact List.suffix_cons _ _
    have draft : args.complete reg (reg.draft cfg w.table load) = n := by
      rw [hn]
      exact (Drafted.complete given (h.drafted.later (later.trans h.served.trace)) loaded).symm
    have commands : u'.commands = w.commands := by
      rw [hu', World.commands_after_sql, h.keeps.commands]
    obtain ⟨r, stored, row⟩ := h.row given
    obtain ⟨m, v', called, keeps⟩ := h.called
    obtain ⟨kept, lost⟩ := honoured_of_call resting xorKey stored commands
      (h.keeps.trace.trans later) called keeps reading
    rw [h.key] at row kept lost
    have copied : key.length ≤ 128 → (Buf.copy key : Buf 129).text = key := fun fits =>
      Buf.text_copy_of_fits (Nat.lt_succ_of_le fits)
    constructor
    · intro keepsKey
      have fits := keepsKey.fits
      rcases row with ⟨old, hold, rotating, rotating', same⟩ | ⟨atRest, rest', named⟩
      · refine (kept (.inl rotating') fits).mpr ?_
        rw [same]
        exact keepsKey.rotating old hold rotating
      · have spared := keepsKey.resting atRest
        rw [draft] at spared
        refine (kept (.inr fun both => spared (rotates.mp both.2) both.1) fits).mpr ?_
        rw [named]
        exact copied fits
    · intro smooth honoured
      have fits : key.length ≤ 128 := by
        obtain ⟨r', -, same⟩ := honoured.stored
        rw [← same]
        exact Nat.le_of_lt_succ (columnText r'.xorKey).fits
      refine ⟨fits, fun old hold rotating => ?_, fun atRest on => ?_⟩
      · rcases row with ⟨old', hold', -, rotating', same⟩ | ⟨atRest, -, -⟩
        · cases hold.symm.trans hold'
          rw [← same]
          exact (kept (.inl rotating') fits).mp honoured
        · exact absurd (atRest old hold) rotating
      · rw [draft]
        intro due
        rcases row with ⟨old, hold, rotating, -, -⟩ | ⟨-, rest', -⟩
        · exact rotating (atRest old hold)
        · exact lost rest' due (rotates.mpr on) smooth honoured

end Honoured

section Samples

def explicitArgs : RegisterArgs := { sampleArgs with xor := some "explicit".toList }

/-- The request with a key of its own, to its end. -/
@[irreducible] def sampleExplicit (cfg : Config) (now : Int) (w : World) :
    Prog UbusReply × World :=
  playFor World.after (sample now).answer 40 (handleRegister cfg explicitArgs) w

theorem sampleExplicit_runs {cfg : Config} {now : Int} {w : World} {fields : Fields}
    (returns : (sampleExplicit cfg now w).1.result?.bind UbusReply.ok? = some fields) :
    (sem True).Runs (handleRegister cfg explicitArgs) w (.done (.ok fields))
      (sampleExplicit cfg now w).2 := by
  rw [← done_of_ok? returns]
  unfold sampleExplicit
  exact runs_playFor (S := sem True) (sample _).fair 40 _ _

/-- A node whose key has reached its lifetime is given an explicit key, and
loses it to a generated one within the same request. -/
theorem explicit_key_replaced : ∃ w fields v,
    (sem True).Runs (handleRegister ⟨true, false, 3600⟩ explicitArgs) w
      (.done (.ok fields)) v ∧
      ¬Honoured w v sampleKey "explicit".toList := by
  obtain ⟨fields, returns⟩ := Option.isSome_iff_exists.mp
    (show ((sampleExplicit ⟨true, false, 3600⟩ 1700003600 sampleStored).1.result?.bind
      UbusReply.ok?).isSome by decide +kernel)
  refine ⟨_, fields, _, sampleExplicit_runs returns, ?_⟩
  rintro ⟨⟨r, hr, same⟩, -⟩
  have other : ((sampleExplicit ⟨true, false, 3600⟩ 1700003600 sampleStored).2.table.find?
      sampleKey).map (fun r => (columnText r.xorKey).text) ≠ some "explicit".toList := by
    decide +kernel
  rw [hr, Option.map_some, same] at other
  exact other rfl

theorem eq_time_of_reading? {e : Event} {t : Int} (h : e.reading? = some t) :
    e = ⟨.time, t⟩ := by
  obtain ⟨q, r⟩ := e
  cases q with
  | time => exact congrArg (Event.mk .time) (Option.some.inj h)
  | _ => contradiction

theorem explicit_key_honoured_first :
    Honoured .first (sampleExplicit keyless 1700000000 .first).2 sampleKey "explicit".toList := by
  obtain ⟨fields, returns⟩ := Option.isSome_iff_exists.mp
    (show ((sampleExplicit keyless 1700000000 .first).1.result?.bind UbusReply.ok?).isSome
      by decide +kernel)
  obtain ⟨recent, loaded⟩ := List.getLast?_eq_some_iff.mp
    (show (sampleExplicit keyless 1700000000 .first).2.clock.getLast? = some 1700000000
      by decide +kernel)
  obtain ⟨e, reading, time⟩ := Option.bind_eq_some_iff.mp
    (show (sampleExplicit keyless 1700000000 .first).2.callTrace.getLast?.bind Event.reading? =
      some 1700000000 by decide +kernel)
  rw [eq_time_of_reading? time] at reading
  refine (explicit_key_honoured rfl rfl (sampleExplicit_runs returns)
    ⟨recent, loaded⟩ reading).1 ?_
  exact ⟨by decide, by rintro r ⟨⟩, by rintro - ⟨⟩⟩

end Samples

end Tumgrd
