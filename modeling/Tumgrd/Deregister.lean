import Tumgrd.Footprint
import Tumgrd.Registration
import Tumgrd.Scenario

/-! A `deregister` tears both ends down before it deletes the row. What becomes
of a row that it could not delete is up to the next periodic call. -/
namespace Tumgrd

open Effect Semantics

section Detection

variable {P : World → Req → Prop} {sqlMayFail : Prop} {cfg : Config} {now : Int} {l : Locals}
  {w v : World}

/-- The detections of the current call that succeeded found addresses of `Q`. -/
def Finds (Q : Buf 64 → Prop) (v : World) : Prop :=
  ∀ url ipVersion found, (⟨.detect url ipVersion, found⟩ : Event) ∈ v.callTrace →
    found.ok = true → Q found.ip

/-- A request that is no part of a detection. -/
def Req.aside (q : Req) : Prop :=
  q.isCall = false ∧ ∀ url ipVersion, q ≠ .detect url ipVersion

theorem Finds.after {Q : Buf 64 → Prop} (h : Finds Q v) {q : Req} (aside : q.aside) (r : Resp q) :
    Finds Q (v.after q r) := by
  intro url ipVersion found happened
  rw [World.callTrace_after v r aside.1] at happened
  rcases List.mem_cons.mp happened with same | before
  · cases same
    exact absurd rfl (aside.2 _ _)
  · exact h url ipVersion found before

theorem aside_randomKey : Req.aside .randomKey := ⟨rfl, by rintro _ _ ⟨⟩⟩

theorem aside_sql (s : Stmt) : Req.aside (.sql s) := ⟨rfl, by rintro _ _ ⟨⟩⟩

/-- A stage that detects nothing. -/
theorem safe_aside {p : Prog Flow} (emits : Program.Emits Req.aside (fun _ => True) p)
    (nothing : Finds (fun _ => False) w) :
    (sem sqlMayFail).Safe (fun _ _ => True) p w fun _ v => Finds (fun _ => False) v := by
  have safe := (safe_of_emits (S := sem sqlMayFail) emits).invariant nothing
    fun v q r finds aside _ => finds.after aside r
  exact safe.mono (fun _ _ _ => trivial) fun _ _ post => post.2

/-- A call that fails before its test for `need_apply` has not found an address. -/
theorem safe_decideApply_finds (nothing : Finds (fun _ => False) w) :
    (sem sqlMayFail).Safe (fun _ _ => True) (decideApply cfg now l) w fun flow v =>
      ∀ l err, flow = .fail l err → Finds (fun _ => False) v := by
  unfold decideApply
  rw [safe_andThen]
  refine (safe_aside (emits_repairRotation aside_randomKey (fun _ _ _ => aside_sql _) _)
    nothing).post fun flow v nothing => ?_
  cases flow with
  | skip l => exact fun l err failed => by contradiction
  | fail l err => exact fun _ _ _ => nothing
  | next l =>
    simp only [safe_andThen]
    refine (safe_aside (emits_repairRotation aside_randomKey (fun _ _ _ => aside_sql _) _)
      nothing).post fun flow v nothing => ?_
    cases flow with
    | skip l => exact fun l err failed => by contradiction
    | fail l err => exact fun _ _ _ => nothing
    | next l =>
      refine (safe_aside (emits_checkExpiry aside_randomKey fun _ _ _ => aside_sql _) nothing).post
        fun flow v nothing => ?_
      cases flow with
      | skip l => exact fun l err failed => by contradiction
      | fail l err => exact fun _ _ _ => nothing
      | next l =>
        simp only [detectIp, safe_bind, safe_detect, true_and]
        intro found _
        split
        · simp only [safe_pure, skipUnchanged]
          split <;> rintro l err ⟨⟩
        · rename_i failed
          simp only [safe_pure]
          rintro _ _ - url ipVersion found' happened ok
          rw [World.callTrace_after v _ rfl] at happened
          rcases List.mem_cons.mp happened with same | before
          · cases same
            exact failed ok
          · exact nothing url ipVersion found' before ok

end Detection

section Pushing

variable {sqlMayFail : Prop} {cfg : Config} {now : Int} {n : Node} {l : Locals} {k : Key}
  {w v : World}

/-- The current call has started a server-add for the node at `k`. -/
def Pushes (k : Key) (v : World) : Prop :=
  ∃ cmd ∈ v.callCommands, cmd.issue.tool = .serverAdd ∧ cmd.issue.node.key = k

theorem Pushes.after (h : Pushes k v) {q : Req} (noCall : q.isCall = false) (r : Resp q) :
    Pushes k (v.after q r) := by
  obtain ⟨cmd, hcmd, own⟩ := h
  refine ⟨cmd, ?_, own⟩
  rw [World.callCommands_after v r noCall]
  exact List.mem_append_right _ hcmd

theorem pushes_keep {p : Prog α} {f : α → Prog β} {Q : β → Prop}
    (emits : Program.Emits (fun q => q.isCall = false) Q (p >>= f))
    (first : (sem sqlMayFail).Safe (fun _ _ => True) p w fun _ v => Pushes k v) :
    (sem sqlMayFail).Safe (fun _ _ => True) (p >>= f) w fun _ v => Pushes k v :=
  (safe_keep emits first fun _ _ r pushes noCall _ => pushes.after noCall r).post
    fun _ _ post => post.2

theorem safe_runTuctlScript_pushes {ip script marker : Str} :
    (sem sqlMayFail).Safe (fun _ _ => True) (runTuctlScript ⟨.serverAdd, n, ip⟩ script marker) w
      fun _ v => Pushes n.key v := by
  have emits : Program.Emits (fun q => q.isCall = false) (fun _ => True)
      (runTuctlScript ⟨.serverAdd, n, ip⟩ script marker) :=
    emits_runTuctlScript (P := fun q => q.isCall = false) (fun _ => rfl) rfl
  unfold runTuctlScript logArgv at emits ⊢
  dsimp only at emits ⊢
  rw [safe_bind, safe_log]
  refine ⟨trivial, ?_⟩
  refine pushes_keep (((Program.emits_bind _ _).mp emits).2 ()) ?_
  rw [safe_exec]
  refine ⟨trivial, fun result _ => ?_⟩
  refine ⟨⟨⟨.serverAdd, n, ip⟩, tuctlCall n script, result⟩, ?_, rfl, rfl⟩
  rw [World.callCommands_after _ _ rfl]
  exact List.mem_cons_self

theorem safe_serverAdd_pushes {ip : Str} (found : ip ≠ []) :
    (sem sqlMayFail).Safe (fun _ _ => True) (serverAdd n cfg ip) w fun _ v => Pushes n.key v := by
  have emits : Program.Emits (fun q => q.isCall = false) (fun _ => True) (serverAdd n cfg ip) :=
    emits_serverAdd (P := fun q => q.isCall = false) (fun _ => rfl) rfl (fun _ _ _ _ => rfl) cfg ip
  unfold serverAdd at emits ⊢
  rw [if_neg found] at emits ⊢
  split at emits
  · rename_i placeholder
    rw [if_pos placeholder]
    dsimp only [logTrimmed] at emits ⊢
    rw [safe_bind, safe_log]
    refine ⟨trivial, ?_⟩
    exact pushes_keep (((Program.emits_bind _ _).mp emits).2 ()) safe_runTuctlScript_pushes
  · rename_i detected
    rw [if_neg detected]
    dsimp only [serverAddDetected, logTrimmed]
    rw [safe_bind, safe_log]
    exact ⟨trivial, safe_runTuctlScript_pushes⟩

/-- A call that applies its node starts a server-add for it. -/
theorem safe_applyNode_pushes (found : l.detectedIp.text ≠ []) :
    (sem sqlMayFail).Safe (fun _ _ => True) (applyNode cfg now l >>= finishReconcile) w
      fun _ v => Pushes l.node.key v := by
  have emits : Program.Emits (fun q => q.isCall = false) (fun _ => True)
      (applyNode cfg now l >>= finishReconcile) := by
    rw [Program.emits_bind]
    have applies : Staged l.node True (applyNode cfg now l) := staged_applyNode (.refl _ _)
    refine applies.mono (fun _ => Req.Serves.noCall) fun flow continues => ?_
    exact (emits_finishReconcile continues).mono (fun _ => Req.Serves.noCall) fun _ _ => trivial
  simp only [applyNode, applyServer, andThen, LawfulMonad.bind_assoc] at emits ⊢
  exact pushes_keep emits (safe_serverAdd_pushes found)

end Pushing

section Owed

variable {sqlMayFail : Prop} {cfg : Config} {now load : Int} {c : Call} {r : Row} {l : Locals}
  {Q : Buf 64 → Prop} {u v w : World}

/-- What a row says about itself makes an unforced call apply it, whatever
address is found. -/
def Node.owed (cfg : Config) (n : Node) (now : Int) : Prop :=
  n.seeds now ∨ n.overdue now ∨ n.wasError = true ∨
    if n.damaged then n.rotates cfg = true else n.rotationState ≠ rotationNone

theorem Decided.owed_iff {m : Node} {force expired : Bool} {t : Table}
    (h : Decided c now m force expired t) (unforced : c.force = false) :
    c.node.owed c.cfg now ↔ force = true ∨ c.node.wasError = true := by
  unfold Node.owed
  cases h with
  | unexpired healthy resting seeds overdue => simp [healthy, resting, seeds, overdue, unforced]
  | resumed healthy rotating => simp [healthy, rotating]
  | seeded _ _ seeds => simp [seeds]
  | unkeyed _ _ overdue _ => simp [overdue]
  | begun _ _ _ _ overdue _ => simp [overdue]
  | replaced _ _ damaged rotates => simp [damaged, rotates]
  | cleared expired _ damaged keyless expires =>
    simp only [damaged, if_true, keyless, unforced, Bool.false_or, expires]
    grind

/-- When the address is the stored one, only what the row owes is a reason to apply it. -/
theorem Ready.needApply_iff (ready : Ready c now l w) (unforced : c.force = false)
    (same : streqcase c.node.currentIp.text l.detectedIp.text = true) :
    needApply l = true ↔ c.node.owed c.cfg now := by
  have ip : l.node.currentIp = c.node.currentIp := by rw [ready.during.kept]
  have status : l.node.wasError = c.node.wasError := by
    rw [ready.during.kept]
    rfl
  rw [ready.decided.owed_iff unforced]
  simp [needApply, ip, same, status]

theorem Finds.earlier (h : Finds Q v) (before : u.callTrace <:+ v.callTrace) : Finds Q u :=
  fun url ipVersion found happened => h url ipVersion found (before.subset happened)

/-- The stages of a finished call. -/
theorem call_of_runs {force : Bool} {result : Int × Node}
    (stored : w.table.find? r.key = some r)
    (runs : (sem sqlMayFail).Runs (afterClock cfg (r.toNode load) force now)
      (w.read (r.toNode load) force now) (.done result) v) :
    ∃ flow u, Settled (r.call cfg force load w stored) now flow u ∧
      (∀ l err, flow = .fail l err → Finds (fun _ => False) u) ∧
      (sem sqlMayFail).Runs (andThen (pure flow) (applyNode cfg now) >>= finishReconcile) u
        (.done result) v := by
  obtain ⟨flow', u', runs, finish⟩ := runs_bind runs
  obtain ⟨flow, u, decides, apply⟩ := runs_bind runs
  have settled : Settled (r.call cfg force load w stored) now flow u :=
    (safe_decideApply (c := r.call cfg force load w stored) (During.entry rfl rfl now) rfl
      rfl).result decides
  have nothing : Finds (fun _ => False) (w.read (r.toNode load) force now) := by
    rintro _ _ _ happened
    rcases List.mem_singleton.mp happened with ⟨⟩
  have undetected := (safe_decideApply_finds nothing).result decides
  exact ⟨flow, u, settled, undetected, Runs.seq _ apply finish⟩

/-- An address was found in the current call. -/
def Detected (v : World) : Prop :=
  ∃ url ipVersion found, (⟨.detect url ipVersion, found⟩ : Event) ∈ v.callTrace ∧
    found.ok = true

def SameAddress (r : Row) (ip : Buf 64) : Prop :=
  streqcase (columnText r.currentIp).text ip.text = true

theorem callTrace_of_emits {p : Prog α} {value : α}
    (emits : Program.Emits (fun q => q.isCall = false) (fun _ => True) p)
    (runs : (sem sqlMayFail).Runs p u (.done value) v) : u.callTrace <:+ v.callTrace := by
  have safe := (safe_of_emits (S := sem sqlMayFail) (w := u) emits).invariant
    (I := fun v => u.callTrace <:+ v.callTrace) (List.suffix_refl _)
    fun v q r later noCall _ => by
      rw [World.callTrace_after v r noCall]
      exact later.trans (List.suffix_cons _ _)
  exact (safe.result runs).2

theorem emits_afterDecision (flow : Flow) :
    Program.Emits (fun q => q.isCall = false) (fun _ => True)
      (andThen (pure flow) (applyNode cfg now) >>= finishReconcile) := by
  rw [Program.emits_bind]
  have applies : Staged flow.locals.node True (andThen (pure flow) (applyNode cfg now)) :=
    staged_andThen (.refl _ _) fun l => staged_applyNode
  refine applies.mono (fun _ => Req.Serves.noCall) fun flow continues => ?_
  exact (emits_finishReconcile continues).mono (fun _ => Req.Serves.noCall) fun _ _ => trivial

/-- The tail of a call that failed early does not look for an address. -/
theorem emits_aside_failed (err : Int) :
    Program.Emits Req.aside (fun _ => True) (finishReconcile (.fail l err)) := by
  simp only [finishReconcile, Program.emits_bind, emits_report, Program.emits_pure]
  refine (emits_markRuntime ⟨rfl, by rintro _ _ ⟨⟩⟩ fun now => aside_sql _).post
    fun _ _ => ?_
  exact ⟨⟨rfl, by rintro _ _ ⟨⟩⟩, trivial⟩

/-- An unforced call that finds the stored address applies its node exactly when
the row owes it. -/
theorem call_owed {result : Int × Node} (stored : w.table.find? r.key = some r)
    (runs : (sem sqlMayFail).Runs (reconcileOne cfg (r.toNode load) false) w (.done result) v) :
    ∃ now, v.callTrace.getLast? = some ⟨.time, now⟩ ∧
      (Detected v → Finds (SameAddress r) v →
        (Pushes r.key v ↔ (r.toNode load).owed cfg now)) := by
  obtain ⟨now, runs⟩ := read_of_runs runs
  refine ⟨now, (inCall_of_runs runs).reading, ?_⟩
  rintro ⟨url, ipVersion, found, happened, ok⟩ same
  obtain ⟨flow, u, settled, undetected, rest⟩ := call_of_runs stored runs
  have later := callTrace_of_emits (emits_afterDecision flow) rest
  cases flow with
  | fail l err =>
    have safe := (safe_of_emits (S := sem sqlMayFail) (emits_aside_failed (l := l) err)).invariant
      (undetected l err rfl) fun v q r finds aside _ => finds.after aside r
    exact absurd ok ((safe.result rest).2 url ipVersion found happened)
  | skip l =>
    obtain ⟨ready, unneeded⟩ := settled
    obtain ⟨url, ipVersion, detected⟩ := ready.detection
    have owed : needApply l = true ↔ (r.toNode load).owed cfg now :=
      ready.needApply_iff rfl (same.earlier later url ipVersion _ detected rfl)
    rw [← owed, unneeded]
    obtain ⟨_, u₁, skipped, rest⟩ := runs_bind (p := report (.skipped l.node)) rest
    obtain ⟨_, u₂, returned, rest⟩ := runs_bind (p := report (.returned l.node 0)) rest
    obtain ⟨-, rfl⟩ := runs_perform skipped
    obtain ⟨-, rfl⟩ := runs_perform returned
    obtain ⟨-, rfl⟩ := runs_pure rest
    refine ⟨?_, by simp⟩
    rintro ⟨cmd, hcmd, -⟩
    rw [World.callCommands_after _ _ rfl, World.callCommands_after _ _ rfl, ready.idle] at hcmd
    contradiction
  | next l =>
    obtain ⟨ready, needed⟩ := settled
    obtain ⟨url, ipVersion, detected⟩ := ready.detection
    have owed : needApply l = true ↔ (r.toNode load).owed cfg now :=
      ready.needApply_iff rfl (same.earlier later url ipVersion _ detected rfl)
    rw [← owed, needed]
    have pushes : Pushes l.node.key v := (safe_applyNode_pushes ready.detected).result rest
    rw [ready.during.key_eq] at pushes
    exact ⟨fun _ => rfl, fun _ => pushes⟩

end Owed

section Next

variable {sqlMayFail : Prop} {cfg : Config} {args : NodeArgs} {r : Row} {k : Key} {n : Node}
  {load : Int} {u v w z : World}

/-- The call for the row `r` within a reconcile of all nodes from `v` to `z`. -/
structure Visited (sqlMayFail : Prop) (cfg : Config) (v : World) (r : Row) (load : Int)
    (w u z : World) : Prop where
  loaded : Loaded v w r (r.toNode load)
  stored : w.table.find? r.key = some r
  call : ∃ result, (sem sqlMayFail).Runs (reconcileOne cfg (r.toNode load) false) w
    (.done result) u
  later : u.trace <:+ z.trace

/-- The row is still waiting for its call, or has had it. -/
def Turn (sqlMayFail : Prop) (cfg : Config) (v : World) (r : Row) (nodes : List Node) (z : World) :
    Prop :=
  r.key ∈ nodes.map Node.key ∧ z.table.find? r.key = some r ∨
    ∃ load w u, Visited sqlMayFail cfg v r load w u z

theorem safe_turn {c : Call} {rest : List Node} (refreshed : Refreshed cfg false v w c)
    (turn : Turn sqlMayFail cfg v r (c.node :: rest) w) :
    (sem sqlMayFail).Safe (fun _ _ => True) (reconcileOne c.cfg c.node c.force) w fun _ z =>
      Turn sqlMayFail cfg v r rest z ∧
        (∀ k, k ≠ c.key → z.table.find? k = w.table.find? k) ∧
        w.trace <:+ z.trace := by
  rw [safe_iff_runs]
  refine ⟨fun _ _ _ _ => trivial, fun result z runs => ?_⟩
  have served := (served_of_call runs).1
  refine ⟨?_, served.others, served.trace⟩
  rcases turn with ⟨waiting, stored⟩ | ⟨load, w', u, visited⟩
  · by_cases own : r.key = c.key
    · have row : c.row = r := by
        have found : w.table.find? r.key = some c.row := by
          rw [refreshed.table, own]
          exact c.stored
        exact Option.some.inj (found.symm.trans stored)
      obtain ⟨load, loaded, read⟩ := refreshed.loaded
      rw [row] at loaded read
      rw [refreshed.cfg, refreshed.force, loaded] at runs
      exact .inr ⟨load, w, z, ⟨load, rfl, read⟩, stored, ⟨result, runs⟩,
        List.suffix_refl _⟩
    · refine .inl ⟨?_, (served.others _ own).trans stored⟩
      exact (List.mem_cons.mp waiting).resolve_left own
  · exact .inr ⟨load, w', u, { visited with later := visited.later.trans served.trace }⟩

/-- A reconcile of all nodes that could list them comes to every row. -/
theorem visited_of_runs {rc : Int} (stored : v.table.find? r.key = some r)
    (runs : (sem sqlMayFail).Runs (reconcileAll cfg false) v (.done rc) z)
    (listed : ¬v.Did z ⟨.sql .list, .error⟩) :
    ∃ load w u, Visited sqlMayFail cfg v r load w u z := by
  obtain ⟨nodes, u, list, runs⟩ := runs_bind runs
  cases nodes with
  | none =>
    obtain ⟨-, rfl⟩ := runs_pure runs
    obtain ⟨reply, u', statement, rest⟩ := runs_bind list
    obtain ⟨-, rfl⟩ := runs_perform statement
    cases reply with
    | error =>
      obtain ⟨-, rfl⟩ := runs_pure rest
      exact absurd ⟨[_], rfl, List.mem_singleton_self _⟩ listed
    | ok rows changes =>
      obtain ⟨loaded, u'', _, rest⟩ := runs_bind rest
      have absurd := (runs_pure rest).1
      contradiction
  | some nodes =>
    have safe : (sem sqlMayFail).Safe (fun _ _ => True) dbListNodes v fun nodes u => ∀ ns,
        nodes = some ns → Waiting v ns u ∧ u.table = v.table ∧ r.key ∈ ns.map Node.key := by
      refine safe_dbListNodes (fun _ _ _ => trivial) ?_ ?_
      · rintro ns w' keeps loaded keys all _ ⟨⟩
        rw [← keeps.table] at loaded
        exact ⟨⟨keys, loaded⟩, keeps.table, all r (Keyed.find?_eq_some.mp stored).1⟩
      · rintro _ _ _ ns ⟨⟩
    obtain ⟨waiting, table, listed⟩ := safe.result list nodes rfl
    obtain ⟨failed, z', loop, rest⟩ := runs_bind runs
    obtain ⟨-, rfl⟩ := runs_pure rest
    have turn : Turn sqlMayFail cfg v r nodes u := .inl ⟨listed, table ▸ stored⟩
    have safe : (sem sqlMayFail).Safe (fun _ _ => True) (reconcileNodes cfg false nodes) u
        fun _ z => Turn sqlMayFail cfg v r [] z :=
      safe_reconcileNodes (I := Turn sqlMayFail cfg v r)
        (fun c rest w refreshed _ turn => safe_turn refreshed turn) waiting turn
    exact (safe.result loop).resolve_left fun h => by simp at h

/-- A row that survives a `deregister` that ran its commands is the old one, and
its `DELETE` has failed. -/
theorem survives_of_runs {reply : UbusReply} (asked : args.key? = some k)
    (stored : w.table.find? k = some r)
    (runs : (sem sqlMayFail).Runs (handleDeregister args) w (.done reply) v)
    (issued : v.commands ≠ w.commands) (kept : v.table.find? k ≠ none) :
    w.Did v ⟨.sql (.delete k), .error⟩ ∧ v.table.find? k = some r := by
  have safe : (sem sqlMayFail).Safe (fun _ _ => True) (handleDeregister args) w fun _ v =>
      v.commands ≠ w.commands → v.table.find? k ≠ none →
        w.Did v ⟨.sql (.delete k), .error⟩ ∧ v.table.find? k = some r := by
    refine safe_handleDeregister (fun _ _ _ => trivial) (fun _ _ _ _ _ _ _ _ _ _ _ => trivial)
      (fun _ _ _ _ _ _ => trivial) ?_ ?_ ?_
    · rintro v n r' changes asked' - table - - - kept
      cases asked.symm.trans asked'
      rw [World.table_after_ok, Stmt.effect, Keyed.find?_erase_self] at kept
      exact absurd rfl kept
    · rintro - v n r' asked' - table later - -
      cases asked.symm.trans asked'
      refine ⟨World.did_of_suffix later (List.suffix_refl _), ?_⟩
      rw [World.table_after_error, table]
      exact stored
    · intro v keeps issued
      exact absurd keeps.commands issued
  exact safe.result runs issued kept

/-- A node that a `deregister` tore down, and could not delete, is applied again
by the next periodic reconcile that finds its address exactly when its row owes
it. -/
theorem deregister_remembered_iff {reply : UbusReply} {rc : Int} (asked : args.key? = some k)
    (stored : w.table.find? k = some r)
    (deregisters : (sem True).Runs (handleDeregister args) w (.done reply) v)
    (issued : v.commands ≠ w.commands) (kept : v.table.find? k ≠ none)
    (reconciles : (sem True).Runs (reconcileAll cfg false) v (.done rc) z)
    (listed : ¬v.Did z ⟨.sql .list, .error⟩) :
    w.Did v ⟨.sql (.delete k), .error⟩ ∧
      ∃ load w' u now, Visited True cfg v r load w' u z ∧
      u.callTrace.getLast? = some ⟨.time, now⟩ ∧
      (Detected u → Finds (SameAddress r) u →
          (Pushes k u ↔ (r.toNode load).owed cfg now)) := by
  obtain ⟨failed, row⟩ := survives_of_runs asked stored deregisters issued kept
  have key : r.key = k := (Keyed.find?_eq_some.mp stored).2
  subst key
  obtain ⟨load, w', u, visited⟩ := visited_of_runs row reconciles listed
  obtain ⟨result, called⟩ := visited.call
  obtain ⟨now, reading, owed⟩ := call_owed visited.stored called
  exact ⟨failed, load, w', u, now, visited, reading, owed⟩

end Next

section Samples

/-- The scenario with a `DELETE` that fails. -/
def Scenario.refusing (sc : Scenario) (w : World) : (q : Req) → Resp q
  | .sql (.delete _) => .error
  | q => sc.answer w q

theorem Scenario.fair_refusing (sc : Scenario) (w : World) (q : Req) :
    (sem True).allowed w q (sc.refusing w q) := by
  cases q with
  | sql s =>
    cases s with
    | delete k => exact .inr ⟨trivial, rfl⟩
    | _ => exact sc.fair w (.sql _)
  | _ => exact sc.fair w _

def sampleName : NodeArgs where
  uid := some "node".toList
  serverHost := some "host".toList
  serverPort := some 4000

/-- A deregister whose row stays. -/
@[irreducible] def sampleFailed : Prog UbusReply × World :=
  playFor World.after (sample 1700000100).refusing 30 (handleDeregister sampleName) sampleStored

theorem sampleFailed_runs : ∃ reply, (sem True).Runs (handleDeregister sampleName) sampleStored
    (.done reply) sampleFailed.2 := by
  obtain ⟨reply, ended⟩ := Option.isSome_iff_exists.mp
    (show sampleFailed.1.result?.isSome by decide +kernel)
  refine ⟨reply, ?_⟩
  rw [← Program.eq_done ended]
  unfold sampleFailed
  exact runs_playFor (S := sem True) (sample _).fair_refusing 30 _ _

/-- The next periodic reconcile. -/
@[irreducible] def sampleNext (now : Int) (steps : Nat) : Prog Int × World :=
  playFor World.after (sample now).answer steps (reconcileAll ⟨true, false, 3600⟩ false)
    sampleFailed.2

theorem sampleNext_runs (now : Int) (steps : Nat) :
    (sem True).Runs (reconcileAll ⟨true, false, 3600⟩ false) sampleFailed.2
      (sampleNext now steps).1 (sampleNext now steps).2 := by
  unfold sampleNext
  exact runs_playFor (S := sem True) (sample _).fair steps _ _

/-- A node whose ends were torn down is skipped as active: its row was not
deleted, and its status says nothing of it. -/
theorem deregister_forgotten : ∃ w v z reply n, ∃ rest : Unit → Prog Int,
    (sem True).Runs (handleDeregister sampleName) w (.done reply) v ∧
      (∃ cmd ∈ v.commands, cmd.issue.tool = .serverDel ∧ cmd.issue.node.key = sampleKey ∧
        cmd.result.rc = 0) ∧
      v.table.find? sampleKey ≠ none ∧
      (sem True).Runs (reconcileAll ⟨true, false, 3600⟩ false) v
        (.call (.report (.skipped n)) rest) z ∧
      n.key = sampleKey := by
  obtain ⟨reply, deregisters⟩ := sampleFailed_runs
  obtain ⟨rest, skips⟩ := Program.eq_call (p := (sampleNext 1700000200 5).1)
    (q := .report (.skipped (sampleNode 1700000000 1700000000))) (by decide +kernel)
  have reconciles := sampleNext_runs 1700000200 5
  rw [skips] at reconciles
  exact ⟨_, _, _, reply, _, rest, deregisters,
    by decide +kernel, by decide +kernel, reconciles, rfl⟩

def Event.listFails : Event → Bool
  | ⟨.sql .list, .error⟩ => true
  | _ => false

theorem deregister_remembered_expiry :
    sampleStored.Did sampleFailed.2 ⟨.sql (.delete sampleKey), .error⟩ := by
  obtain ⟨reply, deregisters⟩ := sampleFailed_runs
  obtain ⟨rc, ended⟩ := Option.isSome_iff_exists.mp
    (show (sampleNext 1700003700 30).1.result?.isSome by decide +kernel)
  have reconciles := sampleNext_runs 1700003700 30
  rw [Program.eq_done ended] at reconciles
  obtain ⟨r, stored⟩ := Option.isSome_iff_exists.mp
    (show (sampleStored.table.find? sampleKey).isSome by decide +kernel)
  have issued : sampleFailed.2.commands ≠ sampleStored.commands := by
    intro same
    have more : sampleFailed.2.commands.length ≠ sampleStored.commands.length := by decide +kernel
    exact more (congrArg List.length same)
  have listed : ¬sampleFailed.2.Did (sampleNext 1700003700 30).2 ⟨.sql .list, .error⟩ := by
    rintro ⟨recent, hrecent, happened⟩
    have fine : (sampleNext 1700003700 30).2.trace.all fun e => !e.listFails := by decide +kernel
    rw [hrecent, List.all_append, Bool.and_eq_true] at fine
    have none := List.all_eq_true.mp fine.1 _ happened
    contradiction
  exact (deregister_remembered_iff (rfl : sampleName.key? = some sampleKey) stored deregisters
    issued (by decide +kernel) reconciles listed).1

end Samples

end Tumgrd
