import Tumgrd.Effect.Service
import Tumgrd.Handlers

/-! The daemon as a service: the event loop runs one method or timer callback
at a time, and may crash at any point of it. -/
namespace Tumgrd

open Effect Semantics

inductive Op where
  | register (args : RegisterArgs)
  | deregister (args : NodeArgs)
  | refresh (args : RefreshArgs)
  | status
  | periodic
  | ifup
  | startup

/-- The configuration is fixed while a process lives; letting it vary from task
to task covers every restart with other options. -/
structure Task where
  cfg : Config
  op : Op

def Task.prog (t : Task) : Prog Unit :=
  match t.op with
  | .register args => do let _ ← handleRegister t.cfg args
  | .deregister args => do let _ ← handleDeregister args
  | .refresh args => do let _ ← handleRefresh t.cfg args
  | .status => do let _ ← handleStatus
  | .periodic => periodicReconcile t.cfg
  | .ifup => netEvent t.cfg
  | .startup => startupReconcile t.cfg

/-- The table survives a crash; the global flag and the pending startup
reconcile are those of the new process. -/
def World.restart (w : World) : World := { w with timedOut := false, booting := true }

def World.Fresh (w : World) : Prop := w.table = .empty ∧ w.trace = []

abbrev Daemon := Service Req Resp World Task

def daemon (S : Semantics Req Resp World) (admits : World → Task → Prop) : Daemon where
  sem := S
  prog := Task.prog
  admits := admits
  finish w _ := w
  crash := World.restart

/-- How a task comes to call `tumgrd_reconcile_one`. -/
inductive Entered (t : Task) (w₀ w : World) (c : Call) : Prop
  | loaded : c.cfg = t.cfg → c.faithful = true → Loaded w₀ w c.row c.node →
    Entered t w₀ w c
  | updated {args : RegisterArgs} {reg : Registration} : t.op = .register args →
      args.check = some reg → c.cfg = t.cfg → c.force = true → c.faithful = true →
      reg.key = c.key → w₀.table.find? reg.key ≠ none → Timed w₀ w c.node c.row →
      Entered t w₀ w c
  | created {args : RegisterArgs} {reg : Registration} : t.op = .register args →
      args.check = some reg → c.cfg = t.cfg → c.force = true → reg.storedKey = c.key →
      w₀.table.find? reg.key = none → (w₀.table.find? c.key = none → c.faithful = true) →
      Entered t w₀ w c

/-- A register that found no row at its own texts but writes over one, because
they are cut on their way into the node. -/
def Task.Overwrites (t : Task) (w₀ : World) : Prop :=
  ∃ args reg, t.op = .register args ∧ args.check = some reg ∧
    w₀.table.find? reg.key = none ∧ w₀.table.find? reg.storedKey ≠ none

theorem Entered.faithful {t : Task} {w₀ w : World} {c : Call} (h : Entered t w₀ w c)
    (faithful : ¬t.Overwrites w₀) : c.faithful = true := by
  cases h with
  | loaded _ faithful => exact faithful
  | updated _ _ _ _ faithful => exact faithful
  | created op check _ _ key absent fresh =>
    refine fresh ?_
    by_contra present
    exact faithful ⟨_, _, op, check, absent, key ▸ present⟩

/-- The requests of a task begun in `w₀`. -/
inductive Permits (sqlMayFail : Prop) (t : Task) (w₀ : World) : World → Req → Prop
  | quiet {w : World} {q : Req} : q.quiet = true → Permits sqlMayFail t w₀ w q
  | call {w : World} {q : Req} {c : Call} : Entered t w₀ w c → c.node.damaged = false →
      Issued sqlMayFail c w q → Permits sqlMayFail t w₀ w q
  | upsert {w : World} {args : RegisterArgs} {reg : Registration} {n : Node} {s : Bool}
      {createdAt lastUpdated : Int} : t.op = .register args → args.check = some reg →
      w₀.Keeps w → Registers t.cfg args reg w₀ w n s →
      Permits sqlMayFail t w₀ w (.sql (.upsert (n.withDefaults createdAt lastUpdated) s))
  | exec {w : World} {args : NodeArgs} {r : Row} {n : Node} {tool : Tool} {call : Invocation} :
      t.op = .deregister args → w₀.table.find? n.key = some r → Loaded w₀ w r n →
      w.table = w₀.table → tool = .serverDel ∨ tool = .clientDel →
      Issue.Builds ⟨tool, n, []⟩ call →
        Permits sqlMayFail t w₀ w (.exec ⟨tool, n, []⟩ call)
  | delete {w : World} {args : NodeArgs} {r : Row} {n : Node} : t.op = .deregister args →
      w₀.table.find? n.key = some r → Loaded w₀ w r n → w.table = w₀.table →
      Permits sqlMayFail t w₀ w (.sql (.delete n.key))
  | booted {w : World} : t.op = .startup → Permits sqlMayFail t w₀ w (.report .startupDone)

variable {sqlMayFail : Prop} {t : Task} {w₀ w : World} {c : Call}

theorem Entered.later {w' : World} (h : Entered t w₀ w c) (later : w.trace <:+ w'.trace) :
    Entered t w₀ w' c := by
  cases h with
  | loaded cfg faithful loaded => exact .loaded cfg faithful (loaded.later later)
  | updated op check cfg force faithful key found timed =>
    exact .updated op check cfg force faithful key found (timed.later later)
  | created op check cfg force key absent faithful =>
    exact .created op check cfg force key absent faithful

/-- A call the task enters issues only what the task may issue. -/
theorem safe_entered (entered : Entered t w₀ w c) (entry : w.table = c.table)
    (earlier : w.commands = c.commands) (consistent : Consistent w.table) :
    (sem sqlMayFail).Safe (Permits sqlMayFail t w₀) (reconcileOne c.cfg c.node c.force) w
      fun _ v => (∀ k, k ≠ c.key → v.table.find? k = w.table.find? k) ∧
        w.trace <:+ v.trace ∧
        Consistent v.table := by
  have healthy : c.node.damaged = false :=
    (consistent c.key c.row (entry ▸ c.stored)).healthy c.linked
  refine (safe_consistent_call entry earlier consistent).mono ?_ ?_
  · exact fun v q ⟨⟨issued, later⟩, _⟩ => .call (entered.later later) healthy issued
  · rintro result v ⟨⟨⟨now, outcome⟩, later, -⟩, keep⟩
    exact ⟨entry ▸ outcome.others, later, keep⟩

theorem Registered.entered {args : RegisterArgs} {reg : Registration} (op : t.op = .register args)
    (check : args.check = some reg) (h : Registered t.cfg reg w₀ w c) : Entered t w₀ w c := by
  rcases h.origin with ⟨key, found, faithful, timed⟩ | ⟨absent, key, faithful⟩
  · exact .updated op check h.cfg h.force faithful key found timed
  · exact .created op check h.cfg h.force key absent faithful

theorem safe_reconcileAll_permits {force : Bool} (consistent : Consistent w.table) :
    (sem sqlMayFail).Safe (Permits sqlMayFail t w) (reconcileAll t.cfg force) w
      fun _ _ => True := by
  refine safe_reconcileAll (I := fun _ v => Consistent v.table) (fun _ _ => .quiet)
    (fun nodes v keeps _ _ => keeps.table ▸ consistent) (fun c rest v refreshed _ keep => ?_)
    (fun _ _ => trivial) fun _ _ _ => trivial
  exact (safe_entered (.loaded refreshed.cfg refreshed.faithful refreshed.loaded) refreshed.table
    refreshed.commands keep).post fun _ v' ⟨others, later, keep⟩ => ⟨keep, others, later⟩

/-- Every task begun on a consistent table keeps to its permissions. -/
theorem safe_task (consistent : Consistent w.table) :
    (sem sqlMayFail).Safe (Permits sqlMayFail t w) t.prog w fun _ _ => True := by
  have quiet : ∀ v q, q.quiet = true → Permits sqlMayFail t w v q := fun _ _ => .quiet
  unfold Task.prog
  cases op : t.op with
  | register args =>
    simp only [safe_bind, safe_pure]
    refine safe_handleRegister quiet consistent
      (fun v reg n s _ _ check keeps registers => .upsert op check keeps registers)
      (fun v reg c check registered => ?_) fun _ _ => trivial
    exact (safe_entered (registered.entered op check) registered.table registered.commands
      registered.consistent).post fun _ _ _ _ _ => trivial
  | deregister args =>
    simp only [safe_bind, safe_pure]
    exact safe_handleDeregister quiet
      (fun v r n tool call found loaded table _ => .exec op found loaded table)
      (fun v r n found loaded table => .delete op found loaded table)
      (fun _ _ _ _ _ _ _ _ _ => trivial) (fun _ _ _ _ _ _ _ _ => trivial) fun _ _ => trivial
  | refresh args =>
    simp only [safe_bind, safe_pure]
    unfold handleRefresh
    split
    · simp only [refreshAll, safe_bind, safe_pure]
      exact safe_reconcileAll_permits consistent
    split
    · trivial
    · refine safe_refreshOne quiet (fun v c keeps refreshed => ?_) fun _ _ => trivial
      exact (safe_entered (.loaded refreshed.cfg refreshed.faithful refreshed.loaded)
        refreshed.table refreshed.commands (keeps.table ▸ consistent)).post
          fun _ _ _ _ _ => trivial
  | status =>
    simp only [handleStatus, safe_bind, safe_pure]
    exact safe_dbListNodes quiet (fun _ _ _ _ _ _ => trivial) fun _ _ _ => trivial
  | periodic =>
    simp only [periodicReconcile, safe_bind, safe_pure]
    exact safe_reconcileAll_permits consistent
  | ifup =>
    simp only [netEvent, safe_bind, safe_pure]
    exact safe_reconcileAll_permits consistent
  | startup =>
    simp only [startupReconcile, safe_bind, safe_report]
    exact (safe_reconcileAll_permits consistent).post fun _ _ _ => ⟨.booted op, trivial⟩

/-- What a statement of a task may do to a row that stays in the table. -/
inductive RowStep (t : Task) (w₀ w : World) (k : Key) (r : Row) : Row → Prop
  | same : RowStep t w₀ w k r r
  | merged {n : Node} {s : Bool} : RowStep t w₀ w k r (r.merge (Row.ofNode n s))
  | runtime {ip : Buf 64} {status : Buf 32} {now : Int} :
      RowStep t w₀ w k r (r.assign (setRuntime ip status now))
  | begun {key : HexKey} {now : Int} : r.rotationState = rotationNone →
      RowStep t w₀ w k r (r.assign (setRotation key.buf rotationPendingRemote now))
  | promoted {c : Call} {now : Int} {n : Node} {found : Buf 64} {ip : Str} :
      Entered t w₀ w c → c.key = k → During c now n found w →
      n.rotationState = rotationPendingRemote → Pushed w.callCommands n ip →
      RowStep t w₀ w k r (r.assign (setRotationState rotationPendingLocalRecovery))
  | completed {c : Call} {now : Int} {l : Locals} : Entered t w₀ w c → c.key = k →
      c.node.damaged = false → Applying c now l w →
      Installed w.callCommands l.node l.detectedIp.text →
        l.node.rotationState ≠ rotationNone →
      RowStep t w₀ w k r (r.assign (setCompleted (if now ≥ minSaneTime then now else 0)))
  | applied {c : Call} {now : Int} {l : Locals} : Entered t w₀ w c → c.key = k →
      c.node.damaged = false → Applying c now l w → l.node.rotationState = rotationNone →
      l.expired = true → RowStep t w₀ w k r (r.assign (setApplied now))

section Steps

variable {k : Key} {r r' : Row}

/-- An update of one row changes that row or none. -/
theorem rowStep_of_update {k' : Key} {set : Assign} {guard : Guard} {reply : SqlReply}
    (step : k' = k → guard.holds r.rotationState = true → RowStep t w₀ w k r (r.assign set))
    (before : w.table.find? k = some r)
    (after : (w.after (.sql (.update k' set guard)) reply).table.find? k = some r') :
    RowStep t w₀ w k r r' := by
  cases reply with
  | error =>
    cases before.symm.trans after
    exact .same
  | ok rows changes =>
    rw [World.table_after_ok] at after
    by_cases hk : k = k'
    · subst hk
      rw [find?_update before, Option.some.injEq] at after
      subst after
      unfold Row.update
      split
      · exact step rfl ‹_›
      · exact .same
    · rw [find?_update_of_ne hk] at after
      cases before.symm.trans after
      exact .same

theorem Permits.rowStep {q : Req} {reply : Resp q} (h : Permits sqlMayFail t w₀ w q)
    (before : w.table.find? k = some r) (after : (w.after q reply).table.find? k = some r') :
    RowStep t w₀ w k r r' := by
  have unchanged : (w.after q reply).table = w.table → RowStep t w₀ w k r r' := by
    intro table
    rw [table] at after
    cases before.symm.trans after
    exact .same
  cases h with
  | quiet quiet => exact unchanged (World.keeps_after quiet reply).table
  | exec => exact unchanged rfl
  | booted => exact unchanged rfl
  | @delete args r₀ n =>
    cases reply with
    | error => exact unchanged rfl
    | ok rows changes =>
      rw [World.table_after_ok] at after
      by_cases hk : k = n.key
      · rw [hk] at after
        simp [Stmt.effect] at after
      · rw [Stmt.effect, Keyed.find?_erase_of_ne hk] at after
        cases before.symm.trans after
        exact .same
  | @upsert args reg n s createdAt lastUpdated =>
    cases reply with
    | error => exact unchanged rfl
    | ok rows changes =>
      rw [World.table_after_ok, Stmt.effect] at after
      cases hput : w.table.put? Row.merge Row.key_merge Row.slot_merge
          (Row.ofNode (n.withDefaults createdAt lastUpdated) s) with
      | none =>
        rw [hput] at after
        cases before.symm.trans after
        exact .same
      | some t' =>
        rw [hput, Option.getD_some] at after
        by_cases hk : k = (Row.ofNode (n.withDefaults createdAt lastUpdated) s).key
        · subst hk
          rw [Keyed.find?_put_self hput, before, Option.some.injEq] at after
          subst after
          exact .merged
        · rw [Keyed.find?_put_of_ne hput hk] at after
          cases before.symm.trans after
          exact .same
  | @call q c entered healthy issued =>
    have damage : c.node.damaged = true → RowStep t w₀ w k r r' := by
      intro damaged
      rw [healthy] at damaged
      contradiction
    cases issued with
    | quiet quiet => exact unchanged (World.keeps_after quiet reply).table
    | replace damaged => exact damage damaged
    | clear damaged => exact damage damaged
    | begin =>
      exact rowStep_of_update (fun _ holds => .begun (by simpa [Guard.holds] using holds)) before
        after
    | promote during pending pushed =>
      exact rowStep_of_update (fun hk _ => .promoted entered hk during pending pushed) before after
    | runtime => exact rowStep_of_update (fun _ _ => .runtime) before after
    | complete applying installed rotating =>
      exact rowStep_of_update
        (fun hk _ => .completed entered hk healthy applying installed rotating) before after
    | applied applying resting expired =>
      exact rowStep_of_update (fun hk _ => .applied entered hk healthy applying resting expired)
        before after
    | called => exact unchanged rfl
    | skipped => exact unchanged rfl
    | exec => exact unchanged rfl
    | returned => exact unchanged rfl

theorem find?_update_none {set : Assign} {guard : Guard} {t : Table} {k' : Key}
    (absent : t.find? k = none) : ((Stmt.update k' set guard).effect t).find? k = none := by
  simp only [Stmt.effect]
  rw [Keyed.find?_updateAt, absent]
  rfl

/-- A row that was not there before is the one a registration stored. -/
theorem Permits.inserted {q : Req} {reply : Resp q} (h : Permits sqlMayFail t w₀ w q)
    (before : w.table.find? k = none) (after : (w.after q reply).table.find? k = some r') :
    ∃ args reg n s createdAt lastUpdated, t.op = .register args ∧ args.check = some reg ∧
      w₀.Keeps w ∧ Registers t.cfg args reg w₀ w n s ∧
      r' = Row.ofNode (n.withDefaults createdAt lastUpdated) s := by
  have absent : (w.after q reply).table.find? k ≠ none := by
    rw [after]
    exact Option.some_ne_none _
  have unchanged : (w.after q reply).table ≠ w.table := by
    intro table
    rw [table, before] at absent
    contradiction
  have updated : ∀ {k' set guard} {reply : SqlReply},
      (w.after (.sql (.update k' set guard)) reply).table.find? k = none := by
    intro k' set guard reply
    cases reply with
    | error => exact before
    | ok rows changes => exact find?_update_none before
  cases h with
  | quiet quiet => exact absurd (World.keeps_after quiet reply).table unchanged
  | exec => exact absurd rfl unchanged
  | booted => exact absurd rfl unchanged
  | @delete args r₀ n =>
    cases reply with
    | error => exact absurd rfl unchanged
    | ok rows changes =>
      refine absurd ?_ absent
      rw [World.table_after_ok, Stmt.effect]
      by_cases hk : k = n.key
      · rw [hk, Keyed.find?_erase_self]
      · rw [Keyed.find?_erase_of_ne hk, before]
  | @upsert args reg n s createdAt lastUpdated op check keeps registers =>
    cases reply with
    | error => exact absurd rfl unchanged
    | ok rows changes =>
      refine ⟨args, reg, n, s, createdAt, lastUpdated, op, check, keeps, registers, ?_⟩
      rw [World.table_after_ok, Stmt.effect] at after
      cases hput : w.table.put? Row.merge Row.key_merge Row.slot_merge
          (Row.ofNode (n.withDefaults createdAt lastUpdated) s) with
      | none =>
        rw [hput, Option.getD_none, before] at after
        contradiction
      | some t' =>
        rw [hput, Option.getD_some] at after
        by_cases hk : k = (Row.ofNode (n.withDefaults createdAt lastUpdated) s).key
        · subst hk
          rw [Keyed.find?_put_self hput, before, Option.some.injEq] at after
          exact after.symm
        · rw [Keyed.find?_put_of_ne hput hk, before] at after
          contradiction
  | call entered healthy issued =>
    cases issued with
    | quiet quiet => exact absurd (World.keeps_after quiet reply).table unchanged
    | called => exact absurd rfl unchanged
    | skipped => exact absurd rfl unchanged
    | exec => exact absurd rfl unchanged
    | returned => exact absurd rfl unchanged
    | _ => exact absurd updated absent

/-- It comes without a rotation. -/
theorem Permits.inserted_resting {q : Req} {reply : Resp q} (h : Permits sqlMayFail t w₀ w q)
    (before : w.table.find? k = none) (after : (w.after q reply).table.find? k = some r') :
    r'.rotationState = rotationNone := by
  obtain ⟨args, reg, n, s, createdAt, lastUpdated, -, check, keeps, registers, rfl⟩ :=
    h.inserted before after
  rcases registers.node check with ⟨resting, -⟩ | ⟨r, hr⟩
  · exact resting
  · have key := (Keyed.find?_eq_some.mp after).2
    rw [← keeps.table] at hr
    rw [← key] at before
    cases before.symm.trans hr

theorem Permits.consistent {q : Req} {reply : Resp q} (h : Permits sqlMayFail t w₀ w q)
    (consistent : Consistent w.table) : Consistent (w.after q reply).table := by
  cases h with
  | quiet quiet =>
    rw [(World.keeps_after quiet reply).table]
    exact consistent
  | call entered healthy issued => exact issued.consistent healthy consistent
  | upsert op check keeps registers =>
    cases reply with
    | error => exact consistent
    | ok rows changes =>
      refine consistent.upsert ?_
      rw [keeps.table]
      exact registers.node check
  | delete =>
    cases reply with
    | error => exact consistent
    | ok rows changes => exact consistent.erase
  | exec => exact consistent
  | booted => exact consistent

/-- Every run of the daemon keeps to the permissions of its tasks. -/
theorem daemon_contract (admits : World → Task → Prop) :
    (daemon (sem sqlMayFail) admits).Contract (fun w => Consistent w.table)
      (fun w => Consistent w.table) (fun _ => True) (Permits sqlMayFail) fun _ _ _ => True where
  start := fun _ consistent => ⟨consistent, trivial⟩
  task := fun _ _ _ consistent _ => safe_task consistent
  call := fun _ _ _ _ _ _ _ _ consistent permits _ => permits.consistent consistent
  finish := fun _ _ _ _ _ _ consistent _ => ⟨consistent, trivial⟩
  crash := fun _ consistent => ⟨consistent, trivial⟩

theorem World.Fresh.consistent (h : w.Fresh) : Consistent w.table := by
  rw [h.1]
  exact .empty

end Steps

end Tumgrd
