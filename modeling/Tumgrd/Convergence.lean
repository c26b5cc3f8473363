import Tumgrd.Effect.Abstraction
import Tumgrd.Footprint
import Tumgrd.Lifetime
import Tumgrd.Skip

/-! What the reconciler is for: a pass in which nothing goes wrong leaves every
node applied, whatever went wrong before, and the passes after it find nothing
to do. -/
namespace Tumgrd

open Effect Program Semantics Service

/-- The clock is set, there are keys and addresses, and both tools do their work. -/
def Req.Granted : (q : Req) → Resp q → Prop
  | .time, now => minSaneTime ≤ now
  | .randomKey, key => key.isSome = true
  | .detect _ _, found => found.ok = true
  | .exec issue _, result => result.rc = 0 ∧
      (issue.tool = .serverAdd → result.acknowledges serverUpdated = true)
  | _, _ => True

/-- Statements do not fail, and neither does anything else. -/
abbrev grantedSem : Semantics Req Resp World where
  allowed w q r := allowed False w q r ∧ q.Granted r
  after := World.after

section Granting

/-- What can be said of the answers without the table. -/
def Req.Assured (ran : Bool) : (q : Req) → Resp q → Prop
  | .detect _ _, found => found.ip.text ≠ []
  | .timedOut, late => ran = true → late = false
  | .sql (.update _ set _), reply => ∃ changes, reply = .ok [] changes ∧
      (set.status = none → changes = 1)
  | _, _ => True

/-- These surroundings only know whether a tool has run. -/
def granting : Semantics Req Resp Bool where
  allowed ran q r := q.Granted r ∧ q.Assured ran r
  after ran q _ := ran || q.isExec

/-- The program returns what `Q` accepts, once everything is granted. -/
def Obtains {α : Type} (p : Prog α) (ran : Bool) (Q : α → Bool → Prop) : Prop :=
  granting.Safe (fun _ _ => True) p ran Q

variable {α β : Type} {ran : Bool}

@[simp] theorem obtains_pure {value : α} {Q : α → Bool → Prop} :
    Obtains (pure value) ran Q ↔ Q value ran := Iff.rfl

@[simp] theorem obtains_bind {p : Prog α} {f : α → Prog β} {Q : β → Bool → Prop} :
    Obtains (p >>= f) ran Q ↔ Obtains p ran fun value ran' => Obtains (f value) ran' Q :=
  safe_bind f Q

theorem Obtains.post {p : Prog α} {Q Q' : α → Bool → Prop} (obtains : Obtains p ran Q)
    (post : ∀ value ran', Q value ran' → Q' value ran') : Obtains p ran Q' :=
  Safe.post obtains post

/-- A request is granted and answered, and `ran'` is what is known after it. -/
theorem obtains_perform {q : Req} {Q : Resp q → Bool → Prop} {ran' : Bool}
    (after : (ran || q.isExec) = ran') : Obtains (Program.perform q) ran Q ↔
      ∀ reply, q.Granted reply → q.Assured ran reply → Q reply ran' := by
  subst after
  constructor
  · intro obtains reply granted assured
    exact ((safe_perform q Q).mp obtains).2 reply ⟨granted, assured⟩
  · intro obtains
    refine (safe_perform q Q).mpr ⟨trivial, fun reply given => ?_⟩
    exact obtains reply given.1 given.2

@[simp] theorem obtains_time {Q : Int → Bool → Prop} :
    Obtains time ran Q ↔ ∀ now, minSaneTime ≤ now → Q now ran := by
  refine (obtains_perform (Bool.or_false ran)).trans ?_
  exact ⟨fun h now sane => h now sane trivial, fun h now sane _ => h now sane⟩

@[simp] theorem obtains_randomKey {Q : Option HexKey → Bool → Prop} :
    Obtains randomKey ran Q ↔ ∀ key, Q (some key) ran := by
  refine (obtains_perform (Bool.or_false ran)).trans ?_
  constructor
  · exact fun h key => h (some key) rfl trivial
  · intro h reply granted _
    obtain ⟨key, rfl⟩ := Option.isSome_iff_exists.mp granted
    exact h key

@[simp] theorem obtains_detect {url ipVersion : Str} {Q : Detection → Bool → Prop} :
    Obtains (detect url ipVersion) ran Q ↔
      ∀ found : Detection, found.ok = true → found.ip.text ≠ [] → Q found ran :=
  obtains_perform (Bool.or_false ran)

@[simp] theorem obtains_exec {issue : Issue} {call : Invocation}
    {Q : ExecResult → Bool → Prop} :
    Obtains (exec issue call) ran Q ↔ ∀ result : ExecResult, result.rc = 0 →
      (issue.tool = .serverAdd → result.acknowledges serverUpdated = true) → Q result true := by
  refine (obtains_perform (Bool.or_true ran)).trans ?_
  constructor
  · exact fun h result ended acknowledged => h result ⟨ended, acknowledged⟩ trivial
  · exact fun h result ⟨ended, acknowledged⟩ _ => h result ended acknowledged

@[simp] theorem obtains_readTimedOut {Q : Bool → Bool → Prop} :
    Obtains readTimedOut true Q ↔ Q false true := by
  refine (obtains_perform rfl).trans ?_
  constructor
  · exact fun h => h false trivial fun _ => rfl
  · intro h late _ timely
    cases timely rfl
    exact h

@[simp] theorem obtains_log {level : Level} {text : Str} {Q : Unit → Bool → Prop} :
    Obtains (log level text) ran Q ↔ Q () ran :=
  (obtains_perform (Bool.or_false ran)).trans ⟨fun h => h () trivial trivial, fun h _ _ _ => h⟩

@[simp] theorem obtains_report {what : Report} {Q : Unit → Bool → Prop} :
    Obtains (report what) ran Q ↔ Q () ran :=
  (obtains_perform (Bool.or_false ran)).trans ⟨fun h => h () trivial trivial, fun h _ _ _ => h⟩

@[simp] theorem obtains_update {k : Key} {set : Assign} {guard : Guard}
    {Q : SqlReply → Bool → Prop} : Obtains (sql (.update k set guard)) ran Q ↔
      ∀ changes, (set.status = none → changes = 1) → Q (.ok [] changes) ran := by
  refine (obtains_perform (Bool.or_false ran)).trans ?_
  constructor
  · exact fun h changes counted => h _ trivial ⟨changes, rfl, counted⟩
  · rintro h _ - ⟨changes, rfl, counted⟩
    exact h changes counted

/-- The jump to `err_cleanup` is not taken. -/
def Flow.onward (Q : Locals → Prop) : Flow → Prop
  | .next l => Q l
  | .skip _ => True
  | .fail _ _ => False

theorem obtains_andThen {p : Prog Flow} {f : Locals → Prog Flow} {Q Q' : Locals → Prop}
    (first : Obtains p ran fun flow _ => flow.onward Q)
    (rest : ∀ l ran', Q l → Obtains (f l) ran' fun flow _ => flow.onward Q') :
    Obtains (andThen p f) ran fun flow _ => flow.onward Q' := by
  unfold andThen
  rw [obtains_bind]
  refine first.post fun flow ran' onward => ?_
  cases flow with
  | next l => exact rest l ran' onward
  | skip l => trivial
  | fail l err => exact onward.elim

variable {l : Locals} {n : Node} {k : Key} {cfg : Config} {now : Int}

theorem obtains_dbUpdateOne {set : Assign} {guard : Guard} (plain : set.status = none) :
    Obtains (dbUpdateOne k set guard) ran fun rc _ => rc = 0 := by
  simp only [dbUpdateOne, obtains_bind]
  rw [obtains_update]
  intro changes counted
  simp [counted plain]

theorem obtains_repairRotation {damaged : Node → Bool} :
    Obtains (repairRotation cfg now damaged l) ran fun flow _ => flow.onward fun _ => True := by
  unfold repairRotation
  split
  · trivial
  split
  · rw [obtains_bind, obtains_randomKey]
    intro key
    simp only [dbReplaceRotation, obtains_bind]
    refine (obtains_dbUpdateOne rfl).post fun rc _ done => ?_
    rw [if_neg (by simp [done])]
    trivial
  · simp only [dbClearRotation, obtains_bind]
    refine (obtains_dbUpdateOne rfl).post fun rc _ done => ?_
    rw [if_neg (by simp [done])]
    trivial

theorem obtains_checkExpiry :
    Obtains (checkExpiry cfg now l) ran fun flow _ => flow.onward fun _ => True := by
  have rotation : ∀ l, Obtains (beginRotation cfg now l) ran fun flow _ =>
      flow.onward fun _ => True := by
    intro l
    unfold beginRotation
    split
    · rw [obtains_bind, obtains_randomKey]
      intro key
      simp only [dbBeginRotation, obtains_bind]
      refine (obtains_dbUpdateOne rfl).post fun rc _ done => ?_
      rw [if_neg (by simp [done])]
      trivial
    · trivial
  unfold checkExpiry
  simp only
  split_ifs <;> first | trivial | exact rotation _

theorem obtains_decideApply : Obtains (decideApply cfg now l) ran fun flow _ =>
    flow.onward fun l => l.detectedIp.text ≠ [] := by
  refine obtains_andThen obtains_repairRotation fun l _ _ => ?_
  refine obtains_andThen obtains_repairRotation fun l _ _ => ?_
  refine obtains_andThen obtains_checkExpiry fun l _ _ => ?_
  refine obtains_andThen (Q := fun l => l.detectedIp.text ≠ []) ?_ fun l _ found => ?_
  · rw [detectIp, obtains_bind, obtains_detect]
    intro found ok detected
    rw [if_pos ok]
    exact detected
  · unfold skipUnchanged
    split
    · exact found
    · trivial

/-- A tool that succeeds leaves the timeout flag clear. -/
theorem obtains_runTuctlScript {issue : Issue} {script : Str} (add : issue.tool = .serverAdd) :
    Obtains (runTuctlScript issue script serverUpdated) ran fun rc _ => rc = 0 := by
  simp only [runTuctlScript, logArgv, obtains_bind]
  rw [obtains_log, obtains_exec]
  intro result rc acknowledged
  have shown : result.shows serverUpdated = true := by
    have := acknowledged add
    simp only [ExecResult.acknowledges, Bool.and_eq_true, Bool.or_eq_true,
      decide_eq_true_eq] at this
    exact this.2.resolve_left (by decide)
  rw [obtains_log, if_neg (by simp [rc]), if_neg (by simp [shown])]
  rfl

theorem obtains_runKtuctl {issue : Issue} {argv : List Str} :
    Obtains (runKtuctl issue argv) ran fun rc ran' => rc = 0 ∧ ran' = true := by
  simp only [runKtuctl, logArgv, obtains_bind]
  rw [obtains_log, obtains_exec]
  intro result rc _
  rw [obtains_log]
  exact ⟨rc, rfl⟩

theorem obtains_serverAdd {ip : Str} (found : ip ≠ []) :
    Obtains (serverAdd n cfg ip) ran fun rc _ => rc = 0 := by
  unfold serverAdd
  rw [if_neg found]
  split
  · simp only [logTrimmed, obtains_bind]
    rw [obtains_log]
    refine (obtains_runTuctlScript rfl).post fun rc _ done => ?_
    rw [if_pos done]
    rfl
  · simp only [serverAddDetected, logTrimmed, obtains_bind]
    rw [obtains_log]
    exact obtains_runTuctlScript rfl

theorem obtains_resetLocalClient : Obtains (resetLocalClient n) ran fun rc _ => rc = 0 := by
  simp only [resetLocalClient, clientDel, clientAdd, obtains_bind]
  refine obtains_runKtuctl.post ?_
  rintro rc _ ⟨-, rfl⟩
  rw [obtains_readTimedOut]
  exact obtains_runKtuctl.post fun rc _ done => done.1

theorem obtains_markRuntime {ip : Buf 64} {status : Buf 32} :
    Obtains (markRuntime n ip status) ran fun rc _ => rc = 0 := by
  simp only [markRuntime, dbUpdateRuntime, obtains_bind]
  rw [obtains_time]
  intro t _
  rw [obtains_update]
  exact fun changes _ => rfl

theorem obtains_applyNode (found : l.detectedIp.text ≠ []) :
    Obtains (applyNode cfg now l) ran fun flow _ => flow.onward fun _ => True := by
  unfold applyNode
  refine obtains_andThen (Q := fun _ => True) ?_ fun l _ _ => ?_
  · simp only [applyServer, obtains_bind]
    refine (obtains_serverAdd found).post fun rc _ done => ?_
    rw [if_neg (by simp [done])]
    split
    · simp only [dbUpdateRotationState, obtains_bind]
      rw [if_neg (by decide)]
      refine (obtains_dbUpdateOne rfl).post fun rc _ done => ?_
      rw [if_neg (by simp [done])]
      trivial
    · trivial
  refine obtains_andThen (Q := fun _ => True) ?_ fun l _ _ => ?_
  · simp only [applyLocal, obtains_bind]
    refine obtains_resetLocalClient.post fun rc _ done => ?_
    rw [if_neg (by simp [done])]
    trivial
  refine obtains_andThen (Q := fun _ => True) ?_ fun l _ _ => ?_
  · simp only [markActive, obtains_bind]
    refine obtains_markRuntime.post fun rc _ done => ?_
    rw [if_neg (by simp [done])]
    trivial
  unfold recordApplied
  simp only
  split
  · simp only [dbCompleteRotation, obtains_bind]
    refine (obtains_dbUpdateOne rfl).post fun rc _ done => ?_
    rw [if_neg (by simp [done])]
    trivial
  split
  · simp only [dbUpdateApplied, obtains_bind]
    refine (obtains_dbUpdateOne rfl).post fun rc _ done => ?_
    rw [if_neg (by simp [done])]
    trivial
  · trivial

/-- Once everything is granted, the call cannot fail. -/
theorem obtains_reconcileOne {force : Bool} :
    Obtains (reconcileOne cfg n force) ran fun result _ => result.1 = 0 := by
  simp only [reconcileOne, obtains_bind]
  rw [obtains_report, obtains_time]
  intro now _
  refine (obtains_andThen obtains_decideApply fun l _ found => obtains_applyNode found).post ?_
  intro flow _ onward
  cases flow with
  | next l =>
    simp only [finishReconcile, obtains_bind]
    rw [obtains_report]
    rfl
  | skip l =>
    simp only [finishReconcile, obtains_bind]
    rw [obtains_report, obtains_report]
    rfl
  | fail l err => exact onward.elim

end Granting

section Since

/-- What happened between two worlds is all in `A`. -/
def Since (A : (q : Req) → Resp q → Prop) (w v : World) : Prop :=
  ∃ recent, v.trace = recent ++ w.trace ∧ ∀ e ∈ recent, A e.req e.resp

variable {A : (q : Req) → Resp q → Prop} {S : Semantics Req Resp World} {u v w : World}

theorem since_of_runs {α : Type} {p p' : Prog α} (same : S.after = World.after)
    (answers : ∀ w q r, S.allowed w q r → A q r) (runs : S.Runs p w p' v) : Since A w v := by
  induction runs with
  | refl => exact ⟨[], rfl, by simp⟩
  | @step _ q _ r _ allowed ih =>
    obtain ⟨recent, trace, given⟩ := ih
    refine ⟨⟨q, r⟩ :: recent, ?_,
      List.forall_mem_cons.mpr ⟨answers _ q r allowed, given⟩⟩
    rw [same, World.trace_after, trace, List.cons_append]

theorem Since.of_mem {recent : List Event} {e : Event} (since : Since A w v)
    (trace : v.trace = recent ++ w.trace) (mem : e ∈ recent) : A e.req e.resp := by
  obtain ⟨recent', trace', given⟩ := since
  have same : recent' = recent := List.append_cancel_right (trace'.symm.trans trace)
  exact given e (same ▸ mem)

/-- Since a call began, there is nothing but what it did. -/
theorem trace_of_call {sqlMayFail : Prop} {cfg : Config} {n : Node} {force : Bool}
    {result : Int × Node}
    (runs : (sem sqlMayFail).Runs (reconcileOne cfg n force) w (.done result) v) :
    v.trace = v.callTrace ++ ⟨.report (.called n force), ()⟩ :: w.trace := by
  obtain ⟨now, runs⟩ := read_of_runs runs
  have emits : Emits (Req.Serves n True) (fun _ => True) (afterClock cfg n force now) :=
    (emits_afterClock (fun _ => trivial) fun _ _ => trivial).post fun _ _ => trivial
  have safe := (safe_of_emits (S := sem sqlMayFail) (w := w.read n force now) emits).invariant
    (I := fun v => v.trace = v.callTrace ++ ⟨.report (.called n force), ()⟩ :: w.trace) rfl
    fun v q r kept serves _ => by
      rw [World.trace_after, World.callTrace_after _ _ serves.noCall, List.cons_append, kept]
  exact (safe.result runs).2

end Since

section Counted

variable {c : Call} {w : World}

/-- An `UPDATE` whose count is checked finds its row, unless the statement fails. -/
theorem Issued.counted {k : Key} {set : Assign} {guard : Guard} {reply : SqlReply}
    (issued : Issued False c w (.sql (.update k set guard))) (faithful : c.faithful = true)
    (given : allowed False w (.sql (.update k set guard)) reply) :
    ∃ changes, reply = .ok [] changes ∧ (set.status = none → changes = 1) := by
  have replied : reply = .ok [] (w.table.countAt k fun r => guard.holds r.rotationState) :=
    given.resolve_right fun failed => failed.1
  refine ⟨_, replied, fun checked => ?_⟩
  have one : ∀ r, w.table.find? k = some r → guard.holds r.rotationState = true →
      w.table.countAt k (fun r => guard.holds r.rotationState) = 1 := by
    intro r stored holds
    rw [Keyed.countAt_eq, stored]
    simp [holds]
  cases issued with
  | quiet quiet => contradiction
  | replace _ _ entry => exact one c.row (entry ▸ c.stored) rfl
  | clear _ _ entry => exact one c.row (entry ▸ c.stored) rfl
  | begin _ resting _ _ entry =>
    have linked := c.linked
    rw [faithful] at linked
    refine one c.row (entry ▸ c.stored) ?_
    rw [Guard.holds, linked.mirrors.rotationState, resting]
    rfl
  | promote during pending =>
    obtain ⟨r, stored, linked, -⟩ := during.row
    exact one r stored (linked.promoted pending).1
  | runtime => contradiction
  | complete applying _ rotating =>
    obtain ⟨r, stored, linked, -⟩ := applying.during.row
    exact one r stored (linked.completed (t := 0) rotating).1
  | applied applying =>
    obtain ⟨r, stored, -⟩ := applying.during.row
    exact one r stored rfl

theorem runs_of_granted {α : Type} {p p' : Prog α} {v : World} (runs : grantedSem.Runs p w p' v) :
    (sem False).Runs p w p' v :=
  runs.widen (fun _ _ _ given => given.1) rfl

theorem since_of_granted {α : Type} {p p' : Prog α} {v : World}
    (runs : grantedSem.Runs p w p' v) : Since Req.Granted w v :=
  since_of_runs (S := grantedSem) rfl (fun _ _ _ given => given.2) runs

/-- Once everything is granted, a call for a row as it is stored returns 0. -/
theorem succeeds_of_granted {v : World} {result : Int × Node} (entry : w.table = c.table)
    (earlier : w.commands = c.commands) (faithful : c.faithful = true)
    (runs : grantedSem.Runs (reconcileOne c.cfg c.node c.force) w (.done result) v) :
    result.1 = 0 := by
  have fine : grantedSem.Safe (Issued False c) (reconcileOne c.cfg c.node c.force) w _ :=
    (safe_reconcileOne entry earlier).restrict (fun _ _ _ given => given.1) fun _ _ _ => rfl
  have step : ∀ v ran q r, Issued False c v q → (ran = true → v.timedOut = false) →
      grantedSem.allowed v q r → granting.allowed ran q r ∧
        (granting.after ran q r = true → (v.after q r).timedOut = false) := by
    intro v ran q r issued clear ⟨allowed, granted⟩
    have later : q.isExec = false → (v.after q r).timedOut = v.timedOut →
        granting.after ran q r = true → (v.after q r).timedOut = false := by
      intro noExec same after
      simp only [granting, noExec, Bool.or_false] at after
      exact same.trans (clear after)
    cases q with
    | detect url ipVersion => exact ⟨⟨granted, allowed granted⟩, later rfl rfl⟩
    | exec issue call => exact ⟨⟨granted, trivial⟩, fun _ => allowed.2 granted.1⟩
    | timedOut => exact ⟨⟨granted, fun ran => allowed.trans (clear ran)⟩, later rfl rfl⟩
    | sql s =>
      refine ⟨⟨granted, ?_⟩, later rfl rfl⟩
      cases s with
      | update k set guard => exact issued.counted faithful allowed
      | _ => trivial
    | _ => exact ⟨⟨granted, trivial⟩, later rfl rfl⟩
  obtain ⟨ran, -, coarse⟩ := fine.abstraction (u := false) (by simp) step runs
  exact obtains_reconcileOne.result coarse

end Counted

section Call

variable {cfg : Config} {force : Bool} {load now : Int} {r r' r₀ : Row} {w v : World}
  {stored : w.table.find? r.key = some r} {result : Int × Node}

/-- The columns that only a registration writes are those of `r₀`. -/
def Row.Retains (r r₀ : Row) : Prop :=
  r = { r₀ with
    currentIp := r.currentIp
    lastUpdated := r.lastUpdated
    status := r.status
    xorKey := r.xorKey
    lastAppliedAt := r.lastAppliedAt
    rotationState := r.rotationState
    xorKeyPending := r.xorKeyPending }

theorem Row.Retains.key (h : r.Retains r₀) : r.key = r₀.key := by
  rw [h]
  rfl

theorem Row.Retains.span (h : r.Retains r₀) : r.span = r₀.span := by
  rw [h]
  rfl

theorem Row.Retains.update (h : r.Retains r₀) {set : Assign} {guard : Guard} :
    (r.update set guard).Retains r₀ := by
  unfold Row.update
  split
  · unfold Row.Retains at h ⊢
    rw [h]
    rfl
  · exact h

theorem retains_of_runs {sqlMayFail : Prop} {n : Node} (stored : w.table.find? n.key = some r)
    (runs : (sem sqlMayFail).Runs (reconcileOne cfg n force) w (.done result) v) :
    ∃ r', v.table.find? n.key = some r' ∧ r'.Retains r := by
  obtain ⟨now, runs⟩ := read_of_runs runs
  have emits : Emits (Req.Serves n True) (fun _ => True) (afterClock cfg n force now) :=
    (emits_afterClock (fun _ => trivial) fun _ _ => trivial).post fun _ _ => trivial
  have safe := (safe_of_emits (S := sem sqlMayFail) (w := w.read n force now) emits).invariant
    (I := fun v => ∃ r', v.table.find? n.key = some r' ∧ r'.Retains r) ⟨r, stored, rfl⟩
    fun v q reply ⟨r', kept, retains⟩ serves _ => by
      cases serves with
      | quiet quiet =>
        rw [(World.keeps_after quiet reply).table]
        exact ⟨r', kept, retains⟩
      | report => exact ⟨r', kept, retains⟩
      | exec => exact ⟨r', kept, retains⟩
      | update =>
        cases reply with
        | error => exact ⟨r', kept, retains⟩
        | ok rows changes => exact ⟨_, find?_update kept, retains.update⟩
  exact (safe.result runs).2

/-- A call that returned 0 has set the time of a key that was due, and left any other. -/
theorem Outcome.dated (h : Outcome False (r.call cfg force load w stored) now result v)
    (succeeded : result.1 = 0) (healthy : (r.toNode load).damaged = false)
    (sane : minSaneTime ≤ now) : ∃ r', v.table.find? r.key = some r' ∧
      (r'.lastAppliedAt = now ∨ r'.lastAppliedAt = r.lastAppliedAt ∧
        ¬(r.toNode load).seeds now ∧ ¬(r.toNode load).overdue now) := by
  cases h with
  | skipped ready unneeded table =>
    have decided := ready.decided
    rw [needApply, Bool.or_eq_false_iff, Bool.or_eq_false_iff] at unneeded
    rw [decided.unexpired_of_unforced unneeded.1.1] at decided
    obtain ⟨-, -, same, -, unexpired⟩ := decided.of_unexpired healthy
    rw [table, same]
    exact ⟨r, stored, .inr ⟨rfl, unexpired⟩⟩
  | @applied l _ completed =>
    obtain ⟨r', hr', -, -, -, -, kept, renewed⟩ := completed.row
    refine ⟨r', hr', ?_⟩
    obtain ⟨m, t, decided, -⟩ := completed.origin
    cases expired : l.expired with
    | false =>
      rw [expired] at decided
      exact .inr ⟨kept expired, (decided.of_unexpired healthy).2.2.2.2⟩
    | true => exact .inl (renewed expired sane)
  | failed nonzero => contradiction

/-- The key of the row has been in use for less than its lifetime. -/
def Row.Young (r : Row) (now : Int) : Prop :=
  0 < r.span → 0 < r.lastAppliedAt ∧ now - r.lastAppliedAt < r.span

theorem young_of_dated (load_sane : -86400 ≤ load) (sane : minSaneTime ≤ now)
    (span : r'.span = r.span) (dated : r'.lastAppliedAt = now ∨
      r'.lastAppliedAt = r.lastAppliedAt ∧ ¬(r.toNode load).seeds now ∧
        ¬(r.toNode load).overdue now) : r'.Young now := by
  intro limited
  rw [span] at limited ⊢
  rcases dated with applied | ⟨kept, seeds, overdue⟩
  · rw [applied]
    simp only [minSaneTime] at sane
    omega
  · obtain ⟨seeded, young⟩ :=
      young_of_unexpired (n := r.toNode load) sane limited seeds overdue
    rw [kept]
    refine ⟨?_, young_of_clamp load_sane seeded young⟩
    have positive : clampAppliedAt load r.lastAppliedAt ≠ 0 := seeded
    rcases clampAppliedAt_eq load r.lastAppliedAt with ⟨-, clamped⟩ | ⟨-, ahead, -⟩ |
      ⟨low, -, clamped⟩ <;> omega

/-- A call that returned 0 leaves both ends told what the row says, and the row
with an address that the call has found. -/
theorem Outcome.tends (h : Outcome False (r.call cfg force load w stored) now result v)
    (succeeded : result.1 = 0) (healthy : (r.toNode load).damaged = false)
    (sound : force = false → Sound w.commands r) : ∃ r', v.table.find? r.key = some r' ∧
      (∃ push install, Applied v.commands r' push install) ∧
      ∃ url ipVersion ip, ⟨.detect url ipVersion, ⟨true, ip⟩⟩ ∈ v.callTrace ∧
        streqcase (columnText r'.currentIp).text ip.text = true := by
  have trusted : Trusted (r.call cfg force load w stored) := fun unforced =>
    ⟨sound unforced, load, rfl⟩
  obtain ⟨r', hr', left⟩ := h.sound healthy trusted
  have applies : r'.status ≠ some statusError → r'.rotationState = rotationNone →
      ∃ push install, Applied v.commands r' push install :=
    fun fine resting => (left.resolve_left fine).resolve_left fun rotating => rotating resting
  refine ⟨r', hr', ?_⟩
  cases h with
  | skipped ready unneeded table commands callCommands callTrace =>
    obtain ⟨-, same, -, -, resting, clean, ip⟩ := ready.unforced healthy unneeded
    rw [table, same] at hr'
    cases hr'.symm.trans stored
    obtain ⟨url, ipVersion, found⟩ := ready.detection
    refine ⟨applies (fun failed => ?_) resting, url, ipVersion, _, callTrace.subset found, ip⟩
    simp [Row.call, Node.wasError, Row.toNode, failed] at clean
  | @applied l _ completed =>
    obtain ⟨s, hs, linked, -, status, ip, -⟩ := completed.row
    cases hr'.symm.trans hs
    obtain ⟨url, ipVersion, found⟩ := completed.found
    refine ⟨applies ?_ ?_, url, ipVersion, _, found, ?_⟩
    · rw [status]
      decide
    · exact linked.mirrors.rotationState.trans completed.rotationState
    · rw [ip, columnText_some, streqcase_refl]
  | failed nonzero => contradiction

end Call

section Pass

variable {cfg : Config} {force : Bool} {r r' : Row} {u v w x : World} {rc : Int}

/-- Both ends were last told what the row says, for an address found since `w`;
and at a time since then its key was young. -/
structure Tended (w v : World) (r : Row) : Prop where
  applied : ∃ push install, Applied v.commands r push install
  recent : ∃ recent, v.trace = recent ++ w.trace ∧
    (∃ url ipVersion ip, ⟨.detect url ipVersion, ⟨true, ip⟩⟩ ∈ recent ∧
      streqcase (columnText r.currentIp).text ip.text = true) ∧
    ∃ now, ⟨.time, now⟩ ∈ recent ∧ minSaneTime ≤ now ∧ r.Young now

theorem Tended.earlier (h : Tended u v r) (later : w.trace <:+ u.trace) : Tended w v r := by
  obtain ⟨recent, trace, ⟨url, ipVersion, ip, found, same⟩, now, read, young⟩ := h.recent
  obtain ⟨before, hbefore⟩ := later
  refine ⟨h.applied, recent ++ before, ?_, ⟨url, ipVersion, ip, ?_, same⟩, now, ?_, young⟩
  · rw [trace, ← hbefore, List.append_assoc]
  · exact List.mem_append_left _ found
  · exact List.mem_append_left _ read

/-- Commands for other nodes do not undo it. -/
theorem Tended.later {new : List Command} (h : Tended w u r) (trace : u.trace <:+ v.trace)
    (commands : v.commands = new ++ u.commands)
    (others : ∀ cmd ∈ new, cmd.serves r.key = false) : Tended w v r := by
  obtain ⟨push, install, applied⟩ := h.applied
  obtain ⟨recent, before, ⟨url, ipVersion, ip, found, same⟩, now, read, young⟩ := h.recent
  obtain ⟨after, hafter⟩ := trace
  refine ⟨⟨push, install, ?_⟩, after ++ recent, ?_, ⟨url, ipVersion, ip, ?_, same⟩,
    now, ?_, young⟩
  · rw [commands]
    exact applied.append others
  · rw [← hafter, before, List.append_assoc]
  · exact List.mem_append_right _ found
  · exact List.mem_append_right _ read

theorem tended_of_call {load : Int} {result : Int × Node}
    (stored : u.table.find? r.key = some r) (consistent : Consistent u.table)
    (load_sane : -86400 ≤ load) (sound : force = false → Sound u.commands r)
    (runs : grantedSem.Runs (reconcileOne cfg (r.toNode load) force) u (.done result) x) :
    result.1 = 0 ∧ ∃ r', x.table.find? r.key = some r' ∧ Tended u x r' ∧ r'.Retains r := by
  have given := runs_of_granted runs
  have healthy : (r.toNode load).damaged = false :=
    (consistent _ _ stored).healthy (.faithful ⟨rfl, rfl, rfl⟩)
  have succeeded : result.1 = 0 :=
    succeeds_of_granted (c := r.call cfg force load u stored) rfl rfl rfl runs
  refine ⟨succeeded, ?_⟩
  obtain ⟨now, outcome⟩ := outcome_of_runs stored given
  have trace : x.trace =
      (x.callTrace ++ [⟨.report (.called (r.toNode load) force), ()⟩]) ++ u.trace := by
    rw [trace_of_call given, List.append_assoc]
    rfl
  have read : ⟨.time, now⟩ ∈ x.callTrace := List.mem_of_getLast? (outcome.clock succeeded)
  have sane : minSaneTime ≤ now :=
    (since_of_granted runs).of_mem trace (List.mem_append_left _ read)
  obtain ⟨r', hr', applied, url, ipVersion, ip, found, same⟩ :=
    outcome.tends succeeded healthy sound
  obtain ⟨s, hs, dated⟩ := outcome.dated succeeded healthy sane
  cases hr'.symm.trans hs
  obtain ⟨s, hs, retains⟩ := retains_of_runs (n := r.toNode load) stored given
  cases hr'.symm.trans hs
  refine ⟨r', hr',
    ⟨applied, _, trace, ⟨url, ipVersion, ip, ?_, same⟩, now, ?_, sane, ?_⟩, retains⟩
  · exact List.mem_append_left _ found
  · exact List.mem_append_left _ read
  · exact young_of_dated load_sane sane retains.span dated

/-- What a pass over `nodes` that began in `u` has made of them. -/
structure Tends (w u v : World) (nodes : List Node) : Prop where
  others : ∀ k, k ∉ nodes.map Node.key → v.table.find? k = u.table.find? k
  own : ∀ n ∈ nodes, ∃ r r', u.table.find? n.key = some r ∧
    v.table.find? n.key = some r' ∧
    Tended w v r' ∧ r'.Retains r
  commands : ∃ new, v.commands = new ++ u.commands ∧
    ∀ cmd ∈ new, cmd.issue.node.key ∈ nodes.map Node.key
  trace : u.trace <:+ v.trace

/-- What is known of a world in the middle of a pass that began in `w`. -/
structure Passable (force : Bool) (w u : World) : Prop where
  consistent : Consistent u.table
  distinct : Distinct u.table
  sound : force = false → AllSound u
  trace : w.trace <:+ u.trace
  sane : ∀ recent load, u.trace = recent ++ w.trace → ⟨.time, load⟩ ∈ recent →
    minSaneTime ≤ load

theorem Passable.load {n : Node} (h : Passable force w u) (loaded : Loaded w u r n) :
    ∃ load, n = r.toNode load ∧ -86400 ≤ load := by
  obtain ⟨load, rfl, negative | ⟨recent, trace, read⟩⟩ := loaded
  · exact ⟨0, by simp [Row.toNode, clampAppliedAt, negative], by omega⟩
  · have sane := h.sane recent load trace read
    simp only [minSaneTime] at sane
    exact ⟨load, rfl, by omega⟩

theorem Passable.after {result : Int × Node} {c : Call} (h : Passable force w u)
    (entry : u.table = c.table) (earlier : u.commands = c.commands) (trusted : Trusted c)
    (runs : grantedSem.Runs (reconcileOne c.cfg c.node c.force) u (.done result) x) :
    Leaves c u x ∧ Passable force w x := by
  have leaves :=
    (safe_trusted_call entry earlier h.consistent trusted).result (runs_of_granted runs)
  refine ⟨leaves, leaves.consistent, leaves.distinct.mpr h.distinct, fun off => ?_,
    h.trace.trans leaves.trace, fun recent load trace read => ?_⟩
  · exact leaves.allSound h.distinct fun k r _ stored => h.sound off k r stored
  · obtain ⟨new, hnew⟩ := leaves.trace
    obtain ⟨before, hbefore⟩ := h.trace
    have same : recent = new ++ before := by
      rw [← hnew, ← hbefore, ← List.append_assoc] at trace
      exact (List.append_cancel_right trace).symm
    rw [same] at read
    rcases List.mem_append.mp read with late | early
    · exact (since_of_granted runs).of_mem hnew.symm late
    · exact h.sane before load hbefore.symm early

theorem Waiting.unlisted {n : Node} {rest : List Node} (h : Waiting w (n :: rest) u) :
    n.key ∉ rest.map Node.key := by
  have keys := h.keys
  rw [List.map_cons, List.nodup_cons] at keys
  exact keys.1

theorem tends_of_nodes {nodes : List Node} {failed : Nat} (waiting : Waiting w nodes u)
    (passable : Passable force w u)
    (runs : grantedSem.Runs (reconcileNodes cfg force nodes) u (.done failed) v) :
    failed = 0 ∧ Tends w u v nodes ∧ Passable force w v := by
  induction nodes generalizing u failed with
  | nil =>
    obtain ⟨rfl, rfl⟩ := runs_pure runs
    exact ⟨rfl,
      ⟨fun _ _ => rfl, by simp, ⟨[], rfl, by simp⟩, List.suffix_refl _⟩, passable⟩
  | cons n rest ih =>
    obtain ⟨result, x, first, runs⟩ := runs_bind runs
    obtain ⟨later, x', following, last⟩ := runs_bind runs
    obtain ⟨rfl, rfl⟩ := runs_pure last
    obtain ⟨r, stored, loaded⟩ := waiting.loaded n List.mem_cons_self
    obtain ⟨load, rfl, load_sane⟩ := passable.load loaded
    have sound : force = false → Sound u.commands r := fun off => passable.sound off _ _ stored
    obtain ⟨succeeded, r', own, tended, retains⟩ :=
      tended_of_call stored passable.consistent load_sane sound first
    obtain ⟨leaves, passable'⟩ := passable.after (c := r.call cfg force load u stored) rfl rfl
      (fun off => ⟨sound off, load, rfl⟩) first
    have unlisted : r.key ∉ rest.map Node.key := waiting.unlisted
    obtain ⟨none, tends, done⟩ :=
      ih (waiting.tail leaves.others leaves.trace) passable' following
    refine ⟨by simp [none, succeeded], ⟨fun k absent => ?_, fun m mem => ?_, ?_, ?_⟩, done⟩
    · rw [List.map_cons, List.mem_cons, not_or] at absent
      exact (tends.others k absent.2).trans (leaves.others k absent.1)
    · rcases List.mem_cons.mp mem with rfl | mem
      · obtain ⟨new, commands, mine⟩ := tends.commands
        refine ⟨r, r', stored, (tends.others _ unlisted).trans own, ?_, retains⟩
        refine (tended.earlier passable.trace).later tends.trace commands fun cmd hcmd => ?_
        obtain ⟨m, hm, same⟩ := List.mem_map.mp (mine cmd hcmd)
        obtain ⟨s, s', hs, -⟩ := tends.own m hm
        have apart : r'.key ≠ m.key := fun same' =>
          unlisted (retains.key.symm.trans same' ▸ List.mem_map_of_mem hm)
        rw [retains.key] at apart ⊢
        exact passable'.distinct.serves hs own apart same.symm
      · obtain ⟨s, s', hs, rest⟩ := tends.own m mem
        have apart : m.key ≠ r.key := fun same => unlisted (same ▸ List.mem_map_of_mem mem)
        exact ⟨s, s', (leaves.others m.key apart).symm.trans hs, rest⟩
    · obtain ⟨new, commands, mine⟩ := tends.commands
      obtain ⟨new', commands', mine'⟩ := (served_of_call (runs_of_granted first)).1.commands
      refine ⟨new ++ new', by rw [commands, commands', List.append_assoc], fun cmd hcmd => ?_⟩
      rw [List.map_cons, List.mem_cons]
      exact (List.mem_append.mp hcmd).elim (fun h => .inr (mine cmd h))
        fun h => .inl (mine' cmd h).1
    · exact leaves.trace.trans tends.trace

theorem listed_of_granted {listed : Option (List Node)}
    (runs : grantedSem.Runs dbListNodes w (.done listed) u) :
    ∃ nodes, listed = some nodes ∧ w.Keeps u ∧ Waiting w nodes u ∧
      ∀ r ∈ w.table.rows, r.key ∈ nodes.map Node.key := by
  have safe : (sem False).Safe (fun _ _ => True) dbListNodes w fun listed u =>
      ∃ nodes, listed = some nodes ∧ w.Keeps u ∧ Waiting w nodes u ∧
        ∀ r ∈ w.table.rows, r.key ∈ nodes.map Node.key := by
    refine safe_dbListNodes (fun _ _ _ => trivial) (fun nodes u keeps loaded keys all => ?_)
      fun may => may.elim
    refine ⟨nodes, rfl, keeps, ⟨keys, fun n mem => ?_⟩, all⟩
    rw [keeps.table]
    exact loaded n mem
  exact safe.result (runs_of_granted runs)

theorem Passable.keeps (h : Passable force w w) (keeps : w.Keeps u)
    (since : Since Req.Granted w u) :
    Passable force w u where
  consistent := keeps.table ▸ h.consistent
  distinct := keeps.table ▸ h.distinct
  sound off := (h.sound off).keeps keeps
  trace := keeps.trace
  sane _ _ trace read := since.of_mem trace read

theorem tends_of_pass (passable : Passable force w w)
    (runs : grantedSem.Runs (reconcileAll cfg force) w (.done rc) v) :
    rc = 0 ∧ (∀ r ∈ w.table.rows, ∃ r' ∈ v.table.rows, r'.Retains r) ∧
      ∀ r' ∈ v.table.rows, Tended w v r' ∧ ∃ r ∈ w.table.rows, r'.Retains r := by
  obtain ⟨listed, u, list, runs⟩ := runs_bind runs
  obtain ⟨nodes, rfl, keeps, waiting, all⟩ := listed_of_granted list
  obtain ⟨failed, x, pass, runs⟩ := runs_bind runs
  obtain ⟨rfl, rfl⟩ := runs_pure runs
  obtain ⟨rfl, tends, -⟩ :=
    tends_of_nodes waiting (passable.keeps keeps (since_of_granted list)) pass
  have others : ∀ k, k ∉ nodes.map Node.key → w.table.find? k = none := by
    intro k absent
    by_contra present
    obtain ⟨r, stored⟩ := Option.ne_none_iff_exists'.mp present
    obtain ⟨mem, rfl⟩ := Keyed.find?_eq_some.mp stored
    exact absent (all r mem)
  refine ⟨rfl, fun r mem => ?_, fun r' mem => ?_⟩
  · obtain ⟨n, listed, key⟩ := List.mem_map.mp (all r mem)
    obtain ⟨s, r', hs, own, -, retains⟩ := tends.own n listed
    rw [keeps.table, key, Keyed.mem_rows.mp mem, Option.some.injEq] at hs
    exact ⟨r', (Keyed.find?_eq_some.mp own).1, hs ▸ retains⟩
  · have stored := Keyed.mem_rows.mp mem
    by_cases listed : r'.key ∈ nodes.map Node.key
    · obtain ⟨n, listed, key⟩ := List.mem_map.mp listed
      obtain ⟨r, s, hr, own, tended, retains⟩ := tends.own n listed
      rw [key, stored, Option.some.injEq] at own
      subst own
      rw [keeps.table] at hr
      exact ⟨tended, r, (Keyed.find?_eq_some.mp hr).1, retains⟩
    · rw [tends.others _ listed, keeps.table, others _ listed] at stored
      contradiction

end Pass

section Recovery

variable {cfg : Config} {force : Bool} {v w : World} {rc : Int}

/-- A forced pass may start wherever the daemon has got to, an unforced one where
no statement has failed and the startup reconcile is through. -/
inductive Recoverable (w : World) : Bool → Prop
  | forced : (daemon (sem True) fun _ _ => True).Reachable World.Fresh (.idle w) →
      Distinct w.table → Recoverable w true
  | serving {force : Bool} : distinctDaemon.Reachable World.Fresh (.idle w) →
      w.booting = false → Recoverable w force

theorem Recoverable.passable (h : Recoverable w force) : Passable force w w := by
  have sane : ∀ recent load, w.trace = recent ++ w.trace → ⟨.time, load⟩ ∈ recent →
      minSaneTime ≤ load := by
    intro recent load trace read
    rw [List.self_eq_append_left.mp trace] at read
    contradiction
  cases h with
  | forced reach distinct =>
    have start := (daemon_contract fun _ _ => True).reachable
      (reach.mono fun _ fresh => fresh.consistent)
    exact ⟨start.1, distinct, nofun, List.suffix_refl _, sane⟩
  | serving reach booted =>
    obtain ⟨⟨consistent, distinct⟩, sound⟩ := sound_contract.reachable reach
    exact ⟨consistent, distinct, fun _ => sound booted, List.suffix_refl _, sane⟩

/-- Whatever went wrong before: a pass in which nothing does succeeds, keeps what
was registered, and leaves every node applied at both ends, with an address that
was just found and a key within its lifetime. -/
theorem pass_converges (recoverable : Recoverable w force)
    (runs : grantedSem.Runs (reconcileAll cfg force) w (.done rc) v) :
    rc = 0 ∧ (∀ r ∈ w.table.rows, ∃ r' ∈ v.table.rows, r'.Retains r) ∧
      ∀ r' ∈ v.table.rows, Tended w v r' ∧ ∃ r ∈ w.table.rows, r'.Retains r :=
  tends_of_pass recoverable.passable runs

theorem sample_works (now : Int) (tool : Tool) : ((sample now).result tool).rc = 0 ∧
    (tool = .serverAdd → ((sample now).result tool).acknowledges serverUpdated = true) := by
  have shown :
      ExecResult.acknowledges ⟨0, false, serverUpdated, [], []⟩ serverUpdated = true := by
    decide
  cases tool with
  | serverAdd => exact ⟨rfl, fun _ => shown⟩
  | _ => exact ⟨rfl, nofun⟩

theorem sample_granted {now : Int} (sane : minSaneTime ≤ now) (w : World) (q : Req) :
    grantedSem.allowed w q ((sample now).answer w q) := by
  refine ⟨(sample now).fair w q, ?_⟩
  cases q with
  | time => exact sane
  | randomKey => rfl
  | detect => rfl
  | exec issue call => exact sample_works now issue.tool
  | _ => trivial

theorem recoverable_sampleBooted : Recoverable sampleBooted force := by
  have registered : distinctDaemon.Reachable World.Fresh (.idle sampleStored) := by
    unfold sampleStored
    exact (sample _).distinct_idle (.start ⟨rfl, rfl⟩) (fun _ => ⟨nofun, nofun⟩)
      (by decide +kernel) (by decide +kernel)
  refine .serving ?_ (by decide +kernel)
  unfold sampleBooted
  exact (sample _).distinct_idle registered (fun _ => ⟨nofun, nofun⟩) (by decide +kernel)
    (by decide +kernel)

/-- The first pass after the key of the sample node has expired. -/
@[irreducible] def samplePass : Prog Int × World :=
  playFor World.after (sample 1700003700).answer 40
    (reconcileAll (sampleTask .periodic).cfg false) sampleBooted

theorem runs_samplePass : grantedSem.Runs (reconcileAll (sampleTask .periodic).cfg false)
    sampleBooted (.done 0) samplePass.2 := by
  rw [← Program.eq_done (show samplePass.1.result? = some 0 by decide +kernel)]
  unfold samplePass
  exact runs_playFor (S := grantedSem) (sample_granted (by decide)) 40 _ _

theorem pass_converges_expiry : ∃ r ∈ samplePass.2.table.rows, r.lastAppliedAt = 1700003700 ∧
    Tended sampleBooted samplePass.2 r := by
  obtain ⟨r, mem, applied⟩ :
      ∃ r ∈ samplePass.2.table.rows, r.lastAppliedAt = 1700003700 := by
    decide +kernel
  exact ⟨r, mem, applied,
    ((pass_converges recoverable_sampleBooted runs_samplePass).2.2 r mem).1⟩

end Recovery

section Rest

variable {cfg : Config} {rows : List Row} {r : Row} {load now : Int} {n : Node} {w v : World}
  {P : World → Req → Prop}

/-- A time at which no key of `rows` has reached its lifetime. -/
def AllYoung (rows : List Row) (now : Int) : Prop :=
  ∀ r ∈ rows, 0 < r.span → r.lastAppliedAt ≤ now + 86400 ∧ now - r.lastAppliedAt < r.span

/-- Nothing changes: the nodes keep their addresses, and their keys are young. -/
def Req.Calm (rows : List Row) (w : World) : (q : Req) → Resp q → Prop
  | .time, now => AllYoung rows now
  | .detect _ _, found => found.ok = true ∧
      ∀ n, w.running = some n → streqcase n.currentIp.text found.ip.text = true
  | _, _ => True

abbrev calmSem (rows : List Row) : Semantics Req Resp World where
  allowed w q r := allowed False w q r ∧ q.Calm rows w r
  after := World.after

/-- The methods and timers that do not force anything. -/
def Unforced (_ : World) (t : Task) : Prop :=
  t.op = .status ∨ t.op = .periodic ∨ ∃ args, t.op = .refresh args ∧ args.force = false

/-- Requests that write nothing and run nothing, for calls that return 0. -/
inductive Idle : Req → Prop
  | quiet {q : Req} : q.quiet = true → Idle q
  | called {n : Node} {force : Bool} : Idle (.report (.called n force))
  | skipped {n : Node} : Idle (.report (.skipped n))
  | returned {n : Node} : Idle (.report (.returned n 0))

/-- Nothing is left to do for the row until its key expires. -/
structure Row.Rested (r : Row) : Prop where
  status : r.status = some statusActive
  rotationState : r.rotationState = rotationNone
  seeded : 0 < r.span → 0 < r.lastAppliedAt

theorem Tended.rested (h : Tended w v r) : r.Rested := by
  obtain ⟨push, install, applied⟩ := h.applied
  obtain ⟨recent, -, -, now, -, -, young⟩ := h.recent
  exact ⟨applied.status, applied.rotationState, fun limited => (young limited).1⟩

theorem Row.Rested.healthy (h : r.Rested) : (r.toNode load).damaged = false := by
  have resting : (r.toNode load).rotationState = rotationNone := h.rotationState
  simp [Node.damaged, Node.stateInvalid, Node.keyMismatch, resting]

theorem clampAppliedAt_of_timely {t : Int} (positive : 0 < t) (timely : t ≤ load + 86400) :
    clampAppliedAt load t = t := by
  unfold clampAppliedAt
  rw [if_neg (by omega), if_neg (by omega)]

/-- A young key is neither seeded nor rotated. -/
theorem checkExpiry_of_rested {force : Bool} (rested : r.Rested) (mem : r ∈ rows)
    (timely : 0 < r.span → r.lastAppliedAt ≤ load + 86400) (young : AllYoung rows now) :
    checkExpiry cfg now ⟨r.toNode load, force, false, .empty, false⟩ =
      pure (.next ⟨r.toNode load, force, false, .empty, false⟩) := by
  have resting : (r.toNode load).rotationState = rotationNone := rested.rotationState
  have lifetime : (r.toNode load).lifetime = r.span := rfl
  have applied : (r.toNode load).lastAppliedAt = clampAppliedAt load r.lastAppliedAt := rfl
  unfold checkExpiry
  simp only [resting, lifetime, applied]
  rw [if_neg (by decide), if_neg (by decide)]
  by_cases limited : 0 < r.span
  · have seeded := rested.seeded limited
    have young := (young r mem limited).2
    rw [clampAppliedAt_of_timely seeded (timely limited)]
    split_ifs <;> first | rfl | omega
  · split_ifs <;> first | rfl | omega

theorem decideApply_of_rested {force : Bool} (rested : r.Rested) (mem : r ∈ rows)
    (timely : 0 < r.span → r.lastAppliedAt ≤ load + 86400) (young : AllYoung rows now) :
    decideApply cfg now ⟨r.toNode load, force, false, .empty, false⟩ =
      andThen (detectIp ⟨r.toNode load, force, false, .empty, false⟩) skipUnchanged := by
  have healthy : (Locals.mk (r.toNode load) force false .empty false).node.damaged = false :=
    rested.healthy
  rw [decideApply_of_healthy healthy, checkExpiry_of_rested rested mem timely young, andThen_next]

theorem calm_time {Q : Int → World → Prop} : (calmSem rows).Safe P time w Q ↔
    P w .time ∧ ∀ now, AllYoung rows now → Q now (w.after .time now) :=
  and_congr_right fun _ => ⟨fun h now young => h now ⟨trivial, young⟩,
    fun h now given => h now given.2⟩

theorem calm_report {what : Report} {Q : Unit → World → Prop} :
    (calmSem rows).Safe P (report what) w Q ↔
      P w (.report what) ∧ Q () (w.after (.report what) ()) :=
  and_congr_right fun _ => ⟨fun h => h () ⟨trivial, trivial⟩, fun h _ _ => h⟩

theorem calm_detect {url ipVersion : Str} {Q : Detection → World → Prop} :
    (calmSem rows).Safe P (detect url ipVersion) w Q ↔ P w (.detect url ipVersion) ∧
      ∀ found : Detection, found.ok = true → (∀ n, w.running = some n →
        streqcase n.currentIp.text found.ip.text = true) → found.ip.text ≠ [] →
        Q found (w.after (.detect url ipVersion) found) := by
  refine and_congr_right fun _ => forall_congr' fun found => ⟨fun h ok same named => ?_,
    fun h => ?_⟩
  · exact h ⟨fun _ => named, ok, same⟩
  · rintro ⟨named, ok, same⟩
    exact h ok same (named ok)

/-- A call for a rested node finds its address again and returns. -/
theorem calm_reconcileOne (rested : r.Rested) (mem : r ∈ rows)
    (timely : 0 < r.span → r.lastAppliedAt ≤ load + 86400) :
    (calmSem rows).Safe (fun _ q => Idle q) (reconcileOne cfg (r.toNode load) false) w
      fun result _ => result.1 = 0 := by
  simp only [reconcileOne, safe_bind]
  rw [calm_report, calm_time]
  refine ⟨.called, .quiet rfl, fun now young => ?_⟩
  rw [decideApply_of_rested rested mem timely young]
  simp only [andThen, detectIp, safe_bind]
  rw [calm_detect]
  refine ⟨.quiet rfl, fun found ok same _ => ?_⟩
  have kept := same (r.toNode load) rfl
  have clean : (r.toNode load).wasError = false := by
    simp [Node.wasError, Row.toNode, rested.status]
    decide
  have unneeded : needApply ⟨r.toNode load, false, false, found.ip, false⟩ = false := by
    simp [needApply, kept, clean]
  simp only [ok, if_true, safe_pure, skipUnchanged, unneeded]
  simp only [Bool.false_eq_true, if_false, safe_pure, finishReconcile, safe_bind]
  rw [calm_report, calm_report]
  exact ⟨.skipped, .returned, trivial⟩

/-- A node that was read from one of the rows, at a time when their keys were young. -/
def Read (rows : List Row) (n : Node) : Prop :=
  ∃ r ∈ rows, ∃ load, n = r.toNode load ∧ (0 < r.span → r.lastAppliedAt ≤ load + 86400)

/-- The times among the answers. -/
def Req.Dated (rows : List Row) : (q : Req) → Resp q → Prop
  | .time, now => AllYoung rows now
  | _, _ => True

theorem Read.of_loaded {u : World} (rested : r.Rested) (mem : r ∈ rows) (loaded : Loaded w u r n)
    (since : Since (Req.Dated rows) w u) : Read rows n := by
  obtain ⟨load, rfl, negative | ⟨recent, trace, read⟩⟩ := loaded
  · refine ⟨r, mem, load, rfl, fun limited => ?_⟩
    have seeded := rested.seeded limited
    omega
  · have timely : AllYoung rows load := since.of_mem trace read
    exact ⟨r, mem, load, rfl, fun limited => (timely r mem limited).1⟩

/-- What holds where statements do not fail holds here, with young keys. -/
theorem calm_of_safe {α : Type} {p : Prog α} {Q : α → World → Prop}
    (safe : (sem False).Safe P p w Q) :
    (calmSem rows).Safe P p w fun value v => Q value v ∧ Since (Req.Dated rows) w v := by
  have narrow : (calmSem rows).Safe P p w Q :=
    safe.restrict (fun _ _ _ given => given.1) fun _ _ _ => rfl
  refine (narrow.invariant (I := Since (Req.Dated rows) w) ⟨[], rfl, by simp⟩ ?_).mono
    (fun _ _ permitted => permitted.1) fun _ _ post => post
  intro v q reply ⟨recent, trace, dated⟩ _ given
  refine ⟨⟨q, reply⟩ :: recent, by rw [World.trace_after, trace, List.cons_append], ?_⟩
  refine List.forall_mem_cons.mpr ⟨?_, dated⟩
  cases q with
  | time => exact given.2
  | _ => trivial

theorem calm_reconcileNodes {nodes : List Node} (read : ∀ n ∈ nodes, Read rows n)
    (rested : ∀ r ∈ rows, r.Rested) :
    (calmSem rows).Safe (fun _ q => Idle q) (reconcileNodes cfg false nodes) w fun _ _ => True := by
  induction nodes generalizing w with
  | nil => trivial
  | cons n rest ih =>
    rw [List.forall_mem_cons] at read
    obtain ⟨⟨r, mem, load, rfl, timely⟩, read⟩ := read
    simp only [reconcileNodes, safe_bind]
    refine (calm_reconcileOne (rested r mem) mem timely).post fun _ _ _ => ?_
    exact (ih read).post fun _ _ _ => trivial

theorem calm_listNodes (rested : ∀ r ∈ rows, r.Rested) (table : w.table.rows = rows) :
    (calmSem rows).Safe (fun _ q => Idle q) dbListNodes w fun listed _ =>
      ∀ nodes, listed = some nodes → ∀ n ∈ nodes, Read rows n := by
  have listing : (sem False).Safe (fun _ q => Idle q) dbListNodes w fun listed v =>
      ∀ nodes, listed = some nodes → ∀ n ∈ nodes, ∃ r ∈ rows, Loaded w v r n := by
    refine safe_listRows (fun _ _ => .quiet) (fun listed nodes v keeps perm _ loaded => ?_)
      fun may => may.elim
    rintro _ ⟨⟩ n mem
    obtain ⟨r, hr, hloaded⟩ := row_of_loaded loaded mem
    exact ⟨r, table ▸ perm.mem_iff.mp hr, hloaded⟩
  refine (calm_of_safe listing).post ?_
  rintro listed v ⟨loaded, since⟩ nodes rfl n mem
  obtain ⟨r, hr, hloaded⟩ := loaded nodes rfl n mem
  exact .of_loaded (rested r hr) hr hloaded since

theorem calm_reconcileAll (rested : ∀ r ∈ rows, r.Rested) (table : w.table.rows = rows) :
    (calmSem rows).Safe (fun _ q => Idle q) (reconcileAll cfg false) w fun _ _ => True := by
  simp only [reconcileAll, safe_bind]
  refine (calm_listNodes rested table).post fun listed v read => ?_
  cases listed with
  | none => trivial
  | some nodes =>
    simp only [safe_bind, safe_pure]
    exact (calm_reconcileNodes (read nodes rfl) rested).post fun _ _ _ => trivial

theorem calm_refreshOne {k : Key} (rested : ∀ r ∈ rows, r.Rested)
    (table : w.table.rows = rows) :
    (calmSem rows).Safe (fun _ q => Idle q) (refreshOne cfg false k) w fun _ _ => True := by
  have looking : ∀ (k : Key) (w : World), (calmSem rows).Safe (fun _ q => Idle q) (dbGetNode k) w
      fun lookup v => (∀ n, lookup = .found n → ∃ r, w.table.find? k = some r ∧
        Loaded w v r n) ∧
        Since (Req.Dated rows) w v := by
    refine fun k w => calm_of_safe (safe_dbGetNode (fun _ _ => .quiet) ?_ ?_ ?_)
    · rintro r n v found - loaded _ ⟨⟩
      exact ⟨r, found, loaded⟩
    · rintro v - - n ⟨⟩
    · rintro v - n ⟨⟩
  simp only [refreshOne, safe_bind]
  refine (looking k w).post ?_
  rintro lookup v ⟨found, since⟩
  cases lookup with
  | found n =>
    obtain ⟨r, stored, loaded⟩ := found n rfl
    have mem : r ∈ rows := table ▸ (Keyed.find?_eq_some.mp stored).1
    obtain ⟨r, mem, load, rfl, timely⟩ := Read.of_loaded (rested r mem) mem loaded since
    simp only [safe_bind, safe_pure]
    refine (calm_reconcileOne (rested r mem) mem timely).post fun _ _ _ => ?_
    exact (looking _ _).post fun _ _ _ => trivial
  | absent => trivial
  | failed => trivial

theorem calm_task {t : Task} (unforced : Unforced w t) (rested : ∀ r ∈ rows, r.Rested)
    (table : w.table.rows = rows) :
    (calmSem rows).Safe (fun _ q => Idle q) t.prog w fun _ _ => True := by
  unfold Task.prog
  rcases unforced with op | op | ⟨args, op, off⟩ <;> rw [op]
  · simp only [handleStatus, safe_bind, safe_pure]
    exact (calm_listNodes rested table).post fun _ _ _ => trivial
  · simp only [periodicReconcile, safe_bind, safe_pure]
    exact (calm_reconcileAll rested table).post fun _ _ _ => trivial
  · simp only [safe_bind, safe_pure, handleRefresh, off]
    split
    · simp only [refreshAll, safe_bind, safe_pure]
      exact (calm_reconcileAll rested table).post fun _ _ _ => trivial
    split
    · trivial
    · exact (calm_refreshOne rested table).post fun _ _ _ => trivial

theorem Idle.after {q : Req} (idle : Idle q) (reply : Resp q) :
    (w.after q reply).table = w.table ∧ (w.after q reply).commands = w.commands := by
  cases idle with
  | quiet quiet =>
    exact ⟨(World.keeps_after quiet reply).table, (World.keeps_after quiet reply).commands⟩
  | called => exact ⟨rfl, rfl⟩
  | skipped => exact ⟨rfl, rfl⟩
  | returned => exact ⟨rfl, rfl⟩

/-- In calm surroundings the unforced tasks write nothing and run nothing. -/
theorem calm_contract (rested : ∀ r ∈ v.table.rows, r.Rested) :
    (daemon (calmSem v.table.rows) Unforced).Contract (· = v)
      (fun w => w.table = v.table ∧ w.commands = v.commands) (fun _ => True)
      (fun _ _ _ q => Idle q) fun _ _ _ => True where
  start := by
    rintro _ rfl
    exact ⟨⟨rfl, rfl⟩, trivial⟩
  task := fun _ _ unforced same _ => calm_task unforced rested (congrArg Keyed.rows same.1)
  call := by
    intro _ _ w q reply _ _ _ ⟨table, commands⟩ idle _
    obtain ⟨table', commands'⟩ := idle.after (w := w) reply
    exact ⟨table'.trans table, commands'.trans commands⟩
  finish := fun _ _ _ _ _ _ same _ => ⟨same, trivial⟩
  crash := fun _ same => ⟨same, trivial⟩

/-- Once a pass has gone through, the methods and timers that force nothing find
nothing to do, in any number and order, while addresses and keys stay good. -/
theorem rests_after_pass {force : Bool} {rc : Int} {s : State Req Resp World Task}
    (recoverable : Recoverable w force)
    (pass : grantedSem.Runs (reconcileAll cfg force) w (.done rc) v)
    (reach : (daemon (calmSem v.table.rows) Unforced).Reachable (· = v) s) :
    s.world.table = v.table ∧ s.world.commands = v.commands ∧
      ∀ t w₀ u n err rest, s = .busy t w₀ u (.call (.report (.returned n err)) rest) →
          err = 0 := by
  have rested : ∀ r ∈ v.table.rows, r.Rested := fun r mem =>
    ((tends_of_pass recoverable.passable pass).2.2 r mem).1.rested
  have contract := calm_contract rested
  refine ⟨(contract.invariant reach).1, (contract.invariant reach).2, ?_⟩
  rintro t w₀ u n err rest rfl
  cases contract.permitted reach with
  | quiet quiet => contradiction
  | returned => rfl

/-- The answer that led to this world was calm. -/
def World.Calm (rows : List Row) (w : World) : Prop :=
  match w.trace with
  | ⟨.time, now⟩ :: _ => AllYoung rows now
  | ⟨.detect _ _, found⟩ :: _ => found.ok = true ∧
      ∀ n ∈ w.running, streqcase n.currentIp.text found.ip.text = true
  | _ => True

instance (rows : List Row) : DecidablePred (World.Calm rows) := fun w => by
  unfold World.Calm AllYoung
  split <;> infer_instance

theorem calm_of_within {α : Type} {p p' : Prog α} {v w : World}
    (runs : ((sem False).within (World.Calm rows)).Runs p w p' v) :
    (calmSem rows).Runs p w p' v := by
  refine runs.widen (fun w q reply given => ⟨given.1, ?_⟩) rfl
  cases q with
  | time => exact given.2
  | detect => exact given.2
  | _ => trivial

/-- The pass that follows, up to its last request. -/
@[irreducible] def sampleRest : Prog Unit × World :=
  (sample 1700003800).playing (sampleTask .periodic) samplePass.2 6

theorem rests_after_pass_periodic : sampleRest.2.table = samplePass.2.table ∧
    sampleRest.2.commands = samplePass.2.commands := by
  have stays : Stays World.after (sample 1700003800).answer (World.Calm samplePass.2.table.rows) 6
      (sampleTask .periodic).prog samplePass.2 := by decide +kernel
  have within : ((sem False).within (World.Calm samplePass.2.table.rows)).Runs _ _ _ _ :=
    (sample 1700003800).runs_within stays
  have start : (daemon (calmSem samplePass.2.table.rows) Unforced).Reachable (· = samplePass.2)
      (.idle samplePass.2) := .start rfl
  have reach :=
    (start.begun (t := sampleTask .periodic) (.inr (.inl rfl))).runs (calm_of_within within)
  obtain ⟨table, commands, -⟩ := rests_after_pass recoverable_sampleBooted runs_samplePass reach
  unfold sampleRest
  exact ⟨table, commands⟩

end Rest

end Tumgrd
