import Tumgrd.Call

/-! What a call of `tumgrd_reconcile_one` touches at most: the row of its node,
and the tools on behalf of that node. Nothing is asked of the table or of the
node, so these facts also hold of rows that the daemon has not written. -/
namespace Tumgrd

open Effect Program Semantics

section Requests

variable {P : Req → Prop}

@[simp] theorem emits_time {Q : Int → Prop} :
    Emits P Q time ↔ P .time ∧ ∀ now, Q now := Iff.rfl

@[simp] theorem emits_randomKey {Q : Option HexKey → Prop} :
    Emits P Q randomKey ↔ P .randomKey ∧ ∀ key, Q key := Iff.rfl

@[simp] theorem emits_detect {url ipVersion : Str} {Q : Detection → Prop} :
    Emits P Q (detect url ipVersion) ↔ P (.detect url ipVersion) ∧ ∀ found, Q found := Iff.rfl

@[simp] theorem emits_exec {issue : Issue} {call : Invocation} {Q : ExecResult → Prop} :
    Emits P Q (exec issue call) ↔ P (.exec issue call) ∧ ∀ result, Q result := Iff.rfl

@[simp] theorem emits_readTimedOut {Q : Bool → Prop} :
    Emits P Q readTimedOut ↔ P .timedOut ∧ ∀ late, Q late := Iff.rfl

@[simp] theorem emits_sql {s : Stmt} {Q : SqlReply → Prop} :
    Emits P Q (sql s) ↔ P (.sql s) ∧ ∀ reply, Q reply := Iff.rfl

@[simp] theorem emits_log {level : Level} {text : Str} {Q : Unit → Prop} :
    Emits P Q (log level text) ↔ P (.log ⟨level, text⟩) ∧ Q () :=
  and_congr_right fun _ => ⟨fun h => h (), fun h _ => h⟩

@[simp] theorem emits_report {what : Report} {Q : Unit → Prop} :
    Emits P Q (report what) ↔ P (.report what) ∧ Q () :=
  and_congr_right fun _ => ⟨fun h => h (), fun h _ => h⟩

end Requests

/-- The requests of a call for `n`. Unless it `rekeys` the node, its statements
leave the key alone and its commands carry it. -/
inductive Req.Serves (n : Node) (rekeys : Prop) : Req → Prop
  | quiet {q : Req} : q.quiet = true → Serves n rekeys q
  | report {what : Report} : what.isCall = false → Serves n rekeys (.report what)
  | exec {issue : Issue} {call : Invocation} : issue.node.key = n.key →
      (¬rekeys → issue.node.xorKey = n.xorKey) → issue.Builds call →
      Serves n rekeys (.exec issue call)
  | update {set : Assign} {guard : Guard} : (¬rekeys → set.xorKey = none) →
      Serves n rekeys (.sql (.update n.key set guard))

theorem Req.Serves.noCall {n : Node} {rekeys : Prop} {q : Req} (h : q.Serves n rekeys) :
    q.isCall = false := by
  cases h with
  | quiet quiet => exact Req.isCall_of_quiet quiet
  | report noCall => exact noCall
  | exec => rfl
  | update => rfl

/-- A node in memory during a call for `n`. -/
structure Node.Continues (n m : Node) (rekeys : Prop) : Prop where
  key : m.key = n.key
  xorKey : ¬rekeys → m.xorKey = n.xorKey

def Flow.locals : Flow → Locals
  | .next l => l
  | .skip l => l
  | .fail l _ => l

section Runner

variable {P : Req → Prop} {n : Node}

theorem emits_runTuctlScript (told : ∀ line, P (.log line)) {issue : Issue}
    {script marker : Str} (run : P (.exec issue (tuctlCall issue.node script))) :
    Emits P (fun _ => True) (runTuctlScript issue script marker) := by
  simp only [runTuctlScript, logArgv, emits_bind, emits_log, emits_exec]
  refine ⟨told _, run, fun result => ⟨told _, ?_⟩⟩
  split
  · trivial
  split
  · simp only [emits_bind, emits_log, emits_pure, and_true]
    exact told _
  · trivial

theorem emits_runKtuctl (told : ∀ line, P (.log line)) {issue : Issue} {argv : List Str}
    (run : P (.exec issue ⟨argv, none, none⟩)) :
    Emits P (fun _ => True) (runKtuctl issue argv) := by
  simp only [runKtuctl, logArgv, emits_bind, emits_log, emits_exec, emits_pure, and_true]
  exact ⟨told _, run, fun _ => told _⟩

theorem emits_serverAdd (told : ∀ line, P (.log line)) (late : P .timedOut)
    (run : ∀ tool ip call, Issue.Builds ⟨tool, n, ip⟩ call →
      P (.exec ⟨tool, n, ip⟩ call))
    (cfg : Config) (ip : Str) : Emits P (fun _ => True) (serverAdd n cfg ip) := by
  have detected : Emits P (fun _ => True) (serverAddDetected n ip) := by
    simp only [serverAddDetected, logTrimmed, emits_bind, emits_log]
    exact ⟨told _, emits_runTuctlScript told (run .serverAdd _ _ (builds_serverAdd (.inr rfl)))⟩
  unfold serverAdd
  split
  · trivial
  split
  · simp only [logTrimmed, emits_bind, emits_log]
    have placed := run .serverAdd ip _ (builds_serverAdd (.inl rfl))
    refine ⟨told _, (emits_runTuctlScript told placed).post fun rc _ => ?_⟩
    split
    · trivial
    · simp only [emits_bind, emits_readTimedOut]
      refine ⟨late, fun _ => ?_⟩
      split
      · simp only [emits_bind, emits_log, emits_pure, and_true]
        exact told _
      · simp only [emits_bind, emits_log]
        exact ⟨told _, detected⟩
  · exact detected

theorem emits_resetLocalClient (told : ∀ line, P (.log line)) (late : P .timedOut)
    (run : ∀ tool ip call, Issue.Builds ⟨tool, n, ip⟩ call →
      P (.exec ⟨tool, n, ip⟩ call)) :
    Emits P (fun _ => True) (resetLocalClient n) := by
  simp only [resetLocalClient, clientDel, clientAdd, emits_bind, emits_readTimedOut]
  refine (emits_runKtuctl told (run .clientDel _ _ builds_clientDel)).post fun _ _ =>
    ⟨late, fun _ => ?_⟩
  split
  · trivial
  · exact emits_runKtuctl told (run .clientAdd _ _ builds_clientAdd)

end Runner

section Statements

variable {P : Req → Prop} {k : Key} {set : Assign} {guard : Guard}

theorem emits_dbUpdateOne (update : P (.sql (.update k set guard))) :
    Emits P (fun _ => True) (dbUpdateOne k set guard) := by
  simp only [dbUpdateOne, emits_bind, emits_sql]
  refine ⟨update, fun reply => ?_⟩
  cases reply <;> trivial

theorem emits_dbUpdateRotationState {state : Int32}
    (update : P (.sql (.update k (setRotationState state) .pending))) :
    Emits P (fun _ => True) (dbUpdateRotationState k state) := by
  unfold dbUpdateRotationState
  split
  · trivial
  · exact emits_dbUpdateOne update

theorem emits_markRuntime {n : Node} {ip : Buf 64} {status : Buf 32} (clock : P .time)
    (update : ∀ now, P (.sql (.update n.key (setRuntime ip status now) .any))) :
    Emits P (fun _ => True) (markRuntime n ip status) := by
  simp only [markRuntime, dbUpdateRuntime, emits_bind, emits_time, emits_sql]
  refine ⟨clock, fun now => ⟨update now, fun reply => ?_⟩⟩
  cases reply <;> trivial

end Statements

section Keys

variable {P : Req → Prop} {cfg : Config} {now : Int} {l : Locals}

/-! The stages that may make a key ask for it and write, and do nothing else. -/

theorem emits_repairRotation (key : P .randomKey)
    (write : ∀ k set guard, P (.sql (.update k set guard)))
    (damaged : Node → Bool) : Emits P (fun _ => True) (repairRotation cfg now damaged l) := by
  unfold repairRotation
  split
  · trivial
  split
  · simp only [emits_bind, emits_randomKey]
    refine ⟨key, fun key => ?_⟩
    cases key with
    | none => trivial
    | some key =>
      simp only [emits_bind]
      refine (emits_dbUpdateOne (write _ _ _)).post fun rc _ => ?_
      split <;> trivial
  · simp only [emits_bind]
    refine (emits_dbUpdateOne (write _ _ _)).post fun rc _ => ?_
    split <;> trivial

theorem emits_beginRotation (key : P .randomKey)
    (write : ∀ k set guard, P (.sql (.update k set guard))) :
    Emits P (fun _ => True) (beginRotation cfg now l) := by
  unfold beginRotation
  split
  · simp only [emits_bind, emits_randomKey]
    refine ⟨key, fun key => ?_⟩
    cases key with
    | none => trivial
    | some key =>
      simp only [emits_bind]
      refine (emits_dbUpdateOne (write _ _ _)).post fun rc _ => ?_
      split <;> trivial
  · trivial

theorem emits_checkExpiry (key : P .randomKey)
    (write : ∀ k set guard, P (.sql (.update k set guard))) :
    Emits P (fun _ => True) (checkExpiry cfg now l) := by
  unfold checkExpiry
  dsimp only
  repeat' split
  all_goals first | exact emits_beginRotation key write | trivial

theorem emits_andThen {p : Prog Flow} {f : Locals → Prog Flow} (first : Emits P (fun _ => True) p)
    (rest : ∀ l, Emits P (fun _ => True) (f l)) : Emits P (fun _ => True) (andThen p f) := by
  unfold andThen
  rw [emits_bind]
  refine first.post fun flow _ => ?_
  cases flow with
  | next l => exact rest l
  | skip l => trivial
  | fail l err => trivial

/-- From `need_apply` on nothing makes a key or looks for an address. -/
theorem emits_applyNode (told : ∀ line, P (.log line)) (late : P .timedOut) (clock : P .time)
    (run : ∀ issue call, P (.exec issue call))
    (write : ∀ k set guard, P (.sql (.update k set guard))) :
    Emits P (fun _ => True) (applyNode cfg now l) := by
  have server (l : Locals) : Emits P (fun _ => True) (applyServer cfg l) := by
    simp only [applyServer, emits_bind]
    refine (emits_serverAdd told late (fun _ _ _ _ => run _ _) cfg _).post fun rc _ => ?_
    split
    · trivial
    split
    · simp only [emits_bind]
      refine (emits_dbUpdateRotationState (write _ _ _)).post fun rc _ => ?_
      split <;> trivial
    · trivial
  have reset (l : Locals) : Emits P (fun _ => True) (applyLocal l) := by
    simp only [applyLocal, emits_bind]
    refine (emits_resetLocalClient told late fun _ _ _ _ => run _ _).post fun rc _ => ?_
    split <;> trivial
  have mark (l : Locals) : Emits P (fun _ => True) (markActive l) := by
    simp only [markActive, emits_bind]
    refine (emits_markRuntime clock fun _ => write _ _ _).post fun rc _ => ?_
    split <;> trivial
  have record (l : Locals) : Emits P (fun _ => True) (recordApplied now l) := by
    unfold recordApplied
    dsimp only
    split
    · simp only [dbCompleteRotation, emits_bind]
      refine (emits_dbUpdateOne (write _ _ _)).post fun rc _ => ?_
      split <;> trivial
    split
    · simp only [dbUpdateApplied, emits_bind]
      refine (emits_dbUpdateOne (write _ _ _)).post fun rc _ => ?_
      split <;> trivial
    · trivial
  exact emits_andThen (server l) fun l => emits_andThen (reset l) fun l =>
    emits_andThen (mark l) record

/-- Up to the test for `need_apply` nothing runs. -/
theorem emits_decideApply (key : P .randomKey) (find : ∀ url ipVersion, P (.detect url ipVersion))
    (write : ∀ k set guard, P (.sql (.update k set guard))) :
    Emits P (fun _ => True) (decideApply cfg now l) := by
  have detect (l : Locals) : Emits P (fun _ => True) (detectIp l) := by
    simp only [detectIp, emits_bind, emits_detect]
    refine ⟨find _ _, fun found => ?_⟩
    split <;> trivial
  have skip (l : Locals) : Emits P (fun _ => True) (skipUnchanged l) := by
    unfold skipUnchanged
    split <;> trivial
  unfold decideApply
  refine emits_andThen (emits_repairRotation key write _) fun l => ?_
  refine emits_andThen (emits_repairRotation key write _) fun l => ?_
  exact emits_andThen (emits_checkExpiry key write) fun l => emits_andThen (detect l) skip

end Keys

section Stages

variable {n : Node} {rekeys : Prop} {cfg : Config} {now : Int} {l : Locals}

/-- A stage goes on with the node it was given, or with one that it rekeyed. -/
abbrev Staged (n : Node) (rekeys : Prop) (p : Prog Flow) : Prop :=
  Emits (Req.Serves n rekeys) (fun flow => n.Continues flow.locals.node rekeys) p

theorem staged_andThen {p : Prog Flow} {f : Locals → Prog Flow} (first : Staged n rekeys p)
    (second : ∀ l, n.Continues l.node rekeys → Staged n rekeys (f l)) :
    Staged n rekeys (andThen p f) := by
  unfold Staged andThen
  rw [emits_bind]
  refine first.post fun flow continues => ?_
  cases flow with
  | next l => exact second l continues
  | skip l => exact continues
  | fail l err => exact continues

theorem Node.Continues.refl (n : Node) (rekeys : Prop) : n.Continues n rekeys :=
  ⟨rfl, fun _ => rfl⟩

theorem serves_update {m : Node} (continues : n.Continues m rekeys) {set : Assign} {guard : Guard}
    (keeps : ¬rekeys → set.xorKey = none) :
    Req.Serves n rekeys (.sql (.update m.key set guard)) :=
  continues.key ▸ .update keeps

theorem staged_repairRotation (mayRekey : rekeys) (continues : n.Continues l.node rekeys)
    (damaged : Node → Bool) : Staged n rekeys (repairRotation cfg now damaged l) := by
  have changed : ∀ m : Node, m.key = l.node.key → n.Continues m rekeys :=
    fun m key => ⟨key.trans continues.key, fun kept => absurd mayRekey kept⟩
  have update : ∀ set guard, Req.Serves n rekeys (.sql (.update l.node.key set guard)) :=
    fun _ _ => serves_update continues fun kept => absurd mayRekey kept
  unfold repairRotation Staged
  split
  · exact continues
  split
  · simp only [emits_bind, emits_randomKey]
    refine ⟨.quiet rfl, fun key => ?_⟩
    cases key with
    | none => exact continues
    | some key =>
      simp only [emits_bind]
      refine (emits_dbUpdateOne (update _ _)).post fun rc _ => ?_
      split
      · exact continues
      · exact changed _ rfl
  · simp only [emits_bind]
    refine (emits_dbUpdateOne (update _ _)).post fun rc _ => ?_
    split
    · exact continues
    · exact changed _ rfl

theorem staged_beginRotation (continues : n.Continues l.node rekeys)
    (mayRekey : l.node.rotates cfg = true → rekeys) :
    Staged n rekeys (beginRotation cfg now l) := by
  unfold beginRotation Staged
  split
  · rename_i rotates
    have rekeys := mayRekey rotates
    simp only [emits_bind, emits_randomKey]
    refine ⟨.quiet rfl, fun key => ?_⟩
    cases key with
    | none => exact continues
    | some key =>
      simp only [emits_bind]
      refine (emits_dbUpdateOne (serves_update continues fun kept => absurd rekeys kept)).post
        fun rc _ => ?_
      split
      · exact continues
      · exact ⟨continues.key, fun kept => absurd rekeys kept⟩
  · exact continues

theorem staged_checkExpiry (continues : n.Continues l.node rekeys)
    (mayRekey : l.node.overdue now → l.node.rotates cfg = true → rekeys) :
    Staged n rekeys (checkExpiry cfg now l) := by
  unfold checkExpiry Staged
  split
  · exact continues
  split
  · exact continues
  split
  · exact continues
  rename_i sane
  split
  · exact continues
  rename_i applied
  split
  · rename_i due
    refine staged_beginRotation continues fun rotates => mayRekey ⟨?_, due.1, ?_, due.2⟩ rotates
    · exact Int.not_lt.mp sane
    · exact fun zero => applied ⟨due.1, zero⟩
  · exact continues

theorem staged_detectIp (continues : n.Continues l.node rekeys) :
    Staged n rekeys (detectIp l) := by
  unfold Staged detectIp
  simp only [emits_bind, emits_detect]
  refine ⟨.quiet rfl, fun found => ?_⟩
  split
  · exact continues
  · exact continues

theorem staged_skipUnchanged (continues : n.Continues l.node rekeys) :
    Staged n rekeys (skipUnchanged l) := by
  unfold Staged skipUnchanged
  split <;> exact continues

theorem staged_applyServer (continues : n.Continues l.node rekeys) :
    Staged n rekeys (applyServer cfg l) := by
  unfold Staged applyServer
  rw [emits_bind]
  refine (emits_serverAdd (fun _ => .quiet rfl) (.quiet rfl) ?_ cfg _).post fun rc _ => ?_
  · intro tool ip call builds
    exact .exec continues.key continues.xorKey builds
  split
  · exact continues
  dsimp only
  split
  · simp only [emits_bind]
    refine (emits_dbUpdateRotationState (serves_update continues fun _ => rfl)).post fun rc _ => ?_
    split
    · exact continues
    · exact ⟨continues.key, continues.xorKey⟩
  · exact continues

theorem staged_applyLocal (continues : n.Continues l.node rekeys) :
    Staged n rekeys (applyLocal l) := by
  unfold Staged applyLocal
  rw [emits_bind]
  refine (emits_resetLocalClient (fun _ => .quiet rfl) (.quiet rfl) ?_).post fun rc _ => ?_
  · intro tool ip call builds
    exact .exec continues.key continues.xorKey builds
  split <;> exact continues

theorem staged_markActive (continues : n.Continues l.node rekeys) :
    Staged n rekeys (markActive l) := by
  unfold Staged markActive
  rw [emits_bind]
  refine (emits_markRuntime (.quiet rfl) fun now => serves_update continues fun _ => rfl).post
    fun rc _ => ?_
  split <;> exact continues

theorem staged_recordApplied (continues : n.Continues l.node rekeys) :
    Staged n rekeys (recordApplied now l) := by
  unfold Staged recordApplied
  dsimp only
  split
  · rw [emits_bind]
    refine (emits_dbUpdateOne (serves_update continues fun _ => rfl)).post fun rc _ => ?_
    split
    · exact continues
    · exact ⟨continues.key, continues.xorKey⟩
  split
  · rw [emits_bind]
    refine (emits_dbUpdateOne (serves_update continues fun _ => rfl)).post fun rc _ => ?_
    split
    · exact continues
    · exact ⟨continues.key, continues.xorKey⟩
  · exact continues

theorem staged_applyNode (continues : n.Continues l.node rekeys) :
    Staged n rekeys (applyNode cfg now l) := by
  unfold applyNode
  refine staged_andThen (staged_applyServer continues) fun l continues => ?_
  refine staged_andThen (staged_applyLocal continues) fun l continues => ?_
  exact staged_andThen (staged_markActive continues) fun l => staged_recordApplied

theorem emits_finishReconcile {flow : Flow} (continues : n.Continues flow.locals.node rekeys) :
    Emits (Req.Serves n rekeys) (fun result => n.Continues result.2 rekeys)
      (finishReconcile flow) := by
  cases flow with
  | next l =>
    simp only [finishReconcile, emits_bind, emits_report, emits_pure]
    exact ⟨.report rfl, continues⟩
  | skip l =>
    simp only [finishReconcile, emits_bind, emits_report, emits_pure]
    exact ⟨.report rfl, .report rfl, continues⟩
  | fail l err =>
    simp only [finishReconcile, emits_bind, emits_report, emits_pure]
    refine (emits_markRuntime (.quiet rfl) fun now => serves_update continues fun _ => rfl).post
      fun _ _ => ⟨.report rfl, continues⟩

/-- After the repair blocks. -/
theorem staged_afterRepair (continues : n.Continues l.node rekeys)
    (mayRekey : l.node.overdue now → l.node.rotates cfg = true → rekeys) :
    Staged n rekeys (andThen (checkExpiry cfg now l) fun l =>
      andThen (detectIp l) skipUnchanged) := by
  refine staged_andThen (staged_checkExpiry continues mayRekey) fun l continues => ?_
  exact staged_andThen (staged_detectIp continues) fun l => staged_skipUnchanged

theorem repairRotation_of_sound {damaged : Node → Bool} (sound : damaged l.node = false) :
    repairRotation cfg now damaged l = pure (.next l) := by
  unfold repairRotation
  simp [sound]

theorem andThen_next (f : Locals → Prog Flow) : andThen (pure (.next l)) f = f l := rfl

/-- The repair blocks have nothing to do for a node that is not damaged. -/
theorem decideApply_of_healthy (healthy : l.node.damaged = false) :
    decideApply cfg now l = andThen (checkExpiry cfg now l) fun l =>
      andThen (detectIp l) skipUnchanged := by
  simp only [Node.damaged, Bool.or_eq_false_iff] at healthy
  unfold decideApply
  rw [repairRotation_of_sound healthy.1, andThen_next, repairRotation_of_sound healthy.2,
    andThen_next]

/-- Only a repair and an overdue lifetime give the node another key. -/
theorem staged_decideApply (continues : n.Continues l.node rekeys)
    (damage : l.node.damaged = true → rekeys)
    (mayRekey : l.node.overdue now → l.node.rotates cfg = true → rekeys) :
    Staged n rekeys (decideApply cfg now l) := by
  by_cases h : rekeys
  · unfold decideApply
    refine staged_andThen (staged_repairRotation h continues _) fun l continues => ?_
    refine staged_andThen (staged_repairRotation h continues _) fun l continues => ?_
    exact staged_afterRepair continues fun _ _ => h
  · have healthy : l.node.damaged = false := by
      rw [← Bool.not_eq_true]
      exact mt damage h
    rw [decideApply_of_healthy healthy]
    exact staged_afterRepair continues mayRekey

/-- The call after its clock reading. -/
abbrev afterClock (cfg : Config) (n : Node) (force : Bool) (now : Int) : Prog (Int × Node) := do
  let flow ← andThen (decideApply cfg now ⟨n, force, false, .empty, false⟩)
    (applyNode cfg now)
  finishReconcile flow

theorem emits_afterClock {force : Bool} (damage : n.damaged = true → rekeys)
    (mayRekey : n.overdue now → n.rotates cfg = true → rekeys) :
    Emits (Req.Serves n rekeys) (fun result => n.Continues result.2 rekeys)
      (afterClock cfg n force now) := by
  unfold afterClock
  rw [emits_bind]
  have decided := staged_decideApply (l := ⟨n, force, false, .empty, false⟩) (.refl n rekeys)
    damage mayRekey
  exact (staged_andThen decided fun l => staged_applyNode).post fun flow => emits_finishReconcile

end Stages

section Effects

variable {n : Node} {rekeys sqlMayFail : Prop} {w v : World}

/-- What requests that serve `n` have made of `w`. -/
structure Served (n : Node) (rekeys : Prop) (w v : World) : Prop where
  others : ∀ k, k ≠ n.key → v.table.find? k = w.table.find? k
  row : ∀ r, w.table.find? n.key = some r →
    ∃ r', v.table.find? n.key = some r' ∧ (¬rekeys → r'.xorKey = r.xorKey)
  commands : ∃ new, v.commands = new ++ w.commands ∧ ∀ cmd ∈ new,
    cmd.issue.node.key = n.key ∧ (¬rekeys → cmd.issue.node.xorKey = n.xorKey) ∧
      cmd.issue.Builds cmd.call
  trace : w.trace <:+ v.trace

theorem Served.refl (n : Node) (rekeys : Prop) (w : World) : Served n rekeys w w :=
  ⟨fun _ _ => rfl,
    fun r hr => ⟨r, hr, fun _ => rfl⟩, ⟨[], rfl, by simp⟩, List.suffix_refl _⟩

theorem Served.trans {u : World} (h : Served n rekeys w u) (h' : Served n rekeys u v) :
    Served n rekeys w v := by
  refine ⟨fun k other => (h'.others k other).trans (h.others k other), fun r hr => ?_, ?_,
    h.trace.trans h'.trace⟩
  · obtain ⟨r', hr', kept⟩ := h.row r hr
    obtain ⟨r'', hr'', kept'⟩ := h'.row r' hr'
    exact ⟨r'', hr'', fun calm => (kept' calm).trans (kept calm)⟩
  · obtain ⟨new, hnew, own⟩ := h.commands
    obtain ⟨new', hnew', own'⟩ := h'.commands
    refine ⟨new' ++ new, by rw [hnew', hnew, List.append_assoc], fun cmd hcmd => ?_⟩
    exact (List.mem_append.mp hcmd).elim (own' cmd) (own cmd)

theorem Served.keeps {v' : World} (h : Served n rekeys w v) (keeps : v.Keeps v') :
    Served n rekeys w v' := by
  refine ⟨?_, ?_, ?_, h.trace.trans keeps.trace⟩
  · rw [keeps.table]
    exact h.others
  · rw [keeps.table]
    exact h.row
  · rw [keeps.commands]
    exact h.commands

theorem Served.update (h : Served n rekeys w v) {set : Assign} {guard : Guard} {reply : SqlReply}
    (keeps : ¬rekeys → set.xorKey = none) :
    Served n rekeys w (v.after (.sql (.update n.key set guard)) reply) := by
  have trace := h.trace.trans (List.suffix_cons ⟨.sql (.update n.key set guard), reply⟩ v.trace)
  cases reply with
  | error => exact ⟨h.others, h.row, h.commands, trace⟩
  | ok rows changes =>
    refine ⟨fun k hk => ?_, fun r hr => ?_, h.commands, trace⟩
    · rw [World.table_after_ok, find?_update_of_ne hk]
      exact h.others k hk
    · obtain ⟨r', hr', kept⟩ := h.row r hr
      refine ⟨_, find?_update hr', fun calm => ?_⟩
      rw [← kept calm]
      unfold Row.update
      split
      · simp [Row.assign, keeps calm]
      · rfl

theorem Served.after (h : Served n rekeys w v) {q : Req} (serves : q.Serves n rekeys)
    (r : Resp q) : Served n rekeys w (v.after q r) := by
  cases serves with
  | quiet quiet => exact h.keeps (World.keeps_after quiet r)
  | report => exact ⟨h.others, h.row, h.commands, h.trace.trans (List.suffix_cons _ _)⟩
  | @exec issue call key xorKey builds =>
    obtain ⟨new, hnew, own⟩ := h.commands
    refine ⟨h.others, h.row, ⟨⟨issue, call, r⟩ :: new, ?_, ?_⟩,
      h.trace.trans (List.suffix_cons _ _)⟩
    · rw [World.commands_after_exec, hnew, List.cons_append]
    · rintro cmd (_ | ⟨_, hcmd⟩)
      · exact ⟨key, xorKey, builds⟩
      · exact own cmd hcmd
  | update keeps => exact h.update keeps

theorem served_of_emits {α : Type} {p : Prog α} {Q : α → Prop} {value : α} {u : World}
    (emits : Emits (Req.Serves n rekeys) Q p) (served : Served n rekeys w u)
    (runs : (sem sqlMayFail).Runs p u (.done value) v) : Served n rekeys w v ∧ Q value := by
  have safe := (Semantics.safe_of_emits (S := sem sqlMayFail) (w := u) emits).invariant
    (I := Served n rekeys w) served fun _ _ r served serves _ => served.after serves r
  exact (safe.result runs).symm

/-- The world in which a call for `n` has read the clock. -/
def World.read (w : World) (n : Node) (force : Bool) (now : Int) : World :=
  (w.after (.report (.called n force)) ()).after .time now

theorem Served.read (n : Node) (rekeys : Prop) (w : World) (force : Bool) (now : Int) :
    Served n rekeys w (w.read n force now) := by
  refine ⟨fun _ _ => rfl, fun r hr => ⟨r, hr, fun _ => rfl⟩, ⟨[], rfl, by simp⟩, ?_⟩
  exact (List.suffix_cons _ _).trans (List.suffix_cons _ _)

theorem read_of_runs {cfg : Config} {force : Bool} {result : Int × Node}
    (runs : (sem sqlMayFail).Runs (reconcileOne cfg n force) w (.done result) v) :
    ∃ now, (sem sqlMayFail).Runs (afterClock cfg n force now) (w.read n force now)
      (.done result) v := by
  obtain ⟨_, u, called, runs⟩ := runs_bind runs
  obtain ⟨now, u', reading, runs⟩ := runs_bind runs
  obtain ⟨-, rfl⟩ := runs_perform called
  obtain ⟨-, rfl⟩ := runs_perform reading
  exact ⟨now, runs⟩

theorem runs_of_afterClock {cfg : Config} {force : Bool} {now : Int} {p : Prog (Int × Node)}
    (runs : (sem sqlMayFail).Runs (afterClock cfg n force now) (w.read n force now) p v) :
    (sem sqlMayFail).Runs (reconcileOne cfg n force) w p v := by
  have called : (sem sqlMayFail).Runs (report (.called n force)) w (.done ())
      (w.after (.report (.called n force)) ()) := Runs.head _ (r := ()) trivial (.refl _ _)
  have reading : (sem sqlMayFail).Runs time (w.after (.report (.called n force)) ()) (.done now)
      (w.read n force now) := Runs.head _ (r := now) trivial (.refl _ _)
  exact Runs.seq _ called (Runs.seq _ reading runs)

/-- Whatever the node and its row are like, the call serves the node. -/
theorem served_of_call {cfg : Config} {force : Bool} {result : Int × Node}
    (runs : (sem sqlMayFail).Runs (reconcileOne cfg n force) w (.done result) v) :
    Served n True w v ∧ n.Continues result.2 True := by
  obtain ⟨now, runs⟩ := read_of_runs runs
  have emits : Emits (Req.Serves n True) (fun result => n.Continues result.2 True)
      (afterClock cfg n force now) :=
    emits_afterClock (fun _ => trivial) fun _ _ => trivial
  exact served_of_emits (Q := fun result => n.Continues result.2 True) emits
    (.read n True w force now) runs

end Effects

section Reading

variable {sqlMayFail rekeys : Prop} {cfg : Config} {force : Bool} {n : Node}
  {now : Int} {w v : World}

/-- The current call is for `n`, and read the clock as `now` at its start. -/
structure InCall (n : Node) (now : Int) (v : World) : Prop where
  running : ∀ m, v.running = some m → m = n
  reading : v.callTrace.getLast? = some ⟨.time, now⟩

theorem inCall_read (w : World) (n : Node) (force : Bool) (now : Int) :
    InCall n now (w.read n force now) where
  running := fun _ hm => (Option.some.inj hm).symm
  reading := rfl

theorem reading_later {u : World} {e : Event} (h : u.callTrace.getLast? = some e)
    (later : u.callTrace <:+ v.callTrace) : v.callTrace.getLast? = some e := by
  obtain ⟨new, hnew⟩ := later
  rw [← hnew, List.getLast?_append, h, Option.some_or]

theorem InCall.keeps {v' : World} (h : InCall n now v) (keeps : v.Keeps v') : InCall n now v' where
  running := fun m hm => h.running m (keeps.running ▸ hm)
  reading := reading_later h.reading keeps.callTrace

theorem InCall.after (h : InCall n now v) {q : Req} (serves : q.Serves n rekeys) (r : Resp q) :
    InCall n now (v.after q r) := by
  refine ⟨fun m hm => ?_, reading_later h.reading ?_⟩
  · cases serves with
    | quiet quiet => exact h.running m ((World.keeps_after quiet r).running ▸ hm)
    | @report what noCall =>
      cases what with
      | called => contradiction
      | returned => contradiction
      | skipped => exact h.running m hm
      | startupDone => exact h.running m hm
    | exec => exact h.running m hm
    | update => exact h.running m hm
  · rw [World.callTrace_after v r serves.noCall]
    exact List.suffix_cons _ _

theorem inCall_of_runs {result : Int × Node}
    (runs : (sem sqlMayFail).Runs (afterClock cfg n force now) (w.read n force now)
      (.done result) v) : InCall n now v := by
  have emits : Emits (Req.Serves n True) (fun _ => True) (afterClock cfg n force now) :=
    (emits_afterClock (fun _ => trivial) fun _ _ => trivial).post fun _ _ => trivial
  have safe := (safe_of_emits (S := sem sqlMayFail) emits).invariant (inCall_read w n force now)
    fun v q r inCall serves _ => inCall.after serves r
  exact (safe.result runs).2

end Reading

end Tumgrd
