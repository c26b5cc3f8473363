import Tumgrd.Conduct
import Tumgrd.Footprint
import Tumgrd.Scenario

/-! What the timeout of one subprocess does to the rest of a call: no further
subprocess runs, while an ordinary failure is followed by the fallback. -/
namespace Tumgrd

open Effect Semantics

/-- `exec_with_stdio` ended the subprocess because of the deadline. -/
def Command.TimesOut (cmd : Command) : Prop := cmd.result.rc ≠ 0 ∧ cmd.result.timedOut = true

instance (cmd : Command) : Decidable cmd.TimesOut := inferInstanceAs (Decidable (_ ∧ _))

/-- A server-add that sends `address` while the detected address is `ip`. -/
structure Command.Sends (cmd : Command) (ip address : Str) : Prop where
  issue : cmd.issue = ⟨.serverAdd, cmd.issue.node, ip⟩
  call : cmd.call = tuctlCall cmd.issue.node (serverAddScript cmd.issue.node address)

/-- The answer of the server is there. -/
def Command.Accepted (cmd : Command) : Prop := cmd.result.acknowledges serverUpdated = true

/-- A client-del or client-add for `n`. -/
structure Command.Local (cmd : Command) (n : Node) (tool : Tool) (argv : List Str) : Prop where
  issue : cmd.issue = ⟨tool, n, []⟩
  call : cmd.call = ⟨argv, none, none⟩

/-- A request that neither starts a subprocess nor looks at the timeout flag. -/
def Req.unwatched : Req → Bool
  | .exec _ _ | .timedOut => false
  | .report what => !what.isCall
  | .time | .randomKey | .detect _ _ | .sql _ | .log _ => true

/-- No subprocess is started after one that timed out, and the flag is only read
for the last subprocess of this call. -/
def Punctual (w : World) : Req → Prop
  | .exec _ call => call.argv ≠ [] ∧ ∀ cmd ∈ w.callCommands, ¬cmd.TimesOut
  | .timedOut => ∃ cmd earlier, w.callCommands = cmd :: earlier ∧
    w.timedOut = cmd.result.timedOut
  | _ => True

/-- `v` is `w` after one more subprocess of the call. -/
structure Ran (w v : World) (cmd : Command) : Prop where
  callCommands : v.callCommands = cmd :: w.callCommands
  timedOut : v.timedOut = cmd.result.timedOut
  clear : cmd.result.rc = 0 → cmd.result.timedOut = false

theorem Ran.late_iff {w v : World} {cmd : Command} (ran : Ran w v cmd) :
    v.timedOut = true ↔ cmd.TimesOut := by
  rw [ran.timedOut]
  refine ⟨fun late => ⟨fun succeeded => ?_, late⟩, fun late => late.2⟩
  rw [ran.clear succeeded] at late
  contradiction

theorem Ran.keeps {w v v' : World} {cmd : Command} (ran : Ran w v cmd) (keeps : v.Keeps v') :
    Ran w v' cmd where
  callCommands := keeps.callCommands.trans ran.callCommands
  timedOut := keeps.timedOut.trans ran.timedOut
  clear := ran.clear

theorem Command.Accepted.rc {cmd : Command} (accepted : cmd.Accepted) : cmd.result.rc = 0 := by
  unfold Accepted ExecResult.acknowledges at accepted
  simp only [Bool.and_eq_true, decide_eq_true_eq] at accepted
  exact accepted.1

section Tools

variable {n : Node} {w : World}

theorem ran_after {issue : Issue} {call : Invocation} {result : ExecResult}
    (clear : result.rc = 0 → result.timedOut = false) {w' v : World} (before : w.Keeps w')
    (keeps : (w'.after (.exec issue call) result).Keeps v) : Ran w v ⟨issue, call, result⟩ := by
  refine Ran.keeps ⟨?_, rfl, clear⟩ keeps
  rw [World.callCommands_after (q := .exec issue call) w' result rfl, before.callCommands]
  rfl

/-- One attempt of `tumgrd_runner_server_add`. -/
theorem safe_attempt {ip address : Str} (calm : ∀ cmd ∈ w.callCommands, ¬cmd.TimesOut) :
    (sem True).Safe Punctual (runTuctlScript ⟨.serverAdd, n, ip⟩ (serverAddScript n address)
      serverUpdated) w fun rc v => ∃ cmd, Ran w v cmd ∧ cmd.Sends ip address ∧
        (rc = 0 ↔ cmd.Accepted) ∧ rc ≤ 0 := by
  refine safe_runTuctlScript (fun _ _ => trivial) ?_ ?_
  · intro v keeps
    refine ⟨List.cons_ne_nil _ _, ?_⟩
    rw [keeps.callCommands]
    exact calm
  · intro w' result v before clear keeps
    refine ⟨⟨⟨.serverAdd, n, ip⟩, tuctlCall n (serverAddScript n address), result⟩,
      ran_after clear before keeps, ⟨rfl, rfl⟩, ?_⟩
    unfold Command.Accepted
    split <;> simp_all

theorem safe_local {tool : Tool} {argv : List Str} (real : argv ≠ [])
    (calm : ∀ cmd ∈ w.callCommands, ¬cmd.TimesOut) :
    (sem True).Safe Punctual (runKtuctl ⟨tool, n, []⟩ argv) w fun rc v =>
      ∃ cmd, Ran w v cmd ∧ cmd.Local n tool argv ∧ rc = cmd.result.rc ∧ rc ≤ 0 := by
  refine safe_runKtuctl (fun _ _ => trivial) ?_ ?_
  · intro v keeps
    refine ⟨real, ?_⟩
    rw [keeps.callCommands]
    exact calm
  · intro w' result v before failed clear keeps
    exact ⟨⟨⟨tool, n, []⟩, ⟨argv, none, none⟩, result⟩, ran_after clear before keeps,
      ⟨rfl, rfl⟩,
      rfl, failed⟩

end Tools

section Server

variable {cfg : Config} {n : Node} {ip : Str} {rc : Int} {cmds : List Command} {w : World}

/-- The subprocesses of `tumgrd_runner_server_add`, newest first, when it
returns `rc`. -/
inductive Sent (cfg : Config) (ip : Str) (rc : Int) : List Command → Prop
  | settled {first : Command} : cfg.useClientIp = true → first.Sends ip placeholder →
      (rc = 0 ↔ first.Accepted) → (first.Accepted ∨ first.TimesOut) → Sent cfg ip rc [first]
  | fallback {first second : Command} : cfg.useClientIp = true → first.Sends ip placeholder →
      ¬first.Accepted → ¬first.TimesOut → second.Sends ip ip →
        (rc = 0 ↔ second.Accepted) →
      Sent cfg ip rc [second, first]
  | direct {first : Command} : cfg.useClientIp = false → first.Sends ip ip →
      (rc = 0 ↔ first.Accepted) → Sent cfg ip rc [first]

theorem Command.Accepted.calm {cmd : Command} (accepted : cmd.Accepted) : ¬cmd.TimesOut :=
  fun late => late.1 accepted.rc

theorem Sent.calm (sent : Sent cfg ip 0 cmds) : ∀ cmd ∈ cmds, ¬cmd.TimesOut := by
  cases sent with
  | settled _ _ code _ =>
    rw [List.forall_mem_singleton]
    exact (code.mp rfl).calm
  | fallback _ _ _ first _ code =>
    rw [List.forall_mem_cons, List.forall_mem_singleton]
    exact ⟨(code.mp rfl).calm, first⟩
  | direct _ _ code =>
    rw [List.forall_mem_singleton]
    exact (code.mp rfl).calm

theorem safe_serverAddDetected {before : List Command} {Q : Int → World → Prop}
    (commands : w.callCommands = before) (calm : ∀ cmd ∈ before, ¬cmd.TimesOut)
    (done : ∀ rc v cmd, v.callCommands = cmd :: before → cmd.Sends ip ip →
      (rc = 0 ↔ cmd.Accepted) → rc ≤ 0 → Q rc v) :
    (sem True).Safe Punctual (serverAddDetected n ip) w Q := by
  simp only [serverAddDetected, logTrimmed, safe_bind, safe_log]
  refine ⟨trivial, (safe_attempt ?_).post ?_⟩
  · rw [World.callCommands_after _ _ rfl, commands]
    exact calm
  · rintro rc v ⟨cmd, ran, sends, code, failed⟩
    refine done rc v cmd ?_ sends code failed
    rw [ran.callCommands, World.callCommands_after _ _ rfl, commands]
    rfl

theorem safe_serverAdd_sent (found : ip ≠ []) (idle : w.callCommands = []) :
    (sem True).Safe Punctual (serverAdd n cfg ip) w fun rc v =>
      Sent cfg ip rc v.callCommands ∧ rc ≤ 0 := by
  unfold serverAdd
  rw [if_neg found]
  split
  · rename_i useClientIp
    simp only [logTrimmed, safe_bind, safe_log]
    refine ⟨trivial, (safe_attempt ?_).post ?_⟩
    · rw [World.callCommands_after _ _ rfl, idle]
      simp
    rintro rc v ⟨first, ran, sends, code, failed⟩
    have alone : v.callCommands = [first] := by
      rw [ran.callCommands, World.callCommands_after _ _ rfl, idle]
      rfl
    split
    · rename_i succeeded
      rw [safe_pure, alone]
      exact ⟨.settled useClientIp sends (by simp [← code, succeeded])
        (.inl (code.mp succeeded)),
        Int.le_refl 0⟩
    rename_i refused
    rw [code] at refused
    simp only [safe_bind, safe_readTimedOut]
    refine ⟨⟨first, [], alone, ran.timedOut⟩, ?_⟩
    split
    · rename_i late
      simp only [safe_bind, safe_log, safe_pure]
      refine ⟨trivial, ?_, by decide⟩
      rw [World.callCommands_after _ _ rfl, World.callCommands_after _ _ rfl, alone]
      exact .settled useClientIp sends (by simp [refused]) (.inr (ran.late_iff.mp late))
    · rename_i punctual
      rw [ran.late_iff] at punctual
      simp only [safe_bind, safe_log]
      refine ⟨trivial, safe_serverAddDetected ?_ (List.forall_mem_singleton.mpr punctual) ?_⟩
      · rw [World.callCommands_after _ _ rfl, World.callCommands_after _ _ rfl, alone]
        rfl
      · intro rc v second commands sends' code' failed'
        rw [commands]
        exact ⟨.fallback useClientIp sends refused punctual sends' code', failed'⟩
  · rename_i detected
    refine safe_serverAddDetected idle (by simp) ?_
    intro rc v first commands sends code failed
    rw [commands]
    exact ⟨.direct (by simpa using detected) sends code, failed⟩

end Server

section Calls

variable {cfg : Config} {n : Node} {l : Locals} {ip : Str} {code now : Int} {cmds : List Command}
  {w : World}

/-- The subprocesses of a call, newest first, when it ends with `code`. -/
inductive Chain (cfg : Config) (ip : Str) (code : Int) : List Command → Prop
  | idle : Chain cfg ip code []
  | unsent {rc : Int} {cmds : List Command} : Sent cfg ip rc cmds → code ≠ 0 →
      Chain cfg ip code cmds
  | stuck {n : Node} {del : Command} {cmds : List Command} : Sent cfg ip 0 cmds →
      del.Local n .clientDel (clientDelArgv n) → del.TimesOut → code ≠ 0 →
      Chain cfg ip code (del :: cmds)
  | reset {n : Node} {add del : Command} {cmds : List Command} : Sent cfg ip 0 cmds →
      del.Local n .clientDel (clientDelArgv n) → ¬del.TimesOut →
      add.Local n .clientAdd (clientAddArgv n) → (add.result.rc ≠ 0 → code ≠ 0) →
      Chain cfg ip code (add :: del :: cmds)

/-- A call that has run everything it had to may still fail. -/
theorem Chain.fail (chain : Chain cfg ip 0 cmds) : Chain cfg ip code cmds := by
  cases chain with
  | idle => exact .idle
  | unsent _ failed => exact absurd rfl failed
  | stuck _ _ _ failed => exact absurd rfl failed
  | reset sent del punctual add succeeded =>
    exact .reset sent del punctual add fun failed => absurd rfl (succeeded failed)

/-- Where a stage leads to. Stages after the skip test do not skip. -/
def Reached (cfg : Config) (ip : Str) (Q : World → Prop) : Flow → World → Prop
  | .next _, v => Q v
  | .skip _, _ => False
  | .fail _ err, v => Chain cfg ip err v.callCommands

theorem callCommands_unwatched {q : Req} (unwatched : q.unwatched = true) (r : Resp q) :
    (w.after q r).callCommands = w.callCommands := by
  cases q with
  | exec issue call => contradiction
  | timedOut => contradiction
  | report what =>
    simp only [Req.unwatched, Bool.not_eq_true'] at unwatched
    exact World.callCommands_after w r unwatched
  | _ => exact World.callCommands_after w r rfl

theorem punctual_unwatched {q : Req} (unwatched : q.unwatched = true) : Punctual w q := by
  cases q with
  | exec issue call => contradiction
  | timedOut => contradiction
  | _ => trivial

theorem safe_unwatched {α : Type} {p : Prog α} {Q : α → Prop}
    (emits : p.Emits (fun q => q.unwatched = true) Q) (commands : w.callCommands = cmds) :
    (sem True).Safe Punctual p w fun value v => Q value ∧ v.callCommands = cmds := by
  have safe := (safe_of_emits (S := sem True) emits).invariant
    (I := fun v => v.callCommands = cmds) commands fun v q r same unwatched _ =>
      (callCommands_unwatched unwatched r).trans same
  exact safe.mono (fun _ _ permitted => punctual_unwatched permitted.1) fun _ _ post => post

/-- No subprocess has run, and the call goes on with an address only. -/
def Undecided (flow : Flow) (v : World) : Prop :=
  v.callCommands = [] ∧ ∀ l, flow = .next l → l.detectedIp.text ≠ []

theorem safe_andThen_idle {p : Prog Flow} {f : Locals → Prog Flow}
    (emits : p.Emits (fun q => q.unwatched = true) fun _ => True) (idle : w.callCommands = [])
    (rest : ∀ l v, v.callCommands = [] → (sem True).Safe Punctual (f l) v Undecided) :
    (sem True).Safe Punctual (andThen p f) w Undecided := by
  rw [safe_andThen]
  refine (safe_unwatched emits idle).post fun flow v ⟨_, idle⟩ => ?_
  cases flow with
  | next l => exact rest l v idle
  | skip l => exact ⟨idle, by rintro l ⟨⟩⟩
  | fail l err => exact ⟨idle, by rintro l ⟨⟩⟩

/-- Deciding what to do starts no subprocess. -/
theorem safe_decideApply_idle (idle : w.callCommands = []) :
    (sem True).Safe Punctual (decideApply cfg now l) w Undecided := by
  have repair (damaged : Node → Bool) (l : Locals) :
      (repairRotation cfg now damaged l).Emits (fun q => q.unwatched = true) fun _ => True :=
    emits_repairRotation (P := fun q => q.unwatched = true) rfl (fun _ _ _ => rfl) damaged
  have expiry (l : Locals) :
      (checkExpiry cfg now l).Emits (fun q => q.unwatched = true) fun _ => True :=
    emits_checkExpiry (P := fun q => q.unwatched = true) rfl fun _ _ _ => rfl
  unfold decideApply
  refine safe_andThen_idle (repair _ _) idle fun l v idle => ?_
  refine safe_andThen_idle (repair _ _) idle fun l v idle => ?_
  refine safe_andThen_idle (expiry _) idle fun l v idle => ?_
  rw [safe_andThen]
  simp only [detectIp, safe_bind, safe_detect]
  refine ⟨trivial, fun found detected => ?_⟩
  have idle : (v.after (.detect (pickIpCheckUrl l.node) l.node.ipVersion.text)
      found).callCommands = [] := by
    rw [callCommands_unwatched rfl, idle]
  split
  · rename_i ok
    simp only [safe_pure, skipUnchanged]
    split
    · refine ⟨idle, ?_⟩
      rintro l ⟨⟩
      exact detected ok
    · exact ⟨idle, by rintro l ⟨⟩⟩
  · exact ⟨idle, by rintro l ⟨⟩⟩

theorem safe_applyServer_sent (found : l.detectedIp.text ≠ []) (idle : w.callCommands = []) :
    (sem True).Safe Punctual (applyServer cfg l) w
      (Reached cfg l.detectedIp.text fun v => Sent cfg l.detectedIp.text 0 v.callCommands) := by
  unfold applyServer
  rw [safe_bind]
  refine (safe_serverAdd_sent found idle).post ?_
  rintro rc v ⟨sent, failed⟩
  split
  · rename_i refused
    exact .unsent sent (by omega)
  rename_i accepted
  obtain rfl : rc = 0 := by omega
  dsimp only
  split
  · rw [safe_bind]
    have emits : (dbUpdateRotationState l.node.key rotationPendingLocalRecovery).Emits
        (fun q => q.unwatched = true) fun _ => True := emits_dbUpdateRotationState rfl
    refine (safe_unwatched emits rfl).post fun rc v' ⟨_, same⟩ => ?_
    split
    · rw [safe_pure, Reached, same]
      exact .unsent sent (by decide)
    · rw [safe_pure, Reached, same]
      exact sent
  · exact sent

theorem safe_applyLocal_chain (sent : Sent cfg ip 0 w.callCommands) :
    (sem True).Safe Punctual (applyLocal l) w
      (Reached cfg ip fun v => Chain cfg ip 0 v.callCommands) := by
  simp only [applyLocal, resetLocalClient, clientDel, clientAdd, safe_bind, safe_readTimedOut]
  refine (safe_local (List.cons_ne_nil _ _) sent.calm).post ?_
  rintro _ v ⟨del, ran, deletes, -, -⟩
  refine ⟨⟨del, _, ran.callCommands, ran.timedOut⟩, ?_⟩
  have commands := (World.callCommands_after v (q := .timedOut) v.timedOut rfl).trans
    ran.callCommands
  split
  · rename_i late
    rw [safe_pure, if_pos (by decide), safe_pure]
    rw [Reached, commands]
    exact .stuck sent deletes (ran.late_iff.mp late) (by decide)
  · rename_i punctual
    rw [ran.late_iff] at punctual
    refine (safe_local (List.cons_ne_nil _ _) ?_).post ?_
    · rw [commands]
      exact List.forall_mem_cons.mpr ⟨punctual, sent.calm⟩
    · rintro rc v' ⟨add, ran', adds, rfl, failed⟩
      have commands' := ran'.callCommands.trans (congrArg _ commands)
      split
      · rename_i refused
        rw [safe_pure, Reached, commands']
        exact .reset sent deletes punctual adds fun _ => by omega
      · rename_i succeeded
        rw [safe_pure, Reached, commands']
        exact .reset sent deletes punctual adds fun failed => by omega

theorem safe_afterReset (chain : Chain cfg ip 0 w.callCommands) :
    (sem True).Safe Punctual (andThen (markActive l) (recordApplied now)) w
      (Reached cfg ip fun v => Chain cfg ip 0 v.callCommands) := by
  have marked : (markActive l).Emits (fun q => q.unwatched = true) fun flow =>
      ∀ l, flow ≠ .skip l := by
    simp only [markActive, Program.emits_bind]
    refine (emits_markRuntime (P := fun q => q.unwatched = true) rfl fun _ => rfl).post
      fun rc _ => ?_
    split <;> rintro l ⟨⟩
  have recorded (l : Locals) : (recordApplied now l).Emits (fun q => q.unwatched = true)
      fun flow => ∀ l, flow ≠ .skip l := by
    have update {k : Key} {set : Assign} {guard : Guard} :
        (dbUpdateOne k set guard).Emits (fun q => q.unwatched = true) fun _ => True :=
      emits_dbUpdateOne rfl
    unfold recordApplied
    dsimp only
    split
    · rw [Program.emits_bind]
      refine update.post fun rc _ => ?_
      split <;> rintro l ⟨⟩
    split
    · rw [Program.emits_bind]
      refine update.post fun rc _ => ?_
      split <;> rintro l ⟨⟩
    · rintro l ⟨⟩
  have reached : ∀ (flow : Flow) (v : World), (∀ l, flow ≠ .skip l) →
      v.callCommands = w.callCommands →
          Reached cfg ip (fun v => Chain cfg ip 0 v.callCommands) flow v := by
    intro flow v went same
    cases flow with
    | next l =>
      rw [Reached, same]
      exact chain
    | skip l => exact absurd rfl (went l)
    | fail l err =>
      rw [Reached, same]
      exact chain.fail
  rw [safe_andThen]
  refine (safe_unwatched marked rfl).post fun flow v ⟨went, same⟩ => ?_
  cases flow with
  | next l =>
    exact (safe_unwatched (recorded l) same).post fun flow v ⟨went, same⟩ =>
      reached flow v went same
  | skip l => exact absurd rfl (went l)
  | fail l err => exact reached _ v went same

theorem safe_applyNode_chain (found : l.detectedIp.text ≠ []) (idle : w.callCommands = []) :
    (sem True).Safe Punctual (applyNode cfg now l) w
      (Reached cfg l.detectedIp.text fun v => Chain cfg l.detectedIp.text 0 v.callCommands) := by
  unfold applyNode
  rw [safe_andThen]
  refine (safe_applyServer_sent found idle).post fun flow v reached => ?_
  cases flow with
  | skip l => exact reached
  | fail l err => exact reached
  | next l =>
    dsimp only
    rw [safe_andThen]
    refine (safe_applyLocal_chain reached).post fun flow v reached => ?_
    cases flow with
    | skip l => exact reached
    | fail l err => exact reached
    | next l => exact safe_afterReset reached

/-- The code the call returns after its stages. -/
def Flow.returns : Flow → Int
  | .next _ | .skip _ => 0
  | .fail _ err => err

theorem safe_finishReconcile_chain {flow : Flow}
    (chain : Chain cfg ip flow.returns w.callCommands) :
    (sem True).Safe Punctual (finishReconcile flow) w fun result v =>
      ∃ ip, Chain cfg ip result.1 v.callCommands := by
  have emits : (finishReconcile flow).Emits (fun q => q.unwatched = true) fun result =>
      result.1 = flow.returns := by
    cases flow with
    | next l => exact ⟨rfl, fun _ => rfl⟩
    | skip l => exact ⟨rfl, fun _ => ⟨rfl, fun _ => rfl⟩⟩
    | fail l err =>
      simp only [finishReconcile, Program.emits_bind, emits_report, Program.emits_pure]
      exact (emits_markRuntime (P := fun q => q.unwatched = true) rfl fun _ => rfl).post
        fun _ _ => ⟨rfl, rfl⟩
  refine (safe_unwatched emits rfl).post ?_
  rintro result v ⟨code, same⟩
  rw [code, same]
  exact ⟨ip, chain⟩

/-- The subprocesses of a call form a chain. -/
theorem safe_reconcileOne_chain (cfg : Config) (n : Node) (force : Bool) (w : World) :
    (sem True).Safe Punctual (reconcileOne cfg n force) w fun result v =>
      ∃ ip, Chain cfg ip result.1 v.callCommands := by
  simp only [reconcileOne, safe_bind, safe_report, safe_time]
  refine ⟨trivial, trivial, fun now => ?_⟩
  rw [safe_andThen]
  have idle : (w.read n force now).callCommands = [] := rfl
  refine (safe_decideApply_idle idle).post ?_
  rintro flow v ⟨idle, found⟩
  have unstarted {code : Int} : Chain cfg [] code v.callCommands := by
    rw [idle]
    exact .idle
  cases flow with
  | skip l => exact safe_finishReconcile_chain unstarted
  | fail l err => exact safe_finishReconcile_chain unstarted
  | next l =>
    refine (safe_applyNode_chain (found l rfl) idle).post fun flow v reached => ?_
    cases flow with
    | skip l => exact reached.elim
    | next l => exact safe_finishReconcile_chain reached
    | fail l err => exact safe_finishReconcile_chain reached

end Calls

section Order

variable {cfg : Config} {n : Node} {force : Bool} {ip : Str} {rc code : Int} {cmds : List Command}
  {result : Int × Node} {q : Req} {w v : World}

/-- How the subprocesses of a finished call follow each other, oldest first. -/
structure Ordered (cfg : Config) (code : Int) (cmds : List Command) : Prop where
  stops : ∀ before cmd later, cmds = before ++ cmd :: later → cmd.TimesOut →
    later = [] ∧ code ≠ 0
  falls : cfg.useClientIp = true → ∀ first later, cmds = first :: later →
    ∃ ip, first.Sends ip placeholder ∧ (¬first.Accepted → ¬first.TimesOut →
      ∃ second rest, later = second :: rest ∧ second.Sends ip ip)
  resets : ∀ before del later, cmds = before ++ del :: later → del.issue.tool = .clientDel →
    ¬del.TimesOut → ∃ add, later = [add] ∧
      add.Local del.issue.node .clientAdd (clientAddArgv del.issue.node)

theorem Command.Sends.tool {cmd : Command} {address : Str} (sends : cmd.Sends ip address) :
    cmd.issue.tool = .serverAdd := by
  rw [sends.issue]

theorem Sent.tool (sent : Sent cfg ip rc cmds) : ∀ cmd ∈ cmds, cmd.issue.tool = .serverAdd := by
  cases sent with
  | settled _ sends => simpa using sends.tool
  | fallback _ first _ _ second => simpa using ⟨second.tool, first.tool⟩
  | direct _ sends => simpa using sends.tool

/-- A timeout ends `tumgrd_runner_server_add` with an error. -/
theorem Sent.stops (sent : Sent cfg ip rc cmds) :
    (∀ cmd ∈ cmds.tail, ¬cmd.TimesOut) ∧
      ∀ cmd ∈ cmds.head?, cmd.TimesOut → rc ≠ 0 := by
  cases sent with
  | settled _ _ code _ => simpa using fun late succeeded => (code.mp succeeded).calm late
  | fallback _ _ _ punctual _ code =>
    simpa using ⟨punctual, fun late succeeded => (code.mp succeeded).calm late⟩
  | direct _ _ code => simpa using fun late succeeded => (code.mp succeeded).calm late

/-- After a placeholder that failed in time comes the detected address. -/
theorem Sent.falls (sent : Sent cfg ip rc cmds) (useClientIp : cfg.useClientIp = true) :
    ∃ first later, cmds.reverse = first :: later ∧ first.Sends ip placeholder ∧
      (¬first.Accepted → ¬first.TimesOut →
        ∃ second rest, later = second :: rest ∧ second.Sends ip ip) := by
  cases sent with
  | settled _ sends _ final =>
    exact ⟨_, [], rfl, sends, fun refused punctual => (final.elim refused punctual).elim⟩
  | fallback _ sends _ _ sends' => exact ⟨_, _, rfl, sends, fun _ _ => ⟨_, [], rfl, sends'⟩⟩
  | direct direct =>
    rw [useClientIp] at direct
    contradiction

theorem Chain.stops (chain : Chain cfg ip code cmds) :
    (∀ cmd ∈ cmds.tail, ¬cmd.TimesOut) ∧
      ∀ cmd ∈ cmds.head?, cmd.TimesOut → code ≠ 0 := by
  cases chain with
  | idle => simp
  | unsent sent failed => exact ⟨sent.stops.1, fun _ _ _ => failed⟩
  | stuck sent _ _ failed => exact ⟨sent.calm, fun _ _ _ => failed⟩
  | reset sent _ punctual _ failed =>
    refine ⟨List.forall_mem_cons.mpr ⟨punctual, sent.calm⟩, ?_⟩
    rintro add ⟨⟩ late
    exact failed late.1

theorem Chain.falls (chain : Chain cfg ip code cmds) (useClientIp : cfg.useClientIp = true)
    {first : Command} {later : List Command} (order : cmds.reverse = first :: later) :
    first.Sends ip placeholder ∧ (¬first.Accepted → ¬first.TimesOut →
      ∃ second rest, later = second :: rest ∧ second.Sends ip ip) := by
  have extend : ∀ {rc : Int} {sent rest : List Command}, Sent cfg ip rc sent →
      sent.reverse ++ rest = first :: later → first.Sends ip placeholder ∧
        (¬first.Accepted → ¬first.TimesOut →
          ∃ second rest, later = second :: rest ∧ second.Sends ip ip) := by
    intro rc cmds rest sent order
    obtain ⟨first', later', order', sends, falls⟩ := sent.falls useClientIp
    rw [order', List.cons_append, List.cons.injEq] at order
    obtain ⟨rfl, rfl⟩ := order
    refine ⟨sends, fun refused punctual => ?_⟩
    obtain ⟨second, rest', rfl, sends'⟩ := falls refused punctual
    exact ⟨second, rest' ++ rest, rfl, sends'⟩
  cases chain with
  | idle => contradiction
  | unsent sent _ => exact extend sent (by rw [List.append_nil, order])
  | stuck sent _ _ _ => exact extend sent (by rw [← List.reverse_cons, order])
  | reset sent _ _ _ _ =>
    exact extend sent (by rw [← order, List.reverse_cons, List.reverse_cons, List.append_assoc])

theorem Chain.resets (chain : Chain cfg ip code cmds) {before later : List Command} {del : Command}
    (order : cmds.reverse = before ++ del :: later) (deletes : del.issue.tool = .clientDel)
    (punctual : ¬del.TimesOut) : ∃ add, later = [add] ∧
      add.Local del.issue.node .clientAdd (clientAddArgv del.issue.node) := by
  have skip : ∀ {rc : Int} {sent rest : List Command}, Sent cfg ip rc sent →
      sent.reverse ++ rest = before ++ del :: later →
          ∃ middle, rest = middle ++ del :: later := by
    intro rc served rest sent order
    rcases List.append_eq_append_iff.mp order with
      ⟨middle, -, rest⟩ | ⟨middle, inside, rest⟩
    · exact ⟨middle, rest⟩
    · cases middle with
      | nil => exact ⟨[], rest.symm⟩
      | cons cmd middle =>
        obtain ⟨rfl, -⟩ := List.cons.inj rest
        have inside : del ∈ served.reverse := by simp [inside]
        have tool := sent.tool del (List.mem_reverse.mp inside)
        rw [deletes] at tool
        contradiction
  cases chain with
  | idle => simp at order
  | unsent sent _ =>
    obtain ⟨middle, rest⟩ := skip sent ((List.append_nil _).trans order)
    simp at rest
  | stuck sent _ late _ =>
    obtain ⟨middle, rest⟩ := skip sent (List.reverse_cons.symm.trans order)
    cases middle with
    | nil =>
      obtain ⟨rfl, -⟩ := List.cons.inj rest
      exact absurd late punctual
    | cons cmd middle => simp at rest
  | @reset n add del' served sent deletes' _ adds _ =>
    rw [List.reverse_cons, List.reverse_cons, List.append_assoc] at order
    obtain ⟨middle, rest⟩ := skip sent order
    cases middle with
    | nil =>
      obtain ⟨rfl, rfl⟩ := List.cons.inj rest
      refine ⟨add, rfl, ?_⟩
      rw [deletes'.issue]
      exact adds
    | cons cmd middle =>
      cases middle with
      | nil =>
        obtain ⟨rfl, -⟩ := List.cons.inj (List.cons.inj rest).2
        rw [adds.issue] at deletes
        contradiction
      | cons cmd' middle => simp at rest

/-- A timeout stops the subprocesses of a call, and another failure does not. -/
theorem Chain.ordered (chain : Chain cfg ip code cmds) : Ordered cfg code cmds.reverse where
  stops before cmd later order late := by
    rw [List.reverse_eq_iff, List.reverse_append, List.reverse_cons, List.append_assoc] at order
    obtain ⟨earlier, last⟩ := chain.stops
    subst order
    cases hlater : later.reverse with
    | nil =>
      rw [hlater] at last
      exact ⟨List.reverse_eq_nil_iff.mp hlater, last cmd rfl late⟩
    | cons next rest =>
      rw [hlater] at earlier
      exact absurd late (earlier cmd (by simp))
  falls useClientIp first later order := ⟨ip, chain.falls useClientIp order⟩
  resets before del later order := chain.resets order

/-- Every request of a call is punctual, also of one that is cut off, and the
subprocesses of a finished call are in order. -/
theorem timeout_stops_chain {p : Prog (Int × Node)}
    (runs : (sem True).Runs (reconcileOne cfg n force) w p v) :
    (∀ q, p.request? = some q → Punctual v q) ∧
      ∀ result, p.result? = some result → Ordered cfg result.1 v.callCommands.reverse := by
  have safe := (safe_reconcileOne_chain cfg n force w).runs runs
  refine ⟨fun q issues => ?_, fun result returns => ?_⟩
  · obtain ⟨rest, rfl⟩ := Program.eq_call issues
    exact safe.1
  · rw [Program.eq_done returns] at safe
    obtain ⟨ip, chain⟩ := safe
    exact chain.ordered

/-- The server answers, and the local tool hangs. -/
def stuck : Scenario :=
  { sample 1700000200 with
    result := fun
      | .serverAdd => ⟨0, false, serverUpdated, [], []⟩
      | .clientDel => ⟨-1, true, [], [], []⟩
      | .serverDel | .clientAdd => ⟨-1, false, [], [], []⟩
    exits := by rintro (_ | _ | _ | _) <;> decide }

theorem timeout_stops_chain_stuck : ∃ result v,
    (sem True).Runs (reconcileOne ⟨true, true, 3600⟩ (sampleRow.toNode 1700000200) true)
        (.ofRow sampleRow) (.done result) v ∧
      v.callCommands.map (fun cmd => cmd.issue.tool) = [.clientDel, .serverAdd] ∧
      Ordered ⟨true, true, 3600⟩ result.1 v.callCommands.reverse := by
  obtain ⟨result, returns⟩ := Option.isSome_iff_exists.mp
    (show (stuck.calling ⟨true, true, 3600⟩ sampleRow 1700000200 true).1.result?.isSome by
      decide +kernel)
  have runs : (sem True).Runs _ _ _ _ := Scenario.calling_runs returns
  exact ⟨result, _, runs, by decide +kernel, (timeout_stops_chain runs).2 result rfl⟩

end Order

end Tumgrd
