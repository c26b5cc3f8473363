import Tumgrd.Drain
import Tumgrd.Scenario

/-! Which children `exec_with_stdio` lets succeed: those whose output fits, and no
others. What `run_tuctl_script` says of them then depends on the marker alone. -/
namespace Tumgrd

open Effect Surroundings

/-- Every execution comes to an end without a deadline, and with success. -/
structure Succeeds (cap : Nat) (usable : Bool) (job : Job) (acts : List Act)
    (k : Kernel) : Prop where
  terminates : (piped cap True).Terminates (execWithStdio usable job) (k, .ofChild acts)
  success :
    ∀ e w, (piped cap True).Reaches (execWithStdio usable job) (k, .ofChild acts) (.done e) w →
    e.rc = 0

section Broken

variable {α : Type} {cap : Nat} {exits : Prop} {p p' : Sub α} {w w' : Kernel × Pipes}

/-- The child has died of a signal. -/
def Signaled (w : Kernel × Pipes) : Prop :=
  w.2.status = some .signaled ∧ ∀ status, w.1.child = .reaped status → status = .signaled

/-- No call of the parent changes how the child has ended. -/
theorem status_answers {q : Syscall} {r : SysResp q} {p p' : Pipes} {status : WaitStatus}
    (ended : p.status = some status) (answer : pipeAnswers cap p q r p') :
    p'.status = some status := by
  cases q with
  | setup | spawn =>
    obtain ⟨-, rfl⟩ := answer
    exact ended
  | kill =>
    cases answer
    simp [ended]
  | waitpid =>
    cases r with
    | reaped =>
      obtain ⟨-, rfl⟩ := answer
      exact ended
    | _ => exact answer.elim
  | write =>
    cases r with
    | count =>
      obtain ⟨-, -, rfl⟩ := answer
      exact ended
    | interrupted => exact answer.elim
    | failed =>
      obtain ⟨-, rfl⟩ := answer
      exact ended
  | read =>
    cases r with
    | eof =>
      obtain ⟨rfl, -⟩ := answer
      exact ended
    | data =>
      obtain ⟨o, -, -, rfl⟩ := answer
      exact ended
    | _ => exact answer.elim
  | _ =>
    cases answer
    exact ended

/-- What a call makes of the child, and who reaps it sees how it has ended. -/
theorem child_answers {q : Syscall} {r : SysResp q}
    (answers : (piped cap exits).answers w q r w') :
    w'.1.child = w.1.child ∨ w'.1.child = .alive ∨
      ∃ status, w'.1.child = .reaped status ∧ w.2.status = some status := by
  obtain ⟨k, p⟩ := w
  obtain ⟨k', p'⟩ := w'
  obtain ⟨kernel, pipes⟩ := answers
  cases q with
  | spawn =>
    obtain ⟨rfl, -⟩ := pipes
    cases kernel
    exact .inr (.inl rfl)
  | waitpid =>
    cases r with
    | reaped status =>
      obtain ⟨-, rfl⟩ := kernel
      exact .inr (.inr ⟨status, rfl, pipes.1⟩)
    | _ => exact pipes.elim
  | readTimedOut =>
    obtain ⟨-, rfl⟩ := kernel
    exact .inl rfl
  | write =>
    cases r with
    | count =>
      obtain ⟨-, -, rfl⟩ := kernel
      exact .inl rfl
    | interrupted => exact pipes.elim
    | failed =>
      cases kernel
      exact .inl rfl
  | read =>
    cases r with
    | eof =>
      cases kernel
      exact .inl rfl
    | data =>
      obtain ⟨-, rfl⟩ := kernel
      exact .inl rfl
    | _ => exact pipes.elim
  | _ =>
    cases kernel
    exact .inl rfl

theorem signaled_answers {q : Syscall} {r : SysResp q} (signaled : Signaled w)
    (answers : (piped cap exits).answers w q r w') : Signaled w' := by
  obtain ⟨dead, seen⟩ := signaled
  refine ⟨status_answers dead answers.2, fun status reaped => ?_⟩
  rcases child_answers answers with same | alive | ⟨status', now, ended⟩
  · exact seen _ (same ▸ reaped)
  · rw [alive] at reaped
    contradiction
  · rw [reaped] at now
    rw [dead] at ended
    cases now
    cases ended
    rfl

theorem signaled_reaches (signaled : Signaled w) (reach : (piped cap exits).Reaches p w p' w') :
    Signaled w' := by
  refine reach.invariant ?_ (fun _ _ _ _ => signaled_answers) signaled
  rintro v v' ⟨dead, -⟩ event
  have running := status_of_event event
  rw [dead] at running
  contradiction

end Broken

section Necessity

variable {α : Type} {cap : Nat} {usable : Bool} {job : Job} {k : Kernel} {past rest : List Act}
  {a : Act} {phase : Phase} {ends : PipeEnd → Bool} {unsent : Nat} {taken : Output → Str}
  {p : Sub α} {w w' : Kernel × Pipes}

/-- The parent waits in vain for a child that has done its last act. -/
structure Idles (cap : Nat) (job : Job) (past : List Act) (phase : Phase) (ends : PipeEnd → Bool)
    (unsent : Nat) (taken : Output → Str) (w : Kernel × Pipes) : Prop where
  draining : Draining cap False job past phase ends unsent taken w
  wants : phase.Wants job unsent taken
  blocked : ¬phase.Ready cap w.2
  idle : w.2.todo = []

theorem idles_of_stuck {Q : α → Kernel × Pipes → Prop} (positive : 0 < cap)
    (hanging : Drains cap False job past p w Q) (unending : ∀ value v, ¬Q value v)
    (stuck : (piped cap False).Stuck p w) :
    ∃ q next phase ends unsent taken, p = .call q next ∧ phase.Makes q ∧
      Idles cap job past phase ends unsent taken w := by
  cases p with
  | done value => exact (unending _ _ (hanging w (.refl _ w))).elim
  | loop body s next => exact (stuck.process _ _ ⟨w, .refl _ w, .loop⟩).elim
  | call q next =>
    cases (hanging w (.refl _ w)).1 with
    | atOnce _ given => exact (stuck.process _ _ ⟨w, .refl _ w, .call given⟩).elim
    | @inTurn phase ends unsent taken makes handed wants draining =>
      have blocked : ¬phase.Ready cap w.2 := by
        intro ready
        obtain ⟨r, u, given⟩ := answer_of_ready False makes (draining.opened ▸ handed)
          draining.child ready
        exact stuck.process _ _ ⟨w, .refl _ w, .call given⟩
      refine ⟨q, next, phase, ends, unsent, taken, rfl, makes, draining, wants, blocked, ?_⟩
      by_contra busy
      obtain ⟨w', event⟩ := draining.goes_on positive wants blocked (.inl busy)
      exact stuck.surroundings w' event

/-- Where the parent blocks, the child has to go on, and no signal may end it. -/
theorem Succeeds.goes_on {acts : List Act} {q : Syscall} {next : SysResp q → Sub Ending}
    (h : Succeeds cap usable job acts k) (named : job.argv ≠ []) (start : Calls k)
    (reach : (piped cap True).Reaches (execWithStdio usable job) (k, .ofChild acts)
      (.call q next) w) (makes : phase.Makes q) (blocked : ¬phase.Ready cap w.2) :
    ∃ p', ChildStep cap True w.2 p' ∧ p'.status ≠ some .signaled := by
  rcases h.terminates.progress _ _ reach with ⟨value, finished⟩ | ⟨p', w', v, events, moves⟩
  · contradiction
  rcases Relation.ReflTransGen.cases_head events with rfl | ⟨u, event, -⟩
  · cases moves with
    | call given => exact absurd (ready_of_answer makes given) blocked
  have alive : u.1.child = .alive := event.2.1 ▸ event.1
  refine ⟨u.2, event.2.2, fun dead => ?_⟩
  -- then the exit status would be the signal's
  have last := reach.event event
  obtain ⟨e, v, finish⟩ := (h.terminates.reaches last).finishes
  have zero := h.success e v (last.trans finish)
  have ended := (guarded_execWithStdio usable named start.unarmed).result
    (piped_posix.reaches (last.trans finish))
  have signaled : Signaled v := signaled_reaches ⟨dead, by simp [alive]⟩ finish
  have exited := signaled.2 _ (ended.success zero)
  contradiction

/-- What the parent blocks for is not what is put into another pipe. -/
theorem not_ready_update {p : Pipes} {o : Output} {text : Str} {todo : List Act}
    (blocked : ¬phase.Ready cap p) (other : phase ≠ .draining o) :
    ¬phase.Ready cap { p with output := Function.update p.output o text, todo } := by
  cases phase with
  | feeding => exact blocked
  | draining o' =>
    have same : Function.update p.output o text o' = p.output o' :=
      Function.update_of_ne (fun same => other (congrArg _ same)) _ _
    simpa only [Phase.Ready, same] using blocked
  | waiting => exact blocked

/-- All that a child does with a stream that is closed is to die. -/
theorem dead_of_shut {p p' : Pipes} {o : Output} {whole : Bool} {block : Str} {todo : List Act}
    (next : p.todo = .write o whole block :: todo) (some' : block ≠ [])
    (shut : p.opened ⟨o.stream, false⟩ = false) (step : ChildStep cap True p p') :
    p'.status = some .signaled := by
  cases step with
  | read _ next' | eof _ next' | exit _ _ next' => cases next.symm.trans next'
  | write _ next' _ open' | part _ next' _ open' =>
    cases next.symm.trans next'
    rw [shut] at open'
    contradiction
  | nothing _ next' =>
    cases next.symm.trans next'
    contradiction
  | broken => rfl

/-- A child that has done `past` and hangs waits where the parent does. -/
theorem Succeeds.hangs (h : Succeeds cap usable job (past ++ rest) k) (positive : 0 < cap)
    (named : job.argv ≠ []) (start : Calls k) (modest : Modest cap job [] past) :
    ∃ q next phase ends unsent taken w,
      (piped cap True).Reaches (execWithStdio usable job) (k, .ofChild (past ++ rest))
        (.call q next) (w.1, w.2.more rest) ∧
      phase.Makes q ∧ Idles cap job past phase ends unsent taken w := by
  have sim : (piped cap False).Simulates (piped cap True) fun w => (w.1, w.2.more rest) :=
    piped_more
  have hanging : Drains cap False job past (execWithStdio usable job) (k, .ofChild past)
      (Concluded False job past) :=
    drains_execWithStdio usable positive named modest ⟨start.child, rfl⟩
  have finite : Acc (piped cap False).Descends (execWithStdio usable job, (k, .ofChild past)) :=
    sim.acc h.terminates.finite
  obtain ⟨p, w, reach, stuck⟩ := exists_stuck (E := piped cap False) (fun w => w.2.actsLeft)
    (fun w w' event => actsLeft_step event.2.2) finite
  obtain ⟨q, next, phase, ends, unsent, taken, rfl, makes, idles⟩ :=
    idles_of_stuck positive (hanging.reaches reach) (fun _ _ concluded => concluded.1) stuck
  exact ⟨q, next, phase, ends, unsent, taken, w, sim.reaches reach, makes, idles⟩

section Delayed

variable {o : Output} {head tail : Str} {p p' : Pipes}

/-- The last block of the child is still to be written, and will fill the pipe with
all that is there before it, or the child has done everything. -/
def Held (cap : Nat) (o : Output) (head : Str) (p : Pipes) : Prop :=
  p.todo = [] ∨ (∃ acts, p.todo = acts ++ [.write o false head]) ∧
    (p.output o ++ written o p.todo).length = cap

/-- The same pipes, but until the child has written its last block the parent reads
nothing from the stream. -/
abbrev delayed (cap : Nat) (o : Output) (head : Str) :
    Surroundings Syscall SysResp (Kernel × Pipes) where
  answers w q r w' := Held cap o head w.2 ∧ (w.2.todo = [] ∨ ¬(Phase.draining o).Makes q) ∧
    (piped cap False).answers w q r w'
  event w w' := Held cap o head w.2 ∧ (piped cap False).event w w'

theorem delayed_piped : (delayed cap o head).Simulates (piped cap False) id where
  event := fun _ _ event => .single event.2
  answers := fun w _ _ _ answered => ⟨w, .refl _ w, answered.2.2⟩

/-- The last block is the first part of a longer one, behind which there is more to do. -/
def Pipes.resumed (o : Output) (head tail : Str) (rest : List Act) (p : Pipes) : Pipes :=
  { p with todo := if p.todo = [] then .write o false tail :: rest
      else p.todo.dropLast ++ .write o false (head ++ tail) :: rest }

theorem resumed_concat {acts : List Act} (next : p.todo = acts ++ [a]) :
    p.resumed o head tail rest =
        { p with todo := acts ++ .write o false (head ++ tail) :: rest } := by
  simp [Pipes.resumed, next]

theorem Held.step (held : Held cap o head p) (some' : head ≠ []) (more : tail ≠ [])
    (step : ChildStep cap False p p') :
    Held cap o head p' ∧
      ChildStep cap True (p.resumed o head tail rest) (p'.resumed o head tail rest) := by
  have total := step.conserves o
  rcases held with done | ⟨⟨acts, next⟩, all⟩
  · exact absurd step (not_step_of_done done)
  rw [resumed_concat next]
  cases acts with
  | nil =>
    rw [List.nil_append] at next
    have full : (p.output o).length + head.length = cap := by
      rw [next] at all
      simpa [written] using all
    cases step with
    | read _ next' | eof _ next' | exit _ _ next' => cases next.symm.trans next'
    | write running next' _ open' room =>
      cases next.symm.trans next'
      refine ⟨.inl rfl, .part running rfl some' open' room ?_⟩
      have positive := List.length_pos_iff.mpr more
      rw [List.length_append]
      dsimp only
      omega
    | part _ next' _ _ _ exceeds =>
      cases next.symm.trans next'
      omega
    | nothing _ next' =>
      cases next.symm.trans next'
      contradiction
    | broken running next' _ shut =>
      cases next.symm.trans next'
      have last : ({ p with status := some .signaled } : Pipes).todo =
          [] ++ [.write o false head] := next
      refine ⟨.inr ⟨⟨[], last⟩, all⟩, ?_⟩
      rw [resumed_concat last]
      exact .broken running rfl (List.append_ne_nil_of_left_ne_nil some' _) shut
  | cons b acts =>
    obtain ⟨todo', next', step'⟩ := step.before next
    refine ⟨.inr ⟨⟨todo', next'⟩, total ▸ all⟩, ?_⟩
    rw [resumed_concat next']
    exact step'.more (.write o false (head ++ tail) :: rest)

theorem Held.answers {q : Syscall} {r : SysResp q} (held : Held cap o head p)
    (turn : p.todo = [] ∨ ¬(Phase.draining o).Makes q) (answer : pipeAnswers cap p q r p') :
    Held cap o head p' ∧
      pipeAnswers cap (p.resumed o head tail rest) q r (p'.resumed o head tail rest) := by
  obtain ⟨same, given⟩ := pipeAnswers_todo answer
  refine ⟨?_, ?_⟩
  · unfold Held at held ⊢
    rw [same]
    rcases turn with done | other
    · exact .inl done
    · rwa [output_answers answer other]
  · unfold Pipes.resumed
    rw [same]
    exact given _

theorem delayed_resumed (some' : head ≠ []) (more : tail ≠ []) :
    (delayed cap o head).Simulates (piped cap True)
      fun w => (w.1, w.2.resumed o head tail rest) where
  event := by
    rintro ⟨k, p⟩ ⟨k', p'⟩ ⟨held, child, same, step⟩
    cases same
    exact .single (piped_event child (held.step some' more step).2)
  answers := by
    rintro ⟨k, p⟩ q r ⟨k', p'⟩ ⟨held, turn, kernel, answer⟩
    exact ⟨_, .refl _ _, kernel, (held.answers turn answer).2⟩

theorem held_reaches {p p' : Sub α} (some' : head ≠ []) (held : Held cap o head w.2)
    (reach : (delayed cap o head).Reaches p w p' w') : Held cap o head w'.2 := by
  refine reach.invariant (I := fun w => Held cap o head w.2) ?_ ?_ held
  · rintro v v' held ⟨-, -, -, step⟩
    have kept : Held cap o head v'.2 ∧ ChildStep cap True (v.2.resumed o head head [])
        (v'.2.resumed o head head []) := held.step some' some' step
    exact kept.1
  · rintro v q r v' held ⟨-, turn, -, answer⟩
    have kept : Held cap o head v'.2 ∧ pipeAnswers cap (v.2.resumed o head head []) q r
        (v'.2.resumed o head head []) := held.answers turn answer
    exact kept.1

/-- Where the parent is at the stream and reads nothing, there is room for whatever the
child is about to write. -/
theorem Draining.writes {acts : List Act}
    (h : Draining cap False job acts (.draining o) ends unsent taken w)
    (held : Held cap o head w.2) (busy : w.2.todo ≠ [])
    (begins : (written o acts).length < job.limit o + head.length) :
    ∃ w', (piped cap False).event w w' := by
  obtain ⟨k, p⟩ := w
  obtain ⟨-, child, rfl, holds, -, past, accounts⟩ := h
  obtain ⟨⟨before, ends'⟩, all⟩ := held.resolve_left busy
  have running : p.status = none := by
    by_contra ended
    obtain ⟨status, hstatus⟩ := Option.ne_none_iff_exists'.mp ended
    exact busy (accounts.status _ hstatus).2.1
  have steps {p' : Pipes} (step : ChildStep cap False p p') :
      ∃ w', (piped cap False).event (k, p) w' := ⟨_, piped_event child step⟩
  cases next : p.todo with
  | nil => exact absurd next busy
  | cons a todo =>
    cases a with
    | read =>
      cases stdin : p.stdin with
      | zero => exact steps (.eof running next stdin (holds _ rfl))
      | succ n => exact steps (.read running next stdin)
    | write o' whole block =>
      by_cases some' : block = []
      · exact steps (.nothing running (some' ▸ next))
      have open' := accounts.unbroken holds running next some'
      refine steps (.write running next some' open' ?_)
      by_cases same : o' = o
      · subst same
        rw [show (k, p).2.todo = _ from next, written_cons_write, List.length_append,
          List.length_append] at all
        dsimp only at all
        omega
      · rw [holds _ (own_output o')] at open'
        have pair : o = .stdout ∧ o' = .stderr := by
          cases o <;> cases o' <;> first | contradiction | exact ⟨rfl, rfl⟩
        obtain ⟨rfl, rfl⟩ := pair
        have bytes := congrArg List.length (accounts.acts.writes .stdout)
        rw [ends', written_append, written_write, List.length_append, List.length_append] at bytes
        have unserved : Unserved cap job past .stderr := .inr ⟨rfl, by omega⟩
        have fits : Fits cap job past (.write .stderr whole block) := (next ▸ accounts.modest).1
        replace fits := fits some'
        rw [if_pos unserved] at fits
        have some'' := accounts.held (o := .stderr) (holds _ rfl)
        dsimp only at some''
        omega

theorem Phase.Makes.unique {q : Syscall} (makes : phase.Makes q)
    (makes' : (Phase.draining o).Makes q) : phase = .draining o := by
  rcases phase with _ | o' | _ <;> cases q <;> try contradiction
  exact congrArg _ (Output.stream_inj (makes.1.symm.trans makes'.1))

/-- What stops there is no more than what stops among the pipes: the child has written
its last block. -/
theorem stuck_of_delayed {acts : List Act} {Q : α → Kernel × Pipes → Prop} {p : Sub α}
    (positive : 0 < cap) (hanging : Drains cap False job acts p w Q)
    (unending : ∀ value v, ¬Q value v) (held : Held cap o head w.2)
    (begins : (written o acts).length < job.limit o + head.length)
    (stuck : (delayed cap o head).Stuck p w) : w.2.todo = [] ∧ (piped cap False).Stuck p w := by
  have still {w' : Kernel × Pipes} : ¬(piped cap False).event w w' :=
    fun event => stuck.surroundings w' ⟨held, event⟩
  have done : w.2.todo = [] := by
    by_contra busy
    cases p with
    | done value => exact unending _ _ (hanging w (.refl _ w))
    | loop body s next => exact stuck.process _ _ ⟨w, .refl _ w, .loop⟩
    | call q next =>
      cases (hanging w (.refl _ w)).1 with
      | atOnce prompt given =>
        refine stuck.process _ _ ⟨w, .refl _ w, .call ⟨held, .inr fun makes => ?_, given⟩⟩
        rw [makes.waits] at prompt
        contradiction
      | @inTurn phase ends unsent taken makes handed wants draining =>
        by_cases turn : phase = .draining o
        · subst turn
          obtain ⟨w', event⟩ := draining.writes held busy begins
          exact still event
        by_cases ready : phase.Ready cap w.2
        · obtain ⟨r, u, given⟩ := answer_of_ready False makes (draining.opened ▸ handed)
            draining.child ready
          exact stuck.process _ _ ⟨w, .refl _ w,
            .call ⟨held, .inr fun makes' => turn (makes.unique makes'), given⟩⟩
        · obtain ⟨w', event⟩ := draining.goes_on positive wants ready (.inl busy)
          exact still event
  refine ⟨done, ?_, fun _ => still⟩
  rintro p' w' ⟨v, events, moves⟩
  rcases Relation.ReflTransGen.cases_head events with rfl | ⟨u, event, -⟩
  · refine stuck.process p' w' ⟨w, .refl _ w, ?_⟩
    cases moves with
    | call given => exact .call ⟨held, .inl done, given⟩
    | loop => exact .loop
  · exact still event

end Delayed

/-- A child that hangs behind the first part of its block, which has filled the pipe,
waits where the parent does. -/
theorem Succeeds.hangs_within {o : Output} {head tail : Str}
    (h : Succeeds cap usable job (past ++ .write o false (head ++ tail) :: rest) k)
    (positive : 0 < cap) (named : job.argv ≠ []) (start : Calls k) (some' : head ≠ [])
    (more : tail ≠ []) (modest : Modest cap job [] (past ++ [.write o false head]))
    (bytes : (written o (past ++ [.write o false head])).length = cap)
    (begins : (written o past).length < job.limit o) :
    ∃ q next phase ends unsent taken w,
      (piped cap True).Reaches (execWithStdio usable job)
        (k, .ofChild (past ++ .write o false (head ++ tail) :: rest))
        (.call q next) (w.1, w.2.resumed o head tail rest) ∧
      phase.Makes q ∧
      Idles cap job (past ++ [.write o false head]) phase ends unsent taken w := by
  have hanging : Drains cap False job (past ++ [.write o false head])
      (execWithStdio usable job) (k, .ofChild (past ++ [.write o false head]))
      (Concluded False job (past ++ [.write o false head])) :=
    drains_execWithStdio usable positive named modest ⟨start.child, rfl⟩
  have sim : (delayed cap o head).Simulates (piped cap True)
      fun w => (w.1, w.2.resumed o head tail rest) := delayed_resumed some' more
  have whole : (Pipes.ofChild (past ++ [.write o false head])).resumed o head tail rest =
      .ofChild (past ++ .write o false (head ++ tail) :: rest) := resumed_concat rfl
  have finite : Acc (delayed cap o head).Descends
      (execWithStdio usable job, (k, .ofChild (past ++ [.write o false head]))) :=
    sim.acc (show Acc _ (_, (k, (Pipes.ofChild _).resumed o head tail rest)) from
      whole ▸ h.terminates.finite)
  obtain ⟨p, w, reach, stuck⟩ := exists_stuck (E := delayed cap o head)
    (fun w => w.2.actsLeft) (fun w w' event => actsLeft_step event.2.2.2) finite
  have held : Held cap o head w.2 :=
    held_reaches (w := (k, .ofChild _)) some' (.inr ⟨⟨past, rfl⟩, bytes⟩) reach
  have hanging' := hanging.reaches (delayed_piped.reaches reach)
  rw [written_write, List.length_append] at bytes
  obtain ⟨-, stuck'⟩ := stuck_of_delayed positive hanging'
    (fun _ _ concluded => concluded.1) held
    (by rw [written_write, List.length_append]; omega) stuck
  obtain ⟨q, next, phase, ends, unsent, taken, rfl, makes, idles⟩ :=
    idles_of_stuck positive hanging' (fun _ _ concluded => concluded.1) stuck'
  have later := sim.reaches reach
  dsimp only at later
  rw [whole] at later
  exact ⟨q, next, phase, ends, unsent, taken, w, later, makes, idles⟩

/-- A block that may go in parts does so where it does not fit the pipe. If nothing has
been read by then, what is put first is all that the parent ever reads. -/
theorem Succeeds.fits_pipe {o : Output} {block : Str}
    (h : Succeeds cap usable job (past ++ .write o false block :: rest) k) (positive : 0 < cap)
    (named : job.argv ≠ []) (start : Calls k) (modest : Modest cap job [] past)
    (served : ¬Unserved cap job past o) (begins : (written o past).length < job.limit o)
    (room : job.limit o ≤ cap) : (written o past).length + block.length ≤ cap := by
  by_contra exceeds
  obtain ⟨head, tail, rfl, filled⟩ : ∃ head tail, block = head ++ tail ∧
      (written o past).length + head.length = cap := by
    refine ⟨_, _, (List.take_append_drop (cap - (written o past).length) block).symm, ?_⟩
    rw [List.length_take]
    omega
  have some' : head ≠ [] := List.ne_nil_of_length_pos (by omega)
  have more : tail ≠ [] := by
    rw [List.length_append] at exceeds
    exact List.ne_nil_of_length_pos (by omega)
  have bytes : (written o (past ++ [.write o false head])).length = cap := by
    rw [written_write, List.length_append, filled]
  have modest' : Modest cap job [] (past ++ [.write o false head]) := by
    refine modest_append.mpr ⟨modest, fun _ => ?_, trivial⟩
    rw [List.nil_append, if_neg served, filled]
    exact ⟨begins, Nat.le_max_right _ _⟩
  obtain ⟨q, next, phase, ends, unsent, taken, w, later, makes, idles⟩ :=
    h.hangs_within positive named start some' more modest' bytes begins
  obtain ⟨⟨-, -, rfl, holds, untouched, past', accounts⟩, wants, blocked, done⟩ := idles
  have same : SameBytes (past ++ [.write o false head]) past' := by
    have same := accounts.acts
    rwa [done, List.append_nil] at same
  -- the parent has closed the stream
  have shut : w.2.opened ⟨o.stream, false⟩ = false := by
    rw [← Bool.not_eq_true]
    intro open'
    rcases accounts.turn holds untouched wants blocked open' with
      ⟨-, unserved, -⟩ | ⟨-, -, -, short⟩
    · exact served ((unserved_congr same o).mpr unserved).earlier
    · rw [← same.writes o, bytes] at short
      omega
  obtain ⟨p', step, alive⟩ := h.goes_on named start later makes blocked
  have next' : (w.2.resumed o head tail rest).todo = .write o false tail :: rest := if_pos done
  exact alive (dead_of_shut next' more shut step)

/-- If the parent blocks for good without `a`, then there is room for `a`. -/
theorem Succeeds.fits (h : Succeeds cap usable job (past ++ a :: rest) k) (positive : 0 < cap)
    (named : job.argv ≠ []) (start : Calls k) (modest : Modest cap job [] past)
    (room : ∀ o block, a = .write o false block → job.limit o ≤ cap) :
    Fits cap job past a := by
  cases a with
  | read => exact trivial
  | write o whole block =>
    intro some'
    obtain ⟨q, next, phase, ends, unsent, taken, w, later, makes, idles⟩ :=
      h.hangs positive named start modest
    obtain ⟨⟨-, child, rfl, holds, untouched, past', accounts⟩, wants, blocked, done⟩ :=
      idles
    have same : SameBytes past past' := by
      have same := accounts.acts
      rwa [done, List.append_nil] at same
    have next' : (w.2.more (.write o whole block :: rest)).todo = .write o whole block :: rest :=
      congrArg (· ++ _) done
    obtain ⟨p', step, alive⟩ := h.goes_on named start later makes blocked
    by_cases open' : w.2.opened ⟨o.stream, false⟩ = true
    swap
    · rw [Bool.not_eq_true] at open'
      exact absurd (dead_of_shut next' some' open' step) alive
    have stops (exceeds : cap < (w.2.output o).length + block.length) :
        ¬(whole = true ∨ cap ≤ (w.2.output o).length) :=
      fun full => not_step_of_full next' some' open' exceeds full step
    rw [same.writes o]
    rcases accounts.turn holds untouched wants blocked open' with
      ⟨other, unserved, all⟩ | ⟨rfl, served, emptied, begins⟩
    · rw [if_pos ((unserved_congr same o).mpr unserved), ← all]
      by_contra exceeds
      rw [not_le] at exceeds
      -- the child fills the pipe, and then waits as the parent does
      have waits := stops exceeds
      rw [not_or, Bool.not_eq_true, not_le] at waits
      obtain ⟨rfl, some''⟩ := waits
      have step' : ChildStep cap True (w.2.more (.write o false block :: rest)) _ :=
        .fill (Phase.running blocked) next' open' some'' exceeds
      have filled := piped_event child step'
      obtain ⟨p'', step', -⟩ := h.goes_on named start (later.event filled) makes
        (not_ready_update blocked other)
      refine absurd step' (not_step_of_full rfl ?_ open' ?_ (.inr ?_))
      · refine List.ne_nil_of_length_pos ?_
        rw [List.length_drop]
        exact Nat.sub_pos_of_lt (Nat.sub_lt_left_of_lt_add (Nat.le_of_lt some'') exceeds)
      all_goals
        simp only [Pipes.more, Function.update_self, List.length_append, List.length_take,
          List.length_drop]
        omega
    · rw [if_neg (mt (unserved_congr same o).mp served)]
      refine ⟨begins, ?_⟩
      cases whole with
      | true =>
        rw [if_pos rfl]
        by_contra exceeds
        exact stops (by rw [emptied]; simpa using exceeds) (.inl rfl)
      | false =>
        rw [if_neg Bool.false_ne_true]
        refine Nat.le_trans ?_ (Nat.le_max_right _ _)
        rw [← same.writes o] at begins ⊢
        exact h.fits_pipe positive named start modest (mt (unserved_congr same o).mp served) begins
          (room o block rfl)

theorem Succeeds.modest {acts : List Act} (h : Succeeds cap usable job acts k) (positive : 0 < cap)
    (named : job.argv ≠ []) (start : Calls k)
    (room : ∀ o block, .write o false block ∈ acts → job.limit o ≤ cap) :
    Modest cap job [] acts := by
  suffices general : ∀ rest past : List Act, acts = past ++ rest → Modest cap job [] past →
      Modest cap job past rest from general acts [] rfl trivial
  intro rest
  induction rest with
  | nil => exact fun _ _ _ => trivial
  | cons a rest ih =>
    intro past split modest
    subst split
    have fits := h.fits positive named start modest fun o block same =>
      room o block (List.mem_append_right _ (same ▸ List.mem_cons_self))
    exact ⟨fits, ih (past ++ [a]) (List.append_cons past a rest)
      (modest_append.mpr ⟨modest, fits, trivial⟩)⟩

end Necessity

section Sufficiency

variable {cap : Nat} {usable : Bool} {job : Job} {k : Kernel} {acts : List Act}

theorem concluded_execWithStdio (positive : 0 < cap) (named : job.argv ≠ []) (start : Calls k)
    (modest : Modest cap job [] acts) :
    (piped cap True).Correct True (fun _ _ => True) (execWithStdio usable job) (k, .ofChild acts)
      (Concluded True job acts) :=
  (drains_execWithStdio usable positive named modest ⟨start.child, rfl⟩).mono
    (fun _ _ _ => trivial) fun _ _ concluded => concluded

theorem succeeds_of_modest (positive : 0 < cap) (named : job.argv ≠ []) (start : Calls k)
    (modest : Modest cap job [] acts) : Succeeds cap usable job acts k where
  terminates := (concluded_execWithStdio positive named start modest).terminates
  success := by
    intro e w reach
    obtain ⟨-, rfl, -⟩ := (concluded_execWithStdio positive named start modest).result reach
    rfl

end Sufficiency

section Script

variable {cap : Nat} {usable : Bool} {k : Kernel} {acts : List Act}

/-- How the two tools are run: both buffers have one size. -/
def Invocation.job (call : Invocation) (size : Nat) : Job :=
  ⟨call.argv, call.stdin.getD [], call.memlimit.isSome, size, size⟩

/-- What `run_tuctl_script` runs, with its buffers. -/
def tuctlJob (n : Node) (script : Str) : Job := (tuctlCall n script).job 2048

/-- `tuctl_client` is a child with these acts, and anything else answers as it likes. -/
abbrev childSem (cap : Nat) (usable : Bool) (acts : List Act) (k : Kernel) :
    Semantics Req Resp World where
  allowed
    | _, .exec _ call, result => ∃ e v lines,
        (piped cap True).Reaches (execWithStdio usable (call.job 2048))
          (k, .ofChild acts) (.done e) v ∧
          result = e.result v.1.flag lines
    | w, q, r => allowed True w q r
  after := World.after

/-- The return value is decided by what the subprocess leaves behind. -/
theorem safe_runTuctlScript_result {S : Semantics Req Resp World} {issue : Issue}
    {script marker : Str} {R : ExecResult → Prop} {w : World}
    (given : ∀ v result, S.allowed v (.exec issue (tuctlCall issue.node script)) result →
      R result) :
    S.Safe (fun _ _ => True) (runTuctlScript issue script marker) w fun rc _ =>
      ∃ result, R result ∧ rc = if result.acknowledges marker then 0 else -1 := by
  unfold runTuctlScript logArgv log exec perform
  simp only [Semantics.safe_bind, Semantics.safe_perform]
  refine ⟨trivial, fun _ _ => ⟨trivial, fun result answer => ⟨trivial, fun _ _ => ?_⟩⟩⟩
  have left := given _ _ answer
  split
  · rename_i failed
    exact ⟨result, left, by simp [ExecResult.acknowledges, failed]⟩
  rename_i rc
  split
  · rename_i missing
    simp only [Semantics.safe_bind, Semantics.safe_perform]
    exact ⟨trivial, fun _ _ => ⟨result, left, by simp [ExecResult.acknowledges, missing]⟩⟩
  · rename_i shown
    have rc : result.rc = 0 := by simpa using rc
    simp only [not_and, not_not] at shown
    exact ⟨result, left,
      by simpa [ExecResult.acknowledges, rc, or_iff_not_imp_left] using shown⟩

theorem safe_childSem (positive : 0 < cap) (start : Calls k) {issue : Issue} {script : Str}
    (modest : Modest cap (tuctlJob issue.node script) [] acts) (marker : Str) (w : World) :
    (childSem cap usable acts k).Safe (fun _ _ => True) (runTuctlScript issue script marker) w
      fun rc _ => rc = if (((tuctlJob issue.node script).ending acts).result false
        []).acknowledges marker then 0 else -1 := by
  have named : (tuctlJob issue.node script).argv ≠ [] := List.cons_ne_nil _ _
  refine (safe_runTuctlScript_result (R := fun result => ∃ timedOut lines,
    result = ((tuctlJob issue.node script).ending acts).result timedOut lines) ?_).post ?_
  · rintro v result ⟨e, u, lines, reach, rfl⟩
    obtain ⟨-, rfl, -⟩ := (concluded_execWithStdio positive named start modest).result reach
    exact ⟨_, lines, rfl⟩
  · rintro rc v ⟨_, ⟨timedOut, lines, rfl⟩, rfl⟩
    rfl

end Script

section Child

/-- Without any deadline, `exec_with_stdio` lets a child succeed if whatever it writes
fits where it has to wait: as long as its standard input is larger than what it has read
and the pipe, the pipes hold all that it writes; from then on a block that it writes to
the standard output begins within the buffer, and the pipe holds the other stream until
that buffer is full, from when on a block begins within the buffer there too; and a block
that goes in parts also ends within its buffer, or the pipe holds all that it writes.
Unless a block goes in parts whose buffer is larger than the pipe, no other child
succeeds. The buffers keep the start of what was written, and `run_tuctl_script`
succeeds if that shows the marker. -/
theorem child_output_accepted (cap : Nat) (usable : Bool) (k : Kernel) (positive : 0 < cap)
    (start : Calls k) :
    (∀ (job : Job) (acts : List Act), job.argv ≠ [] →
      (Modest cap job [] acts → Succeeds cap usable job acts k) ∧
      ((∀ o block, .write o false block ∈ acts → job.limit o ≤ cap) →
        Succeeds cap usable job acts k → Modest cap job [] acts) ∧
      (Modest cap job [] acts → ∀ e w,
        (piped cap True).Reaches (execWithStdio usable job) (k, .ofChild acts) (.done e) w →
          e = job.ending acts ∧ w.1.flag = false)) ∧
    ∀ (issue : Issue) (script marker : Str) (acts : List Act),
      Modest cap (tuctlJob issue.node script) [] acts → ∀ w rc w',
        (childSem cap usable acts k).Runs (runTuctlScript issue script marker) w (.done rc) w' →
          rc = if (((tuctlJob issue.node script).ending acts).result false
            []).acknowledges marker then 0 else -1 := by
  refine ⟨fun job acts named => ⟨?_, ?_, ?_⟩, ?_⟩
  · exact fun modest => succeeds_of_modest positive named start modest
  · exact fun room succeeds => succeeds.modest positive named start room
  · intro modest e w reach
    obtain ⟨-, ending, reaped⟩ :=
      (concluded_execWithStdio positive named start modest).result reach
    exact ⟨ending, reaped.2⟩
  · intro issue script marker acts modest w rc w' runs
    exact (safe_childSem positive start modest marker w).result runs

/-- A child that reads the script `server_del` sends it, and then writes these blocks. -/
def sampleChild (blocks : List Str) : List Act :=
  List.replicate (serverDelScript (sampleNode 0 0)).length .read ++
    blocks.map (.write .stdout true)

def sampleJob : Job := tuctlJob (sampleNode 0 0) (serverDelScript (sampleNode 0 0))

theorem written_sampleChild (o : Output) (blocks : List Str) :
    written o (sampleChild blocks) = if o = .stdout then blocks.flatten else [] := by
  unfold sampleChild
  rw [written_append]
  have reads (n : Nat) : written o (List.replicate n .read) = [] := by
    simp [written]
  rw [reads, List.nil_append]
  cases o <;> simp [written, List.flatMap_map]

theorem modest_sampleChild : Modest 65536 sampleJob [] (sampleChild [serverDeleted]) := by
  refine modest_of_short fun o => ?_
  rw [List.nil_append, written_sampleChild]
  cases o <;> decide

/-- The marker alone. -/
theorem child_output_accepted_deleted :
    Succeeds 65536 true sampleJob (sampleChild [serverDeleted]) staleKernel ∧
      ∀ w rc w', (childSem 65536 true (sampleChild [serverDeleted]) staleKernel).Runs
        (runTuctlScript ⟨.serverDel, sampleNode 0 0, []⟩ (serverDelScript (sampleNode 0 0))
          serverDeleted) w (.done rc) w' → rc = 0 := by
  obtain ⟨executes, returns⟩ :=
    child_output_accepted 65536 true staleKernel (by decide) ⟨rfl, rfl, rfl, rfl⟩
  refine ⟨(executes _ _ (List.cons_ne_nil _ _)).1 modest_sampleChild, fun w rc w' runs => ?_⟩
  have shown := returns ⟨.serverDel, sampleNode 0 0, []⟩ _ _ _ modest_sampleChild w rc w' runs
  have ending :
      sampleJob.ending (sampleChild [serverDeleted]) = ⟨0, serverDeleted, [], []⟩ := by
    unfold Job.ending
    rw [written_sampleChild, written_sampleChild]
    decide
  exact shown.trans (ending ▸ by decide)

/-- A block for the standard output begins within the buffer, if the pipe holds all of
the input. -/
theorem Modest.begins {cap : Nat} {job : Job} {past : List Act} {whole : Bool} {block : Str}
    (modest : Modest cap job [] (past ++ [.write .stdout whole block])) (some' : block ≠ [])
    (fed : job.stdin.length ≤ cap) : (written .stdout past).length < job.limit .stdout := by
  have fits := (modest_append.mp modest).2.1 some'
  have served : ¬Unserved cap job ([] ++ past) .stdout := by
    rintro (unfed | ⟨stderr, -⟩)
    · omega
    · contradiction
  rw [if_neg served] at fits
  exact fits.1

/-- A child that shows the marker, then writes more than its buffer holds, and then a
newline: three blocks, each of which goes into the pipe as a whole. -/
def chatty : List Str := [serverDeleted, List.replicate 2048 'x', ['\n']]

/-- It is killed, or waits for ever, though it would exit with 0. -/
theorem not_succeeds_chatty :
    serverDeleted <:+: written .stdout (sampleChild chatty) ∧
      ¬Succeeds 65536 true sampleJob (sampleChild chatty) staleKernel := by
  rw [written_sampleChild]
  refine ⟨⟨[], List.replicate 2048 'x' ++ ['\n'], rfl⟩, fun succeeds => ?_⟩
  have modest := succeeds.modest (by decide) (List.cons_ne_nil _ _) ⟨rfl, rfl, rfl, rfl⟩
    (by simp [sampleChild])
  have last : sampleChild chatty =
      sampleChild [serverDeleted, List.replicate 2048 'x'] ++ [.write .stdout true ['\n']] :=
    (List.append_assoc _ [Act.write .stdout true _, .write .stdout true _] _).symm
  have begins := (last ▸ modest).begins (List.cons_ne_nil _ _) (by decide)
  rw [written_sampleChild, if_pos rfl, List.flatten_cons, List.flatten_cons, List.length_append,
    List.length_append, List.length_replicate] at begins
  exact absurd begins (by decide)

end Child

end Tumgrd
