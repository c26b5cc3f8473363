import Tumgrd.Pipes

/-! `exec_with_stdio` among the pipes, call by call: what of its child's output it
waits for, and what it leaves. Where the child exits, it does not wait in vain. -/
namespace Tumgrd

open Effect Surroundings

section Rules

variable {α β : Type} {cap : Nat} {exits : Prop} {job : Job} {acts : List Act}
  {w : Kernel × Pipes}
  {A : Kernel × Pipes → Prop} {Q : α → Kernel × Pipes → Prop}

abbrev Drains (cap : Nat) (exits : Prop) (job : Job) (acts : List Act) (p : Sub α)
    (w : Kernel × Pipes) (Q : α → Kernel × Pipes → Prop) : Prop :=
  (piped cap exits).Correct exits (Asks cap exits job acts) p w Q

/-- A call that is answered at once. -/
theorem drains_syscall {q : Syscall} {f : SysResp q → Sub α} (prompt : q.waits = false)
    (stable : (piped cap exits).Stable A) (h : A w)
    (answered : ∀ v, A v → ∃ r u, (piped cap exits).answers v q r u)
    (rest : ∀ v r u, A v → posixAnswers v.1 q r u.1 → pipeAnswers cap v.2 q r u.2 →
      Drains cap exits job acts (f r) u Q) :
    Drains cap exits job acts (syscall q >>= f) w Q := by
  refine correct_perform stable h fun v hv => ?_
  obtain ⟨r, u, given⟩ := answered v hv
  exact ⟨.atOnce prompt given, fun _ => ⟨v, r, u, .refl _ v, given⟩,
    fun r u given => rest v r u hv given.1 given.2⟩

/-- The call of a phase, which waits for the child. -/
theorem drains_turn (phase : Phase) {ends : PipeEnd → Bool} {unsent : Nat}
    {taken : Output → Str}
    {q : Syscall} {f : SysResp q → Sub α} (positive : 0 < cap) (handed : Handed ends)
    (makes : phase.Makes q) (wants : phase.Wants job unsent taken)
    (h : Draining cap exits job acts phase ends unsent taken w)
    (rest : ∀ v r u, Draining cap exits job acts phase ends unsent taken v →
      posixAnswers v.1 q r u.1 → pipeAnswers cap v.2 q r u.2 →
        Drains cap exits job acts (f r) u Q) :
    Drains cap exits job acts (syscall q >>= f) w Q := by
  refine correct_perform stable_draining h fun v hv => ⟨.inTurn makes handed wants hv, ?_,
    fun r u given => rest v r u hv given.1 given.2⟩
  intro ending
  obtain ⟨⟨k, p⟩, events, hu, ready⟩ := hv.ready positive wants ending
  obtain ⟨r, u, given⟩ := answer_of_ready exits makes (hu.opened ▸ handed) hu.child ready
  exact ⟨(k, p), r, u, events, given⟩

theorem drains_bind {p : Sub β} {f : β → Sub α} {R : β → Kernel × Pipes → Prop}
    (first : Drains cap exits job acts p w R)
    (rest : ∀ value v, R value v → Drains cap exits job acts (f value) v Q) :
    Drains cap exits job acts (p >>= f) w Q :=
  (correct_bind f Q).mpr (first.post rest)

theorem drains_pure (stable : (piped cap exits).Stable A) (h : A w) (value : α)
    (post : ∀ v, A v → Q value v) : Drains cap exits job acts (pure value) w Q :=
  correct_of_stable stable h value post

/-- What only the flag, the child and the pipes decide on. -/
def Observes (A : Kernel × Pipes → Prop) : Prop :=
  ∀ v u, A v → u.1.flag = v.1.flag → u.1.child = v.1.child → u.2 = v.2 → A u

/-- The timer and the signal mask, which are nothing to the child. -/
def Syscall.timing : Syscall → Bool
  | .maskAlarm | .restoreMask | .alarm _ | .discardPending => true
  | _ => false

theorem drains_timing {q : Syscall} {f : SysResp q → Sub α} (timing : q.timing = true)
    (stable : (piped cap exits).Stable A) (observes : Observes A) (h : A w)
    (rest : ∀ r u, A u → Drains cap exits job acts (f r) u Q) :
    Drains cap exits job acts (syscall q >>= f) w Q := by
  have prompt : q.waits = false := by
    cases q <;> first | rfl | contradiction
  refine drains_syscall prompt stable h (fun v _ => ?_) fun v r u hv kernel pipes => rest r u ?_
  · cases q with
    | maskAlarm | restoreMask | discardPending | alarm => exact ⟨(), (_, v.2), rfl, rfl⟩
    | _ => contradiction
  · obtain ⟨k, p⟩ := u
    cases q with
    | maskAlarm | restoreMask | discardPending | alarm =>
      obtain rfl : k = _ := kernel
      exact observes v _ hv rfl rfl pipes
    | _ => contradiction

/-- The flag that is down stays down: there is no alarm. -/
theorem drains_readTimedOut {f : Bool → Sub α} (stable : (piped cap exits).Stable A) (h : A w)
    (clear : ∀ v, A v → v.1.flag = false)
    (rest : ∀ u, A u → Drains cap exits job acts (f false) u Q) :
    Drains cap exits job acts (syscall .readTimedOut >>= f) w Q := by
  refine drains_syscall rfl stable h (fun v hv => ⟨_, v, ⟨rfl, rfl⟩, rfl⟩) ?_
  rintro v r ⟨k, p⟩ hv ⟨rfl, rfl⟩ rfl
  rw [clear v hv]
  exact rest _ hv

theorem drains_checked {late : Ending} {rest : Sub Ending} {Q : Ending → Kernel × Pipes → Prop}
    (stable : (piped cap exits).Stable A) (h : A w) (clear : ∀ v, A v → v.1.flag = false)
    (next : ∀ u, A u → Drains cap exits job acts rest u Q) :
    Drains cap exits job acts (checked watchdogCheck late rest) w Q := by
  unfold checked watchdogCheck
  refine drains_bind (R := fun expired v => expired = false ∧ A v) ?_ ?_
  · refine drains_readTimedOut stable h clear fun u hu => ?_
    exact drains_pure stable hu false fun v hv => ⟨rfl, hv⟩
  · rintro _ v ⟨rfl, hv⟩
    exact next v hv

end Rules

section Serving

variable {cap rest : Nat} {exits : Prop} {job : Job} {acts : List Act} {taken : Output → Str}
  {w : Kernel × Pipes}

/-- The child has not been spawned, and its pipes are as they will be. -/
def Unspawned (acts : List Act) (w : Kernel × Pipes) : Prop :=
  w.1.child = .absent ∧ w.2 = .ofChild acts

/-- And the flag is down. -/
def Cleared (acts : List Act) (w : Kernel × Pipes) : Prop :=
  Unspawned acts w ∧ w.1.flag = false

theorem stable_unspawned : (piped cap exits).Stable (Unspawned acts) := by
  rintro w w' ⟨child, -⟩ ⟨alive, -, -⟩
  rw [child] at alive
  contradiction

theorem stable_cleared : (piped cap exits).Stable (Cleared acts) := by
  rintro w w' ⟨⟨child, -⟩, -⟩ ⟨alive, -, -⟩
  rw [child] at alive
  contradiction

theorem drains_watchdogArm (usable : Bool) (h : Unspawned acts w) :
    Drains cap exits job acts (watchdogArm usable) w fun _ => Cleared acts := by
  have before : Observes (Unspawned acts) := fun v u hv _ child pipes =>
    ⟨child.trans hv.1, pipes.trans hv.2⟩
  have after : Observes (Cleared acts) := fun v u hv flag child pipes =>
    ⟨⟨child.trans hv.1.1, pipes.trans hv.1.2⟩, flag.trans hv.2⟩
  unfold watchdogArm
  refine drains_timing rfl stable_unspawned before h fun _ w h => ?_
  refine drains_timing rfl stable_unspawned before h fun _ w h => ?_
  refine drains_timing rfl stable_unspawned before h fun _ w h => ?_
  refine drains_syscall rfl stable_unspawned h
    (fun v _ => ⟨(), (_, v.2), rfl, rfl⟩) ?_
  rintro v _ ⟨k, p⟩ h rfl rfl
  have h : Cleared acts ({ v.1 with flag := false }, v.2) := ⟨h, rfl⟩
  have last {w : Kernel × Pipes} (h : Cleared acts w) :
      Drains cap exits job acts (syscall .restoreMask) w fun _ => Cleared acts := by
    show Drains cap exits job acts (syscall .restoreMask >>= pure) w _
    exact drains_timing rfl stable_cleared after h fun r _ h =>
      drains_pure stable_cleared h r fun _ h => h
  split
  · exact drains_timing rfl stable_cleared after h fun _ w h => last h
  · exact last h

theorem drains_runSetup (steps : List Setup) (pipes : List PipeEnd) (h : Cleared acts w) :
    Drains cap exits job acts (runSetup steps pipes) w
      fun result w => result.1 = true ∧ Cleared acts w := by
  induction steps generalizing pipes w with
  | nil => exact drains_pure stable_cleared h _ fun _ h => ⟨rfl, h⟩
  | cons step steps ih =>
    unfold runSetup
    refine drains_syscall rfl stable_cleared h
      (fun v _ => ⟨true, v, rfl, rfl, rfl⟩) ?_
    rintro v ok ⟨k, p⟩ h rfl ⟨rfl, rfl⟩
    exact ih _ h

theorem drains_close {α : Type} {e : PipeEnd} {f : Unit → Sub α}
    {Q : α → Kernel × Pipes → Prop}
    {A : Kernel × Pipes → Prop} (stable : (piped cap exits).Stable A) (h : A w)
    (next : ∀ v, A v →
      Drains cap exits job acts (f ())
        (v.1, { v.2 with opened := Function.update v.2.opened e false }) Q) :
    Drains cap exits job acts (syscall (.close e) >>= f) w Q := by
  refine drains_syscall rfl stable h (fun v _ => ?_) ?_
  · exact ⟨(), (v.1, { v.2 with opened := Function.update v.2.opened e false }), rfl, rfl⟩
  · rintro v _ ⟨k, p⟩ hv rfl rfl
    exact next v hv

variable {phase : Phase} {ends : PipeEnd → Bool} {past : List Act} {p : Pipes}

/-- An end may be closed when the child has no use for it any more. -/
theorem Accounts.close {e : PipeEnd} (h : Accounts cap exits job acts rest taken past p)
    (delivered : e = ⟨.stdin, true⟩ → p.status = none →
      job.stdin.length ≤ bytesRead past + cap)
    (left : ∀ o : Output, e = ⟨o.stream, false⟩ → p.status = none →
      job.limit o ≤ (written o past).length) :
    Accounts cap exits job acts rest taken past
      { p with opened := Function.update p.opened e false } := by
  have kept : ∀ e', Function.update p.opened e false e' = true → p.opened e' = true := by
    intro e' open'
    by_cases same : e' = e
    · rw [same, Function.update_self] at open'
      contradiction
    · rwa [Function.update_of_ne same] at open'
  have shut : ∀ e', Function.update p.opened e false e' = false →
      e = e' ∨ p.opened e' = false := by
    intro e' shut
    by_cases same : e' = e
    · exact .inl same.symm
    · rw [Function.update_of_ne same] at shut
      exact .inr shut
  refine ⟨h.acts, h.modest, h.status, fun open' => h.fed (kept _ open'), h.room,
    fun o open' => h.taken o (kept _ open'), fun shut' running => ?_, fun o shut' running => ?_⟩
  · exact (shut _ shut').elim (delivered · running) (h.delivered · running)
  · exact (shut _ shut').elim (left o · running) (h.left o · running)

theorem Handed.update (handed : Handed ends) (e : PipeEnd) :
    Handed (Function.update ends e false) := by
  intro e' given
  by_cases same : e' = e
  · rw [same, Function.update_self]
  · rw [Function.update_of_ne same, handed e' given]

theorem drains_handOver {α : Type} {f : Unit → Sub α}
    {Q : α → Kernel × Pipes → Prop} {e : PipeEnd}
    (given : e.own = false) (h : Draining cap exits job acts phase ends rest taken w)
    (next : ∀ u, Draining cap exits job acts phase (Function.update ends e false) rest taken u →
      Drains cap exits job acts (f ()) u Q) :
    Drains cap exits job acts (syscall (.close e) >>= f) w Q := by
  refine drains_close stable_draining h ?_
  rintro ⟨k, p⟩ ⟨flag, child, rfl, holds, untouched, past, accounts⟩
  refine next _ ⟨flag, child, rfl, fun e' own => ?_, untouched, past, accounts.close ?_ ?_⟩
  · rw [Function.update_of_ne (by rintro rfl; simp [own] at given)]
    exact holds e' own
  · rintro rfl
    contradiction
  · rintro o rfl
    rw [own_output] at given
    contradiction

/-- Some of the input has gone into the pipe. -/
theorem Draining.sent {n : Nat} (h : Draining cap exits job acts phase ends rest taken w)
    (le : n ≤ rest)
    (room : w.2.stdin + n ≤ cap) :
    Draining cap exits job acts phase ends (rest - n) taken
      (w.1, { w.2 with stdin := w.2.stdin + n }) := by
  obtain ⟨flag, child, opened, holds, untouched, past, accounts⟩ := h
  refine ⟨flag, child, opened, holds, untouched, past, accounts.acts, accounts.modest,
    accounts.status, fun fed => ?_, room, accounts.taken, accounts.delivered, accounts.left⟩
  rw [accounts.fed fed]
  dsimp only
  omega

/-- All of the input is written, or nobody reads it. -/
def Fed (cap : Nat) (exits : Prop) (job : Job) (acts : List Act) (ends : PipeEnd → Bool)
    (taken : Output → Str) (w : Kernel × Pipes) : Prop :=
  ∃ rest, Draining cap exits job acts .feeding ends rest taken w ∧
    (rest = 0 ∨ w.2.status ≠ none)

theorem status_of_event {w' : Kernel × Pipes} (event : (piped cap exits).event w w') :
    w.2.status = none := by
  obtain ⟨k, p⟩ := w'
  obtain ⟨-, -, step⟩ := event
  cases step <;> assumption

theorem stable_fed : (piped cap exits).Stable (Fed cap exits job acts ends taken) := by
  rintro w w' ⟨rest, h, finished⟩ event
  refine ⟨rest, stable_draining _ _ h event, .inl ?_⟩
  exact finished.resolve_right fun ended => ended (status_of_event event)

theorem drains_write (positive : 0 < cap) (handed : Handed ends) {text : Str}
    (h : Draining cap exits job acts .feeding ends text.length taken w) :
    Drains cap exits job acts (Process.iterate writeStep text) w
      fun _ => Fed cap exits job acts ends taken := by
  refine correct_iterate (fun n text w => n = text.length ∧
    Draining cap exits job acts .feeding ends text.length taken w) ⟨rfl, h⟩ ?_
      fun _ => stable_fed
  rintro n text w ⟨rfl, h⟩
  unfold writeStep
  split
  · rename_i sent
    subst sent
    exact drains_pure stable_draining h _ fun v hv => ⟨0, hv, .inl rfl⟩
  rename_i unsent
  have wants : 0 < text.length := List.length_pos_iff.mpr unsent
  refine drains_readTimedOut stable_draining h (fun v hv => hv.flag) fun w h => ?_
  rw [if_neg (by simp)]
  refine drains_turn .feeding positive handed unsent wants h ?_
  rintro v r ⟨k, p⟩ hv kernel pipes
  cases r with
  | count n =>
    obtain ⟨some', le, rfl⟩ := kernel
    obtain ⟨-, room, rfl⟩ := pipes
    have sent := hv.sent le room
    rw [← List.length_drop] at sent
    refine drains_pure stable_draining sent _ fun v hv => ⟨_, fun _ => ?_, rfl, hv⟩
    rw [List.length_drop]
    omega
  | interrupted => exact pipes.elim
  | failed =>
    obtain rfl : k = v.1 := kernel
    obtain ⟨nobody, rfl⟩ := pipes
    exact drains_pure stable_fed ⟨_, hv, .inr nobody.1⟩ _ fun _ fed => fed

variable {o : Output} {used : Str}

/-- The buffer is full, or the stream is at its end. -/
structure Emptied (cap : Nat) (exits : Prop) (job : Job) (acts : List Act) (o : Output)
    (ends : PipeEnd → Bool) (rest : Nat) (taken : Output → Str) (used : Str)
    (w : Kernel × Pipes) :
    Prop where
  draining : Draining cap exits job acts (.draining o) ends rest (Function.update taken o used) w
  fits : used.length ≤ job.limit o
  finished : job.limit o ≤ used.length ∨ w.2.status ≠ none ∧ w.2.output o = []

theorem stable_emptied :
    (piped cap exits).Stable (Emptied cap exits job acts o ends rest taken used) := by
  rintro w w' ⟨h, fits, finished⟩ event
  refine ⟨stable_draining _ _ h event, fits, .inl ?_⟩
  exact finished.resolve_right fun ended => ended.1 (status_of_event event)

theorem untouched_update {text : Str} :
    (Phase.draining o).Untouched (Function.update taken o text) ↔
        (Phase.draining o).Untouched taken := by
  cases o with
  | stdout => rfl
  | stderr => rfl

/-- Some of the output has gone into the buffer. -/
theorem Draining.took {piece : Str} {room : Nat}
    (h : Draining cap exits job acts (.draining o) ends rest (Function.update taken o used) w)
    (taken' : piece = (w.2.output o).take room) :
    Draining cap exits job acts (.draining o) ends rest (Function.update taken o (used ++ piece))
      (w.1, { w.2 with output := Function.update w.2.output o ((w.2.output o).drop room) }) := by
  obtain ⟨flag, child, opened, holds, untouched, past, accounts⟩ := h
  refine ⟨flag, child, opened, holds, untouched_update.mpr (untouched_update.mp untouched), past,
    accounts.acts, accounts.modest, accounts.status, accounts.fed, accounts.room,
    fun o' open' => ?_, accounts.delivered, accounts.left⟩
  have kept := accounts.taken o' open'
  by_cases same : o' = o
  · subst same
    rw [Function.update_self] at kept
    dsimp only
    rw [Function.update_self, Function.update_self, taken', List.append_assoc,
      List.take_append_drop, kept]
  · rw [Function.update_of_ne same] at kept
    dsimp only
    rw [Function.update_of_ne same, Function.update_of_ne same, kept]

theorem drains_readAllFd (positive : 0 < cap) (handed : Handed ends) {size : Nat}
    (limit : job.limit o = size - 1) (start : taken o = [])
    (h : Draining cap exits job acts (.draining o) ends rest taken w) :
    Drains cap exits job acts (readAllFd o.stream size) w
      (Emptied cap exits job acts o ends rest taken) := by
  rw [← Function.update_eq_self o taken, start] at h
  unfold readAllFd
  split
  · rename_i none
    subst none
    exact drains_pure stable_emptied ⟨h, Nat.zero_le _, .inl (Nat.le_of_eq limit)⟩ _
      fun _ post => post
  refine correct_iterate (fun n used w => n = job.limit o - used.length ∧
    used.length ≤ job.limit o ∧
    Draining cap exits job acts (.draining o) ends rest (Function.update taken o used) w)
    ⟨rfl, Nat.zero_le _, h⟩ ?_ fun _ => stable_emptied
  rintro n used w ⟨rfl, fits, h⟩
  unfold readStep
  rw [← limit]
  by_cases full : job.limit o - used.length = 0
  · -- a buffer of one byte has room for its NUL only
    rw [full]
    refine drains_syscall rfl stable_draining h (fun v _ => ⟨.eof, v, rfl, rfl, .inl rfl⟩) ?_
    rintro v r ⟨k, p⟩ hv kernel pipes
    cases r with
    | eof =>
      obtain rfl : k = v.1 := kernel
      obtain ⟨rfl, -⟩ := pipes
      exact drains_pure stable_emptied ⟨hv, fits, .inl (by omega)⟩ _ fun _ post => post
    | data first more => exact absurd kernel.1 (Nat.not_lt_zero _)
    | interrupted => exact pipes.elim
    | failed => exact pipes.elim
  have wants : (Phase.draining o).Wants job rest (Function.update taken o used) := by
    show (Function.update taken o used o).length < _
    rw [Function.update_self]
    omega
  refine drains_turn (.draining o) positive handed ⟨rfl, full⟩ wants h ?_
  rintro v r ⟨k, p⟩ hv kernel pipes
  cases r with
  | eof =>
    obtain rfl : k = v.1 := kernel
    obtain ⟨rfl, finished⟩ := pipes
    obtain ⟨o', same, held, ended, -⟩ := finished.resolve_left full
    cases Output.stream_inj same
    exact drains_pure stable_emptied ⟨hv, fits, .inr ⟨ended, held⟩⟩ _ fun _ post => post
  | data first more =>
    obtain ⟨short, rfl⟩ := kernel
    obtain ⟨o', same, piece, rfl⟩ := pipes
    cases Output.stream_inj same
    have took := hv.took piece
    have length : (used ++ first :: more).length = used.length + (more.length + 1) :=
      List.length_append
    refine drains_pure stable_draining took _ fun v hv => ?_
    split
    · exact ⟨hv, by omega, .inl ‹_›⟩
    · exact ⟨_, fun _ => by omega, rfl, by omega, hv⟩
  | interrupted => exact pipes.elim
  | failed => exact pipes.elim

/-- The end that a phase closes behind it. -/
theorem Phase.Holds.update {next : Phase} {e : PipeEnd} (holds : phase.Holds ends)
    (closes : ∀ e', e'.own = true → next.opened e' = (phase.opened e' && decide (e' ≠ e))) :
    next.Holds (Function.update ends e false) := by
  intro e' own
  rw [closes e' own, ← holds e' own]
  by_cases same : e' = e
  · simp [same]
  · simp [same]

/-- What is left in the buffer is the start of all that the child writes. -/
theorem Emptied.kept (h : Emptied cap exits job acts o ends rest taken used w) :
    used = (written o acts).take (job.limit o) := by
  obtain ⟨⟨-, -, rfl, holds, -, past, accounts⟩, fits, finished⟩ := h
  have kept := accounts.taken o ((holds _ (own_output o)).trans (by cases o <;> rfl))
  rw [Function.update_self] at kept
  rw [accounts.acts.writes, written_append, ← kept]
  rcases finished with full | ⟨ended, held⟩
  · rw [List.append_assoc, List.take_left' (Nat.le_antisymm fits full)]
  · obtain ⟨status, hstatus⟩ := Option.ne_none_iff_exists'.mp ended
    rw [(accounts.status _ hstatus).2.1, held]
    simp [written, List.take_of_length_le fits]

theorem Emptied.close (h : Emptied cap exits job acts o ends rest taken used w) (next : Phase)
    (closes : ∀ e : PipeEnd, e.own = true →
      next.opened e = ((Phase.draining o).opened e && decide (e ≠ ⟨o.stream, false⟩)))
    (untouched : next.Untouched (Function.update taken o used)) :
    Draining cap exits job acts next (Function.update ends ⟨o.stream, false⟩ false) rest
      (Function.update taken o used)
      (w.1, { w.2 with opened := Function.update w.2.opened ⟨o.stream, false⟩ false }) := by
  obtain ⟨⟨flag, child, rfl, holds, -, past, accounts⟩, fits, finished⟩ := h
  refine ⟨flag, child, rfl, holds.update closes, untouched, past, accounts.close ?_ ?_⟩
  · intro same
    cases o <;> contradiction
  · intro o' same running
    obtain rfl : o = o' := Output.stream_inj (PipeEnd.mk.inj same).1
    have kept := accounts.taken o ((holds _ (own_output o)).trans (by cases o <;> rfl))
    rw [Function.update_self] at kept
    have full := finished.resolve_right fun ended => ended.1 running
    rw [← kept, List.length_append]
    omega

theorem Fed.close (h : Fed cap exits job acts ends taken w) : ∃ rest,
    Draining cap exits job acts (.draining .stdout)
      (Function.update ends ⟨.stdin, true⟩ false) rest taken
      (w.1, { w.2 with opened := Function.update w.2.opened ⟨.stdin, true⟩ false }) := by
  obtain ⟨rest, ⟨flag, child, rfl, holds, untouched, past, accounts⟩, finished⟩ := h
  refine ⟨rest, flag, child, rfl, holds.update ?_, untouched .stderr, past,
    accounts.close (fun _ running => ?_) ?_⟩
  · rintro ⟨_ | _ | _, _ | _⟩ own <;> rfl
  · have fed := accounts.fed (holds _ rfl)
    have room := accounts.room
    have sent := finished.resolve_right (not_not_intro running)
    omega
  · intro o same
    cases o <;> contradiction

/-- The child has exited by itself. -/
def Reaped (w : Kernel × Pipes) : Prop := w.1.child = .reaped (.exited 0) ∧ w.1.flag = false

theorem stable_reaped : (piped cap exits).Stable Reaped := by
  rintro w w' ⟨child, -⟩ ⟨alive, -, -⟩
  rw [child] at alive
  contradiction

theorem drains_wait (positive : 0 < cap) (handed : Handed ends)
    (h : Draining cap exits job acts .waiting ends rest taken w) :
    Drains cap exits job acts (Process.iterate waitStep ()) w fun status v =>
      exits ∧ status = some (.exited 0) ∧ Reaped v := by
  refine correct_iterate (fun n _ w => n = 0 ∧
    Draining cap exits job acts .waiting ends rest taken w)
    ⟨rfl, h⟩ ?_ fun _ v v' post event =>
      ⟨post.1, post.2.1, stable_reaped _ _ post.2.2 event⟩
  rintro _ _ w ⟨rfl, h⟩
  unfold waitStep
  refine drains_turn .waiting positive handed trivial trivial h ?_
  rintro v r ⟨k, p⟩ hv kernel pipes
  cases r with
  | reaped status =>
    obtain ⟨-, rfl⟩ := kernel
    obtain ⟨hstatus, rfl⟩ := pipes
    obtain ⟨past, accounts⟩ := hv.accounts
    obtain ⟨rfl, -, exits⟩ := accounts.status _ hstatus
    have reaped : Reaped ({ v.1 with child := .reaped (.exited 0), reaps := v.1.reaps + 1 }, v.2) :=
      ⟨rfl, hv.flag⟩
    exact drains_pure stable_reaped reaped _ fun _ reaped => ⟨exits, rfl, reaped⟩
  | interrupted => exact pipes.elim
  | failed => exact pipes.elim

/-- The buffers of a child with these acts. -/
def Job.ending (job : Job) (acts : List Act) : Ending :=
  ⟨0, (written .stdout acts).take (job.limit .stdout),
    (written .stderr acts).take (job.limit .stderr), []⟩

/-- What is left behind a child that exits. -/
def Concluded (exits : Prop) (job : Job) (acts : List Act) (e : Ending)
    (w : Kernel × Pipes) : Prop :=
  exits ∧ e = job.ending acts ∧ Reaped w

theorem drains_waitForChild (positive : 0 < cap) (handed : Handed ends)
    (h : Draining cap exits job acts .waiting ends rest taken w) :
    Drains cap exits job acts (waitForChild (job.ending acts).stdout (job.ending acts).stderr) w
      (Concluded exits job acts) := by
  unfold waitForChild
  refine drains_bind (drains_wait positive handed h) ?_
  rintro _ v ⟨exits, rfl, reaped⟩
  refine drains_readTimedOut stable_reaped reaped (fun v hv => hv.2) fun u hu => ?_
  exact drains_pure stable_reaped hu _ fun _ post => ⟨exits, rfl, post⟩

theorem drains_readStderr (positive : 0 < cap) (handed : Handed ends) (start : taken .stderr = [])
    (h : Draining cap exits job acts (.draining .stderr) ends rest taken w) :
    Drains cap exits job acts (readStderr job (job.ending acts).stdout) w
        (Concluded exits job acts) := by
  unfold readStderr
  refine drains_bind (drains_readAllFd (o := .stderr) positive handed rfl start h)
    fun used v hv => ?_
  obtain rfl := hv.kept
  refine drains_close stable_emptied hv fun v hv => ?_
  have next := hv.close .waiting (by rintro ⟨_ | _ | _, _ | _⟩ own <;> rfl) trivial
  exact drains_checked stable_draining next (fun v hv => hv.flag) fun u hu =>
    drains_waitForChild positive (handed.update _) hu

theorem drains_readStdout (positive : 0 < cap) (handed : Handed ends) (start : ∀ o, taken o = [])
    (h : Draining cap exits job acts (.draining .stdout) ends rest taken w) :
    Drains cap exits job acts (readStdout job) w (Concluded exits job acts) := by
  unfold readStdout
  refine drains_bind (drains_readAllFd (o := .stdout) positive handed rfl (start _) h)
    fun used v hv => ?_
  obtain rfl := hv.kept
  refine drains_close stable_emptied hv fun v hv => ?_
  have next := hv.close (.draining .stderr) (by rintro ⟨_ | _ | _, _ | _⟩ own <;> rfl) trivial
  refine drains_checked stable_draining next (fun v hv => hv.flag) fun u hu => ?_
  refine drains_readStderr positive (handed.update _) ?_ hu
  exact (Function.update_of_ne (by decide) _ _).trans (start .stderr)

theorem drains_writeStdin (positive : 0 < cap)
    (h : Draining cap exits job acts .feeding (fun _ => true) job.stdin.length (fun _ => []) w) :
    Drains cap exits job acts (writeStdin job) w (Concluded exits job acts) := by
  unfold writeStdin
  refine drains_handOver rfl h fun w h => ?_
  refine drains_handOver rfl h fun w h => ?_
  refine drains_handOver rfl h fun w h => ?_
  have handed : Handed (Function.update (Function.update (Function.update (fun _ => true)
      ⟨.stdin, false⟩ false) ⟨.stdout, true⟩ false) ⟨.stderr, true⟩ false) := by
    rintro ⟨_ | _ | _, _ | _⟩ given <;> first | rfl | contradiction
  refine drains_bind (drains_write positive handed h) fun _ v hv => ?_
  refine drains_close stable_fed hv fun v hv => ?_
  obtain ⟨rest, next⟩ := hv.close
  refine drains_checked stable_draining next (fun v hv => hv.flag) fun u hu => ?_
  exact drains_readStdout positive (handed.update _) (fun _ => rfl) hu

theorem drains_execBody (positive : 0 < cap) (modest : Modest cap job [] acts)
    (h : Cleared acts w) :
    Drains cap exits job acts (execBody job) w (Concluded exits job acts) := by
  unfold execBody
  refine drains_bind (drains_runSetup _ _ h) ?_
  rintro ⟨ready, pipes⟩ v ⟨rfl, h⟩
  dsimp only
  rw [if_pos rfl]
  refine drains_syscall rfl stable_cleared h (fun v _ =>
    ⟨true, ({ v.1 with child := .alive }, v.2), rfl, rfl, rfl⟩) ?_
  rintro v spawned ⟨k, p⟩ ⟨⟨-, fresh⟩, flag⟩ kernel ⟨rfl, rfl⟩
  rw [if_pos rfl]
  obtain rfl : k = { v.1 with child := .alive } := kernel
  have spawned : Draining cap exits job acts .feeding (fun _ => true) job.stdin.length (fun _ => [])
      ({ v.1 with child := .alive }, v.2) := by
    rw [fresh]
    refine ⟨flag, rfl, rfl, ?_,
      fun _ => rfl, [], .of_eq rfl, modest, by rintro _ ⟨⟩, fun _ => rfl,
      Nat.zero_le _, fun _ _ => rfl, by rintro ⟨⟩, by rintro _ ⟨⟩⟩
    rintro ⟨_ | _ | _, _ | _⟩ own <;> first | rfl | contradiction
  exact drains_checked stable_draining spawned (fun v hv => hv.flag) fun u hu =>
    drains_writeStdin positive hu

theorem drains_errCleanup (h : Reaped w) (ending : exits) :
    Drains cap exits job acts (errCleanup (job.ending acts)) w (Concluded exits job acts) := by
  have observes : Observes Reaped :=
    fun v u hv flag child _ => ⟨child.trans hv.1, flag.trans hv.2⟩
  have disarmed : Drains cap exits job acts watchdogDisarm w fun _ => Reaped := by
    unfold watchdogDisarm
    refine drains_timing rfl stable_reaped observes h fun _ w h => ?_
    refine drains_timing rfl stable_reaped observes h fun _ w h => ?_
    refine drains_timing rfl stable_reaped observes h fun _ w h => ?_
    show Drains cap exits job acts (syscall .restoreMask >>= pure) w _
    exact drains_timing rfl stable_reaped observes h fun r _ h =>
      drains_pure stable_reaped h r fun _ h => h
  unfold errCleanup
  refine drains_bind disarmed fun _ v h => ?_
  rw [if_pos (show (job.ending acts).rc = 0 from rfl)]
  refine drains_syscall rfl stable_reaped h (fun v _ => ⟨(), (_, v.2), rfl, rfl⟩) ?_
  rintro v _ ⟨k, p⟩ reaped rfl rfl
  have cleared : Reaped ({ v.1 with flag := false }, v.2) := ⟨reaped.1, rfl⟩
  refine drains_bind (R := fun _ => Reaped)
    (drains_pure stable_reaped cleared () fun _ h => h) fun _ v h => ?_
  exact drains_pure stable_reaped h _ fun _ h => ⟨ending, rfl, h⟩

/-- What a modest child writes is taken, and where it exits so does the parent. -/
theorem drains_execWithStdio (usable : Bool) (positive : 0 < cap) (named : job.argv ≠ [])
    (modest : Modest cap job [] acts) (h : Unspawned acts w) :
    Drains cap exits job acts (execWithStdio usable job) w (Concluded exits job acts) := by
  unfold execWithStdio
  rw [if_neg named]
  refine drains_bind (drains_watchdogArm usable h) fun _ v hv => ?_
  refine drains_bind (drains_execBody positive modest hv) ?_
  rintro _ v ⟨ending, rfl, reaped⟩
  exact drains_errCleanup reaped ending

end Serving

end Tumgrd
