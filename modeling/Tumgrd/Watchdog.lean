import Tumgrd.Exec
import Tumgrd.Ipdetect

/-! The watchdog of `exec_with_stdio` among all that POSIX allows: an alarm that
goes off between any two system calls, and system calls that end in any way. -/
namespace Tumgrd

open Effect Surroundings

inductive Child where
  | absent
  | alive
  | reaped (status : WaitStatus)
  deriving DecidableEq

/-- The call that set a timer, or one before it. -/
inductive Origin where
  | earlier
  | own
  deriving DecidableEq

/-- The flag `g_watchdog_timed_out`, the timer, a signal that waits, whether it is
blocked and what `old` says about that; then what has happened in this call: its
alarms that were delivered, the child, the waits that reaped one, and whether a
wait failed. -/
structure Kernel where
  flag : Bool
  timer : Option Origin
  pending : Option Origin
  masked : Bool
  saved : Bool
  delivered : Nat
  child : Child
  reaps : Nat
  lost : Bool
  deriving DecidableEq

/-- The timer runs out, or `watchdog_alarm_handler` runs and sets it again. -/
inductive Rings : Kernel → Kernel → Prop
  | fire {w : Kernel} {o : Origin} : w.timer = some o →
      Rings w { w with timer := none, pending := some o }
  | deliver {w : Kernel} {o : Origin} : w.pending = some o → w.masked = false →
      Rings w { w with
        pending := none
        flag := true
        timer := some o
        delivered := if o = .own then w.delivered + 1 else w.delivered }

/-- Whatever POSIX allows. An interruption may come from any signal; nobody else
waits for the child. -/
def posixAnswers (w : Kernel) : (q : Syscall) → SysResp q → Kernel → Prop
  | .maskAlarm, _, w' => w' = { w with masked := true, saved := w.masked }
  | .restoreMask, _, w' => w' = { w with masked := w.saved }
  | .alarm seconds, _, w' => w' = { w with timer := if seconds = 0 then none else some .own }
  | .discardPending, _, w' => w' = { w with pending := none }
  | .clearTimedOut, _, w' => w' = { w with flag := false }
  | .readTimedOut, late, w' => late = w.flag ∧ w' = w
  | .spawn, spawned, w' => w' = if spawned then { w with child := .alive } else w
  | .waitpid, .reaped status, w' =>
      w.child = .alive ∧ w' = { w with child := .reaped status, reaps := w.reaps + 1 }
  | .waitpid, .failed, w' => w' = { w with lost := true }
  | .write bytes, .count n, w' => 0 < n ∧ n ≤ bytes.length ∧ w' = w
  | .read _ room, .data _ more, w' => more.length < room ∧ w' = w
  | _, _, w' => w' = w

abbrev posix : Surroundings Syscall SysResp Kernel := ⟨posixAnswers, Rings⟩

/-- A signal is sent only to a child that has not been reaped. -/
def KillsOwn (w : Kernel) : Syscall → Prop
  | .kill _ => w.child = .alive
  | _ => True

section Assertions

variable {m : Bool} {w w' : Kernel} {c : Child} {rc : Int}

/-- Nothing is left that could ring. -/
structure Calm (w : Kernel) : Prop where
  timer : w.timer = none
  pending : w.pending = none

/-- The child is as `c` says, and no wait for it has failed. -/
structure Facts (c : Child) (w : Kernel) : Prop where
  child : w.child = c
  reaps : w.reaps = if c = .absent ∨ c = .alive then 0 else 1
  found : w.lost = false

/-- Before `watchdog_arm`. -/
structure Unarmed (m : Bool) (w : Kernel) : Prop extends Facts .absent w where
  masked : w.masked = m

/-- Inside `watchdog_arm` and `watchdog_disarm`: the signal is blocked. -/
structure Blocked (m : Bool) (w : Kernel) : Prop where
  masked : w.masked = true
  saved : w.saved = m

/-- Between the two: only alarms of this call can come, and the flag says that one did. -/
structure Watching (m : Bool) (c : Child) (w : Kernel) : Prop extends Facts c w where
  masked : w.masked = m
  timer : w.timer ≠ some .earlier
  pending : w.pending ≠ some .earlier
  rung : w.flag = true → 0 < w.delivered

/-- What is left at `err_cleanup`: a child that was never there, that has been reaped
once, or that could not be waited for. -/
structure Settles (rc : Int) (w : Kernel) : Prop where
  status : rc ≤ 0
  settled : w.child = .alive → w.lost = true
  once : w.reaps = if w.child = .absent ∨ w.child = .alive then 0 else 1
  success : rc = 0 → w.child = .reaped (.exited 0)
  rung : w.flag = true → 0 < w.delivered

/-- At `err_cleanup`, before `watchdog_disarm`. -/
structure Expiring (m : Bool) (rc : Int) (w : Kernel) : Prop extends Settles rc w where
  masked : w.masked = m
  timer : w.timer ≠ some .earlier
  pending : w.pending ≠ some .earlier

theorem stable_of_calm {A : Kernel → Prop} (calm : ∀ w, A w → Calm w) : posix.Stable A := by
  intro w w' h rings
  have still := calm w h
  cases rings with
  | fire running => simp [still.timer] at running
  | deliver waiting => simp [still.pending] at waiting

/-- A blocked signal can only begin to wait. -/
theorem stable_blocked {A : Kernel → Prop}
    (keeps : ∀ (w : Kernel) (o : Origin), w.timer = some o → A w →
      A { w with timer := none, pending := some o }) :
    posix.Stable fun w => Blocked m w ∧ A w := by
  rintro w w' ⟨blocked, h⟩ rings
  cases rings with
  | fire running => exact ⟨⟨blocked.masked, blocked.saved⟩, keeps _ _ running h⟩
  | deliver _ unmasked => simp [blocked.masked] at unmasked

theorem stable_unarmed : posix.Stable (Unarmed m) := by
  intro w w' h rings
  cases rings <;> exact ⟨⟨h.child, h.reaps, h.found⟩, h.masked⟩

theorem stable_watching : posix.Stable (Watching m c) := by
  intro w w' h rings
  cases rings with
  | fire running =>
    exact ⟨⟨h.child, h.reaps, h.found⟩, h.masked, by simp, running ▸ h.timer, h.rung⟩
  | @deliver o waiting =>
    have own : o = .own := by
      cases o with
      | earlier => exact absurd waiting h.pending
      | own => rfl
    subst own
    exact ⟨⟨h.child, h.reaps, h.found⟩, h.masked, by simp, by simp, fun _ => Nat.succ_pos _⟩

theorem stable_expiring : posix.Stable (Expiring m rc) := by
  intro w w' h rings
  cases rings with
  | fire running =>
    exact ⟨⟨h.status, h.settled, h.once, h.success, h.rung⟩, h.masked,
      by simp, running ▸ h.timer⟩
  | @deliver o waiting =>
    have own : o = .own := by
      cases o with
      | earlier => exact absurd waiting h.pending
      | own => rfl
    subst own
    exact ⟨⟨h.status, h.settled, h.once, h.success, fun _ => Nat.succ_pos _⟩, h.masked,
      by simp, by simp⟩

end Assertions

section Rules

variable {α : Type} {A B : Kernel → Prop} {w : Kernel} {Q : α → Kernel → Prop}

abbrev Guarded (p : Sub α) (w : Kernel) (Q : α → Kernel → Prop) : Prop :=
  posix.Correct False KillsOwn p w Q

/-- A system call that takes a stable assertion to another one. -/
theorem guarded_syscall {q : Syscall} {f : SysResp q → Sub α} (stable : posix.Stable A) (h : A w)
    (own : ∀ v, A v → KillsOwn v q)
    (rest : ∀ v r u, A v → posixAnswers v q r u → Guarded (f r) u Q) :
    Guarded (syscall q >>= f) w Q :=
  correct_perform stable h fun v hv =>
    ⟨own v hv, False.elim, fun r u answered => rest v r u hv answered⟩

theorem guarded_bind {β : Type} {p : Sub β} {f : β → Sub α} {R : β → Kernel → Prop}
    (first : Guarded p w R) (rest : ∀ value v, R value v → Guarded (f value) v Q) :
    Guarded (p >>= f) w Q :=
  (correct_bind f Q).mpr (first.post rest)

theorem guarded_pure (stable : posix.Stable A) (h : A w) (value : α)
    (post : ∀ v, A v → Q value v) :
    Guarded (pure value) w Q :=
  correct_of_stable stable h value post

/-- A system call at the end of a function. -/
theorem guarded_last {q : Syscall} {Q : SysResp q → Kernel → Prop} (stable : posix.Stable A)
    (stable' : posix.Stable B) (h : A w) (own : ∀ v, A v → KillsOwn v q)
    (effect : ∀ v r u, A v → posixAnswers v q r u → B u) (post : ∀ r v, B v → Q r v) :
    Guarded (syscall q) w Q := by
  show Guarded (syscall q >>= pure) w Q
  exact guarded_syscall stable h own fun v r u hv answered =>
    guarded_pure stable' (effect v r u hv answered) r (post r)

end Rules

section Functions

variable {m : Bool} {w : Kernel} {c : Child} {rc : Int}

/-- The last steps of `watchdog_arm`. -/
structure Armed (m : Bool) (w : Kernel) : Prop extends Facts .absent w where
  flag : w.flag = false
  timer : w.timer ≠ some .earlier
  pending : w.pending ≠ some .earlier

theorem stable_armed : posix.Stable fun w => Blocked m w ∧ Armed m w :=
  stable_blocked fun _ _ running h =>
    ⟨⟨h.child, h.reaps, h.found⟩, h.flag, by simp, running ▸ h.timer⟩

theorem guarded_restoreMask (h : Blocked m w ∧ Armed m w) :
    Guarded (syscall .restoreMask) w fun _ => Watching m .absent := by
  refine guarded_last stable_armed stable_watching h (fun _ _ => trivial) ?_ fun _ _ post => post
  rintro v _ u ⟨blocked, armed⟩ rfl
  exact ⟨⟨armed.child, armed.reaps, armed.found⟩, blocked.saved, armed.timer, armed.pending,
    by simp [armed.flag]⟩

theorem guarded_watchdogArm (usable : Bool) (h : Unarmed m w) :
    Guarded (watchdogArm usable) w fun _ => Watching m .absent := by
  unfold watchdogArm
  refine guarded_syscall stable_unarmed h (fun _ _ => trivial) ?_
  rintro v _ u h rfl
  have stable : posix.Stable fun w => Blocked m w ∧ Facts .absent w :=
    stable_blocked fun _ _ _ h => ⟨h.child, h.reaps, h.found⟩
  refine guarded_syscall stable ⟨⟨rfl, h.masked⟩, h.child, h.reaps,
    h.found⟩ (fun _ _ => trivial) ?_
  rintro v _ u ⟨blocked, h⟩ rfl
  have stable : posix.Stable fun w => Blocked m w ∧ Facts .absent w ∧ w.timer = none :=
    stable_blocked fun _ _ running h => by simp [h.2] at running
  refine guarded_syscall stable ⟨⟨blocked.masked, blocked.saved⟩,
    ⟨h.child, h.reaps, h.found⟩, rfl⟩
    (fun _ _ => trivial) ?_
  rintro v _ u ⟨blocked, h, idle⟩ rfl
  have stable : posix.Stable fun w => (Blocked m w ∧ Facts .absent w) ∧ Calm w :=
    stable_of_calm fun _ h => h.2
  refine guarded_syscall stable
    ⟨⟨⟨blocked.masked, blocked.saved⟩, h.child, h.reaps, h.found⟩, idle,
      rfl⟩ (fun _ _ => trivial) ?_
  rintro v _ u ⟨⟨blocked, h⟩, calm⟩ rfl
  have armed : Blocked m { v with flag := false } ∧ Armed m { v with flag := false } :=
    ⟨⟨blocked.masked, blocked.saved⟩, ⟨h.child, h.reaps, h.found⟩, rfl,
      by simp [calm.timer],
      by simp [calm.pending]⟩
  split
  · refine guarded_syscall stable_armed armed (fun _ _ => trivial) ?_
    rintro v _ u ⟨blocked, h⟩ rfl
    exact guarded_restoreMask ⟨⟨blocked.masked, blocked.saved⟩,
      ⟨h.child, h.reaps, h.found⟩, h.flag,
      by simp, h.pending⟩
  · exact guarded_restoreMask armed

/-- `watchdog_disarm` leaves nothing that could ring. -/
theorem guarded_watchdogDisarm (h : Expiring m rc w) :
    Guarded watchdogDisarm w fun _ v => (Settles rc v ∧ v.masked = m) ∧ Calm v := by
  unfold watchdogDisarm
  refine guarded_syscall stable_expiring h (fun _ _ => trivial) ?_
  rintro v _ u h rfl
  have stable : posix.Stable fun w => Blocked m w ∧ Settles rc w :=
    stable_blocked fun _ _ _ h => ⟨h.status, h.settled, h.once, h.success, h.rung⟩
  refine guarded_syscall stable ⟨⟨rfl, h.masked⟩, h.status, h.settled, h.once,
    h.success, h.rung⟩
    (fun _ _ => trivial) ?_
  rintro v _ u ⟨blocked, h⟩ rfl
  have stable : posix.Stable fun w => Blocked m w ∧ Settles rc w ∧ w.timer = none :=
    stable_blocked fun _ _ running h => by simp [h.2] at running
  refine guarded_syscall stable
    ⟨⟨blocked.masked, blocked.saved⟩,
      ⟨h.status, h.settled, h.once, h.success, h.rung⟩, rfl⟩
    (fun _ _ => trivial) ?_
  rintro v _ u ⟨blocked, h, idle⟩ rfl
  have stable : posix.Stable fun w => (Blocked m w ∧ Settles rc w) ∧ Calm w :=
    stable_of_calm fun _ h => h.2
  have stable' : posix.Stable fun w => (Settles rc w ∧ w.masked = m) ∧ Calm w :=
    stable_of_calm fun _ h => h.2
  refine guarded_last stable stable'
    ⟨⟨⟨blocked.masked, blocked.saved⟩, h.status, h.settled, h.once, h.success,
      h.rung⟩, idle, rfl⟩
    (fun _ _ => trivial) ?_ fun _ _ post => post
  rintro v _ u ⟨⟨blocked, h⟩, calm⟩ rfl
  exact ⟨⟨⟨h.status, h.settled, h.once, h.success, h.rung⟩, blocked.saved⟩, calm.timer,
    calm.pending⟩

/-- The child is alive, and the flag is up already if `raised`. -/
structure Observed (m : Bool) (raised : Prop) (w : Kernel) : Prop extends Watching m .alive w where
  raised : raised → w.flag = true

theorem stable_observed {raised : Prop} : posix.Stable (Observed m raised) := by
  intro w w' h rings
  refine ⟨stable_watching w w' h.toWatching rings, fun up => ?_⟩
  cases rings with
  | fire => exact h.raised up
  | deliver => rfl

theorem Watching.expiring {status : WaitStatus} (h : Watching m (.reaped status) w)
    (code : rc ≤ 0) (success : rc = 0 → status = .exited 0) : Expiring m rc w where
  status := code
  settled := by simp [h.child]
  once := by simp [h.child, h.reaps]
  success := fun zero => by rw [h.child, success zero]
  rung := h.rung
  masked := h.masked
  timer := h.timer
  pending := h.pending

theorem Watching.reap (h : Watching m .alive w) (status : WaitStatus) :
    Watching m (.reaped status) { w with child := .reaped status, reaps := w.reaps + 1 } :=
  ⟨⟨rfl, by simp [h.reaps], h.found⟩, h.masked, h.timer, h.pending, h.rung⟩

theorem Watching.lose (h : Watching m .alive w) : Expiring m (-1) { w with lost := true } where
  status := by decide
  settled := fun _ => rfl
  once := by simp [h.child, h.reaps]
  success := fun zero => absurd zero (by decide)
  rung := h.rung
  masked := h.masked
  timer := h.timer
  pending := h.pending

theorem failure {P : Prop} (h : (-1 : Int) = 0) : P := absurd h (by decide)

/-- The loop of `watchdog_check` ends with the child reaped or lost. -/
theorem guarded_reap (h : Watching m .alive w) :
    Guarded (Process.iterate reapStep ()) w fun _ => Expiring m (-1) := by
  refine correct_iterate (fun _ _ => Watching m .alive) (n := 0) h ?_ fun _ => stable_expiring
  intro n _ v h
  unfold reapStep
  refine guarded_syscall stable_watching h (fun _ _ => trivial) ?_
  rintro v (status | _ | _) u h answered
  · obtain ⟨-, rfl⟩ := answered
    exact guarded_pure stable_expiring ((h.reap status).expiring (by decide) failure) _
      fun _ post => post
  · cases answered
    refine guarded_syscall stable_watching h (fun _ h => h.child) ?_
    rintro v _ u h rfl
    exact guarded_pure stable_watching h _ fun _ h => ⟨0, False.elim, h⟩
  · cases answered
    exact guarded_pure stable_expiring h.lose _ fun _ post => post

/-- What a check leaves: an expired call at `err_cleanup`, or the call going on. -/
def Checked (m : Bool) (c : Child) (late : Bool) (w : Kernel) : Prop :=
  if late then Expiring m (-1) w else Watching m c w

theorem guarded_watchdogCheck {raised : Prop} (h : Observed m raised w) :
    Guarded watchdogCheck w fun late v => Checked m .alive late v ∧ (raised → late = true) := by
  unfold watchdogCheck
  refine guarded_syscall stable_observed h (fun _ _ => trivial) ?_
  rintro v late u h ⟨rfl, rfl⟩
  split
  · refine guarded_syscall stable_observed h (fun _ h => h.child) ?_
    rintro v _ u h rfl
    refine guarded_bind (guarded_reap h.toWatching) fun _ v h => ?_
    exact guarded_pure stable_expiring h true fun _ post => ⟨post, fun _ => rfl⟩
  · rename_i quiet
    have unraised : ¬raised := fun up => quiet (h.raised up)
    exact guarded_pure stable_watching h.toWatching false fun _ post =>
      ⟨post, fun up => absurd up unraised⟩

theorem guarded_watchdogCheckReaped {status : WaitStatus} (h : Watching m (.reaped status) w) :
    Guarded watchdogCheckReaped w fun _ => Watching m (.reaped status) := by
  unfold watchdogCheckReaped
  refine guarded_last stable_watching stable_watching h (fun _ _ => trivial) ?_ fun _ _ post => post
  rintro v late u h ⟨-, rfl⟩
  exact h

/-- The loops around `write` and `read` do nothing but talk to the child. -/
theorem guarded_write (h : Watching m .alive w) (stdin : Str) :
    Guarded (Process.iterate writeStep stdin) w fun _ => Watching m .alive := by
  refine correct_iterate (fun _ _ => Watching m .alive) (n := 0) h ?_ fun _ => stable_watching
  intro n rest v h
  have ended {u : Kernel} (h : Watching m .alive u) (result : Str ⊕ Unit) :
      Guarded (pure result) u (Proceeds False (fun _ _ => Watching m .alive) n
        fun _ => Watching m .alive) := by
    refine guarded_pure stable_watching h result fun v h => ?_
    cases result with
    | inl rest => exact ⟨0, False.elim, h⟩
    | inr value => exact h
  unfold writeStep
  split
  · exact ended h _
  refine guarded_syscall stable_watching h (fun _ _ => trivial) ?_
  rintro v late u h ⟨rfl, rfl⟩
  split
  · exact ended h _
  refine guarded_syscall stable_watching h (fun _ _ => trivial) ?_
  rintro v (n | _ | _) u h answered
  · obtain ⟨-, -, rfl⟩ := answered
    exact ended h _
  · cases answered
    refine guarded_syscall stable_watching h (fun _ _ => trivial) ?_
    rintro v late u h ⟨rfl, rfl⟩
    exact ended h _
  · cases answered
    exact ended h _

theorem guarded_readAllFd (h : Watching m .alive w) (s : Stream) (size : Nat) :
    Guarded (readAllFd s size) w fun _ => Watching m .alive := by
  unfold readAllFd
  split
  · exact guarded_pure stable_watching h _ fun _ post => post
  refine correct_iterate (fun _ _ => Watching m .alive) (n := 0) h ?_ fun _ => stable_watching
  intro n used v h
  have ended {u : Kernel} (h : Watching m .alive u) (result : Str ⊕ Str) :
      Guarded (pure result) u (Proceeds False (fun _ _ => Watching m .alive) n
        fun _ => Watching m .alive) := by
    refine guarded_pure stable_watching h result fun v h => ?_
    cases result with
    | inl rest => exact ⟨0, False.elim, h⟩
    | inr value => exact h
  unfold readStep
  refine guarded_syscall stable_watching h (fun _ _ => trivial) ?_
  rintro v (_ | ⟨first, more⟩ | _ | _) u h answered
  · cases answered
    exact ended h _
  · obtain ⟨-, rfl⟩ := answered
    exact ended h _
  · cases answered
    refine guarded_syscall stable_watching h (fun _ _ => trivial) ?_
    rintro v late u h ⟨rfl, rfl⟩
    exact ended h _
  · cases answered
    exact ended h _

/-- What the loop around `waitpid` leaves: a status, or a call that is over. -/
def Waits (m : Bool) (status : Option WaitStatus) (w : Kernel) : Prop :=
  status.elim (Expiring m (-1) w) fun status => Watching m (.reaped status) w

theorem guarded_wait (h : Watching m .alive w) :
    Guarded (Process.iterate waitStep ()) w (Waits m) := by
  have stable (status : Option WaitStatus) : posix.Stable (Waits m status) := by
    cases status with
    | none => exact stable_expiring
    | some status => exact stable_watching
  refine correct_iterate (fun _ _ => Watching m .alive) (n := 0) h ?_ stable
  intro n _ v h
  unfold waitStep
  refine guarded_syscall stable_watching h (fun _ _ => trivial) ?_
  rintro v (status | _ | _) u h answered
  · obtain ⟨-, rfl⟩ := answered
    exact guarded_pure stable_watching (h.reap status) _ fun _ post => post
  · cases answered
    refine guarded_syscall stable_watching h (fun _ _ => trivial) ?_
    rintro v late u h ⟨rfl, rfl⟩
    split
    · rename_i up
      have observed : Observed m True _ := ⟨h, fun _ => up⟩
      refine guarded_bind (guarded_watchdogCheck observed) fun late u checked => ?_
      obtain ⟨checked, late⟩ := checked
      cases late trivial
      exact guarded_pure stable_expiring checked _ fun _ post => post
    · exact guarded_pure stable_watching h _ fun _ h => ⟨0, False.elim, h⟩
  · cases answered
    exact guarded_pure stable_expiring h.lose _ fun _ post => post

end Functions

section Call

variable {m : Bool} {w : Kernel} {e : Ending}

theorem guarded_checked {late : Ending} {rest : Sub Ending} (failed : late.rc = -1)
    (h : Watching m .alive w)
    (going : ∀ v, Watching m .alive v → Guarded rest v fun e => Expiring m e.rc) :
    Guarded (checked watchdogCheck late rest) w fun e => Expiring m e.rc := by
  unfold checked
  have observed : Observed m False w := ⟨h, False.elim⟩
  refine guarded_bind (guarded_watchdogCheck observed) fun expired v result => ?_
  obtain ⟨result, -⟩ := result
  split
  · rename_i up
    rw [Checked, if_pos up, ← failed] at result
    exact guarded_pure stable_expiring result late fun _ post => post
  · rename_i up
    rw [Checked, if_neg up] at result
    exact going v result

theorem guarded_waitForChild (h : Watching m .alive w) (stdout stderr : Str) :
    Guarded (waitForChild stdout stderr) w fun e => Expiring m e.rc := by
  unfold waitForChild
  refine guarded_bind (guarded_wait h) fun status v waits => ?_
  cases status with
  | none => exact guarded_pure stable_expiring waits _ fun _ post => post
  | some status =>
    refine guarded_bind (guarded_watchdogCheckReaped waits) fun expired v h => ?_
    split
    · exact guarded_pure stable_expiring (h.expiring (by decide) failure) _ fun _ post => post
    · refine guarded_pure stable_expiring (h.expiring (by split <;> simp) fun zero => ?_) _
        fun _ post => post
      by_contra other
      rw [if_neg other] at zero
      exact failure zero

theorem guarded_readStderr (h : Watching m .alive w) (job : Job) (stdout : Str) :
    Guarded (readStderr job stdout) w fun e => Expiring m e.rc := by
  unfold readStderr
  refine guarded_bind (guarded_readAllFd h _ _) fun stderr v h => ?_
  refine guarded_syscall stable_watching h (fun _ _ => trivial) ?_
  rintro v _ u h rfl
  exact guarded_checked rfl h fun v h => guarded_waitForChild h stdout stderr

theorem guarded_readStdout (h : Watching m .alive w) (job : Job) :
    Guarded (readStdout job) w fun e => Expiring m e.rc := by
  unfold readStdout
  refine guarded_bind (guarded_readAllFd h _ _) fun stdout v h => ?_
  refine guarded_syscall stable_watching h (fun _ _ => trivial) ?_
  rintro v _ u h rfl
  exact guarded_checked rfl h fun v h => guarded_readStderr h job stdout

theorem guarded_writeStdin (h : Watching m .alive w) (job : Job) :
    Guarded (writeStdin job) w fun e => Expiring m e.rc := by
  unfold writeStdin
  refine guarded_syscall stable_watching h (fun _ _ => trivial) ?_
  rintro v _ u h rfl
  refine guarded_syscall stable_watching h (fun _ _ => trivial) ?_
  rintro v _ u h rfl
  refine guarded_syscall stable_watching h (fun _ _ => trivial) ?_
  rintro v _ u h rfl
  refine guarded_bind (guarded_write h _) fun _ v h => ?_
  refine guarded_syscall stable_watching h (fun _ _ => trivial) ?_
  rintro v _ u h rfl
  exact guarded_checked rfl h fun v h => guarded_readStdout h job

theorem guarded_runSetup (steps : List Setup) (pipes : List PipeEnd) (h : Watching m .absent w) :
    Guarded (runSetup steps pipes) w fun _ => Watching m .absent := by
  induction steps generalizing pipes w with
  | nil => exact guarded_pure stable_watching h _ fun _ post => post
  | cons step rest ih =>
    refine guarded_syscall stable_watching h (fun _ _ => trivial) ?_
    rintro v ok u h rfl
    split
    · exact ih _ h
    · exact guarded_pure stable_watching h _ fun _ post => post

theorem Watching.unspawned (h : Watching m .absent w) : Expiring m (-1) w where
  status := by decide
  settled := by simp [h.child]
  once := by simp [h.child, h.reaps]
  success := failure
  rung := h.rung
  masked := h.masked
  timer := h.timer
  pending := h.pending

theorem guarded_execBody (h : Watching m .absent w) (job : Job) :
    Guarded (execBody job) w fun e => Expiring m e.rc := by
  unfold execBody
  refine guarded_bind (guarded_runSetup _ _ h) fun ready v h => ?_
  obtain ⟨ready, pipes⟩ := ready
  dsimp only
  split
  · refine guarded_syscall stable_watching h (fun _ _ => trivial) ?_
    rintro v spawned u h rfl
    split
    · have alive : Watching m .alive { v with child := .alive } :=
        ⟨⟨rfl, by simp [h.reaps], h.found⟩, h.masked, h.timer, h.pending, h.rung⟩
      exact guarded_checked rfl alive fun v h => guarded_writeStdin h job
    · exact guarded_pure stable_expiring h.unspawned _ fun _ post => post
  · exact guarded_pure stable_expiring h.unspawned _ fun _ post => post

/-- What `exec_with_stdio` leaves. -/
structure Ended (m : Bool) (rc : Int) (w : Kernel) : Prop extends Settles rc w, Calm w where
  masked : w.masked = m
  cleared : rc = 0 → w.flag = false

theorem stable_ended {rc : Int} : posix.Stable (Ended m rc) := stable_of_calm fun _ h => h.toCalm

theorem guarded_closeAll {rc : Int} (h : Ended m rc w) (pipes : List PipeEnd) :
    Guarded (closeAll pipes) w fun _ => Ended m rc := by
  induction pipes generalizing w with
  | nil => exact guarded_pure stable_ended h _ fun _ post => post
  | cons pipe rest ih =>
    refine guarded_syscall stable_ended h (fun _ _ => trivial) ?_
    rintro v _ u h rfl
    exact ih h

theorem guarded_errCleanup (h : Expiring m e.rc w) :
    Guarded (errCleanup e) w fun e => Ended m e.rc := by
  unfold errCleanup
  refine guarded_bind (guarded_watchdogDisarm h) fun _ v h => ?_
  split
  · have stable : posix.Stable fun w => (Settles e.rc w ∧ w.masked = m) ∧ Calm w :=
      stable_of_calm fun _ h => h.2
    refine guarded_syscall stable h (fun _ _ => trivial) ?_
    rintro v _ u ⟨⟨h, masked⟩, calm⟩ rfl
    have ended : Ended m e.rc { v with flag := false } :=
      ⟨⟨h.status, h.settled, h.once, h.success, by simp⟩, ⟨calm.timer, calm.pending⟩,
        masked, fun _ => rfl⟩
    refine guarded_bind (guarded_closeAll ended _) fun _ v h => ?_
    exact guarded_pure stable_ended h e fun _ post => post
  · rename_i failed
    have ended : Ended m e.rc v := ⟨h.1.1, h.2, h.1.2, fun zero => absurd zero failed⟩
    refine guarded_bind (guarded_closeAll ended _) fun _ v h => ?_
    exact guarded_pure stable_ended h e fun _ post => post

theorem guarded_execWithStdio (usable : Bool) {job : Job} (named : job.argv ≠ [])
    (h : Unarmed m w) : Guarded (execWithStdio usable job) w fun e => Ended m e.rc := by
  unfold execWithStdio
  rw [if_neg named]
  refine guarded_bind (guarded_watchdogArm usable h) fun _ v h => ?_
  exact guarded_bind (guarded_execBody h job) fun e v h => guarded_errCleanup h

/-- What the caller sees: the buffers up to the first NUL, and the flag. -/
def Ending.result (e : Ending) (timedOut : Bool) (lines : List LogLine) : ExecResult :=
  ⟨e.rc, timedOut, cString e.stdout, cString e.stderr, lines⟩

/-- The start of a call: whatever the flag, the timer and the signal were before. -/
structure Calls (w : Kernel) : Prop where
  child : w.child = .absent
  reaps : w.reaps = 0
  found : w.lost = false
  delivered : w.delivered = 0

theorem Calls.unarmed (start : Calls w) : Unarmed w.masked w :=
  ⟨⟨start.child, by simp [start.reaps], start.found⟩, rfl⟩

/-- Whenever alarms come and however the system calls end: a signal is sent only to
a child that is there and has not been reaped; a child that was spawned has been
reaped exactly once at the end, unless a wait for it failed; success is that of
the child, and leaves the flag clear; the flag is up only if an alarm of this very
call was delivered; and no alarm is left. -/
theorem watchdog_safe {usable : Bool} {job : Job} (named : job.argv ≠ []) (start : Calls w) :
    (∀ group rest w', posix.Reaches (execWithStdio usable job) w (.call (.kill group) rest) w' →
        w'.child = .alive) ∧
      ∀ e w', posix.Reaches (execWithStdio usable job) w (.done e) w' →
        (w'.child ≠ .absent → w'.lost = false → (∃ status, w'.child = .reaped status) ∧
          w'.reaps = 1) ∧
        (e.rc = 0 → w'.child = .reaped (.exited 0) ∧ w'.flag = false) ∧
        (w'.flag = true → 0 < w'.delivered) ∧ w'.timer = none ∧ w'.pending = none := by
  have guarded := guarded_execWithStdio usable named start.unarmed
  constructor
  · intro group rest w' reach
    exact guarded.permitted reach
  · intro e w' reach
    have ended := guarded.result reach
    refine ⟨fun spawned found => ?_, fun zero => ⟨ended.success zero, ended.cleared zero⟩,
      ended.rung, ended.timer, ended.pending⟩
    have once := ended.once
    cases child : w'.child with
    | absent => exact absurd child spawned
    | alive =>
      have lost := ended.settled child
      rw [found] at lost
      contradiction
    | reaped status => exact ⟨⟨status, rfl⟩, by simpa [child] using once⟩

/-- What `allowed` takes for granted of a subprocess. -/
theorem allowed_of_reaches {usable : Bool} {job : Job} (named : job.argv ≠ []) (start : Calls w)
    {w' : Kernel} (reach : posix.Reaches (execWithStdio usable job) w (.done e) w')
    (sqlMayFail : Prop) (world : World) (issue : Issue) (call : Invocation)
    (lines : List LogLine) :
    allowed sqlMayFail world (.exec issue call) (e.result w'.flag lines) := by
  have ended := (guarded_execWithStdio usable named start.unarmed).result reach
  exact ⟨ended.status, ended.cleared⟩

/-- A kernel that lets every call succeed but the first write, in which the alarm
goes off. -/
def interruptedWrite (w : Kernel) : (q : Syscall) → Option (SysResp q × Kernel)
  | .maskAlarm => some ((), { w with masked := true, saved := w.masked })
  | .restoreMask => some ((), { w with masked := w.saved })
  | .alarm seconds => some ((), { w with timer := if seconds = 0 then none else some .own })
  | .discardPending => some ((), { w with pending := none })
  | .clearTimedOut => some ((), { w with flag := false })
  | .readTimedOut => some (w.flag, w)
  | .setup _ => some (true, w)
  | .spawn => some (true, { w with child := .alive })
  | .kill _ => some ((), w)
  | .waitpid =>
      if w.child = .alive then
        some (.reaped .signaled, { w with child := .reaped .signaled, reaps := w.reaps + 1 })
      else none
  | .write _ =>
      if w.timer = some .own ∧ w.masked = false then
        some (.interrupted,
          { w with
            pending := none, flag := true, timer := some .own, delivered := w.delivered + 1 })
      else none
  | .read _ _ => some (.eof, w)
  | .close _ => some ((), w)

theorem posix_interruptedWrite (w : Kernel) (q : Syscall) (r : SysResp q) (w' : Kernel)
    (h : interruptedWrite w q = some (r, w')) :
    ∃ v, posix.Events w v ∧ posixAnswers v q r w' := by
  cases q with
  | waitpid =>
    dsimp only [interruptedWrite] at h
    split at h
    · cases h
      exact ⟨w, .refl posix w, ‹_›, rfl⟩
    · cases h
  | write bytes =>
    dsimp only [interruptedWrite] at h
    split at h
    · rename_i armed
      cases h
      refine ⟨_, .trans posix (.single (.fire armed.1)) (.single (.deliver rfl armed.2)), rfl⟩
    · cases h
  | readTimedOut =>
    cases h
    exact ⟨w, .refl posix w, rfl, rfl⟩
  | _ =>
    cases h
    exact ⟨w, .refl posix w, rfl⟩

def sentScript : Job := ⟨["tuctl_client".toList], "list".toList, false, 1, 1⟩

/-- Behind a call that left its alarm and its flag. -/
def staleKernel : Kernel :=
  ⟨true, some .earlier, some .earlier, false, false, 0, .absent, 0, false⟩

/-- A script is stopped by the alarm while it is being sent. -/
theorem watchdog_safe_interrupted :
    ∃ e w', posix.Reaches (execWithStdio true sentScript) staleKernel (.done e) w' ∧
      e.rc = -1 ∧ w'.flag = true ∧ 0 < w'.delivered ∧ w'.reaps = 1 ∧ w'.timer = none := by
  have reach := reaches_play posix_interruptedWrite 60 (execWithStdio true sentScript) staleKernel
  have finished : (play interruptedWrite 60 (execWithStdio true sentScript) staleKernel).1.result? =
      some ⟨-1, [], [], [⟨.stdout, false⟩, ⟨.stderr, false⟩]⟩ := by rfl
  rw [Process.eq_done finished] at reach
  have named : sentScript.argv ≠ [] := by decide
  have start : Calls staleKernel := ⟨rfl, rfl, rfl, rfl⟩
  obtain ⟨reaped, -, rung, idle, -⟩ := (watchdog_safe named start).2 _ _ reach
  exact ⟨_, _, reach, rfl, rfl, rung rfl, (reaped (by decide) rfl).2, idle⟩

end Call

end Tumgrd
