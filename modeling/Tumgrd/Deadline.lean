import Tumgrd.Watchdog

/-! The deadline of `exec_with_stdio` against a child that does what it likes: no
call on it blocks for good, because one alarm sets the next. -/
namespace Tumgrd

open Effect Surroundings

/-- How the child's side answers a call that may block, from its state in `β`. Where
it has no answer the call blocks. -/
abbrev Behaviour (β : Type) := β → (q : Syscall) → SysResp q → β → Prop

/-- The kernel and the child: whether it has been killed, how many interruptions by
other signals are left, and what alarms cut short behind the first one of this call
and before the kill. Reads that return the bytes they have are counted apart. -/
structure Stall (β : Type) extends Kernel where
  inner : β
  killed : Bool
  others : Nat
  cut : Nat
  cutReads : Nat

/-- An alarm may go off and its handler may run. -/
def Kernel.MayRing (k : Kernel) : Prop :=
  k.masked = false ∧ (k.timer = some .own ∨ k.pending = some .own)

/-- The handler has run, and it has set the next alarm. -/
def Kernel.rung (k : Kernel) : Kernel :=
  { k with flag := true, timer := some .own, pending := none, delivered := k.delivered + 1 }

theorem Kernel.MayRing.events {k : Kernel} (h : k.MayRing) : posix.Events k k.rung := by
  obtain ⟨unmasked, timer | pending⟩ := h
  · have fired : posix.Events k { k with timer := none, pending := some .own } :=
      .single (Rings.fire timer)
    exact fired.tail (Rings.deliver rfl unmasked)
  · exact .single (Rings.deliver pending unmasked)

section Answers

variable {β : Type}

/-- How many calls an alarm cuts short that count: those behind the first alarm. -/
def Stall.late (w : Stall β) : Nat := if w.delivered = 0 then 0 else 1

/-- An alarm goes off in a call on the running child. -/
inductive Hit (w : Stall β) : Stall β → Prop
  | mk : w.killed = false → w.MayRing →
      Hit w { w with toKernel := w.rung, cut := w.cut + w.late }

/-- An alarm goes off in a read that has bytes to return. -/
inductive HitRead (w : Stall β) : Stall β → Prop
  | mk : w.killed = false → w.MayRing →
      HitRead w { w with toKernel := w.rung, cutReads := w.cutReads + w.late }

inductive Interrupted (w : Stall β) : Stall β → Prop
  | alarm {w' : Stall β} : Hit w w' → Interrupted w w'
  | other {n : Nat} : w.others = n + 1 → Interrupted w { w with others := n }

variable (ch : Behaviour β)

/-- A call that is answered by the child's side, or that the kernel answers at once. -/
inductive Given (w : Stall β) (q : Syscall) (r : SysResp q) : Stall β → Prop
  | mk {k : Kernel} {inner : β} : posixAnswers w.toKernel q r k → ch w.inner q r inner →
      Given w q r { w with toKernel := k, inner := inner }

inductive Plain (w : Stall β) (q : Syscall) (r : SysResp q) : Stall β → Prop
  | mk {k : Kernel} : posixAnswers w.toKernel q r k → Plain w q r { w with toKernel := k }

/-- An alarm interrupts what blocks, or leaves it with a partial count; a child that
has been killed can be reaped at once. -/
def stallAnswers (w : Stall β) : (q : Syscall) → SysResp q → Stall β → Prop
  | .kill _, _, w' => w' = { w with killed := true }
  | .write _, .interrupted, w' | .read _ _, .interrupted, w' | .waitpid, .interrupted, w' =>
      Interrupted w w'
  | .write bytes, .count n, w' =>
      Given ch w (.write bytes) (.count n) w' ∨
        ∃ v, Hit w v ∧ Given ch v (.write bytes) (.count n) w'
  | .read s room, .data first more, w' =>
      Given ch w (.read s room) (.data first more) w' ∨
        ∃ v, HitRead w v ∧ Given ch v (.read s room) (.data first more) w'
  | .waitpid, .reaped status, w' =>
      Given ch w .waitpid (.reaped status) w' ∨
        w.killed = true ∧ Plain w .waitpid (.reaped status) w'
  | .write bytes, .failed, w' => Given ch w (.write bytes) .failed w'
  | .read s room, .eof, w' => Given ch w (.read s room) .eof w'
  | .read s room, .failed, w' => Given ch w (.read s room) .failed w'
  | .waitpid, .failed, w' => Given ch w .waitpid .failed w'
  | q, r, w' => Plain w q r w'

inductive StallRings : Stall β → Stall β → Prop
  | mk {w : Stall β} {k : Kernel} : Rings w.toKernel k → StallRings w { w with toKernel := k }

abbrev stalled : Surroundings Syscall SysResp (Stall β) := ⟨stallAnswers ch, StallRings⟩

variable {ch}

theorem Given.answers {w w' : Stall β} {q : Syscall} {r : SysResp q} (h : Given ch w q r w') :
    posixAnswers w.toKernel q r w'.toKernel := by
  cases h with
  | mk answered => exact answered

theorem Hit.events {w w' : Stall β} (h : Hit w w') :
    posix.Events w.toKernel w'.toKernel := by
  cases h with
  | mk _ rings => exact rings.events

theorem HitRead.events {w w' : Stall β} (h : HitRead w w') :
    posix.Events w.toKernel w'.toKernel := by
  cases h with
  | mk _ rings => exact rings.events

theorem Interrupted.events {w w' : Stall β} (h : Interrupted w w') :
    posix.Events w.toKernel w'.toKernel := by
  cases h with
  | alarm hit => exact hit.events
  | other => exact .refl posix _

/-- All this is POSIX. -/
theorem stalled_posix : (stalled ch).Simulates posix Stall.toKernel where
  event := by
    intro w u rings
    cases rings with
    | mk rings => exact .single rings
  answers := by
    intro w q r u answered
    have plain (plain : Plain w q r u) :
        ∃ v, posix.Events w.toKernel v ∧ posixAnswers v q r u.toKernel := by
      cases plain with
      | mk kernel => exact ⟨_, .refl posix _, kernel⟩
    have given (given : Given ch w q r u) :
        ∃ v, posix.Events w.toKernel v ∧ posixAnswers v q r u.toKernel :=
      ⟨_, .refl posix _, given.answers⟩
    cases q with
    | kill =>
      cases answered
      exact ⟨_, .refl posix _, rfl⟩
    | write bytes =>
      cases r with
      | count n =>
        obtain answer | ⟨v, hit, answer⟩ := answered
        · exact given answer
        · exact ⟨_, hit.events, answer.answers⟩
      | interrupted => exact ⟨_, Interrupted.events answered, rfl⟩
      | failed => exact given answered
    | read s room =>
      cases r with
      | data first more =>
        obtain answer | ⟨v, hit, answer⟩ := answered
        · exact given answer
        · exact ⟨_, hit.events, answer.answers⟩
      | interrupted => exact ⟨_, Interrupted.events answered, rfl⟩
      | eof | failed => exact given answered
    | waitpid =>
      cases r with
      | reaped status =>
        obtain answer | ⟨-, answer⟩ := answered
        · exact given answer
        · exact plain answer
      | interrupted => exact ⟨_, Interrupted.events answered, rfl⟩
      | failed => exact given answered
    | _ => exact plain answered

end Answers

section Assertions

variable {β : Type} {ch : Behaviour β} {c : Child} {k : Nat} {w w' : Stall β}

/-- What is kept before `watchdog_arm` is through. -/
structure Untouched (w : Stall β) : Prop where
  child : w.child = .absent
  killed : w.killed = false
  cut : w.cut = 0
  cutReads : w.cutReads = 0

/-- Between `watchdog_arm` and the kill: an alarm is set, it can be delivered, and once
an alarm has cut a call short the flag tells. At most `k` reads have been cut short. -/
structure Due (c : Child) (k : Nat) (w : Stall β) : Prop where
  child : w.child = c
  unmasked : w.masked = false
  timer : w.timer ≠ some .earlier
  pending : w.pending ≠ some .earlier
  armed : w.timer = some .own ∨ w.pending = some .own
  running : w.killed = false
  cutReads : w.cutReads ≤ k
  cut : w.cut = 0 ∨ w.flag = true ∧ w.cut ≤ 1

/-- No call has been cut short behind the first alarm. -/
structure Fresh (c : Child) (k : Nat) (w : Stall β) : Prop extends Due c k w where
  uncut : w.cut = 0

/-- Behind a call that was interrupted, with `n` other signals still to come before it. -/
structure Retries (c : Child) (k n : Nat) (w : Stall β) : Prop extends Due c k w where
  others : w.flag = true ∨ w.others < n

/-- The child has been killed, and it has not been reaped. -/
structure Doomed (k : Nat) (w : Stall β) : Prop where
  child : w.child = .alive
  killed : w.killed = true
  cutReads : w.cutReads ≤ k
  cut : w.cut ≤ 1

/-- What the call may have cost. -/
structure Within (k : Nat) (w : Stall β) : Prop where
  cutReads : w.cutReads ≤ k
  cut : w.cut ≤ 1

theorem stable_stalled {A : Stall β → Prop}
    (fire : ∀ (w : Stall β) (o : Origin), A w → w.timer = some o →
      A { w with timer := none, pending := some o })
    (deliver : ∀ (w : Stall β) (o : Origin), A w → w.pending = some o → w.masked = false →
      A { w with
        pending := none
        flag := true
        timer := some o
        delivered := if o = .own then w.delivered + 1 else w.delivered }) :
    (stalled ch).Stable A := by
  rintro w w' h ⟨rings⟩
  cases rings with
  | fire running => exact fire w _ h running
  | deliver waiting unmasked => exact deliver w _ h waiting unmasked

theorem stable_within : (stalled ch).Stable (Within k) := by
  apply stable_stalled
  · intro w o h _
    exact ⟨h.cutReads, h.cut⟩
  · intro w o h _ _
    exact ⟨h.cutReads, h.cut⟩

theorem stable_doomed : (stalled ch).Stable (Doomed k) := by
  apply stable_stalled
  · intro w o h _
    exact ⟨h.child, h.killed, h.cutReads, h.cut⟩
  · intro w o h _ _
    exact ⟨h.child, h.killed, h.cutReads, h.cut⟩

theorem stable_due : (stalled ch).Stable (Due c k) := by
  apply stable_stalled
  · intro w o h running
    have own : o = .own := by
      cases o with
      | earlier => exact absurd running h.timer
      | own => rfl
    subst own
    exact ⟨h.child, h.unmasked, by simp, by simp, .inr rfl, h.running, h.cutReads, h.cut⟩
  · intro w o h waiting _
    have own : o = .own := by
      cases o with
      | earlier => exact absurd waiting h.pending
      | own => rfl
    subst own
    have cut : w.cut ≤ 1 := by
      have cut := h.cut
      omega
    exact ⟨h.child, h.unmasked,
      by simp, by simp, .inl rfl, h.running, h.cutReads, .inr ⟨rfl, cut⟩⟩

theorem stable_fresh : (stalled ch).Stable (Fresh c k) := by
  rintro w w' h rings
  refine ⟨stable_due w w' h.toDue rings, ?_⟩
  cases rings
  exact h.uncut

/-- Events leave the interruptions that are to come as they are, and the flag up. -/
theorem stable_retries {n : Nat} : (stalled ch).Stable (Retries c k n) := by
  rintro w w' h rings
  refine ⟨stable_due w w' h.toDue rings, ?_⟩
  cases rings with
  | mk rings =>
    cases rings with
    | fire => exact h.others
    | deliver => exact .inl rfl

theorem stable_others {A : Stall β → Prop} {n : Nat} (stable : (stalled ch).Stable A) :
    (stalled ch).Stable fun w => A w ∧ w.others = n := by
  rintro w w' ⟨h, others⟩ rings
  refine ⟨stable w w' h rings, ?_⟩
  cases rings
  exact others

theorem Due.fresh (h : Due c k w) (quiet : w.flag = false) : Fresh c k w := by
  refine ⟨h, ?_⟩
  obtain uncut | ⟨up, -⟩ := h.cut
  · exact uncut
  · rw [quiet] at up
    contradiction

theorem Due.within (h : Due c k w) : Within k w := by
  refine ⟨h.cutReads, ?_⟩
  have cut := h.cut
  omega

theorem Due.mono {k' : Nat} (h : Due c k w) (le : k ≤ k') : Due c k' w :=
  { h with cutReads := Nat.le_trans h.cutReads le }

theorem Fresh.mono {k' : Nat} (h : Fresh c k w) (le : k ≤ k') : Fresh c k' w :=
  ⟨h.toDue.mono le, h.uncut⟩

theorem Within.mono {k' : Nat} (h : Within k w) (le : k ≤ k') : Within k' w :=
  ⟨Nat.le_trans h.cutReads le, h.cut⟩

theorem Due.mayRing (h : Due c k w) : w.MayRing := ⟨h.unmasked, h.armed⟩

theorem Stall.late_le (w : Stall β) : w.late ≤ 1 := by
  unfold Stall.late
  split <;> omega

theorem Fresh.hit (h : Fresh c k w) (hit : Hit w w') : Due c k w' ∧ w'.flag = true := by
  cases hit with
  | mk =>
    have late := w.late_le
    have uncut := h.uncut
    refine ⟨⟨h.child, h.unmasked, by simp [Kernel.rung], by simp [Kernel.rung], .inl rfl,
      h.running, h.cutReads, .inr ⟨rfl, ?_⟩⟩, rfl⟩
    show w.cut + w.late ≤ 1
    omega

theorem Fresh.hitRead (h : Fresh c k w) (hit : HitRead w w') : Fresh c (k + 1) w' := by
  cases hit with
  | mk =>
    have late := w.late_le
    have reads := h.cutReads
    refine ⟨⟨h.child, h.unmasked, by simp [Kernel.rung], by simp [Kernel.rung], .inl rfl,
      h.running, ?_, .inl h.uncut⟩, h.uncut⟩
    show w.cutReads + w.late ≤ k + 1
    omega

theorem Hit.others (hit : Hit w w') : w'.others = w.others := by
  cases hit
  rfl

theorem HitRead.others (hit : HitRead w w') : w'.others = w.others := by
  cases hit
  rfl

theorem Fresh.interrupted (h : Fresh c k w) (interrupted : Interrupted w w') :
    Retries c k w.others w' := by
  cases interrupted with
  | alarm hit =>
    obtain ⟨due, up⟩ := h.hit hit
    exact ⟨due, .inl up⟩
  | other others =>
    refine ⟨⟨h.child, h.unmasked, h.timer, h.pending, h.armed, h.running, h.cutReads, h.cut⟩,
      .inr ?_⟩
    rw [others]
    exact Nat.lt_succ_self _

section Given

variable {q : Syscall} {r : SysResp q}

theorem Given.others (given : Given ch w q r w') : w'.others = w.others := by
  cases given
  rfl

theorem Given.within (given : Given ch w q r w') (h : Within k w) : Within k w' := by
  cases given
  exact ⟨h.cutReads, h.cut⟩

theorem Due.given (h : Due c k w) (given : Given ch w q r w')
    (same : w'.toKernel = w.toKernel) : Due c k w' := by
  cases given with
  | mk =>
    cases same
    exact ⟨h.child, h.unmasked, h.timer, h.pending, h.armed, h.running, h.cutReads, h.cut⟩

theorem Fresh.given (h : Fresh c k w) (given : Given ch w q r w')
    (same : w'.toKernel = w.toKernel) : Fresh c k w' := by
  refine ⟨h.toDue.given given same, ?_⟩
  cases given
  exact h.uncut

end Given

end Assertions

/-- The calls that never block. -/
def Syscall.atOnce : Syscall → Bool
  | .kill _ | .write _ | .read _ _ | .waitpid => false
  | _ => true

theorem stallAnswers_atOnce {β : Type} {ch : Behaviour β} {w w' : Stall β} {q : Syscall}
    {r : SysResp q} (once : q.atOnce = true) : stallAnswers ch w q r w' ↔ Plain w q r w' := by
  cases q with
  | kill | write | read | waitpid => contradiction
  | _ => rfl

theorem posix_atOnce {q : Syscall} (once : q.atOnce = true) (k : Kernel) :
    ∃ r k', posixAnswers k q r k' := by
  cases q with
  | kill | write | read | waitpid => contradiction
  | readTimedOut => exact ⟨k.flag, k, rfl, rfl⟩
  | setup | spawn => exact ⟨true, _, rfl⟩
  | _ => exact ⟨(), _, rfl⟩

section Rules

variable {α β : Type} {ch : Behaviour β} {K : Nat} {A : Stall β → Prop} {w : Stall β}
  {Q : α → Stall β → Prop}

/-- At most one call is cut short, and nothing is read once the child has been killed. -/
structure InTime (K : Nat) (w : Stall β) (q : Syscall) : Prop where
  within : Within K w
  reads : ∀ s room, q = .read s room → w.killed = false

abbrev Stopping (ch : Behaviour β) (K : Nat) (p : Sub α) (w : Stall β)
    (Q : α → Stall β → Prop) :
    Prop :=
  (stalled ch).Correct True (InTime K) p w Q

theorem timed_syscall {q : Syscall} {f : SysResp q → Sub α} (stable : (stalled ch).Stable A)
    (h : A w) (own : ∀ v, A v → InTime K v q)
    (answered : ∀ v, A v → ∃ r u, stallAnswers ch v q r u)
    (rest : ∀ v r u, A v → stallAnswers ch v q r u → Stopping ch K (f r) u Q) :
    Stopping ch K (syscall q >>= f) w Q := by
  refine correct_perform stable h fun v hv => ⟨own v hv, fun _ => ?_, fun r u => rest v r u hv⟩
  obtain ⟨r, u, answer⟩ := answered v hv
  exact ⟨v, r, u, .refl _ v, answer⟩

theorem timed_bind {γ : Type} {p : Sub γ} {f : γ → Sub α} {R : γ → Stall β → Prop}
    (first : Stopping ch K p w R) (rest : ∀ value v, R value v → Stopping ch K (f value) v Q) :
    Stopping ch K (p >>= f) w Q :=
  (correct_bind f Q).mpr (first.post rest)

theorem timed_pure (stable : (stalled ch).Stable A) (h : A w) (value : α)
    (post : ∀ v, A v → Q value v) : Stopping ch K (pure value) w Q :=
  correct_of_stable stable h value post

theorem Within.inTime {q : Syscall} (h : Within K w) (other : ∀ s room, q ≠ .read s room) :
    InTime K w q :=
  ⟨h, fun s room read => absurd read (other s room)⟩

theorem Due.inTime {c : Child} {k : Nat} {q : Syscall} (h : Due c k w) (le : k ≤ K) :
    InTime K w q :=
  ⟨h.within.mono le, fun _ _ _ => h.running⟩

/-- A call that only the kernel answers. -/
theorem timed_plain {q : Syscall} {f : SysResp q → Sub α} (once : q.atOnce = true)
    (stable : (stalled ch).Stable A) (h : A w) (own : ∀ v, A v → InTime K v q)
    (rest : ∀ v r u, A v → posixAnswers v.toKernel q r u →
      Stopping ch K (f r) { v with toKernel := u } Q) :
    Stopping ch K (syscall q >>= f) w Q := by
  apply timed_syscall stable h own
  · intro v _
    obtain ⟨r, u, answer⟩ := posix_atOnce once v.toKernel
    exact ⟨r, _, (stallAnswers_atOnce once).mpr (.mk answer)⟩
  · intro v r u hv answer
    cases (stallAnswers_atOnce once).mp answer with
    | mk kernel => exact rest v r _ hv kernel

/-- Such a call where nothing but the cost is known. -/
theorem timed_within {q : Syscall} {f : SysResp q → Sub α} (once : q.atOnce = true)
    (h : Within K w) (rest : ∀ r v, Within K v → Stopping ch K (f r) v Q) :
    Stopping ch K (syscall q >>= f) w Q := by
  apply timed_plain once stable_within h
  · intro v hv
    apply hv.inTime
    intro s room read
    simp [read, Syscall.atOnce] at once
  · intro v r u hv _
    exact rest r _ ⟨hv.cutReads, hv.cut⟩

end Rules

section Functions

variable {β : Type} {ch : Behaviour β} {K k : Nat} {c : Child} {w : Stall β}

theorem stable_masked {A : Stall β → Prop} (masked : ∀ w, A w → w.masked = true)
    (fire : ∀ (w : Stall β) (o : Origin), A w → w.timer = some o →
      A { w with timer := none, pending := some o }) :
    (stalled ch).Stable A := by
  apply stable_stalled fire
  intro w o h _ unmasked
  rw [masked w h] at unmasked
  contradiction

/-- `watchdog_arm` while the signal is blocked. -/
structure Arming (w : Stall β) : Prop extends Untouched w where
  masked : w.masked = true
  saved : w.saved = false

theorem Untouched.within (h : Untouched w) : Within K w := by
  have reads := h.cutReads
  have cut := h.cut
  constructor <;> omega

theorem stable_arming : (stalled ch).Stable Arming := by
  refine stable_masked (fun w h => h.masked) ?_
  intro w o h _
  exact ⟨⟨h.child, h.killed, h.cut, h.cutReads⟩, h.masked, h.saved⟩

theorem Arming.inTime {q : Syscall} (h : Arming w) : InTime K w q :=
  ⟨h.within, fun _ _ _ => h.killed⟩

theorem timed_watchdogArm (h : Untouched w) (unmasked : w.masked = false) :
    Stopping ch K (watchdogArm true) w fun _ => Fresh .absent 0 := by
  have stable : (stalled ch).Stable fun w => Untouched w ∧ w.masked = false := by
    apply stable_stalled
    · rintro w o ⟨h, unmasked⟩ _
      exact ⟨⟨h.child, h.killed, h.cut, h.cutReads⟩, unmasked⟩
    · rintro w o ⟨h, unmasked⟩ _ _
      exact ⟨⟨h.child, h.killed, h.cut, h.cutReads⟩, unmasked⟩
  unfold watchdogArm
  refine timed_plain rfl stable ⟨h, unmasked⟩ (fun v hv => hv.1.within.inTime (by simp)) ?_
  rintro v _ u ⟨h, unmasked⟩ rfl
  have arming :
      Arming { v with toKernel := { v.toKernel with masked := true, saved := v.masked } } :=
    ⟨⟨h.child, h.killed, h.cut, h.cutReads⟩, rfl, unmasked⟩
  refine timed_plain rfl stable_arming arming (fun v hv => hv.inTime) ?_
  rintro v _ u h rfl
  -- `alarm(0)`: the timer is off, and a signal that waits is discarded next
  have stable : (stalled ch).Stable fun w => Arming w ∧ w.timer = none := by
    refine stable_masked (fun w h => h.1.masked) ?_
    rintro w o ⟨h, idle⟩ running
    rw [idle] at running
    contradiction
  refine timed_plain rfl stable
    ⟨⟨⟨h.child, h.killed, h.cut, h.cutReads⟩, h.masked, h.saved⟩, rfl⟩
    (fun v hv => hv.1.inTime) ?_
  rintro v _ u ⟨h, idle⟩ rfl
  have stable : (stalled ch).Stable fun w => Arming w ∧ w.timer = none ∧ w.pending = none := by
    refine stable_masked (fun w h => h.1.masked) ?_
    rintro w o ⟨h, idle, -⟩ running
    rw [idle] at running
    contradiction
  refine timed_plain rfl stable
    ⟨⟨⟨h.child, h.killed, h.cut, h.cutReads⟩, h.masked, h.saved⟩, idle, rfl⟩
    (fun v hv => hv.1.inTime) ?_
  rintro v _ u ⟨h, idle, quiet⟩ rfl
  rw [if_pos rfl]
  refine timed_plain rfl stable
    ⟨⟨⟨h.child, h.killed, h.cut, h.cutReads⟩, h.masked, h.saved⟩, idle, quiet⟩
    (fun v hv => hv.1.inTime) ?_
  rintro v _ u ⟨h, idle, quiet⟩ rfl
  -- from here on the alarm of this call is set, or it waits for the mask to be restored
  have stable : (stalled ch).Stable fun w => Arming w ∧ w.timer ≠ some .earlier ∧
      w.pending ≠ some .earlier ∧ (w.timer = some .own ∨ w.pending = some .own) := by
    refine stable_masked (fun w h => h.1.masked) ?_
    rintro w (_ | _) ⟨h, timer, pending, armed⟩ running
    · exact absurd running timer
    · exact ⟨⟨⟨h.child, h.killed, h.cut, h.cutReads⟩, h.masked, h.saved⟩,
        by simp, by simp, .inr rfl⟩
  show Stopping ch K (syscall .restoreMask >>= pure) _ _
  refine timed_plain rfl stable
    ⟨⟨⟨h.child, h.killed, h.cut, h.cutReads⟩, h.masked, h.saved⟩,
      by simp, by simp [quiet], .inl rfl⟩
    (fun v hv => hv.1.inTime) ?_
  rintro v _ u ⟨h, timer, pending, armed⟩ rfl
  have fresh : Fresh .absent 0
      { v with toKernel := { v.toKernel with masked := v.saved } } :=
    ⟨⟨h.child, h.saved, timer, pending, armed, h.killed, by simp [h.cutReads], .inl h.cut⟩,
      h.cut⟩
  exact timed_pure stable_fresh fresh _ fun _ post => post

theorem timed_watchdogDisarm (h : Within K w) :
    Stopping ch K watchdogDisarm w fun _ => Within K := by
  unfold watchdogDisarm
  refine timed_within rfl h fun _ v h => ?_
  refine timed_within rfl h fun _ v h => ?_
  refine timed_within rfl h fun _ v h => ?_
  show Stopping ch K (syscall .restoreMask >>= pure) _ _
  refine timed_within rfl h fun _ v h => ?_
  exact timed_pure stable_within h _ fun _ post => post

theorem Doomed.within (h : Doomed k w) (le : k ≤ K) : Within K w :=
  ⟨Nat.le_trans h.cutReads le, h.cut⟩

/-- A killed child is reaped, however often other signals interrupt the wait. -/
theorem timed_reap (le : k ≤ K) (h : Doomed k w) :
    Stopping ch K (Process.iterate reapStep ()) w fun _ => Within K := by
  refine correct_iterate (fun n _ w => Doomed k w ∧ w.others = n) ⟨h, rfl⟩ ?_
    fun _ => stable_within
  rintro n _ v h
  unfold reapStep
  apply timed_syscall (stable_others stable_doomed) h
  · exact fun v hv => (hv.1.within le).inTime (by simp)
  · intro v hv
    exact ⟨.reaped .signaled, _, .inr ⟨hv.1.killed, .mk ⟨hv.1.child, rfl⟩⟩⟩
  rintro v (status | _ | _) u ⟨h, others⟩ answered
  · have within : Within K u := by
      obtain given | ⟨-, ⟨⟩⟩ := answered
      · exact given.within (h.within le)
      · exact ⟨(h.within le).cutReads, h.cut⟩
    exact timed_pure stable_within within _ fun _ post => post
  · cases answered with
    | alarm hit =>
      cases hit with
      | mk running =>
        rw [h.killed] at running
        contradiction
    | @other n' more =>
      have doomed : Doomed k { v with others := n' } := ⟨h.child, h.killed, h.cutReads, h.cut⟩
      apply timed_syscall (stable_others stable_doomed) ⟨doomed, rfl⟩
      · exact fun v hv => (hv.1.within le).inTime (by simp)
      · exact fun v _ => ⟨(), _, rfl⟩
      · rintro v _ u ⟨h, others'⟩ rfl
        have doomed : Doomed k { v with killed := true } := ⟨h.child, rfl, h.cutReads, h.cut⟩
        apply timed_pure (stable_others stable_doomed) ⟨doomed, others'⟩
        rintro v ⟨h, others'⟩
        refine ⟨n', fun _ => ?_, h, others'⟩
        omega
  · have within : Within K u := Given.within answered (h.within le)
    exact timed_pure stable_within within _ fun _ post => post

/-- What a check leaves: a call that is over, or one on which no alarm has been spent. -/
def Inspected (K k : Nat) (expired : Bool) (w : Stall β) : Prop :=
  if expired then Within K w else Fresh .alive k w

theorem timed_watchdogCheck (le : k ≤ K) (h : Due .alive k w) :
    Stopping ch K watchdogCheck w (Inspected K k) := by
  unfold watchdogCheck
  apply timed_plain rfl stable_due h
  · exact fun v hv => hv.inTime le
  rintro v late u h ⟨rfl, rfl⟩
  split
  · apply timed_syscall stable_due h
    · exact fun v hv => hv.inTime le
    · exact fun v _ => ⟨(), _, rfl⟩
    · rintro v _ u h rfl
      have doomed : Doomed k { v with killed := true } :=
        ⟨h.child, rfl, h.cutReads, h.within.cut⟩
      refine timed_bind (timed_reap le doomed) fun _ v within => ?_
      exact timed_pure stable_within within true fun _ post => post
  · rename_i quiet
    have fresh : Fresh .alive k v := h.fresh (by simpa using quiet)
    exact timed_pure stable_fresh fresh false fun _ post => post

/-- Reading the flag tells whether the deadline is still to come. -/
theorem timed_readTimedOut {α : Type} {f : Bool → Sub α}
    {Q : α → Stall β → Prop} {n : Nat}
    (le : k ≤ K) (h : Due c k w) (others : w.others = n)
    (late : ∀ v, Due c k v → Stopping ch K (f true) v Q)
    (early : ∀ v, Fresh c k v → v.others = n → Stopping ch K (f false) v Q) :
    Stopping ch K (syscall .readTimedOut >>= f) w Q := by
  apply timed_plain rfl (stable_others stable_due) ⟨h, others⟩
  · exact fun v hv => hv.1.inTime le
  rintro v up u ⟨h, others⟩ ⟨rfl, rfl⟩
  cases up : v.flag with
  | false => exact early v (h.fresh up) others
  | true => exact late v h

/-- Behind an interruption the flag is up, or one of the other signals is used up. -/
theorem timed_retry {α : Type} {f : Bool → Sub α} {Q : α → Stall β → Prop} {n : Nat}
    (le : k ≤ K) (h : Retries c k n w) (late : ∀ v, Due c k v → Stopping ch K (f true) v Q)
    (early : ∀ v, Fresh c k v → v.others < n → Stopping ch K (f false) v Q) :
    Stopping ch K (syscall .readTimedOut >>= f) w Q := by
  apply timed_plain rfl stable_retries h
  · exact fun v hv => hv.inTime le
  rintro v up u h ⟨rfl, rfl⟩
  cases up : v.flag with
  | false =>
    refine early v (h.fresh up) (h.others.resolve_left ?_)
    simp [up]
  | true => exact late v h.toDue

theorem Due.interruptible (h : Due c k w) : ∃ w', Interrupted w w' :=
  ⟨_, .alarm (.mk h.running h.mayRing)⟩

/-- What is left to do for the loop around `write`: bytes, and retries. -/
def Sending (k n : Nat) (rest : Str) (w : Stall β) : Prop :=
  Due .alive k w ∧ rest.length + w.others = n

theorem timed_write (le : k ≤ K) (h : Due .alive k w) (stdin : Str) :
    Stopping ch K (Process.iterate writeStep stdin) w fun _ => Due .alive k := by
  refine correct_iterate (Sending k) ⟨h, rfl⟩ ?_ fun _ => stable_due
  rintro n rest v ⟨h, left⟩
  have ended {u : Stall β} (h : Due .alive k u) :
      Stopping ch K (pure (.inr ())) u (Proceeds True (Sending k) n fun _ => Due .alive k) :=
    timed_pure stable_due h _ fun _ post => post
  have again {u : Stall β} {rest : Str} (h : Due .alive k u) (less : rest.length + u.others < n) :
      Stopping ch K (pure (.inl rest : Str ⊕ Unit)) u
        (Proceeds True (Sending k) n fun _ => Due .alive k) := by
    apply timed_pure (stable_others stable_due) ⟨h, rfl⟩
    rintro v ⟨h, others⟩
    exact ⟨_, fun _ => by omega, h, rfl⟩
  unfold writeStep
  split
  · exact ended h
  refine timed_readTimedOut le h rfl (fun v h => ended h) fun v h others => ?_
  apply timed_syscall (stable_others stable_fresh) ⟨h, others⟩
  · exact fun v hv => hv.1.inTime le
  · intro v hv
    obtain ⟨u, interrupted⟩ := hv.1.interruptible
    exact ⟨.interrupted, u, interrupted⟩
  rintro v (written | _ | _) u ⟨h, others⟩ answered
  · obtain given | ⟨v', hit, given⟩ := answered
    · obtain ⟨some, most, same⟩ := given.answers
      apply again (h.toDue.given given same)
      rw [given.others, List.length_drop]
      omega
    · obtain ⟨some, most, same⟩ := given.answers
      apply again ((h.hit hit).1.given given same)
      rw [given.others, hit.others, List.length_drop]
      omega
  · refine timed_retry le (h.interrupted answered) (fun v h => ended h) fun v h fewer => ?_
    apply again h.toDue
    omega
  · exact ended (h.toDue.given answered answered.answers)

/-- What is left to do for a loop around `read`: room in the buffer, and retries. A
byte has come with every read that was cut short. -/
structure Filling (base size n : Nat) (used : Str) (w : Stall β) : Prop
    extends Fresh .alive (base + used.length) w where
  fits : used.length ≤ size - 1
  left : size - 1 - used.length + w.others = n

theorem timed_readAllFd {base size : Nat} (le : base + (size - 1) ≤ K) (h : Fresh .alive base w)
    (s : Stream) :
    Stopping ch K (readAllFd s size) w fun _ => Due .alive (base + (size - 1)) := by
  unfold readAllFd
  split
  · exact timed_pure stable_due (h.toDue.mono (Nat.le_add_right _ _)) _ fun _ post => post
  refine correct_iterate (Filling base size) ⟨h, Nat.zero_le _, rfl⟩ ?_ fun _ => stable_due
  intro n used v filling
  have fits := filling.fits
  have left := filling.left
  have ended {u : Stall β} {m : Nat} (used : Str) (h : Due .alive m u)
      (le : m ≤ base + (size - 1)) :
      Stopping ch K (pure (.inr used : Str ⊕ Str)) u
        (Proceeds True (Filling base size) n fun _ => Due .alive (base + (size - 1))) :=
    timed_pure stable_due (h.mono le) _ fun _ post => post
  have again {u : Stall β} {used : Str} (h : Fresh .alive (base + used.length) u)
      (fits : used.length ≤ size - 1) (less : size - 1 - used.length + u.others < n) :
      Stopping ch K (pure (.inl used : Str ⊕ Str)) u
        (Proceeds True (Filling base size) n fun _ => Due .alive (base + (size - 1))) := by
    apply timed_pure (stable_others stable_fresh) ⟨h, rfl⟩
    rintro v ⟨h, others⟩
    exact ⟨_, fun _ => by omega, h, fits, rfl⟩
  unfold readStep
  apply timed_syscall (stable_others stable_fresh) ⟨filling.toFresh, rfl⟩
  · exact fun v hv => hv.1.inTime (by omega)
  · intro v hv
    obtain ⟨u, interrupted⟩ := hv.1.interruptible
    exact ⟨.interrupted, u, interrupted⟩
  rintro v (_ | ⟨first, more⟩ | _ | _) u ⟨h, others⟩ answered
  · exact ended used (h.toDue.given answered answered.answers) (by omega)
  · obtain ⟨room, fresh, others'⟩ : more.length < size - 1 - used.length ∧
        Fresh .alive (base + (used ++ first :: more).length) u ∧ u.others = v.others := by
      obtain given | ⟨v', hit, given⟩ := answered
      · obtain ⟨room, same⟩ := given.answers
        exact ⟨room, (h.given given same).mono (by simp), given.others⟩
      · obtain ⟨room, same⟩ := given.answers
        refine ⟨room, ((h.hitRead hit).given given same).mono ?_, given.others.trans hit.others⟩
        simp only [List.length_append, List.length_cons]
        omega
    have grown : (used ++ first :: more).length = used.length + more.length + 1 := by
      simp [Nat.add_assoc]
    dsimp only
    split
    · exact ended _ fresh.toDue (by omega)
    · exact again fresh (by omega) (by omega)
  · refine timed_retry (by omega) (h.interrupted answered) (fun v h => ended used h (by omega)) ?_
    intro v h fewer
    exact again h fits (by omega)
  · exact ended used (h.toDue.given answered answered.answers) (by omega)

theorem timed_wait (le : k ≤ K) (h : Fresh .alive k w) :
    Stopping ch K (Process.iterate waitStep ()) w fun _ => Within K := by
  refine correct_iterate (fun n _ w => Fresh .alive k w ∧ w.others = n) ⟨h, rfl⟩ ?_
    fun _ => stable_within
  rintro n _ v h
  unfold waitStep
  apply timed_syscall (stable_others stable_fresh) h
  · exact fun v hv => hv.1.inTime le
  · intro v hv
    obtain ⟨u, interrupted⟩ := hv.1.interruptible
    exact ⟨.interrupted, u, interrupted⟩
  rintro v (status | _ | _) u ⟨h, others⟩ answered
  · have within : Within K u := by
      obtain given | ⟨killed, -⟩ := answered
      · exact given.within (h.within.mono le)
      · rw [h.running] at killed
        contradiction
    exact timed_pure stable_within within _ fun _ post => post
  · refine timed_retry le (h.interrupted answered) (fun v h => ?_) fun v h fewer => ?_
    · refine timed_bind (timed_watchdogCheck le h) fun expired v checked => ?_
      have within : Within K v := by
        cases expired with
        | false => exact Due.within (Fresh.toDue checked) |>.mono le
        | true => exact checked
      exact timed_pure stable_within within _ fun _ post => post
    · apply timed_pure (stable_others stable_fresh) ⟨h, rfl⟩
      rintro v ⟨h, others'⟩
      exact ⟨_, fun _ => by omega, h, others'⟩
  · have within : Within K u := Given.within answered (h.within.mono le)
    exact timed_pure stable_within within _ fun _ post => post

end Functions

section Call

variable {β : Type} {ch : Behaviour β} {K k : Nat} {w : Stall β}

theorem timed_checked (le : k ≤ K) (h : Due .alive k w) {late : Ending} {rest : Sub Ending}
    (going : ∀ v, Fresh .alive k v → Stopping ch K rest v fun _ => Within K) :
    Stopping ch K (checked watchdogCheck late rest) w fun _ => Within K := by
  unfold checked
  refine timed_bind (timed_watchdogCheck le h) fun expired v inspected => ?_
  cases expired with
  | false => exact going v inspected
  | true => exact timed_pure stable_within inspected late fun _ post => post

theorem timed_waitForChild (le : k ≤ K) (h : Fresh .alive k w) (stdout stderr : Str) :
    Stopping ch K (waitForChild stdout stderr) w fun _ => Within K := by
  unfold waitForChild
  refine timed_bind (timed_wait le h) fun status v within => ?_
  cases status with
  | none => exact timed_pure stable_within within _ fun _ post => post
  | some status =>
    unfold checked watchdogCheckReaped
    refine timed_within rfl within fun expired v within => ?_
    split
    · exact timed_pure stable_within within _ fun _ post => post
    · exact timed_pure stable_within within _ fun _ post => post

/-- The end of a pipe is closed before the next check. -/
theorem timed_close {α : Type} {c : Child} {f : Unit → Sub α} {Q : α → Stall β → Prop}
    {e : PipeEnd} (le : k ≤ K) (h : Due c k w)
    (rest : ∀ v, Due c k v → Stopping ch K (f ()) v Q) :
    Stopping ch K (syscall (.close e) >>= f) w Q := by
  apply timed_plain rfl stable_due h
  · exact fun v hv => hv.inTime le
  · rintro v _ u h rfl
    exact rest v h

theorem timed_readStderr {job : Job} {base : Nat} (le : base + (job.stderrSize - 1) ≤ K)
    (h : Fresh .alive base w) (stdout : Str) :
    Stopping ch K (readStderr job stdout) w fun _ => Within K := by
  unfold readStderr
  refine timed_bind (timed_readAllFd le h _) fun stderr v h => ?_
  refine timed_close le h fun v h => ?_
  exact timed_checked le h fun v h => timed_waitForChild le h stdout stderr

theorem timed_readStdout {job : Job} (le : job.stdoutSize - 1 + (job.stderrSize - 1) ≤ K)
    (h : Fresh .alive 0 w) : Stopping ch K (readStdout job) w fun _ => Within K := by
  have le' : 0 + (job.stdoutSize - 1) ≤ K := by omega
  unfold readStdout
  refine timed_bind (timed_readAllFd le' h _) fun stdout v h => ?_
  refine timed_close le' h fun v h => ?_
  refine timed_checked le' h fun v h => ?_
  rw [Nat.zero_add] at h
  exact timed_readStderr le h stdout

theorem timed_writeStdin {job : Job} (le : job.stdoutSize - 1 + (job.stderrSize - 1) ≤ K)
    (h : Fresh .alive 0 w) : Stopping ch K (writeStdin job) w fun _ => Within K := by
  unfold writeStdin
  refine timed_close (Nat.zero_le K) h.toDue fun v h => ?_
  refine timed_close (Nat.zero_le K) h fun v h => ?_
  refine timed_close (Nat.zero_le K) h fun v h => ?_
  refine timed_bind (timed_write (Nat.zero_le K) h _) fun _ v h => ?_
  refine timed_close (Nat.zero_le K) h fun v h => ?_
  exact timed_checked (Nat.zero_le K) h fun v h => timed_readStdout le h

theorem timed_runSetup (steps : List Setup) (pipes : List PipeEnd) (h : Fresh .absent 0 w) :
    Stopping ch K (runSetup steps pipes) w fun _ => Fresh .absent 0 := by
  induction steps generalizing pipes w with
  | nil => exact timed_pure stable_fresh h _ fun _ post => post
  | cons step rest ih =>
    apply timed_plain rfl stable_fresh h
    · exact fun v hv => hv.inTime (Nat.zero_le K)
    rintro v ok u h rfl
    split
    · exact ih _ h
    · exact timed_pure stable_fresh h _ fun _ post => post

theorem timed_execBody {job : Job} (le : job.stdoutSize - 1 + (job.stderrSize - 1) ≤ K)
    (h : Fresh .absent 0 w) : Stopping ch K (execBody job) w fun _ => Within K := by
  have ended {u : Stall β} (h : Fresh .absent 0 u) (e : Ending) :
      Stopping ch K (pure e) u fun _ => Within K :=
    timed_pure stable_fresh h e fun _ post => post.within.mono (Nat.zero_le K)
  unfold execBody
  refine timed_bind (timed_runSetup _ _ h) fun ready v h => ?_
  obtain ⟨ready, pipes⟩ := ready
  dsimp only
  split
  · apply timed_plain rfl stable_fresh h
    · exact fun v hv => hv.inTime (Nat.zero_le K)
    rintro v spawned u h rfl
    cases spawned with
    | false => exact ended h _
    | true =>
      have alive : Due .alive 0 { v with toKernel := { v.toKernel with child := .alive } } :=
        ⟨rfl, h.unmasked, h.timer, h.pending, h.armed, h.running, h.cutReads, h.cut⟩
      exact timed_checked (Nat.zero_le K) alive fun v h => timed_writeStdin le h
  · exact ended h _

theorem timed_closeAll (h : Within K w) (pipes : List PipeEnd) :
    Stopping ch K (closeAll pipes) w fun _ => Within K := by
  induction pipes generalizing w with
  | nil => exact timed_pure stable_within h _ fun _ post => post
  | cons pipe rest ih => exact timed_within rfl h fun _ v h => ih h

theorem timed_errCleanup (h : Within K w) (e : Ending) :
    Stopping ch K (errCleanup e) w fun _ => Within K := by
  unfold errCleanup
  refine timed_bind (timed_watchdogDisarm h) fun _ v h => ?_
  have closed {u : Stall β} (h : Within K u) :
      Stopping ch K (closeAll e.pipes >>= fun _ => pure e) u fun _ => Within K :=
    timed_bind (timed_closeAll h _) fun _ v h => timed_pure stable_within h e fun _ post => post
  split
  · exact timed_within rfl h fun _ v h => closed h
  · exact closed h

/-- The start of a call whose alarm can be delivered. -/
structure Starts (w : Stall β) : Prop extends Untouched w where
  unmasked : w.masked = false

theorem timed_execWithStdio {job : Job}
    (le : job.stdoutSize - 1 + (job.stderrSize - 1) ≤ K) (start : Starts w) :
    Stopping ch K (execWithStdio true job) w fun _ => Within K := by
  unfold execWithStdio
  split
  · -- nothing has been armed here, and nothing is done
    have stable : (stalled ch).Stable Untouched := by
      apply stable_stalled
      · intro w o h _
        exact ⟨h.child, h.killed, h.cut, h.cutReads⟩
      · intro w o h _ _
        exact ⟨h.child, h.killed, h.cut, h.cutReads⟩
    exact timed_pure stable start.toUntouched _ fun _ post => post.within
  · refine timed_bind (timed_watchdogArm start.toUntouched start.unmasked) fun _ v h => ?_
    exact timed_bind (timed_execBody le h) fun e v h => timed_errCleanup h e

/-- Whatever the child does: `exec_with_stdio` returns; behind the first alarm and
before the kill at most one call on the child is cut short by an alarm, not counting
reads that return the bytes they have, of which there are no more than the buffers
hold; and nothing is read once the child has been killed. -/
theorem stuck_child_stopped {job : Job} (start : Starts w) :
    (stalled ch).Terminates (execWithStdio true job) w ∧
      (∀ q rest w', (stalled ch).Reaches (execWithStdio true job) w (.call q rest) w' →
        w'.cut ≤ 1 ∧ w'.cutReads ≤ job.stdoutSize - 1 + (job.stderrSize - 1) ∧
        ∀ s room, q = .read s room → w'.killed = false) ∧
      ∀ e w', (stalled ch).Reaches (execWithStdio true job) w (.done e) w' →
        w'.cut ≤ 1 ∧ w'.cutReads ≤ job.stdoutSize - 1 + (job.stderrSize - 1) := by
  have timed : Stopping ch _ (execWithStdio true job) w fun _ => Within _ :=
    timed_execWithStdio (Nat.le_refl _) start
  refine ⟨timed.terminates, fun q rest w' reach => ?_, fun e w' reach => ?_⟩
  · have permitted := timed.permitted reach
    exact ⟨permitted.within.cut, permitted.within.cutReads, permitted.reads⟩
  · have within := timed.result reach
    exact ⟨within.cut, within.cutReads⟩

/-- A child that neither reads, nor writes, nor exits. -/
def silent : Behaviour Unit := fun _ _ _ _ => False

theorem stuck_child_stopped_silent :
    (stalled silent).Terminates (execWithStdio true sentScript)
      ⟨staleKernel, (), false, 3, 0, 0⟩ :=
  (stuck_child_stopped ⟨⟨rfl, rfl, rfl, rfl⟩, rfl⟩).1

/-- A child that takes all its input and writes a byte whenever it is read. -/
def dripping : Behaviour Unit
  | _, .write _, .count _, _ => True
  | _, .read _ _, .data _ more, _ => more = []
  | _, _, _, _ => False

/-- An alarm goes off in every read, which returns the byte that has come. -/
def alarmedReads (w : Stall Unit) : (q : Syscall) → Option (SysResp q × Stall Unit)
  | .maskAlarm => some ((), { w with masked := true, saved := w.masked })
  | .restoreMask => some ((), { w with masked := w.saved })
  | .alarm seconds => some ((), { w with timer := if seconds = 0 then none else some .own })
  | .discardPending => some ((), { w with pending := none })
  | .clearTimedOut => some ((), { w with flag := false })
  | .readTimedOut => some (w.flag, w)
  | .setup _ => some (true, w)
  | .spawn => some (true, { w with child := .alive })
  | .kill _ => some ((), { w with killed := true })
  | .waitpid =>
      if w.killed = true ∧ w.child = .alive then
        some (.reaped .signaled, { w with child := .reaped .signaled, reaps := w.reaps + 1 })
      else none
  | .write bytes => if bytes = [] then none else some (.count bytes.length, w)
  | .read _ room =>
      if w.killed = false ∧ w.masked = false ∧ w.timer = some .own ∧ 0 < room then
        some (.data '.' [], { w with toKernel := w.rung, cutReads := w.cutReads + w.late })
      else none
  | .close _ => some ((), w)

theorem stalled_alarmedReads (w : Stall Unit) (q : Syscall) (r : SysResp q) (w' : Stall Unit)
    (h : alarmedReads w q = some (r, w')) :
    ∃ v, (stalled dripping).Events w v ∧ stallAnswers dripping v q r w' := by
  refine ⟨w, .refl _ w, ?_⟩
  cases q with
  | waitpid =>
    dsimp only [alarmedReads] at h
    split at h
    · rename_i dead
      cases h
      exact .inr ⟨dead.1, .mk ⟨dead.2, rfl⟩⟩
    · cases h
  | write bytes =>
    dsimp only [alarmedReads] at h
    split at h
    · cases h
    · rename_i some
      cases h
      exact .inl (.mk ⟨List.length_pos_of_ne_nil some, Nat.le_refl _, rfl⟩ trivial)
  | read s room =>
    dsimp only [alarmedReads] at h
    split at h
    · rename_i ready
      obtain ⟨running, unmasked, timer, some⟩ := ready
      cases h
      exact .inr ⟨_, .mk running ⟨unmasked, .inl timer⟩, .mk ⟨some, rfl⟩ rfl⟩
    · cases h
  | kill =>
    cases h
    rfl
  | readTimedOut =>
    cases h
    exact .mk ⟨rfl, rfl⟩
  | _ =>
    cases h
    exact .mk rfl

/-- `read_all_fd` reads on behind a partial count: three alarms fill a buffer of four
bytes before the child is killed. -/
theorem alarms_read_on :
    ¬ ∀ (β : Type) (ch : Behaviour β) (job : Job) (w : Stall β), Starts w →
      w.delivered = 0 →
      ∀ e w', (stalled ch).Reaches (execWithStdio true job) w (.done e) w' →
        w'.cut + w'.cutReads ≤ 1 := by
  intro bounded
  let job : Job := ⟨["tuctl_client".toList], "list".toList, false, 4, 4⟩
  have reach := reaches_play stalled_alarmedReads 60 (execWithStdio true job)
    ⟨staleKernel, (), false, 0, 0, 0⟩
  have finished : (play alarmedReads 60 (execWithStdio true job)
      ⟨staleKernel, (), false, 0, 0, 0⟩).1.result? =
      some ⟨-1, "...".toList, [], [⟨.stderr, false⟩]⟩ := by rfl
  rw [Process.eq_done finished] at reach
  have one := bounded Unit dripping job _ ⟨⟨rfl, rfl, rfl, rfl⟩, rfl⟩ rfl _ _ reach
  revert one
  decide

end Call

end Tumgrd
