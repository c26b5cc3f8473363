import Mathlib.Logic.Relation

/-! Programs with loops that run among asynchronous events. A loop may go on for
ever, so what is shown of a process is shown of all its steps; that it comes to
an end is shown apart, by a measure for each loop. -/
namespace Effect

/-- A process is finished, or it issues a request, or it is about to go through
the body of a loop, which says whether to go on and with what. -/
inductive Process (Req : Type) (Resp : Req → Type) : Type → Type 1 where
  | done {α : Type} (value : α) : Process Req Resp α
  | call {α : Type} (q : Req) (rest : Resp q → Process Req Resp α) : Process Req Resp α
  | loop {α σ β : Type} (body : σ → Process Req Resp (σ ⊕ β)) (s : σ)
      (rest : β → Process Req Resp α) : Process Req Resp α

namespace Process

variable {Req : Type} {Resp : Req → Type} {α β γ σ : Type}

def bind (p : Process Req Resp α) (f : α → Process Req Resp β) : Process Req Resp β :=
  match p with
  | .done value => f value
  | .call q rest => .call q fun r => (rest r).bind f
  | .loop body s rest => .loop body s fun value => (rest value).bind f

instance : Monad (Process Req Resp) where
  pure := .done
  bind := bind

theorem bind_done (p : Process Req Resp α) : p.bind .done = p := by
  induction p with
  | done value => rfl
  | call q rest ih =>
    simp only [bind]
    congr 1
    funext r
    exact ih r
  | loop body s rest _ ih =>
    simp only [bind]
    congr 1
    funext value
    exact ih value

def perform (q : Req) : Process Req Resp (Resp q) := .call q .done

/-- The loop from `s` on. -/
def iterate (body : σ → Process Req Resp (σ ⊕ β)) (s : σ) : Process Req Resp β :=
  .loop body s .done

/-- What comes behind the body of a loop. -/
def next (body : σ → Process Req Resp (σ ⊕ β)) (rest : β → Process Req Resp α) :
    σ ⊕ β → Process Req Resp α
  | .inl s => .loop body s rest
  | .inr value => rest value

def result? : Process Req Resp α → Option α
  | .done value => some value
  | .call _ _ | .loop _ _ _ => none

theorem eq_done {p : Process Req Resp α} {value : α} (h : p.result? = some value) :
    p = .done value := by
  cases p with
  | done value' =>
    cases h
    rfl
  | _ => contradiction

end Process

/-- Whom a process runs among: how a request may be answered, and what may happen
between any two requests. A request that can not be answered blocks. -/
structure Surroundings (Req : Type) (Resp : Req → Type) (W : Type) where
  answers : W → (q : Req) → Resp q → W → Prop
  event : W → W → Prop

namespace Surroundings

open Relation

variable {Req : Type} {Resp : Req → Type} {W α β σ : Type} (E : Surroundings Req Resp W)

def Events (w w' : W) : Prop := ReflTransGen E.event w w'

theorem Events.refl (w : W) : E.Events w w := ReflTransGen.refl

theorem Events.trans {w u v : W} (h : E.Events w u) (h' : E.Events u v) : E.Events w v :=
  ReflTransGen.trans h h'

/-- What no event undoes. -/
def Stable (A : W → Prop) : Prop := ∀ w w', A w → E.event w w' → A w'

variable {E} in
theorem Stable.events {A : W → Prop} (stable : E.Stable A) {w w' : W} (h : A w)
    (events : E.Events w w') : A w' := by
  induction events with
  | refl => exact h
  | tail _ event ih => exact stable _ _ ih event

variable {E} in
/-- Events that lead further down, as long as there is nothing to wait for, lead to it. -/
theorem Stable.eventually {A G : W → Prop} (stable : E.Stable A) (measure : W → Nat)
    (step : ∀ w, A w → G w ∨ ∃ w', E.event w w' ∧ measure w' < measure w)
    {w : W} (h : A w) :
    ∃ w', E.Events w w' ∧ A w' ∧ G w' := by
  induction left : measure w using Nat.strongRecOn generalizing w with
  | ind n ih =>
    rcases step w h with there | ⟨w', event, less⟩
    · exact ⟨w, .refl E w, h, there⟩
    · obtain ⟨v, events, hv, there⟩ := ih _ (left ▸ less) (stable _ _ h event) rfl
      exact ⟨v, .trans E (.single event) events, hv, there⟩

/-- A step of the process itself. -/
inductive Moves : Process Req Resp α → W → Process Req Resp α → W → Prop
  | call {q : Req} {rest : Resp q → Process Req Resp α} {r : Resp q} {w w' : W} :
      E.answers w q r w' → Moves (.call q rest) w (rest r) w'
  | loop {β σ : Type} {body : σ → Process Req Resp (σ ⊕ β)} {s : σ}
      {rest : β → Process Req Resp α} {w : W} :
      Moves (.loop body s rest) w ((body s).bind (Process.next body rest)) w

/-- The prefixes of all executions. -/
inductive Reaches : Process Req Resp α → W → Process Req Resp α → W → Prop
  | refl (p : Process Req Resp α) (w : W) : Reaches p w p w
  | event {p p' : Process Req Resp α} {w w' w'' : W} : Reaches p w p' w' → E.event w' w'' →
      Reaches p w p' w''
  | move {p p' p'' : Process Req Resp α} {w w' w'' : W} : Reaches p w p' w' →
      E.Moves p' w' p'' w'' → Reaches p w p'' w''

/-- The process moves, behind some events. -/
def Advances (p : Process Req Resp α) (w : W) (p' : Process Req Resp α) (w' : W) : Prop :=
  ∃ v, E.Events w v ∧ E.Moves p v p' w'

def Descends (after before : Process Req Resp α × W) : Prop :=
  E.Advances before.1 before.2 after.1 after.2

/-- The process moves finitely often, and it never waits for what can not happen. -/
structure Terminates (p : Process Req Resp α) (w : W) : Prop where
  finite : Acc E.Descends (p, w)
  progress : ∀ p' w', E.Reaches p w p' w' →
    (∃ value, p' = .done value) ∨ ∃ p'' w'', E.Advances p' w' p'' w''

/-- What the body of a loop is to establish: the invariant for the next time,
further down where `T` holds, or what comes behind the loop. -/
def Proceeds {σ β W : Type} (T : Prop) (I : Nat → σ → W → Prop) (n : Nat)
    (R : β → W → Prop) :
    σ ⊕ β → W → Prop
  | .inl s, w => ∃ m, (T → m < n) ∧ I m s w
  | .inr value, w => R value w

/-- Every request is permitted where it is issued, and every result satisfies the
postcondition. Where `T` holds, every request is answered in the end, and every
loop ends: its invariant is then indexed by a number that goes down. -/
def Correct (T : Prop) (P : W → Req → Prop) {α : Type} :
    Process Req Resp α → W → (α → W → Prop) → Prop
  | .done value, w, Q => ∀ w', E.Events w w' → Q value w'
  | .call q rest, w, Q => ∀ w', E.Events w w' → P w' q ∧
      (T → ∃ v r v', E.Events w' v ∧ E.answers v q r v') ∧
      ∀ r w'', E.answers w' q r w'' → Correct T P (rest r) w'' Q
  | .loop body s rest, w, Q => ∃ I : Nat → _ → W → Prop, (∃ n, I n s w) ∧
      ∀ n s' w', I n s' w' → Correct T P (body s') w'
        (Proceeds T I n fun value w'' => Correct T P (rest value) w'' Q)

variable {E} {T : Prop} {P P' : W → Req → Prop} {p p' : Process Req Resp α} {w w' : W}
  {Q Q' : α → W → Prop}

@[simp] theorem correct_pure (value : α) (Q : α → W → Prop) :
    E.Correct T P (pure value) w Q ↔ ∀ w', E.Events w w' → Q value w' := Iff.rfl

theorem correct_of_stable {A : W → Prop} (stable : E.Stable A) (h : A w) (value : α)
    (post : ∀ v, A v → Q value v) : E.Correct T P (pure value) w Q :=
  fun v later => post v (stable.events h later)

/-- The rule for a request: events may come first, which a stable assertion survives. -/
theorem correct_perform {A : W → Prop} (stable : E.Stable A) (h : A w) {q : Req}
    {f : Resp q → Process Req Resp α}
    (step : ∀ v, A v → P v q ∧ (T → ∃ u r u', E.Events v u ∧ E.answers u q r u') ∧
      ∀ r u, E.answers v q r u → E.Correct T P (f r) u Q) :
    E.Correct T P (Process.perform q >>= f) w Q :=
  fun v later => step v (stable.events h later)

/-- The rule of consequence. -/
theorem Correct.mono (h : E.Correct T P p w Q) (permits : ∀ w q, P w q → P' w q)
    (post : ∀ value w, Q value w → Q' value w) : E.Correct T P' p w Q' := by
  induction p generalizing w with
  | done value => exact fun v later => post _ _ (h v later)
  | call q rest ih =>
    intro v later
    obtain ⟨permitted, answered, correct⟩ := h v later
    exact ⟨permits _ _ permitted, answered, fun r u answer => ih r (correct r u answer) post⟩
  | loop body s rest ihBody ihRest =>
    obtain ⟨I, start, correct⟩ := h
    refine ⟨I, start, fun n s v inv => ihBody s (correct n s v inv) ?_⟩
    rintro (s' | value) u result
    · exact result
    · exact ihRest value result post

theorem Correct.post (h : E.Correct T P p w Q) (post : ∀ value w, Q value w → Q' value w) :
    E.Correct T P p w Q' :=
  h.mono (fun _ _ permitted => permitted) post

/-- Events may be left to the process that comes behind them. -/
theorem Correct.events (h : E.Correct T P p w Q) (events : E.Events w w') :
    E.Correct T P p w' Q := by
  induction p generalizing w w' with
  | done value => exact fun v later => h v (events.trans E later)
  | call q rest => exact fun v later => h v (events.trans E later)
  | loop body s rest ihBody ihRest =>
    obtain ⟨I, ⟨n, start⟩, correct⟩ := h
    refine ⟨fun n s v => ∃ u, I n s u ∧ E.Events u v, ⟨n, w, start, events⟩, ?_⟩
    rintro n s v ⟨u, inv, later⟩
    refine Correct.post (ihBody s (correct n s u inv) later) ?_
    rintro (s' | value) x result
    · obtain ⟨m, less, inv'⟩ := result
      exact ⟨m, less, x, inv', .refl E x⟩
    · exact result

@[simp] theorem correct_bind (f : α → Process Req Resp β) (Q : β → W → Prop) :
    E.Correct T P (p >>= f) w Q ↔
      E.Correct T P p w fun value w' => E.Correct T P (f value) w' Q := by
  show E.Correct T P (p.bind f) w Q ↔ _
  induction p generalizing w with
  | done value =>
    exact ⟨fun h v later => h.events later, fun h => h w (.refl E w)⟩
  | call q rest ih =>
    refine forall₂_congr fun v later => and_congr_right fun _ => and_congr_right fun _ => ?_
    exact forall₃_congr fun r u _ => ih r f
  | loop body s rest ihBody ihRest =>
    refine exists_congr fun I => and_congr_right fun _ => ?_
    refine forall₄_congr fun n s v _ => ?_
    have same : (fun value u => E.Correct T P ((rest value).bind f) u Q) =
        fun value u => E.Correct T P (rest value) u
          fun value w' => E.Correct T P (f value) w' Q := by
      funext value u
      exact propext (ihRest value f)
    rw [same]

/-- The rule for loops: an invariant, indexed by what is left to do. -/
theorem correct_iterate {body : σ → Process Req Resp (σ ⊕ α)} {s : σ}
    (I : Nat → σ → W → Prop)
    {n : Nat} (start : I n s w)
    (step : ∀ n s v, I n s v → E.Correct T P (body s) v (Proceeds T I n Q))
    (stable : ∀ value, E.Stable (Q value)) : E.Correct T P (Process.iterate body s) w Q := by
  refine ⟨I, ⟨n, start⟩, fun n s v inv => (step n s v inv).post ?_⟩
  rintro (s' | value) u result
  · exact result
  · exact fun x later => (stable value).events result later

theorem Correct.moves (h : E.Correct T P p w Q) (moves : E.Moves p w p' w') :
    E.Correct T P p' w' Q := by
  cases moves with
  | call answer => exact (h w (.refl E w)).2.2 _ _ answer
  | @loop _ _ body s rest =>
    obtain ⟨I, ⟨n, start⟩, correct⟩ := h
    refine (correct_bind _ _).mpr ((correct n s w start).post ?_)
    rintro (s' | value) u result
    · obtain ⟨m, -, inv⟩ := result
      exact ⟨I, ⟨m, inv⟩, correct⟩
    · exact result

theorem Correct.reaches (h : E.Correct T P p w Q) (reach : E.Reaches p w p' w') :
    E.Correct T P p' w' Q := by
  induction reach with
  | refl => exact h
  | event _ event ih => exact (ih h).events (.single event)
  | move _ moves ih => exact (ih h).moves moves

theorem Correct.permitted (h : E.Correct T P p w Q) {q : Req}
    {rest : Resp q → Process Req Resp α}
    (reach : E.Reaches p w (.call q rest) w') : P w' q :=
  (h.reaches reach w' (.refl E w')).1

theorem Correct.result (h : E.Correct T P p w Q) {value : α}
    (reach : E.Reaches p w (.done value) w') : Q value w' :=
  h.reaches reach w' (.refl E w')

theorem acc_bind {f : α → Process Req Resp β}
    (h : E.Correct True P p w fun value u => Acc E.Descends (f value, u)) :
    Acc E.Descends (p.bind f, w) := by
  induction p generalizing w with
  | done value => exact h w (.refl E w)
  | call q rest ih =>
    refine ⟨_, ?_⟩
    rintro ⟨p', w'⟩ ⟨v, events, moves⟩
    cases moves with
    | call answer => exact ih _ ((h v events).2.2 _ _ answer)
  | loop body s rest ihBody ihRest =>
    obtain ⟨I, ⟨n, start⟩, correct⟩ := h
    -- a new round starts further down, and the rest of this one is shorter
    induction n using Nat.strongRecOn generalizing s w with
    | ind n ih =>
      refine ⟨_, ?_⟩
      rintro ⟨p', w'⟩ ⟨v, events, moves⟩
      cases moves with
      | loop =>
        refine ihBody s (((correct n s w start).events events).post ?_)
        rintro (s' | value) u result
        · obtain ⟨m, less, inv⟩ := result
          exact ih m (less trivial) s' inv
        · exact ihRest value result

/-- A process that is totally correct comes to an end. -/
theorem Correct.terminates (h : E.Correct True P p w Q) : E.Terminates p w where
  finite := by
    have ends : E.Correct True P p w fun value u =>
        Acc E.Descends ((.done value : Process Req Resp α), u) := by
      refine h.post fun value u _ => ⟨_, ?_⟩
      rintro ⟨p', w'⟩ ⟨v, events, moves⟩
      cases moves
    have finished := acc_bind ends
    rw [Process.bind_done] at finished
    exact finished
  progress := by
    intro p' w' reach
    have correct := h.reaches reach
    cases p' with
    | done value => exact .inl ⟨value, rfl⟩
    | call q rest =>
      obtain ⟨-, answered, -⟩ := correct w' (.refl E w')
      obtain ⟨v, r, v', events, answer⟩ := answered trivial
      exact .inr ⟨_, _, v, events, .call answer⟩
    | loop body s rest => exact .inr ⟨_, _, w', .refl E w', .loop⟩

theorem Reaches.events (reach : E.Reaches p w p' w') {v : W} (events : E.Events w' v) :
    E.Reaches p w p' v := by
  induction events with
  | refl => exact reach
  | tail _ event ih => exact .event ih event

theorem Reaches.trans {p'' : Process Req Resp α} {v : W} (first : E.Reaches p w p' w')
    (second : E.Reaches p' w' p'' v) : E.Reaches p w p'' v := by
  induction second with
  | refl => exact first
  | event _ event ih => exact .event (ih first) event
  | move _ moves ih => exact .move (ih first) moves

/-- The rule for all steps: what every event and every answer preserves. -/
theorem Reaches.invariant {I : W → Prop} (event : E.Stable I)
    (answers : ∀ w q r w', I w → E.answers w q r w' → I w') (h : I w)
    (reach : E.Reaches p w p' w') : I w' := by
  induction reach with
  | refl => exact h
  | event _ next ih => exact event _ _ (ih h) next
  | move _ moves ih =>
    cases moves with
    | call answer => exact answers _ _ _ _ (ih h) answer
    | loop => exact ih h

/-- Other surroundings, seen through `f`, can do what these do. -/
structure Simulates {W' : Type} (E : Surroundings Req Resp W) (E' : Surroundings Req Resp W')
    (f : W → W') : Prop where
  event : ∀ w u, E.event w u → E'.Events (f w) (f u)
  answers : ∀ w q r u, E.answers w q r u → ∃ v, E'.Events (f w) v ∧ E'.answers v q r (f u)

theorem Simulates.reaches {W' : Type} {E' : Surroundings Req Resp W'} {f : W → W'}
    (simulates : E.Simulates E' f) (reach : E.Reaches p w p' w') :
    E'.Reaches p (f w) p' (f w') := by
  induction reach with
  | refl => exact .refl _ _
  | event _ event ih => exact ih.events (simulates.event _ _ event)
  | move _ moves ih =>
    cases moves with
    | call answer =>
      obtain ⟨v, events, answered⟩ := simulates.answers _ _ _ _ answer
      exact .move (ih.events events) (.call answered)
    | loop => exact .move ih .loop

theorem Reaches.advances {p'' : Process Req Resp α} {v : W} (reach : E.Reaches p w p' w')
    (advances : E.Advances p' w' p'' v) : E.Reaches p w p'' v := by
  obtain ⟨u, events, moves⟩ := advances
  exact .move (reach.events events) moves

theorem Simulates.events {W' : Type} {E' : Surroundings Req Resp W'} {f : W → W'}
    (simulates : E.Simulates E' f) (events : E.Events w w') : E'.Events (f w) (f w') := by
  induction events with
  | refl => exact .refl E' _
  | tail _ event ih => exact ih.trans E' (simulates.event _ _ event)

theorem Simulates.advances {W' : Type} {E' : Surroundings Req Resp W'} {f : W → W'}
    (simulates : E.Simulates E' f) (advances : E.Advances p w p' w') :
    E'.Advances p (f w) p' (f w') := by
  obtain ⟨v, events, moves⟩ := advances
  cases moves with
  | call answer =>
    obtain ⟨u, events', answered⟩ := simulates.answers _ _ _ _ answer
    exact ⟨u, (simulates.events events).trans E' events', .call answered⟩
  | loop => exact ⟨_, simulates.events events, .loop⟩

/-- A process that moves finitely often there does so here. -/
theorem Simulates.acc {W' : Type} {E' : Surroundings Req Resp W'} {f : W → W'}
    (simulates : E.Simulates E' f) (finite : Acc E'.Descends (p, f w)) : Acc E.Descends (p, w) := by
  let seen : Process Req Resp α × W → Process Req Resp α × W' := fun s => (s.1, f s.2)
  refine Subrelation.accessible (r := InvImage E'.Descends seen) ?_
    (InvImage.accessible seen finite)
  intro after before descends
  exact simulates.advances (E := E) descends

/-- Nothing happens any more. -/
structure Stuck (E : Surroundings Req Resp W) (p : Process Req Resp α) (w : W) : Prop where
  process : ∀ p' w', ¬E.Advances p w p' w'
  surroundings : ∀ w', ¬E.event w w'

theorem exists_last_event (measure : W → Nat)
    (down : ∀ w w', E.event w w' → measure w' < measure w)
    (w : W) : ∃ w', E.Events w w' ∧ ∀ v, ¬E.event w' v := by
  have all : E.Stable fun _ => True := fun _ _ _ _ => trivial
  have ends :=
    all.eventually (G := fun w => ∀ v, ¬E.event w v) measure (fun v _ => ?_) (w := w) trivial
  · obtain ⟨w', events, -, last⟩ := ends
    exact ⟨w', events, last⟩
  · by_cases goes : ∃ v', E.event v v'
    · obtain ⟨v', event⟩ := goes
      exact .inr ⟨v', event, down _ _ event⟩
    · exact .inl (not_exists.mp goes)

/-- Finitely many moves, and finitely many events behind the last one. -/
theorem exists_stuck (measure : W → Nat)
    (down : ∀ w w', E.event w w' → measure w' < measure w)
    (finite : Acc E.Descends (p, w)) : ∃ p' w', E.Reaches p w p' w' ∧ E.Stuck p' w' := by
  generalize start : (p, w) = s at finite
  induction finite generalizing p w with
  | intro s _ ih =>
    subst start
    by_cases moves : ∃ p' w', E.Advances p w p' w'
    · obtain ⟨p', w', advances⟩ := moves
      obtain ⟨p'', w'', reach, stuck⟩ := ih (p', w') advances rfl
      exact ⟨p'', w'', ((Reaches.refl p w).advances advances).trans reach, stuck⟩
    · obtain ⟨w', events, last⟩ := exists_last_event measure down w
      refine ⟨p, w', (Reaches.refl p w).events events, fun p'' w'' advances => ?_, last⟩
      obtain ⟨v, events', moved⟩ := advances
      exact moves ⟨p'', w'', v, events.trans E events', moved⟩

theorem Terminates.reaches (h : E.Terminates p w) (reach : E.Reaches p w p' w') :
    E.Terminates p' w' := by
  refine ⟨?_, fun p'' w'' later => h.progress _ _ (reach.trans later)⟩
  induction reach with
  | refl => exact h.finite
  | event _ event ih =>
    refine ⟨_, ?_⟩
    rintro ⟨p'', w''⟩ ⟨v, events, moves⟩
    exact (ih h).inv ⟨v, Events.trans E (.single event) events, moves⟩
  | move _ moves ih => exact (ih h).inv ⟨_, .refl E _, moves⟩

theorem Terminates.finishes (h : E.Terminates p w) :
    ∃ value w', E.Reaches p w (.done value) w' := by
  obtain ⟨finite, progress⟩ := h
  generalize start : (p, w) = s at finite
  induction finite generalizing p w with
  | intro s _ ih =>
    subst start
    rcases progress p w (.refl p w) with ⟨value, rfl⟩ | ⟨p', w', advances⟩
    · exact ⟨value, w, .refl _ _⟩
    · have reach : E.Reaches p w p' w' := (Reaches.refl p w).advances advances
      obtain ⟨value, w'', later⟩ :=
        ih (p', w') advances (fun _ _ further => progress _ _ (reach.trans further)) rfl
      exact ⟨value, w'', reach.trans later⟩

section Play

variable (E) (answer : W → (q : Req) → Option (Resp q × W))

/-- The first steps of an execution whose answers are given. It stops where there
is none. -/
def play : Nat → Process Req Resp α → W → Process Req Resp α × W
  | 0, p, w => (p, w)
  | _ + 1, .done value, w => (.done value, w)
  | steps + 1, .call q rest, w =>
      match answer w q with
      | none => (.call q rest, w)
      | some (r, w') => play steps (rest r) w'
  | steps + 1, .loop body s rest, w => play steps ((body s).bind (Process.next body rest)) w

variable {answer} {E}

/-- Answers that may be given, if need be behind some events, lead along an execution. -/
theorem reaches_play (fair : ∀ w q r w', answer w q = some (r, w') →
    ∃ v, E.Events w v ∧ E.answers v q r w') (steps : Nat) (p : Process Req Resp α) (w : W) :
    E.Reaches p w (play answer steps p w).1 (play answer steps p w).2 := by
  induction steps generalizing p w with
  | zero => exact .refl p w
  | succ steps ih =>
    cases p with
    | done value => exact .refl _ _
    | call q rest =>
      unfold play
      split
      · exact .refl _ _
      · rename_i r w' given
        obtain ⟨v, events, answered⟩ := fair w q r w' given
        exact (Reaches.move ((Reaches.refl _ _).events events) (.call answered)).trans (ih _ _)
    | loop body s rest => exact (Reaches.move (.refl _ _) .loop).trans (ih _ _)

end Play

end Surroundings
end Effect
