import Tumgrd.Effect.Program

/-! A single-threaded service runs one task at a time to its end, unless it
crashes. A crash may come between any two requests and loses the running task;
the world keeps what the requests answered so far have done to it. -/
namespace Effect

structure Service (Req : Type) (Resp : Req → Type) (W Task : Type) where
  sem : Semantics Req Resp W
  prog : Task → Program Req Resp Unit
  admits : W → Task → Prop
  finish : W → Task → W
  crash : W → W

namespace Service

variable {Req : Type} {Resp : Req → Type} {W Task : Type} (M : Service Req Resp W Task)

/-- A busy service remembers the world in which the running task was begun. -/
inductive State (Req : Type) (Resp : Req → Type) (W Task : Type) where
  | idle (w : W)
  | busy (t : Task) (w₀ w : W) (rest : Program Req Resp Unit)

inductive Step : State Req Resp W Task → State Req Resp W Task → Prop
  | begin {w : W} {t : Task} : M.admits w t → Step (.idle w) (.busy t w w (M.prog t))
  | call {t : Task} {w₀ w : W} {q : Req} {rest : Resp q → Program Req Resp Unit} {r : Resp q} :
      M.sem.allowed w q r →
        Step (.busy t w₀ w (.call q rest)) (.busy t w₀ (M.sem.after w q r) (rest r))
  | finish {t : Task} {w₀ w : W} : Step (.busy t w₀ w (.done ())) (.idle (M.finish w t))
  | crash {t : Task} {w₀ w : W} {p : Program Req Resp Unit} :
      Step (.busy t w₀ w p) (.idle (M.crash w))
  | restart {w : W} : Step (.idle w) (.idle (M.crash w))

/-- The states of all runs that begin idle in a world of `start`. -/
inductive Reachable (start : W → Prop) : State Req Resp W Task → Prop
  | start {w : W} : start w → Reachable start (.idle w)
  | step {s s' : State Req Resp W Task} : Reachable start s → M.Step s s' → Reachable start s'

/-- What is to be shown of a service once: `I` holds in every world, `J` in
every idle one, and each task begun there issues only permitted requests. -/
structure Contract (start I J : W → Prop) (P : Task → W → W → Req → Prop)
    (Q : Task → W → W → Prop) : Prop where
  start : ∀ w, start w → I w ∧ J w
  task : ∀ t w, M.admits w t → I w → J w →
    M.sem.Safe (P t w) (M.prog t) w fun _ w' => Q t w w'
  call : ∀ t w₀ w q r, M.admits w₀ t → I w₀ → J w₀ → I w → P t w₀ w q →
    M.sem.allowed w q r → I (M.sem.after w q r)
  finish : ∀ t w₀ w, M.admits w₀ t → I w₀ → J w₀ → I w → Q t w₀ w →
    I (M.finish w t) ∧ J (M.finish w t)
  crash : ∀ w, I w → I (M.crash w) ∧ J (M.crash w)

/-- What the contract says of a reachable state. -/
def Holds (I J : W → Prop) (P : Task → W → W → Req → Prop)
    (Q : Task → W → W → Prop) :
    State Req Resp W Task → Prop
  | .idle w => I w ∧ J w
  | .busy t w₀ w rest => M.admits w₀ t ∧ I w₀ ∧ J w₀ ∧ I w ∧
      M.sem.Safe (P t w₀) rest w fun _ w' => Q t w₀ w'

variable {M} {start I J : W → Prop} {P : Task → W → W → Req → Prop}
  {Q : Task → W → W → Prop}

theorem Contract.step (contract : M.Contract start I J P Q) {s s' : State Req Resp W Task}
    (holds : M.Holds I J P Q s) (step : M.Step s s') : M.Holds I J P Q s' := by
  cases step with
  | begin admits =>
    obtain ⟨hI, hJ⟩ := holds
    exact ⟨admits, hI, hJ, hI, contract.task _ _ admits hI hJ⟩
  | call allowed =>
    obtain ⟨admits, hI₀, hJ₀, hI, permitted, rest⟩ := holds
    exact ⟨admits, hI₀, hJ₀, contract.call _ _ _ _ _ admits hI₀ hJ₀ hI permitted allowed,
      rest _ allowed⟩
  | finish =>
    obtain ⟨admits, hI₀, hJ₀, hI, post⟩ := holds
    exact contract.finish _ _ _ admits hI₀ hJ₀ hI post
  | crash => exact contract.crash _ holds.2.2.2.1
  | restart => exact contract.crash _ holds.1

theorem Contract.reachable (contract : M.Contract start I J P Q) {s : State Req Resp W Task}
    (reach : M.Reachable start s) : M.Holds I J P Q s := by
  induction reach with
  | start begins => exact contract.start _ begins
  | step _ step ih => exact contract.step ih step

/-- In every reachable state about to issue a request, the request is permitted. -/
theorem Contract.permitted (contract : M.Contract start I J P Q) {t : Task} {w₀ w : W} {q : Req}
    {rest : Resp q → Program Req Resp Unit}
    (reach : M.Reachable start (.busy t w₀ w (.call q rest))) : P t w₀ w q :=
  (contract.reachable reach).2.2.2.2.1

theorem Reachable.mono {start' : W → Prop} {s : State Req Resp W Task}
    (reach : M.Reachable start s) (more : ∀ w, start w → start' w) : M.Reachable start' s := by
  induction reach with
  | start begins => exact .start (more _ begins)
  | step _ step ih => exact .step ih step

theorem Reachable.begun {t : Task} {w : W} (reach : M.Reachable start (.idle w))
    (admits : M.admits w t) : M.Reachable start (.busy t w w (M.prog t)) :=
  .step reach (.begin admits)

/-- A reachable state stays reachable while its task runs on. -/
theorem Reachable.runs {t : Task} {w₀ w w' : W} {p p' : Program Req Resp Unit}
    (reach : M.Reachable start (.busy t w₀ w p)) (runs : M.sem.Runs p w p' w') :
    M.Reachable start (.busy t w₀ w' p') := by
  induction runs with
  | refl => exact reach
  | step _ allowed ih => exact .step ih (.call allowed)

/-- A task that is over leaves the service idle. -/
theorem Reachable.finished {t : Task} {w w' : W} {p : Program Req Resp Unit}
    (reach : M.Reachable start (.idle w)) (admits : M.admits w t)
    (runs : M.sem.Runs (M.prog t) w p w') (ended : p.result? = some ()) :
    M.Reachable start (.idle (M.finish w' t)) := by
  cases Program.eq_done ended
  exact .step ((reach.begun admits).runs runs) .finish

def State.world : State Req Resp W Task → W
  | .idle w => w
  | .busy _ _ w _ => w

theorem Contract.invariant (contract : M.Contract start I J P Q) {s : State Req Resp W Task}
    (reach : M.Reachable start s) : I s.world := by
  have holds := contract.reachable reach
  cases s with
  | idle w => exact holds.1
  | busy t w₀ w rest => exact holds.2.2.2.1

end Service
end Effect
