import Tumgrd.Effect.Program

/-! One program in two surroundings, of which one knows less of the world. What
the coarse surroundings allow is computed without the world; the fine ones only
have to show that each of their answers is among it, or that the program takes
it for one that is. -/
namespace Effect
namespace Semantics

variable {Req : Type} {Resp : Req → Type} {W V α : Type} {S : Semantics Req Resp W}
  {T : Semantics Req Resp V} {P : W → Req → Prop} {R : W → V → Prop}
  {p p' : Program Req Resp α} {w w' : W} {u : V} {Q : α → W → Prop}

/-- An execution in the fine surroundings is one in the coarse ones. -/
theorem Safe.abstraction (fine : S.Safe P p w Q) (alike : R w u)
    (step : ∀ w u q r, P w q → R w u → S.allowed w q r →
      T.allowed u q r ∧ R (S.after w q r) (T.after u q r))
    (runs : S.Runs p w p' w') : ∃ u', R w' u' ∧ T.Runs p u p' u' := by
  induction runs with
  | refl => exact ⟨u, alike, .refl _ _⟩
  | step before allowed ih =>
    obtain ⟨u', alike', runs'⟩ := ih
    obtain ⟨given, alike''⟩ := step _ u' _ _ (fine.runs before).1 alike' allowed
    exact ⟨_, alike'', .step runs' given⟩

end Semantics

namespace Program

variable {Req : Type} {Resp : Req → Type} {α β : Type}
  {E : (q : Req) → Resp q → Resp q → Prop}

/-- The program goes on alike after answers that `E` relates. -/
def Blind (E : (q : Req) → Resp q → Resp q → Prop) : Program Req Resp α → Prop
  | .done _ => True
  | .call q rest => (∀ r r', E q r r' → rest r = rest r') ∧ ∀ r, Blind E (rest r)

theorem blind_pure (value : α) : Blind E (pure value : Program Req Resp α) := trivial

theorem blind_perform {q : Req} (sharp : ∀ r r', E q r r' → r = r') :
    Blind E (perform q : Program Req Resp (Resp q)) :=
  ⟨fun r r' related => congrArg _ (sharp r r' related), fun _ => trivial⟩

theorem Blind.bind {p : Program Req Resp α} {f : α → Program Req Resp β} (first : Blind E p)
    (rest : ∀ value, Blind E (f value)) : Blind E (p >>= f) := by
  induction p with
  | done value => exact rest value
  | call q tail ih =>
    refine ⟨fun r r' related => ?_, fun r => ih r (first.2 r)⟩
    exact congrArg (fun p => Program.bind p f) (first.1 r r' related)

end Program

namespace Semantics

variable {Req : Type} {Resp : Req → Type} {W V α : Type} {S : Semantics Req Resp W}
  {T : Semantics Req Resp V} {P : V → Req → Prop} {R : W → V → Prop}
  {E : (q : Req) → Resp q → Resp q → Prop} {p : Program Req Resp α} {w w' : W} {u : V}
  {value : α} {Q : α → V → Prop}

/-- A finished execution is one in the coarse surroundings as well, where the
answers may differ in what the program does not see. -/
theorem Safe.simulation (coarse : T.Safe P p u Q) (blind : p.Blind E) (alike : R w u)
    (step : ∀ w u q r, P u q → R w u → S.allowed w q r →
      ∃ r', E q r r' ∧ T.allowed u q r' ∧ R (S.after w q r) (T.after u q r'))
    (runs : S.Runs p w (.done value) w') : ∃ u', T.Runs p u (.done value) u' ∧ R w' u' := by
  induction p generalizing w u with
  | done result =>
    obtain ⟨rfl, rfl⟩ := runs_pure runs
    exact ⟨u, .refl _ _, alike⟩
  | call q rest ih =>
    obtain ⟨r, allowed, runs⟩ := runs_call runs
    obtain ⟨r', related, allowed', alike'⟩ := step _ _ _ _ coarse.1 alike allowed
    rw [blind.1 r r' related] at runs
    obtain ⟨u', runs', alike''⟩ := ih r' (coarse.2 r' allowed') (blind.2 r') alike' runs
    exact ⟨u', Runs.head T allowed' runs', alike''⟩

end Semantics
end Effect
