import Mathlib.Data.Finset.Basic
import Tumgrd.Effect.Process

/-! Processes that hold handles. A request works on a handle, takes one back or
gives one out; nothing else happens to them. -/
namespace Effect

open Surroundings

structure Custody (Req : Type) (Resp : Req → Type) (H : Type) where
  uses : Req → Finset H
  frees : Req → Option H
  gives : (q : Req) → Resp q → Option H

/-- A world and the handles that are held in it. -/
@[ext] structure Holding (W H : Type) where
  world : W
  live : Finset H

namespace Custody

variable {Req : Type} {Resp : Req → Type} {W H α β σ : Type} [DecidableEq H]
  (C : Custody Req Resp H)

/-- What is used or taken back is held. -/
def Allows (live : Finset H) (q : Req) : Prop :=
  C.uses q ⊆ live ∧ ∀ h ∈ C.frees q, h ∈ live

def after (live : Finset H) (q : Req) (r : Resp q) : Finset H :=
  let kept := (C.frees q).elim live live.erase
  (C.gives q r).elim kept fun h => insert h kept

/-- A handle is not given out while it is held. -/
def surroundings (answers : W → (q : Req) → Resp q → W → Prop) :
    Surroundings Req Resp (Holding W H) where
  answers w q r w' := answers w.world q r w'.world ∧ (∀ h ∈ C.gives q r, h ∉ w.live) ∧
    w'.live = C.after w.live q r
  event _ _ := False

/-- Total correctness of a process that treats its handles as it should. -/
abbrev Tends (answers : W → (q : Req) → Resp q → W → Prop) (P : W → Req → Prop)
    (p : Process Req Resp α) (w : Holding W H) (Q : α → Holding W H → Prop) : Prop :=
  (C.surroundings answers).Correct True (fun w q => C.Allows w.live q ∧ P w.world q) p w Q

variable {C} {answers : W → (q : Req) → Resp q → W → Prop} {P : W → Req → Prop}
  {p : Process Req Resp α} {w w' : Holding W H} {Q : α → Holding W H → Prop}

theorem stable (A : Holding W H → Prop) : (C.surroundings answers).Stable A :=
  fun _ _ _ event => event.elim

theorem tends_pure {value : α} (post : Q value w) : C.Tends answers P (pure value) w Q :=
  correct_of_stable (stable (Q value)) post value fun _ h => h

/-- The rule for a request. -/
theorem tends_perform {q : Req} {f : Resp q → Process Req Resp α} (allowed : C.Allows w.live q)
    (permitted : P w.world q)
    (answered : ∃ r v, answers w.world q r v ∧ ∀ h ∈ C.gives q r, h ∉ w.live)
    (rest : ∀ r v, answers w.world q r v → (∀ h ∈ C.gives q r, h ∉ w.live) →
      C.Tends answers P (f r) ⟨v, C.after w.live q r⟩ Q) :
    C.Tends answers P (Process.perform q >>= f) w Q := by
  refine correct_perform (A := (w = ·)) (stable _) rfl ?_
  rintro _ rfl
  refine ⟨⟨allowed, permitted⟩, fun _ => ?_, ?_⟩
  · obtain ⟨r, v, given, fresh⟩ := answered
    exact ⟨w, r, ⟨v, _⟩, .refl _ w, given, fresh, rfl⟩
  · rintro r ⟨v, live⟩ ⟨given, fresh, same⟩
    obtain rfl : live = _ := same
    exact rest r v given fresh

section Kinds

variable {q : Req} {f : Resp q → Process Req Resp α} {h : H}

/-- A request that only works on handles. -/
theorem tends_use (uses : C.uses q ⊆ w.live) (frees : C.frees q = none)
    (gives : ∀ r, C.gives q r = none) (permitted : P w.world q)
    (answered : ∃ r v, answers w.world q r v)
    (rest : ∀ r v, answers w.world q r v → C.Tends answers P (f r) ⟨v, w.live⟩ Q) :
    C.Tends answers P (Process.perform q >>= f) w Q := by
  refine tends_perform ⟨uses, by simp [frees]⟩ permitted ?_ fun r v given _ => ?_
  · obtain ⟨r, v, given⟩ := answered
    exact ⟨r, v, given, by simp [gives]⟩
  · have same : C.after w.live q r = w.live := by simp [after, frees, gives]
    rw [same]
    exact rest r v given

/-- A request that takes a handle back. -/
theorem tends_free (uses : C.uses q ⊆ w.live) (frees : C.frees q = some h)
    (gives : ∀ r, C.gives q r = none) (held : h ∈ w.live) (permitted : P w.world q)
    (answered : ∃ r v, answers w.world q r v)
    (rest : ∀ r v, answers w.world q r v → C.Tends answers P (f r) ⟨v, w.live.erase h⟩ Q) :
    C.Tends answers P (Process.perform q >>= f) w Q := by
  refine tends_perform ⟨uses, by simp [frees, held]⟩ permitted ?_ fun r v given _ => ?_
  · obtain ⟨r, v, given⟩ := answered
    exact ⟨r, v, given, by simp [gives]⟩
  · have same : C.after w.live q r = w.live.erase h := by simp [after, frees, gives]
    rw [same]
    exact rest r v given

/-- A request that may give a handle out. -/
theorem tends_give (uses : C.uses q ⊆ w.live) (frees : C.frees q = none)
    (permitted : P w.world q)
    (answered : ∃ r v, answers w.world q r v ∧ C.gives q r = none)
    (without : ∀ r v, answers w.world q r v → C.gives q r = none →
      C.Tends answers P (f r) ⟨v, w.live⟩ Q)
    (given : ∀ r v h, answers w.world q r v → C.gives q r = some h → h ∉ w.live →
      C.Tends answers P (f r) ⟨v, insert h w.live⟩ Q) :
    C.Tends answers P (Process.perform q >>= f) w Q := by
  refine tends_perform ⟨uses, by simp [frees]⟩ permitted ?_ fun r v answer fresh => ?_
  · obtain ⟨r, v, answer, gives⟩ := answered
    exact ⟨r, v, answer, by simp [gives]⟩
  · cases gives : C.gives q r with
    | none =>
      have same : C.after w.live q r = w.live := by simp [after, frees, gives]
      rw [same]
      exact without r v answer gives
    | some h =>
      have same : C.after w.live q r = insert h w.live := by simp [after, frees, gives]
      rw [same]
      exact given r v h answer gives (fresh h gives)

end Kinds

theorem tends_bind {p : Process Req Resp β} {f : β → Process Req Resp α}
    {R : β → Holding W H → Prop} (first : C.Tends answers P p w R)
    (rest : ∀ value v, R value v → C.Tends answers P (f value) v Q) :
    C.Tends answers P (p >>= f) w Q :=
  (correct_bind f Q).mpr (first.post rest)

/-- The rule for a loop, with what is left to do as its measure. -/
theorem tends_iterate {body : σ → Process Req Resp (σ ⊕ α)} {s : σ}
    (measure : σ → W → Nat)
    (I : σ → Holding W H → Prop) (start : I s w)
    (step : ∀ s v, I s v → C.Tends answers P (body s) v fun
      | .inl s', v' => measure s' v'.world < measure s v.world ∧ I s' v'
      | .inr value, v' => Q value v') :
    C.Tends answers P (Process.iterate body s) w Q := by
  refine correct_iterate (fun n s v => n = measure s v.world ∧ I s v) ⟨rfl, start⟩ ?_
    fun value => stable (Q value)
  rintro n s v ⟨rfl, inv⟩
  refine (step s v inv).post ?_
  rintro (s' | value) v' result
  · exact ⟨_, fun _ => result.1, rfl, result.2⟩
  · exact result

end Custody
end Effect
