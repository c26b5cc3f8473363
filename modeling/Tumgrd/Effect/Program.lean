import Mathlib.Logic.Relation

/-! Programs that talk to an environment, as trees of requests. A program is
finished, or it issues one request and goes on with whatever the environment
answers. The environment is a relation on a world, so an answer may be any of
several, and a program may be cut off between any two requests. -/
namespace Effect

inductive Program (Req : Type) (Resp : Req → Type) (α : Type) where
  | done (value : α)
  | call (q : Req) (rest : Resp q → Program Req Resp α)

namespace Program

variable {Req : Type} {Resp : Req → Type} {α β γ : Type}

def bind (p : Program Req Resp α) (f : α → Program Req Resp β) : Program Req Resp β :=
  match p with
  | .done value => f value
  | .call q rest => .call q fun r => (rest r).bind f

instance : Monad (Program Req Resp) where
  pure := .done
  bind := bind

def perform (q : Req) : Program Req Resp (Resp q) := .call q .done

/-- What the program is about to request. -/
def request? : Program Req Resp α → Option Req
  | .done _ => none
  | .call q _ => some q

theorem eq_call {p : Program Req Resp α} {q : Req} (h : p.request? = some q) :
    ∃ rest, p = .call q rest := by
  cases p with
  | done value => contradiction
  | call q' rest =>
    cases h
    exact ⟨rest, rfl⟩

def result? : Program Req Resp α → Option α
  | .done value => some value
  | .call _ _ => none

theorem eq_done {p : Program Req Resp α} {value : α} (h : p.result? = some value) :
    p = .done value := by
  cases p with
  | done value' =>
    cases h
    rfl
  | call q rest => contradiction

/-- All requests of the program when they are answered so. -/
def asked (answer : (q : Req) → Resp q) : Program Req Resp α → List Req
  | .done _ => []
  | .call q rest => q :: asked answer (rest (answer q))

theorem bind_assoc (p : Program Req Resp α) (f : α → Program Req Resp β)
    (g : β → Program Req Resp γ) :
    (p.bind f).bind g = p.bind fun value => (f value).bind g := by
  induction p with
  | done value => rfl
  | call q rest ih =>
    simp only [bind]
    congr 1
    funext r
    exact ih r

theorem bind_done (p : Program Req Resp α) : p.bind .done = p := by
  induction p with
  | done value => rfl
  | call q rest ih =>
    simp only [bind]
    congr 1
    funext r
    exact ih r

instance : LawfulMonad (Program Req Resp) :=
  LawfulMonad.mk' _ (fun p => bind_done p) (fun _ _ => rfl) (fun p f g => bind_assoc p f g)

/-- Whatever is answered, the program issues requests of `P` only and ends in `Q`. -/
def Emits (P : Req → Prop) (Q : α → Prop) : Program Req Resp α → Prop
  | .done value => Q value
  | .call q rest => P q ∧ ∀ r, Emits P Q (rest r)

section Emits

variable {P P' : Req → Prop} {Q Q' : α → Prop} {p : Program Req Resp α}

@[simp] theorem emits_pure (value : α) :
    Emits P Q (pure value : Program Req Resp α) ↔ Q value := Iff.rfl

@[simp] theorem emits_perform (q : Req) (Q : Resp q → Prop) :
    Emits P Q (perform q : Program Req Resp (Resp q)) ↔ P q ∧ ∀ r, Q r := Iff.rfl

@[simp] theorem emits_bind (f : α → Program Req Resp β) (Q : β → Prop) :
    Emits P Q (p >>= f) ↔ Emits P (fun value => Emits P Q (f value)) p := by
  induction p with
  | done value => rfl
  | call q rest ih =>
    apply and_congr_right
    intro _
    exact forall_congr' ih

theorem Emits.mono (emits : Emits P Q p) (requests : ∀ q, P q → P' q)
    (post : ∀ value, Q value → Q' value) : Emits P' Q' p := by
  induction p with
  | done value => exact post value emits
  | call q rest ih => exact ⟨requests q emits.1, fun r => ih r (emits.2 r)⟩

theorem Emits.post (emits : Emits P Q p) (post : ∀ value, Q value → Q' value) : Emits P Q' p :=
  emits.mono (fun _ permitted => permitted) post

end Emits

end Program

/-- What the environment may answer to a request, and the world it leaves. The
answer decides the next world, so all nondeterminism is in `allowed`. -/
structure Semantics (Req : Type) (Resp : Req → Type) (W : Type) where
  allowed : W → (q : Req) → Resp q → Prop
  after : W → (q : Req) → Resp q → W

namespace Semantics

variable {Req : Type} {Resp : Req → Type} {W α β : Type} (S : Semantics Req Resp W)

/-- Every prefix of an execution: the program has reached `p'` in world `w'`. -/
inductive Runs : Program Req Resp α → W → Program Req Resp α → W → Prop
  | refl (p : Program Req Resp α) (w : W) : Runs p w p w
  | step {p : Program Req Resp α} {w w' : W} {q : Req}
      {rest : Resp q → Program Req Resp α} {r : Resp q} :
      Runs p w (.call q rest) w' → S.allowed w' q r → Runs p w (rest r) (S.after w' q r)

theorem Runs.trans {p₁ p₂ p₃ : Program Req Resp α} {w₁ w₂ w₃ : W}
    (first : S.Runs p₁ w₁ p₂ w₂) (second : S.Runs p₂ w₂ p₃ w₃) :
    S.Runs p₁ w₁ p₃ w₃ := by
  induction second with
  | refl => exact first
  | step _ allowed ih => exact .step ih allowed

theorem Runs.head {q : Req} {rest : Resp q → Program Req Resp α} {w w' : W} {r : Resp q}
    {p' : Program Req Resp α} (allowed : S.allowed w q r)
    (tail : S.Runs (rest r) (S.after w q r) p' w') : S.Runs (.call q rest) w p' w' :=
  Runs.trans S (.step (.refl _ _) allowed) tail

/-- What a program does, it does in front of another one as well. -/
theorem Runs.bind {f : α → Program Req Resp β} {p p' : Program Req Resp α} {w w' : W}
    (runs : S.Runs p w p' w') : S.Runs (p >>= f) w (p' >>= f) w' := by
  induction runs with
  | refl => exact .refl _ _
  | step _ allowed ih => exact .step ih allowed

theorem Runs.seq {f : α → Program Req Resp β} {p : Program Req Resp α} {value : α}
    {w w' w'' : W}
    {p' : Program Req Resp β} (first : S.Runs p w (.done value) w')
    (second : S.Runs (f value) w' p' w'') : S.Runs (p >>= f) w p' w'' :=
  (first.bind S).trans S second

/-- Every request of the program is permitted where it is issued, and every
result satisfies the postcondition. A program cut off early has only issued
permitted requests. -/
def Safe (P : W → Req → Prop) : Program Req Resp α → W → (α → W → Prop) → Prop
  | .done value, w, Q => Q value w
  | .call q rest, w, Q =>
      P w q ∧ ∀ r, S.allowed w q r → Safe P (rest r) (S.after w q r) Q

variable {S} {P P' : W → Req → Prop} {p : Program Req Resp α} {w w' : W}

@[simp] theorem safe_pure (value : α) (Q : α → W → Prop) :
    S.Safe P (pure value) w Q ↔ Q value w := Iff.rfl

@[simp] theorem safe_done (value : α) (Q : α → W → Prop) :
    S.Safe P (.done value) w Q ↔ Q value w := Iff.rfl

theorem safe_perform (q : Req) (Q : Resp q → W → Prop) :
    S.Safe P (Program.perform q) w Q ↔
      P w q ∧ ∀ r, S.allowed w q r → Q r (S.after w q r) := Iff.rfl

@[simp] theorem safe_bind (f : α → Program Req Resp β) (Q : β → W → Prop) :
    S.Safe P (p >>= f) w Q ↔ S.Safe P p w fun value w' => S.Safe P (f value) w' Q := by
  induction p generalizing w with
  | done value => rfl
  | call q rest ih =>
    refine and_congr_right fun _ => forall_congr' fun r => imp_congr_right fun _ => ?_
    exact ih r

/-- The rule of consequence: weaker permissions and a weaker postcondition. -/
theorem Safe.mono {Q Q' : α → W → Prop} (safe : S.Safe P p w Q)
    (permits : ∀ w q, P w q → P' w q) (post : ∀ value w, Q value w → Q' value w) :
    S.Safe P' p w Q' := by
  induction p generalizing w with
  | done value => exact post _ _ safe
  | call q rest ih => exact ⟨permits _ _ safe.1, fun r allowed => ih r (safe.2 r allowed)⟩

theorem Safe.post {Q Q' : α → W → Prop} (safe : S.Safe P p w Q)
    (post : ∀ value w, Q value w → Q' value w) : S.Safe P p w Q' :=
  safe.mono (fun _ _ permitted => permitted) post

/-- What every permitted step preserves may be assumed of every request and of
the result. -/
theorem Safe.invariant {Q : α → W → Prop} {I : W → Prop}
    (safe : S.Safe P p w Q) (start : I w)
    (keeps : ∀ w q r, I w → P w q → S.allowed w q r → I (S.after w q r)) :
    S.Safe (fun w q => P w q ∧ I w) p w fun value w' => Q value w' ∧ I w' := by
  induction p generalizing w with
  | done value => exact ⟨safe, start⟩
  | call q rest ih =>
    refine ⟨⟨safe.1, start⟩, fun r allowed => ?_⟩
    exact ih r (safe.2 r allowed) (keeps w q r start safe.1 allowed)

theorem Safe.and {Q Q' : α → W → Prop} (safe : S.Safe P p w Q) (safe' : S.Safe P' p w Q') :
    S.Safe (fun w q => P w q ∧ P' w q) p w fun value w => Q value w ∧ Q' value w := by
  induction p generalizing w with
  | done value => exact ⟨safe, safe'⟩
  | call q rest ih =>
    exact ⟨⟨safe.1, safe'.1⟩, fun r allowed => ih r (safe.2 r allowed) (safe'.2 r allowed)⟩

/-- Fewer answers, and fewer worlds, only remove executions. -/
theorem Safe.restrict {S' : Semantics Req Resp W} {Q : α → W → Prop} (safe : S.Safe P p w Q)
    (fewer : ∀ w q r, S'.allowed w q r → S.allowed w q r)
    (same : ∀ w q r, S'.after w q r = S.after w q r) : S'.Safe P p w Q := by
  induction p generalizing w with
  | done value => exact safe
  | call q rest ih =>
    refine ⟨safe.1, fun r allowed => ?_⟩
    rw [same]
    exact ih r (safe.2 r (fewer w q r allowed))

theorem Safe.runs {Q : α → W → Prop} {p' : Program Req Resp α} (safe : S.Safe P p w Q)
    (runs : S.Runs p w p' w') : S.Safe P p' w' Q := by
  induction runs with
  | refl => exact safe
  | step _ allowed ih => exact ih.2 _ allowed

/-- The proof rule and the executions say the same thing. -/
theorem safe_iff_runs (Q : α → W → Prop) :
    S.Safe P p w Q ↔
      (∀ q rest w', S.Runs p w (.call q rest) w' → P w' q) ∧
      (∀ value w', S.Runs p w (.done value) w' → Q value w') := by
  constructor
  · intro safe
    exact ⟨fun q rest w' runs => (safe.runs runs).1, fun value w' runs => safe.runs runs⟩
  · rintro ⟨calls, results⟩
    induction p generalizing w with
    | done value => exact results _ _ (.refl _ _)
    | call q rest ih =>
      refine ⟨calls _ _ _ (.refl _ _), fun r allowed => ih r ?_ ?_⟩
      · exact fun q' rest' w' runs => calls _ _ _ (Runs.head S allowed runs)
      · exact fun value w' runs => results _ _ (Runs.head S allowed runs)

theorem Safe.result {Q : α → W → Prop} {value : α} (safe : S.Safe P p w Q)
    (runs : S.Runs p w (.done value) w') : Q value w' :=
  safe.runs runs

theorem safe_of_emits {P : Req → Prop} {Q : α → Prop}
    (emits : p.Emits P Q) : S.Safe (fun _ q => P q) p w fun value _ => Q value := by
  induction p generalizing w with
  | done value => exact emits
  | call q rest ih => exact ⟨emits.1, fun r _ => ih r (emits.2 r)⟩

/-- What the first part of a sequence establishes, and no later request undoes. -/
theorem safe_keep {P : Req → Prop} {Q : β → Prop} {I : W → Prop}
    {f : α → Program Req Resp β}
    (emits : (p >>= f).Emits P Q) (first : S.Safe (fun _ _ => True) p w fun _ v => I v)
    (keeps : ∀ w q r, I w → P q → S.allowed w q r → I (S.after w q r)) :
    S.Safe (fun _ _ => True) (p >>= f) w fun value v => Q value ∧ I v := by
  rw [safe_bind]
  have parts := (safe_of_emits (S := S) (w := w) ((Program.emits_bind f Q).mp emits)).and first
  refine parts.mono (fun _ _ _ => trivial) fun value v ⟨later, established⟩ => ?_
  exact ((safe_of_emits later).invariant established keeps).mono (fun _ _ _ => trivial)
    fun _ _ h => h

/-- A finished run of a sequence is one of its first part and one of the rest. -/
theorem runs_bind {f : α → Program Req Resp β} {value : β}
    (runs : S.Runs (p >>= f) w (.done value) w') :
    ∃ first v, S.Runs p w (.done first) v ∧ S.Runs (f first) v (.done value) w' := by
  have safe : S.Safe (fun _ _ => True) (p >>= f) w fun value w' =>
      ∃ first v, S.Runs p w (.done first) v ∧ S.Runs (f first) v (.done value) w' := by
    rw [safe_bind, safe_iff_runs]
    refine ⟨fun _ _ _ _ => trivial, fun first v before => ?_⟩
    rw [safe_iff_runs]
    exact ⟨fun _ _ _ _ => trivial, fun value w' after => ⟨first, v, before, after⟩⟩
  exact safe.result runs

theorem runs_pure {value value' : α}
    (runs : S.Runs (pure value) w (.done value') w') : value' = value ∧ w' = w := by
  have safe : S.Safe (fun _ _ => True) (pure value) w fun value' w' => value' = value ∧ w' = w :=
    ⟨rfl, rfl⟩
  exact safe.result runs

theorem runs_perform {q : Req} {r : Resp q}
    (runs : S.Runs (Program.perform q) w (.done r) w') :
    S.allowed w q r ∧ w' = S.after w q r := by
  have safe : S.Safe (fun _ _ => True) (Program.perform q) w fun r w' =>
      S.allowed w q r ∧ w' = S.after w q r :=
    ⟨trivial, fun _ allowed => ⟨allowed, rfl⟩⟩
  exact safe.result runs

theorem runs_call {q : Req} {rest : Resp q → Program Req Resp α} {value : α}
    (runs : S.Runs (.call q rest) w (.done value) w') :
    ∃ r, S.allowed w q r ∧ S.Runs (rest r) (S.after w q r) (.done value) w' := by
  obtain ⟨r, v, asked, runs⟩ := runs_bind (p := Program.perform q) (f := rest) runs
  obtain ⟨allowed, rfl⟩ := runs_perform asked
  exact ⟨r, allowed, runs⟩

/-- More answers keep all executions. -/
theorem Runs.widen {S' : Semantics Req Resp W} {p' : Program Req Resp α} (runs : S'.Runs p w p' w')
    (fewer : ∀ w q r, S'.allowed w q r → S.allowed w q r) (same : S'.after = S.after) :
    S.Runs p w p' w' := by
  induction runs with
  | refl => exact .refl _ _
  | step _ allowed ih =>
    rw [same]
    exact .step ih (fewer _ _ _ allowed)

/-- Two executions of one program, in worlds that are alike enough to answer its
requests alike, have one result and end in worlds that are alike. -/
theorem Safe.lockstep {R : W → W → Prop} {Q : α → W → Prop} {u v u' v' : W}
    {value value' : α}
    (safe : S.Safe P p u Q) (alike : R u u')
    (step : ∀ u u' q r r', P u q → R u u' → S.allowed u q r → S.allowed u' q r' →
      r = r' ∧ R (S.after u q r) (S.after u' q r))
    (runs : S.Runs p u (.done value) v) (runs' : S.Runs p u' (.done value') v') :
    value = value' ∧ R v v' := by
  induction p generalizing u u' with
  | done result =>
    obtain ⟨rfl, rfl⟩ := runs_pure runs
    obtain ⟨rfl, rfl⟩ := runs_pure runs'
    exact ⟨rfl, alike⟩
  | call q rest ih =>
    obtain ⟨r, allowed, runs⟩ := runs_call runs
    obtain ⟨r', allowed', runs'⟩ := runs_call runs'
    obtain ⟨rfl, alike'⟩ := step _ _ _ _ _ safe.1 alike allowed allowed'
    exact ih r (safe.2 r allowed) alike' runs runs'

/-- A loop over a list: an assertion about the items still to come carries from
one iteration to the next. -/
theorem safe_mapM {items : List β} {f : β → Program Req Resp α}
    (I : List β → List α → W → Prop) {Q : List α → W → Prop} (start : I items [] w)
    (body : ∀ item rest done w, I (item :: rest) done w →
      S.Safe P (f item) w fun value w' => I rest (done ++ [value]) w')
    (finish : ∀ done w, I [] done w → Q done w) :
    S.Safe P (items.mapM f) w Q := by
  suffices general : ∀ (items : List β) (done : List α) (w : W) (Q : List α → W → Prop),
      I items done w → (∀ all w, I [] (done ++ all) w → Q all w) →
        S.Safe P (items.mapM f) w Q from
    general items [] w Q start fun all w' h => finish all w' (by simpa using h)
  intro items
  induction items with
  | nil =>
    intro done w Q h finish
    simpa using finish [] w (by simpa using h)
  | cons item rest ih =>
    intro done w Q h finish
    simp only [List.mapM_cons, safe_bind]
    refine (body item rest done w h).post fun value w' h' => ?_
    refine ih (done ++ [value]) w' _ h' fun all w'' h'' => ?_
    simpa using finish (value :: all) w'' (by simpa using h'')

/-- The same environment, without the answers that lead out of `I`. -/
def within (S : Semantics Req Resp W) (I : W → Prop) : Semantics Req Resp W where
  allowed w q r := S.allowed w q r ∧ I (S.after w q r)
  after := S.after

theorem Safe.within {Q : α → W → Prop} {I : W → Prop} (safe : S.Safe P p w Q) :
    (S.within I).Safe P p w Q :=
  safe.restrict (fun _ _ _ allowed => allowed.1) fun _ _ _ => rfl

section Play

variable (after : W → (q : Req) → Resp q → W) (answer : W → (q : Req) → Resp q)

/-- The first `fuel` answers of a deterministic environment. -/
def playFor : Nat → Program Req Resp α → W → Program Req Resp α × W
  | 0, p, w => (p, w)
  | _ + 1, .done value, w => (.done value, w)
  | fuel + 1, .call q rest, w => playFor fuel (rest (answer w q)) (after w q (answer w q))

/-- The worlds these answers lead to are all in `I`. -/
def Stays (I : W → Prop) : Nat → Program Req Resp α → W → Prop
  | 0, _, _ => True
  | _ + 1, .done _, _ => True
  | fuel + 1, .call q rest, w => I (after w q (answer w q)) ∧
      Stays I fuel (rest (answer w q)) (after w q (answer w q))

instance decidableStays (I : W → Prop) [DecidablePred I] (fuel : Nat) (p : Program Req Resp α)
    (w : W) : Decidable (Stays after answer I fuel p w) :=
  match fuel, p with
  | 0, _ => .isTrue trivial
  | _ + 1, .done _ => .isTrue trivial
  | fuel + 1, .call q rest =>
      have := decidableStays I fuel (rest (answer w q)) (after w q (answer w q))
      inferInstanceAs (Decidable (_ ∧ _))

variable {answer}

theorem runs_playFor (fair : ∀ w q, S.allowed w q (answer w q)) (fuel : Nat)
    (p : Program Req Resp α) (w : W) :
    S.Runs p w (playFor S.after answer fuel p w).1 (playFor S.after answer fuel p w).2 := by
  induction fuel generalizing p w with
  | zero => exact .refl _ _
  | succ fuel ih =>
    cases p with
    | done value => exact .refl _ _
    | call q rest => exact Runs.head S (fair w q) (ih _ _)

/-- Where every request has an answer, every program can be run to its end. -/
theorem exists_run (fair : ∀ w q, S.allowed w q (answer w q)) (p : Program Req Resp α) (w : W) :
    ∃ value w', S.Runs p w (.done value) w' := by
  induction p generalizing w with
  | done value => exact ⟨value, w, .refl _ _⟩
  | call q rest ih =>
    obtain ⟨value, w', runs⟩ := ih (answer w q) (S.after w q (answer w q))
    exact ⟨value, w', Runs.head S (fair w q) runs⟩

theorem runs_playFor_within {I : W → Prop}
    (fair : ∀ w q, S.allowed w q (answer w q)) {fuel : Nat}
    {p : Program Req Resp α} {w : W} (stays : Stays S.after answer I fuel p w) :
    (S.within I).Runs p w (playFor S.after answer fuel p w).1
      (playFor S.after answer fuel p w).2 := by
  induction fuel generalizing p w with
  | zero => exact .refl _ _
  | succ fuel ih =>
    cases p with
    | done value => exact .refl _ _
    | call q rest => exact Runs.head (S.within I) ⟨fair w q, stays.1⟩ (ih stays.2)

end Play

end Semantics
end Effect
