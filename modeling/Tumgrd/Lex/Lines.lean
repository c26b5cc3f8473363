import Mathlib.Data.List.Chain
import Mathlib.Data.List.Infix

/-! The lines of a list, which a pair of elements ends: a list that ends with the
pair has an empty last line. -/
namespace Lex

variable {α : Type} {cr lf : α}

def lines [DecidableEq α] (cr lf : α) : List α → List (List α)
  | [] => [[]]
  | [c] => [[c]]
  | c :: d :: rest =>
      if c = cr ∧ d = lf then [] :: lines cr lf rest
      else (lines cr lf (d :: rest)).modifyHead (c :: ·)

/-- No two neighbours end a line. -/
def Unbroken (cr lf : α) (l : List α) : Prop := l.IsChain fun c d => ¬(c = cr ∧ d = lf)

section Lines

variable [DecidableEq α]

theorem lines_ne_nil (l : List α) : lines cr lf l ≠ [] := by
  fun_induction lines cr lf l with
  | case1 => simp
  | case2 => simp
  | case3 => simp
  | case4 c d rest _ ih => simpa using ih

theorem lines_append (different : cr ≠ lf) (a b : List α) :
    lines cr lf (a ++ cr :: lf :: b) = lines cr lf a ++ lines cr lf b := by
  fun_induction lines cr lf a with
  | case1 => simp [lines]
  | case2 c =>
    rw [List.singleton_append, lines, if_neg (by simp [different])]
    simp [lines]
  | case3 c d rest sep ih =>
    rw [List.cons_append, List.cons_append, lines, if_pos sep, ih]
    rfl
  | case4 c d rest sep ih =>
    rw [List.cons_append, List.cons_append, lines, if_neg sep, ← List.cons_append, ih]
    have nonempty : lines cr lf (d :: rest) ≠ [] := lines_ne_nil _
    obtain ⟨line, more, split⟩ := List.exists_cons_of_ne_nil nonempty
    rw [split]
    rfl

theorem lines_eq_singleton_iff {l : List α} : lines cr lf l = [l] ↔ Unbroken cr lf l := by
  unfold Unbroken
  fun_induction lines cr lf l with
  | case1 => simp
  | case2 => simp
  | case3 c d rest sep => simp [sep]
  | case4 c d rest sep ih =>
    have nonempty : lines cr lf (d :: rest) ≠ [] := lines_ne_nil _
    obtain ⟨line, more, split⟩ := List.exists_cons_of_ne_nil nonempty
    rw [List.isChain_cons_cons, ← ih, split]
    simp [sep]

end Lines

theorem unbroken_iff {l : List α} : Unbroken cr lf l ↔ ¬[cr, lf] <:+: l := by
  unfold Unbroken
  rw [List.isChain_iff_forall_rel_of_append_cons_cons]
  constructor
  · rintro chain ⟨a, b, rfl⟩
    exact @chain cr lf a b (by simp) ⟨rfl, rfl⟩
  · rintro plain c d a b rfl ⟨rfl, rfl⟩
    exact plain ⟨a, b, by simp⟩

theorem unbroken_of_first {l : List α} (h : cr ∉ l) : Unbroken cr lf l := by
  rw [unbroken_iff]
  rintro ⟨a, b, rfl⟩
  simp at h

theorem unbroken_of_second {l : List α} (h : lf ∉ l) : Unbroken cr lf l := by
  rw [unbroken_iff]
  rintro ⟨a, b, rfl⟩
  simp at h

/-- What stands around a text does not break it. -/
theorem unbroken_surround {a b l : List α} (front : cr ∉ a) (back : lf ∉ b) :
    Unbroken cr lf (a ++ (l ++ b)) ↔ Unbroken cr lf l := by
  unfold Unbroken
  rw [List.isChain_append, List.isChain_append]
  constructor
  · exact fun chain => chain.2.1.1
  · intro chain
    refine ⟨unbroken_of_first front, ⟨chain, unbroken_of_second back, ?_⟩, ?_⟩
    · rintro c _ d hd ⟨-, rfl⟩
      exact back (List.mem_of_mem_head? hd)
    · rintro c hc d _ ⟨rfl, -⟩
      exact front (List.mem_of_getLast? hc)

end Lex
