import Mathlib.Data.List.Induction
import Mathlib.Data.List.TakeWhile

/-! The words of a list: its maximal runs of elements that do not separate. -/
namespace Lex

variable {α : Type} {sep : α → Bool}

def words (sep : α → Bool) (l : List α) : List (List α) :=
  (l.splitOnP sep).filter fun word => !word.isEmpty

/-- No element of `word` separates. -/
def Solid (sep : α → Bool) (word : List α) : Prop := ∀ c ∈ word, sep c = false

/-- `word` is a maximal run of elements that do not separate. -/
def IsWord (sep : α → Bool) (l word : List α) : Prop :=
  word ≠ [] ∧ Solid sep word ∧ ∃ before after, l = before ++ (word ++ after) ∧
    (∀ c ∈ before.getLast?, sep c = true) ∧ ∀ c ∈ after.head?, sep c = true

@[simp] theorem words_nil : words sep ([] : List α) = [] := rfl

theorem words_append_cons (a b : List α) {c : α} (h : sep c = true) :
    words sep (a ++ c :: b) = words sep a ++ words sep b := by
  unfold words
  rw [List.splitOnP_append_cons a b h, List.filter_append]

theorem words_cons (b : List α) {c : α} (h : sep c = true) : words sep (c :: b) = words sep b :=
  words_append_cons [] b h

theorem words_solid {word : List α} (nonempty : word ≠ []) (solid : Solid sep word) :
    words sep word = [word] := by
  unfold words
  rw [List.splitOnP_eq_singleton solid]
  simp [nonempty]

theorem words_append_of_head {a b : List α} (h : ∀ c ∈ b.head?, sep c = true) :
    words sep (a ++ b) = words sep a ++ words sep b := by
  cases b with
  | nil => simp
  | cons c b => rw [words_append_cons a b (h c rfl), words_cons b (h c rfl)]

theorem words_append_of_last {a b : List α} (h : ∀ c ∈ a.getLast?, sep c = true) :
    words sep (a ++ b) = words sep a ++ words sep b := by
  cases a using List.reverseRecOn with
  | nil => rfl
  | append_singleton a c =>
    have hc : sep c = true := h c (by simp)
    rw [List.append_assoc, List.singleton_append, words_append_cons a b hc,
      words_append_cons a [] hc, words_nil, List.append_nil]

theorem words_blank {l : List α} (h : ∀ c ∈ l, sep c = true) : words sep l = [] := by
  induction l with
  | nil => rfl
  | cons c l ih =>
    rw [words_cons l (h c List.mem_cons_self)]
    exact ih fun d hd => h d (List.mem_cons_of_mem c hd)

theorem words_append_blank (l : List α) {blanks : List α} (h : ∀ c ∈ blanks, sep c = true) :
    words sep (l ++ blanks) = words sep l := by
  rw [words_append_of_head fun c hc => h c (List.mem_of_mem_head? hc), words_blank h,
    List.append_nil]

theorem words_blank_append (l : List α) {blanks : List α} (h : ∀ c ∈ blanks, sep c = true) :
    words sep (blanks ++ l) = words sep l := by
  rw [words_append_of_last fun c hc => h c (List.mem_of_getLast? hc), words_blank h,
    List.nil_append]

theorem head_dropWhile (p : α → Bool) (l : List α) :
    ∀ c ∈ (l.dropWhile p).head?, p c = false := by
  intro c hc
  have stopped := List.head?_dropWhile_not p l
  rw [Option.mem_def.mp hc] at stopped
  exact stopped

/-- What stands in front of the first word, the word, and what follows it. -/
theorem exists_first_word {l : List α} (h : ¬∀ c ∈ l, sep c = true) :
    ∃ blanks word rest, l = blanks ++ (word ++ rest) ∧ (∀ c ∈ blanks, sep c = true) ∧
      word ≠ [] ∧ Solid sep word ∧ ∀ c ∈ rest.head?, sep c = true := by
  refine ⟨l.takeWhile sep, (l.dropWhile sep).takeWhile (!sep ·),
    (l.dropWhile sep).dropWhile (!sep ·), ?_, fun c hc => List.mem_takeWhile_imp hc, ?_,
    fun c hc => ?_, fun c hc => ?_⟩
  · rw [List.takeWhile_append_dropWhile, List.takeWhile_append_dropWhile]
  · have remains := mt List.dropWhile_eq_nil_iff.mp h
    obtain ⟨c, rest, hrest⟩ := List.exists_cons_of_ne_nil remains
    have hc : sep c = false := head_dropWhile sep l c (by rw [hrest]; rfl)
    rw [hrest, List.takeWhile_cons_of_pos (by simp [hc])]
    exact List.cons_ne_nil _ _
  · simpa using List.mem_takeWhile_imp hc
  · simpa using head_dropWhile (!sep ·) _ c hc

theorem words_first {blanks word rest : List α} (blank : ∀ c ∈ blanks, sep c = true)
    (nonempty : word ≠ []) (solid : Solid sep word) (next : ∀ c ∈ rest.head?, sep c = true) :
    words sep (blanks ++ (word ++ rest)) = word :: words sep rest := by
  have last : ∀ c ∈ blanks.getLast?, sep c = true :=
    fun c hc => blank c (List.mem_of_getLast? hc)
  rw [words_append_of_last last, words_blank blank, words_append_of_head next,
    words_solid nonempty solid]
  rfl

theorem mem_words_of_isWord {l word : List α} (h : IsWord sep l word) : word ∈ words sep l := by
  obtain ⟨nonempty, solid, before, after, rfl, last, next⟩ := h
  rw [words_append_of_last last, words_append_of_head next, words_solid nonempty solid]
  simp

theorem isWord_of_mem {l word : List α} (h : word ∈ words sep l) : IsWord sep l word := by
  by_cases blank : ∀ c ∈ l, sep c = true
  · rw [words_blank blank] at h
    contradiction
  obtain ⟨blanks, first, rest, rfl, hblanks, nonempty, solid, next⟩ := exists_first_word blank
  rw [words_first hblanks nonempty solid next] at h
  rcases List.mem_cons.mp h with rfl | h
  · exact ⟨nonempty, solid, blanks, rest, rfl,
      fun c hc => hblanks c (List.mem_of_getLast? hc), next⟩
  · have shorter : rest.length < (blanks ++ (first ++ rest)).length := by
      have := List.length_pos_iff.mpr nonempty
      simp only [List.length_append]
      omega
    obtain ⟨nonempty', solid', before, after, hrest, last, next'⟩ := isWord_of_mem h
    refine ⟨nonempty', solid', blanks ++ (first ++ before), after, by simp [hrest], ?_, next'⟩
    intro c hc
    cases before with
    | nil =>
      obtain ⟨d, tail, rfl⟩ := List.exists_cons_of_ne_nil nonempty'
      have blank := next d (by rw [hrest]; rfl)
      rw [solid' d List.mem_cons_self] at blank
      contradiction
    | cons b before =>
      rw [List.getLast?_append, List.getLast?_append,
        List.getLast?_eq_some_getLast (List.cons_ne_nil b before), Option.some_or, Option.some_or,
        ← List.getLast?_eq_some_getLast] at hc
      exact last c hc
termination_by l.length

theorem mem_words {l word : List α} : word ∈ words sep l ↔ IsWord sep l word :=
  ⟨isWord_of_mem, mem_words_of_isWord⟩

theorem IsWord.append_left {before l word : List α}
    (last : ∀ c ∈ before.getLast?, sep c = true)
    (h : IsWord sep l word) : IsWord sep (before ++ l) word := by
  rw [← mem_words, words_append_of_last last]
  exact List.mem_append_right _ (mem_words.mpr h)

theorem IsWord.append_right {l word : List α} (last : ∀ c ∈ l.getLast?, sep c = true)
    (h : IsWord sep l word) (after : List α) : IsWord sep (l ++ after) word := by
  rw [← mem_words, words_append_of_last last]
  exact List.mem_append_left _ (mem_words.mpr h)

end Lex
