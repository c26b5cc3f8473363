import Mathlib.Data.List.TakeWhile
import Mathlib.Tactic.Common

/-! The numerals of C: what `strtol` and its kin read off the front of a text. -/
namespace Lex

/-- The value of a digit, or of a letter that follows the digits. -/
def digitValue (c : Char) : Option Nat :=
  if '0' ≤ c ∧ c ≤ '9' then some (c.toNat - '0'.toNat)
  else if 'a' ≤ c ∧ c ≤ 'z' then some (c.toNat - 'a'.toNat + 10)
  else if 'A' ≤ c ∧ c ≤ 'Z' then some (c.toNat - 'A'.toNat + 10)
  else none

def isDigitOf (base : Nat) (c : Char) : Bool := (digitValue c).any fun d => d < base

/-- The digits are read from the left. -/
def digitsValue (base : Nat) (digits : List Char) : Nat :=
  digits.foldl (fun value c => value * base + (digitValue c).getD 0) 0

structure Scanned where
  negative : Bool
  value : Nat
  rest : List Char
  deriving DecidableEq

def scanSign : List Char → Bool × List Char
  | '-' :: rest => (true, rest)
  | '+' :: rest => (false, rest)
  | rest => (false, rest)

/-- The base of a literal whose base is not given, and the text behind its
prefix. The leading zero of an octal literal is one of its digits. -/
def scanPrefix : List Char → Nat × List Char
  | '0' :: x :: c :: rest =>
      if (x = 'x' ∨ x = 'X') ∧ isDigitOf 16 c then (16, c :: rest)
      else (8, '0' :: x :: c :: rest)
  | '0' :: rest => (8, '0' :: rest)
  | rest => (10, rest)

def scanDigits (base : Nat) (text : List Char) : Option (Nat × List Char) :=
  let digits := text.takeWhile (isDigitOf base)
  if digits = [] then none else some (digitsValue base digits, text.dropWhile (isDigitOf base))

/-- The subject sequence of `strtol` and what is left behind it; a base of 0 is
found out from the text. A base of 16, for which a prefix is optional, is not
covered. -/
def scan (blank : Char → Bool) (base : Nat) (text : List Char) : Option Scanned := do
  let (negative, unsigned) := scanSign (text.dropWhile blank)
  let (base, digits) := if base = 0 then scanPrefix unsigned else (base, unsigned)
  let (value, rest) ← scanDigits base digits
  pure ⟨negative, value, rest⟩

/-- A literal of a base that is found out, and its value. -/
inductive Literal : List Char → Nat → Prop
  | hex {x : Char} {digits : List Char} : x = 'x' ∨ x = 'X' → digits ≠ [] →
      (∀ c ∈ digits, isDigitOf 16 c = true) →
        Literal ('0' :: x :: digits) (digitsValue 16 digits)
  | octal {digits : List Char} : (∀ c ∈ digits, isDigitOf 8 c = true) →
      Literal ('0' :: digits) (digitsValue 8 digits)
  | decimal {c : Char} {digits : List Char} : c ≠ '0' → isDigitOf 10 c = true →
      (∀ c ∈ digits, isDigitOf 10 c = true) →
        Literal (c :: digits) (digitsValue 10 (c :: digits))

inductive Sign : List Char → Bool → Prop
  | none : Sign [] false
  | plus : Sign ['+'] false
  | minus : Sign ['-'] true

/-- The whole text is blanks, a sign and a literal. -/
def IsNumeral (blank : Char → Bool) (text : List Char) (negative : Bool) (value : Nat) : Prop :=
  ∃ blanks sign literal, text = blanks ++ (sign ++ literal) ∧
    (∀ c ∈ blanks, blank c = true) ∧
    Sign sign negative ∧ Literal literal value

section Digits

variable {base value : Nat} {c : Char} {digits text : List Char}

theorem digitsValue_cons_zero : digitsValue base ('0' :: digits) = digitsValue base digits := by
  have zero : digitValue '0' = some 0 := by decide
  simp [digitsValue, zero]

theorem scanDigits_whole : scanDigits base text = some (value, []) ↔
    text ≠ [] ∧ (∀ c ∈ text, isDigitOf base c = true) ∧
        value = digitsValue base text := by
  unfold scanDigits
  constructor
  · intro h
    by_cases some : text.takeWhile (isDigitOf base) = []
    · simp [some] at h
    rw [if_neg some, Option.some.injEq, Prod.mk.injEq] at h
    obtain ⟨rfl, none⟩ := h
    have all : ∀ c ∈ text, isDigitOf base c = true := List.dropWhile_eq_nil_iff.mp none
    rw [List.takeWhile_eq_self_iff.mpr all] at some ⊢
    exact ⟨some, all, rfl⟩
  · rintro ⟨some, all, rfl⟩
    simp only [List.takeWhile_eq_self_iff.mpr all, List.dropWhile_eq_nil_iff.mpr all]
    rw [if_neg some]

theorem scanPrefix_cases (text : List Char) :
    (∃ x c rest, text = '0' :: x :: c :: rest ∧ (x = 'x' ∨ x = 'X') ∧
      scanPrefix text = (16, c :: rest)) ∨
    (∃ rest, text = '0' :: rest ∧ scanPrefix text = (8, text)) ∨
    ((∀ rest, text ≠ '0' :: rest) ∧ scanPrefix text = (10, text)) := by
  unfold scanPrefix
  split
  · rename_i x c rest
    split
    · rename_i found
      exact .inl ⟨x, c, rest, rfl, found.1, rfl⟩
    · exact .inr (.inl ⟨_, rfl, rfl⟩)
  · exact .inr (.inl ⟨_, rfl, rfl⟩)
  · rename_i other
    exact .inr (.inr ⟨other, rfl⟩)

theorem scanPrefix_octal (all : ∀ c ∈ digits, isDigitOf 8 c = true) :
    scanPrefix ('0' :: digits) = (8, '0' :: digits) := by
  rcases scanPrefix_cases ('0' :: digits) with
    ⟨x, c, rest, same, found, -⟩ | ⟨-, -, eight⟩ |
    ⟨other, -⟩
  · obtain rfl := (List.cons.inj same).2
    have digit := all x List.mem_cons_self
    rcases found with rfl | rfl <;> contradiction
  · exact eight
  · exact absurd rfl (other _)

/-- The prefix and the digits of a whole literal. -/
theorem scanPrefix_whole :
    scanDigits (scanPrefix text).1 (scanPrefix text).2 = some (value, []) ↔
        Literal text value := by
  rw [scanDigits_whole]
  constructor
  · rcases scanPrefix_cases text with
      ⟨x, c, rest, rfl, found, parts⟩ | ⟨rest, rfl, parts⟩ |
      ⟨other, parts⟩ <;> rw [parts] <;> rintro ⟨some, all, rfl⟩
    · exact .hex found some all
    · rw [digitsValue_cons_zero]
      exact .octal fun c mem => all c (List.mem_cons_of_mem _ mem)
    · obtain ⟨c, digits, rfl⟩ := List.exists_cons_of_ne_nil some
      rw [List.forall_mem_cons] at all
      exact .decimal (fun zero => other digits (by rw [zero])) all.1 all.2
  · intro literal
    cases literal with
    | @hex x digits found some all =>
      obtain ⟨c, digits, rfl⟩ := List.exists_cons_of_ne_nil some
      have first : (x = 'x' ∨ x = 'X') ∧ isDigitOf 16 c := ⟨found, all c List.mem_cons_self⟩
      have parts : scanPrefix ('0' :: x :: c :: digits) = (16, c :: digits) := if_pos first
      rw [parts]
      exact ⟨some, all, rfl⟩
    | octal all =>
      rw [scanPrefix_octal all]
      have zero : isDigitOf 8 '0' = true := by decide
      refine ⟨List.cons_ne_nil _ _, List.forall_mem_cons.mpr ⟨zero, all⟩, ?_⟩
      rw [digitsValue_cons_zero]
    | @decimal c digits nonzero first all =>
      rcases scanPrefix_cases (c :: digits) with ⟨x, c', rest, same, -⟩ | ⟨rest, same, -⟩ |
        ⟨-, parts⟩
      · exact absurd (List.cons.inj same).1 nonzero
      · exact absurd (List.cons.inj same).1 nonzero
      · rw [parts]
        exact ⟨List.cons_ne_nil _ _, List.forall_mem_cons.mpr ⟨first, all⟩, rfl⟩

theorem Literal.head (h : Literal text value) :
    ∃ c rest, text = c :: rest ∧ isDigitOf 10 c = true := by
  have zero : isDigitOf 10 '0' = true := by decide
  cases h with
  | hex => exact ⟨_, _, rfl, zero⟩
  | octal => exact ⟨_, _, rfl, zero⟩
  | decimal _ first => exact ⟨_, _, rfl, first⟩

end Digits

section Whole

variable {blank : Char → Bool} {negative : Bool} {value : Nat} {sign rest text : List Char}

/-- Blanks are neither signs nor digits. -/
def Blanks (blank : Char → Bool) : Prop :=
  ∀ c, blank c = true → c ≠ '-' ∧ c ≠ '+' ∧ isDigitOf 10 c = false

theorem scanSign_spec (text : List Char) :
    ∃ sign, text = sign ++ (scanSign text).2 ∧ Sign sign (scanSign text).1 := by
  unfold scanSign
  split
  · exact ⟨['-'], rfl, .minus⟩
  · exact ⟨['+'], rfl, .plus⟩
  · exact ⟨[], rfl, .none⟩

theorem scanSign_append (h : Sign sign negative) (minus : ∀ rest', rest ≠ '-' :: rest')
    (plus : ∀ rest', rest ≠ '+' :: rest') : scanSign (sign ++ rest) = (negative, rest) := by
  cases h with
  | none =>
    rw [List.nil_append]
    unfold scanSign
    split
    · exact absurd rfl (minus _)
    · exact absurd rfl (plus _)
    · rfl
  | plus => rfl
  | minus => rfl

theorem scan_eq_some {base : Nat} : scan blank base text = some ⟨negative, value, rest⟩ ↔
    (scanSign (text.dropWhile blank)).1 = negative ∧
      scanDigits (if base = 0 then scanPrefix (scanSign (text.dropWhile blank)).2
          else (base, (scanSign (text.dropWhile blank)).2)).1
        (if base = 0 then scanPrefix (scanSign (text.dropWhile blank)).2
          else (base, (scanSign (text.dropWhile blank)).2)).2 = some (value, rest) := by
  simp only [scan, Option.bind_eq_bind, Option.bind_eq_some_iff, Option.pure_def, Option.some.injEq]
  constructor
  · rintro ⟨⟨value', rest'⟩, digits, same⟩
    cases same
    exact ⟨rfl, digits⟩
  · rintro ⟨rfl, digits⟩
    exact ⟨(value, rest), digits, rfl⟩

/-- Exactly the numerals are read to their end. -/
theorem scan_whole (blanks : Blanks blank) :
    scan blank 0 text = some ⟨negative, value, []⟩ ↔ IsNumeral blank text negative value := by
  rw [scan_eq_some, if_pos rfl, scanPrefix_whole]
  constructor
  · rintro ⟨rfl, literal⟩
    obtain ⟨sign, parts, signed⟩ := scanSign_spec (text.dropWhile blank)
    refine ⟨text.takeWhile blank, sign, _, ?_, fun c mem => List.mem_takeWhile_imp mem, signed,
      literal⟩
    rw [← parts, List.takeWhile_append_dropWhile]
  · rintro ⟨before, sign, literal, rfl, all, signed, isLiteral⟩
    obtain ⟨c, rest, rfl, digit⟩ := isLiteral.head
    have solid : blank c = false := by
      by_contra isBlank
      simp [(blanks c (by simpa using isBlank)).2.2] at digit
    have whole : (before ++ (sign ++ c :: rest)).dropWhile blank = sign ++ c :: rest := by
      rw [List.dropWhile_append_of_pos all]
      cases signed with
      | none => exact List.dropWhile_cons_of_neg (by simp [solid])
      | plus => exact List.dropWhile_cons_of_neg fun isBlank => (blanks _ isBlank).2.1 rfl
      | minus => exact List.dropWhile_cons_of_neg fun isBlank => (blanks _ isBlank).1 rfl
    have unsigned : scanSign (sign ++ c :: rest) = (negative, c :: rest) := by
      refine scanSign_append signed (fun rest' same => ?_) fun rest' same => ?_
      · obtain rfl := (List.cons.inj same).1
        contradiction
      · obtain rfl := (List.cons.inj same).1
        contradiction
    rw [whole, unsigned]
    exact ⟨rfl, isLiteral⟩

end Whole

end Lex
