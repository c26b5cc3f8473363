import Mathlib.Data.List.Basic
import Mathlib.Data.List.TakeWhile
import Mathlib.Data.Option.Basic

/-! JSON string literals, read byte by byte, and the objects whose values are
strings or bare words such as numbers. Bytes behind ASCII stand for themselves. -/
namespace Json

def hexValue (c : Char) : Option Nat :=
  if c.isDigit then some (c.toNat - '0'.toNat)
  else if 'a' ≤ c ∧ c ≤ 'f' then some (c.toNat - 'a'.toNat + 10)
  else if 'A' ≤ c ∧ c ≤ 'F' then some (c.toNat - 'A'.toNat + 10)
  else none

/-- Four hexadecimal digits, and what follows them. -/
def hex4? : List Char → Option (Nat × List Char)
  | a :: b :: c :: d :: rest => do
      let a ← hexValue a
      let b ← hexValue b
      let c ← hexValue c
      let d ← hexValue d
      pure (4096 * a + 256 * b + 16 * c + d, rest)
  | _ => none

/-- The bytes of a code point. -/
def utf8 (n : Nat) : List Char :=
  if n < 0x80 then [Char.ofNat n]
  else if n < 0x800 then [Char.ofNat (0xC0 + n / 64), Char.ofNat (0x80 + n % 64)]
  else if n < 0x10000 then
    [Char.ofNat (0xE0 + n / 4096), Char.ofNat (0x80 + n / 64 % 64), Char.ofNat (0x80 + n % 64)]
  else
    [Char.ofNat (0xF0 + n / 262144), Char.ofNat (0x80 + n / 4096 % 64),
      Char.ofNat (0x80 + n / 64 % 64), Char.ofNat (0x80 + n % 64)]

/-- What stands behind `\u`: a code point, or the first half of a surrogate pair. -/
def unicode? (s : List Char) : Option (List Char × List Char) := do
  let (high, rest) ← hex4? s
  if high < 0xD800 ∨ 0xDFFF < high then pure (utf8 high, rest)
  else if high < 0xDC00 then
    match rest with
    | '\\' :: 'u' :: rest => do
        let (low, rest) ← hex4? rest
        guard (0xDC00 ≤ low ∧ low ≤ 0xDFFF)
        pure (utf8 (0x10000 + 0x400 * (high - 0xD800) + (low - 0xDC00)), rest)
    | _ => none
  else none

def shortEscape? (c : Char) : Option Char :=
  if c = '"' ∨ c = '\\' ∨ c = '/' then some c
  else if c = 'b' then some '\x08'
  else if c = 'f' then some '\x0c'
  else if c = 'n' then some '\n'
  else if c = 'r' then some '\r'
  else if c = 't' then some '\t'
  else none

def escape? : List Char → Option (List Char × List Char)
  | [] => none
  | c :: rest => if c = 'u' then unicode? rest else (shortEscape? c).map fun byte => ([byte], rest)

/-- A character stands for itself between the quotes. -/
def isPlain (c : Char) : Bool := c ≠ '"' && c ≠ '\\' && 0x20 ≤ c.toNat

/-- One character or escape: its bytes, and what follows it. -/
def unit? : List Char → Option (List Char × List Char)
  | [] => none
  | c :: rest =>
      if c = '\\' then escape? rest else if isPlain c then some ([c], rest) else none

/-! How long texts are. Escapes are longer than what they stand for, even if one
byte that has to be escaped counts twice. -/

section Weight

variable {x : Char} {s rest bytes : List Char} {n : Nat}

def weight (x : Char) (s : List Char) : Nat := s.length + s.count x

@[simp] theorem weight_nil : weight x [] = 0 := rfl

theorem weight_append (a b : List Char) : weight x (a ++ b) = weight x a + weight x b := by
  simp only [weight, List.length_append, List.count_append]
  omega

theorem weight_cons (c : Char) (s : List Char) :
    weight x (c :: s) = weight x s + if c = x then 2 else 1 := by
  simp only [weight, List.length_cons, List.count_cons, beq_iff_eq]
  split <;> omega

theorem weight_le (s : List Char) : weight x s ≤ 2 * s.length := by
  have := List.count_le_length (a := x) (l := s)
  unfold weight
  omega

theorem weight_lt (nonempty : s ≠ []) (h : s.head? ≠ some x) : weight x s < 2 * s.length := by
  cases s with
  | nil => contradiction
  | cons c s =>
    have head : c ≠ x := by simpa using h
    have := weight_le (x := x) s
    rw [weight_cons, if_neg head, List.length_cons]
    omega

theorem utf8_ne_nil (n : Nat) : utf8 n ≠ [] := by
  unfold utf8
  split
  · simp
  split
  · simp
  split <;> simp

theorem length_utf8_le (n : Nat) : (utf8 n).length ≤ 4 := by
  unfold utf8
  split
  · simp
  split
  · simp
  split <;> simp

theorem length_utf8_lt (h : n < 0x10000) : (utf8 n).length < 4 := by
  unfold utf8
  split
  · simp
  split
  · simp
  · simp

theorem hexValue_lt {c : Char} (h : hexValue c = some n) : n < 16 := by
  unfold hexValue at h
  split at h
  · rename_i digit
    cases h
    simp only [Char.isDigit, Bool.and_eq_true, decide_eq_true_eq, UInt32.le_iff_toNat_le] at digit
    have high : c.toNat ≤ 57 := digit.2
    have zero : '0'.toNat = 48 := rfl
    omega
  split at h
  · rename_i letter
    cases h
    have high : c.toNat ≤ 102 := letter.2
    have first : 'a'.toNat = 97 := rfl
    omega
  split at h
  · rename_i letter
    cases h
    have high : c.toNat ≤ 70 := letter.2
    have first : 'A'.toNat = 65 := rfl
    omega
  · contradiction

theorem hex4?_spec (h : hex4? s = some (n, rest)) : s.length = rest.length + 4 ∧ n < 0x10000 := by
  unfold hex4? at h
  split at h
  · simp only [Option.bind_eq_bind, Option.bind_eq_some_iff, Option.pure_def, Option.some.injEq,
      Prod.mk.injEq] at h
    obtain ⟨a, ha, b, hb, c, hc, d, hd, rfl, rfl⟩ := h
    have := hexValue_lt ha
    have := hexValue_lt hb
    have := hexValue_lt hc
    have := hexValue_lt hd
    exact ⟨rfl, by omega⟩
  · contradiction

theorem unicode?_weight (h : unicode? s = some (bytes, rest)) :
    weight x bytes + rest.length ≤ s.length + 2 ∧
      (bytes.head? ≠ some x → weight x bytes + rest.length < s.length + 2) ∧
      rest.length ≤ s.length := by
  simp only [unicode?, Option.bind_eq_bind, Option.bind_eq_some_iff] at h
  obtain ⟨⟨high, rest'⟩, digits, h⟩ := h
  obtain ⟨length, small⟩ := hex4?_spec digits
  dsimp only at h
  split at h
  · cases h
    have short := length_utf8_lt small
    have heavy := weight_le (x := x) (utf8 high)
    refine ⟨by omega, fun head => ?_, by omega⟩
    have := weight_lt (utf8_ne_nil high) head
    omega
  split at h
  · split at h
    · simp only [Option.bind_eq_some_iff, Option.pure_def, Option.some.injEq, Prod.mk.injEq] at h
      obtain ⟨⟨low, rest''⟩, digits', -, -, rfl, rfl⟩ := h
      obtain ⟨length', -⟩ := hex4?_spec digits'
      have short := length_utf8_le (0x10000 + 0x400 * (high - 0xD800) + (low - 0xDC00))
      have heavy := weight_le (x := x)
        (utf8 (0x10000 + 0x400 * (high - 0xD800) + (low - 0xDC00)))
      simp only [List.length_cons] at length
      dsimp only
      exact ⟨by omega, fun _ => by omega, by omega⟩
    · contradiction
  · contradiction

theorem escape?_weight (h : escape? s = some (bytes, rest)) :
    weight x bytes + rest.length ≤ s.length + 1 ∧
      (bytes.head? ≠ some x → weight x bytes + rest.length < s.length + 1) ∧
      rest.length ≤ s.length := by
  unfold escape? at h
  split at h
  · contradiction
  split at h
  · obtain ⟨bound, strict, shorter⟩ := unicode?_weight (x := x) h
    rw [List.length_cons]
    exact ⟨by omega, fun head => by have := strict head; omega, by omega⟩
  · obtain ⟨byte, -, same⟩ := Option.map_eq_some_iff.mp h
    cases same
    rw [weight_cons, weight_nil, List.length_cons]
    refine ⟨by split <;> omega, fun head => ?_, by omega⟩
    rw [if_neg (by simpa using head)]
    omega

theorem unit?_weight (special : isPlain x = false) (h : unit? s = some (bytes, rest)) :
    weight x bytes + rest.length ≤ s.length := by
  unfold unit? at h
  split at h
  · contradiction
  split at h
  · exact (escape?_weight h).1
  split at h
  · rename_i c _ _ plain
    cases h
    have other : c ≠ x := by
      rintro rfl
      simp [special] at plain
    rw [weight_cons, if_neg other, weight_nil, List.length_cons]
    omega
  · contradiction

theorem unit?_shorter (h : unit? s = some (bytes, rest)) : rest.length < s.length := by
  unfold unit? at h
  split at h
  · contradiction
  split at h
  · have := (escape?_weight (x := ' ') h).2.2
    rw [List.length_cons]
    omega
  split at h
  · cases h
    simp
  · contradiction

end Weight

/-- The text of a literal whose opening quote has been read, and what follows
the closing one. -/
def string? (s : List Char) : Option (List Char × List Char) :=
  match s with
  | [] => none
  | c :: tail =>
      if c = '"' then some ([], tail)
      else
        match _h : unit? (c :: tail) with
        | none => none
        | some (bytes, rest) => (string? rest).map fun found => (bytes ++ found.1, found.2)
termination_by s.length
decreasing_by exact unit?_shorter _h

section Strings

variable {x : Char} {s text rest more bytes : List Char}

@[simp] theorem string?_quote (rest : List Char) : string? ('"' :: rest) = some ([], rest) := by
  rw [string?]
  simp

theorem string?_unit (h : unit? s = some (bytes, rest)) :
    string? s = (string? rest).map fun found => (bytes ++ found.1, found.2) := by
  cases s with
  | nil => contradiction
  | cons c tail =>
    have open' : c ≠ '"' := by
      rintro rfl
      simp [unit?, isPlain] at h
    rw [string?, if_neg open']
    split
    · rename_i none
      rw [h] at none
      contradiction
    · rename_i bytes' rest' found
      rw [h] at found
      cases found
      rfl

theorem string?_eq_none (h : unit? s = none) (open' : s.head? ≠ some '"') : string? s = none := by
  cases s with
  | nil => rw [string?]
  | cons c tail =>
    rw [string?, if_neg (by simpa using open')]
    split
    · rfl
    · rename_i found
      rw [h] at found
      contradiction

/-- A text that is read starts with its closing quote or with a unit. -/
theorem string?_cases (h : string? s = some (text, rest)) :
    text = [] ∧ s = '"' :: rest ∨
      ∃ bytes tail text', unit? s = some (bytes, tail) ∧ string? tail = some (text', rest) ∧
        text = bytes ++ text' := by
  cases s with
  | nil =>
    rw [string?] at h
    contradiction
  | cons c tail =>
    by_cases quote : c = '"'
    · subst quote
      rw [string?_quote] at h
      cases h
      exact .inl ⟨rfl, rfl⟩
    · cases unit : unit? (c :: tail) with
      | none =>
        rw [string?_eq_none unit (by simpa using quote)] at h
        contradiction
      | some found =>
        obtain ⟨bytes, tail'⟩ := found
        rw [string?_unit unit] at h
        obtain ⟨⟨text', rest'⟩, hread, same⟩ := Option.map_eq_some_iff.mp h
        cases same
        exact .inr ⟨bytes, tail', text', rfl, hread, rfl⟩

theorem string?_weight (special : isPlain x = false) (h : string? s = some (text, rest)) :
    weight x text + rest.length < s.length := by
  induction length : s.length using Nat.strongRecOn generalizing s text with
  | ind n ih =>
    rcases string?_cases h with ⟨rfl, rfl⟩ | ⟨bytes, tail, text', unit, read, rfl⟩
    · simp [← length]
    · have tailed := ih tail.length (length ▸ unit?_shorter unit) read rfl
      have := unit?_weight special unit
      rw [weight_append]
      omega

/-- A backslash that comes out of a literal was written with two characters. -/
theorem string?_backslash_weight (special : isPlain x = false) (other : '\\' ≠ x)
    (h : string? ('\\' :: s) = some ('\\' :: text, [])) : weight x text + 1 < s.length := by
  rcases string?_cases h with ⟨empty, -⟩ | ⟨bytes, tail, text', unit, read, whole⟩
  · contradiction
  · have head : bytes.head? ≠ some x := by
      intro first
      obtain ⟨more, rfl⟩ := List.head?_eq_some_iff.mp first
      exact other (List.head_eq_of_cons_eq whole)
    have start := (escape?_weight unit).2.1 head
    have later := string?_weight special read
    have total := congrArg (weight x) whole
    rw [weight_cons, if_neg other, weight_append] at total
    rw [List.length_nil] at later
    omega

/-- What follows a text does not matter to it. -/
theorem hex4?_append {n : Nat} (h : hex4? s = some (n, rest)) :
    hex4? (s ++ more) = some (n, rest ++ more) := by
  unfold hex4? at h
  split at h
  · simp only [Option.bind_eq_bind, Option.bind_eq_some_iff, Option.pure_def, Option.some.injEq,
      Prod.mk.injEq] at h
    obtain ⟨a, ha, b, hb, c, hc, d, hd, rfl, rfl⟩ := h
    simp [hex4?, ha, hb, hc, hd]
  · contradiction

theorem unicode?_append (h : unicode? s = some (bytes, rest)) :
    unicode? (s ++ more) = some (bytes, rest ++ more) := by
  simp only [unicode?, Option.bind_eq_bind, Option.bind_eq_some_iff] at h
  obtain ⟨⟨high, rest'⟩, digits, h⟩ := h
  unfold unicode?
  rw [hex4?_append digits]
  dsimp only at h
  change (if _ then _ else _) = _
  split at h
  · rename_i single
    cases h
    rw [if_pos single]
    rfl
  rename_i pair
  rw [if_neg pair]
  split at h
  · rename_i first
    rw [if_pos first]
    split at h
    · simp only [Option.bind_eq_some_iff, Option.pure_def, Option.some.injEq, Prod.mk.injEq] at h
      obtain ⟨⟨low, rest''⟩, digits', _, second, rfl, rfl⟩ := h
      simp only [List.cons_append, hex4?_append digits', Option.bind_eq_bind, Option.bind_some]
      rw [second]
      rfl
    · contradiction
  · contradiction

theorem unit?_append (h : unit? s = some (bytes, rest)) :
    unit? (s ++ more) = some (bytes, rest ++ more) := by
  unfold unit? at h
  split at h
  · contradiction
  rename_i c tail
  rw [List.cons_append, unit?]
  split at h
  · rename_i escapes
    rw [if_pos escapes]
    unfold escape? at h
    split at h
    · contradiction
    rename_i c' tail'
    rw [List.cons_append, escape?]
    split at h
    · rename_i code
      rw [if_pos code]
      exact unicode?_append h
    · rename_i short
      obtain ⟨byte, known, same⟩ := Option.map_eq_some_iff.mp h
      cases same
      rw [if_neg short, known]
      rfl
  · rename_i direct
    rw [if_neg direct]
    split at h
    · rename_i plain
      cases h
      rw [if_pos plain]
    · contradiction

theorem string?_append (h : string? s = some (text, rest)) :
    string? (s ++ more) = some (text, rest ++ more) := by
  induction length : s.length using Nat.strongRecOn generalizing s text with
  | ind n ih =>
    rcases string?_cases h with ⟨rfl, rfl⟩ | ⟨bytes, tail, text', unit, read, rfl⟩
    · exact string?_quote _
    · rw [string?_unit (unit?_append unit),
        ih tail.length (length ▸ unit?_shorter unit) read rfl]
      rfl

theorem string?_plain {c : Char} (h : isPlain c = true) :
    string? (c :: s) = (string? s).map fun found => (c :: found.1, found.2) := by
  have unit : unit? (c :: s) = some ([c], s) := by
    have direct : c ≠ '\\' := by
      rintro rfl
      contradiction
    rw [unit?, if_neg direct, if_pos h]
  rw [string?_unit unit]
  rfl

theorem string?_short {c byte : Char} (h : shortEscape? c = some byte) :
    string? ('\\' :: c :: s) = (string? s).map fun found => (byte :: found.1, found.2) := by
  have unit : unit? ('\\' :: c :: s) = some ([byte], s) := by
    have short : c ≠ 'u' := by
      rintro rfl
      contradiction
    rw [unit?, if_pos rfl, escape?, if_neg short, h]
    rfl
  rw [string?_unit unit]
  rfl

/-- Neither plain nor the start of an escape, nor the closing quote. -/
theorem string?_control {c : Char} (control : c.toNat < 0x20) : string? (c :: s) = none := by
  have direct : c ≠ '\\' := by
    rintro rfl
    contradiction
  have open' : c ≠ '"' := by
    rintro rfl
    contradiction
  refine string?_eq_none ?_ (by simpa using open')
  rw [unit?, if_neg direct, if_neg]
  simp [isPlain, Nat.not_le.mpr control]

end Strings

inductive Value where
  | text (s : List Char)
  | word (s : List Char)
  deriving DecidableEq

def isBlank (c : Char) : Bool := c = ' ' || c = '\t' || c = '\n' || c = '\r'

def isWordChar (c : Char) : Bool := c.isAlphanum || c = '+' || c = '-' || c = '.'

def value? (s : List Char) : Option (Value × List Char) :=
  match s with
  | '"' :: rest => (string? rest).map fun found => (.text found.1, found.2)
  | s =>
      let word := s.takeWhile isWordChar
      if word = [] then none else some (.word word, s.dropWhile isWordChar)

def member? (s : List Char) : Option ((List Char × Value) × List Char) :=
  match s.dropWhile isBlank with
  | '"' :: rest => do
      let (name, rest) ← string? rest
      match rest.dropWhile isBlank with
      | ':' :: rest => do
          let (value, rest) ← value? (rest.dropWhile isBlank)
          pure ((name, value), rest)
      | _ => none
  | _ => none

/-- Members up to the end of the object, which ends the text. There are no more
of them than the text has characters. -/
def members? : Nat → List Char → Option (List (List Char × Value))
  | 0, _ => none
  | fuel + 1, s => do
      let (member, rest) ← member? s
      match rest.dropWhile isBlank with
      | ',' :: rest => (members? fuel rest).map (member :: ·)
      | '}' :: rest => if rest.dropWhile isBlank = [] then some [member] else none
      | _ => none

def object? (s : List Char) : Option (List (List Char × Value)) :=
  match s.dropWhile isBlank with
  | '{' :: rest =>
      match rest.dropWhile isBlank with
      | '}' :: rest => if rest.dropWhile isBlank = [] then some [] else none
      | _ => members? rest.length rest
  | _ => none

/-! Writing an object, with the values written as texts already. -/

def writeMember (member : List Char × List Char) : List Char :=
  '"' :: (member.1 ++ '"' :: ':' :: member.2)

def writeMembers : List (List Char × List Char) → List Char
  | [] => ['}']
  | [member] => writeMember member ++ ['}']
  | member :: rest => writeMember member ++ ',' :: writeMembers rest

def writeObject (members : List (List Char × List Char)) : List Char := '{' :: writeMembers members

section Objects

variable {text rest name : List Char} {value : Value}

/-- The text is read as the value where no word goes on behind it. -/
structure Written (text : List Char) (value : Value) : Prop where
  starts : ∀ c ∈ text.head?, isBlank c = false
  reads : ∀ rest : List Char, (∀ c ∈ rest.head?, isWordChar c = false) →
    value? (text ++ rest) = some (value, rest)

theorem written_text {escaped s : List Char} (h : string? (escaped ++ ['"']) = some (s, [])) :
    Written ('"' :: (escaped ++ ['"'])) (.text s) where
  starts := by
    rintro _ ⟨⟩
    rfl
  reads := by
    intro rest _
    rw [List.cons_append, value?, string?_append h]
    rfl

theorem written_word {word : List Char} (nonempty : word ≠ [])
    (h : ∀ c ∈ word, isWordChar c = true) :
    Written word (.word word) where
  starts := by
    intro c hc
    have letter := h c (List.mem_of_mem_head? hc)
    by_contra blank
    simp only [isBlank, Bool.not_eq_false, Bool.or_eq_true, decide_eq_true_eq] at blank
    rcases blank with ((rfl | rfl) | rfl) | rfl <;> contradiction
  reads := by
    intro rest stops
    have quoteless : ∀ more, word ++ rest ≠ '"' :: more := by
      intro more same
      obtain ⟨c, word', rfl⟩ := List.exists_cons_of_ne_nil nonempty
      cases List.head_eq_of_cons_eq same
      exact absurd (h _ List.mem_cons_self) (by decide)
    have taken : (word ++ rest).takeWhile isWordChar = word := by
      rw [List.takeWhile_append_of_pos h]
      cases rest with
      | nil => simp
      | cons c rest => simp [stops c rfl]
    have dropped : (word ++ rest).dropWhile isWordChar = rest := by
      rw [List.dropWhile_append_of_pos h]
      cases rest with
      | nil => rfl
      | cons c rest => simp [stops c rfl]
    unfold value?
    split
    · rename_i more same
      exact absurd same (quoteless more)
    · simp only [taken, dropped, if_neg nonempty]

theorem string?_name (plain : ∀ c ∈ name, isPlain c = true) (rest : List Char) :
    string? (name ++ '"' :: rest) = some (name, rest) := by
  induction name with
  | nil => exact string?_quote rest
  | cons c name ih =>
    obtain ⟨own, others⟩ := List.forall_mem_cons.mp plain
    rw [List.cons_append, string?_plain own, ih others]
    rfl

theorem dropWhile_blank {c : Char} (h : isBlank c = false) (s : List Char) :
    (c :: s).dropWhile isBlank = c :: s := by
  rw [List.dropWhile_cons_of_neg (by simp [h])]

theorem Written.dropWhile_blank (written : Written text value) (rest : List Char) :
    (text ++ rest).dropWhile isBlank = text ++ rest := by
  cases text with
  | nil =>
    have read := written.reads [] (by simp)
    contradiction
  | cons c text => exact Json.dropWhile_blank (written.starts c rfl) _

theorem member?_writeMember (plain : ∀ c ∈ name, isPlain c = true)
    (written : Written text value)
    (rest : List Char) (stops : ∀ c ∈ rest.head?, isWordChar c = false) :
    member? (writeMember (name, text) ++ rest) = some ((name, value), rest) := by
  have shape :
      writeMember (name, text) ++ rest = '"' :: (name ++ '"' :: ':' :: (text ++ rest)) := by
    simp [writeMember]
  unfold member?
  rw [shape, dropWhile_blank rfl]
  simp only [string?_name plain, Option.bind_eq_bind, Option.bind_some]
  rw [dropWhile_blank rfl]
  simp only [written.dropWhile_blank, written.reads rest stops, Option.bind_some, Option.pure_def]

theorem members?_writeMembers {write : Value → List Char} {fields : List (List Char × Value)}
    (nonempty : fields ≠ [])
    (h : ∀ field ∈ fields, (∀ c ∈ field.1, isPlain c = true) ∧
      Written (write field.2) field.2)
    {fuel : Nat} (enough : fields.length ≤ fuel) :
    members? fuel (writeMembers (fields.map (Prod.map id write))) = some fields := by
  induction fields generalizing fuel with
  | nil => contradiction
  | cons field fields ih =>
    obtain ⟨fuel, rfl⟩ := Nat.exists_eq_succ_of_ne_zero
      (Nat.ne_of_gt (Nat.lt_of_lt_of_le (Nat.succ_pos _) enough))
    obtain ⟨own, others⟩ := List.forall_mem_cons.mp h
    cases fields with
    | nil =>
      have member := member?_writeMember own.1 own.2 ['}'] (by simp [isWordChar])
      change members? _ (writeMember (field.1, write field.2) ++ ['}']) = _
      rw [members?, member]
      rfl
    | cons next fields =>
      have member := member?_writeMember own.1 own.2
        (',' :: writeMembers ((next :: fields).map (Prod.map id write))) (by simp [isWordChar])
      change members? _ (writeMember (field.1, write field.2) ++ ',' :: writeMembers
        ((next :: fields).map (Prod.map id write))) = _
      rw [members?, member]
      have tail := ih (by simp) others (Nat.succ_le_succ_iff.mp enough)
      simp only [Option.bind_eq_bind, Option.bind_some]
      rw [dropWhile_blank rfl]
      change (members? fuel _).map _ = _
      rw [tail]
      rfl

theorem length_le_writeMembers (members : List (List Char × List Char)) :
    members.length ≤ (writeMembers members).length := by
  induction members with
  | nil => simp
  | cons member rest ih =>
    cases rest with
    | nil => simp [writeMembers]
    | cons next rest =>
      rw [writeMembers]
      · simp only [List.length_append, List.length_cons] at ih ⊢
        omega
      · simp

/-- An object of plain names and of values that are written well is read back. -/
theorem object?_writeObject {write : Value → List Char} {fields : List (List Char × Value)}
    (nonempty : fields ≠ [])
    (h : ∀ field ∈ fields, (∀ c ∈ field.1, isPlain c = true) ∧
      Written (write field.2) field.2) :
    object? (writeObject (fields.map (Prod.map id write))) = some fields := by
  have enough := length_le_writeMembers (fields.map (Prod.map id write))
  rw [List.length_map] at enough
  have read := members?_writeMembers nonempty h enough
  obtain ⟨field, fields, rfl⟩ := List.exists_cons_of_ne_nil nonempty
  have starts :
      ∃ more, writeMembers ((field :: fields).map (Prod.map id write)) = '"' :: more := by
    cases fields <;> exact ⟨_, rfl⟩
  obtain ⟨more, starts⟩ := starts
  unfold object? writeObject
  rw [dropWhile_blank rfl]
  rw [starts] at read ⊢
  exact read

end Objects

end Json
