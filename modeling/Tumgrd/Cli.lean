import Tumgrd.Lex.Json
import Tumgrd.Text

/-! `tumgr`: how the client puts option values into the JSON payload of a call. -/
namespace Tumgrd

/-- The lines that `sed` reads; the last one need not be terminated. -/
def inputLines (s : Str) : List Str :=
  if s = [] then []
  else if s.getLast? = some '\n' then (s.splitOn '\n').dropLast
  else s.splitOn '\n'

/-- `s/c/.../g` on the pattern space. -/
def substitute (c : Char) (replacement pattern : Str) : Str :=
  pattern.flatMap fun d => if d = c then replacement else [d]

/-- `:a;N;$!ba;s/\n/\\n/g`, with the lines that are not read yet. Without one, `N`
prints the pattern space and ends the script. -/
def joinLines (pattern : Str) : List Str → Str
  | [] => pattern
  | line :: rest =>
      let pattern := pattern ++ '\n' :: line
      if rest = [] then substitute '\n' ['\\', 'n'] pattern else joinLines pattern rest

/-- The script reads all its lines in the cycle of the first one. -/
def sedScript : List Str → Str
  | [] => []
  | line :: rest =>
      joinLines (substitute '"' ['\\', '"'] (substitute '\\' ['\\', '\\'] line)) rest

/-- `json_escape`; the command substitution strips the newlines at the end. -/
def jsonEscape (s : Str) : Str := (sedScript (inputLines s)).rdropWhile (· = '\n')

/-- The option value in quotes. -/
def quoted (s : Str) : Str := '"' :: (jsonEscape s ++ ['"'])

/-- The text of a literal with nothing behind it. -/
def literal? (s : Str) : Option Str :=
  match s with
  | '"' :: rest => (Json.string? rest).bind fun found => if found.2 = [] then some found.1 else none
  | _ => none

section Escape

variable {s first tail line rest : Str} {c d : Char}

/-- What the first two substitutions make of a line. -/
def escapeLine (line : Str) : Str :=
  substitute '"' ['\\', '"'] (substitute '\\' ['\\', '\\'] line)

/-- What the last one makes of the lines behind the first. -/
def escapeBreaks (text : Str) : Str := substitute '\n' ['\\', 'n'] text

theorem substitute_append (c : Char) (replacement a b : Str) :
    substitute c replacement (a ++ b) = substitute c replacement a ++ substitute c replacement b :=
  List.flatMap_append

theorem mem_substitute {replacement : Str} (h : d ∈ substitute c replacement s) :
    d ∈ replacement ∨ d ∈ s ∧ d ≠ c := by
  obtain ⟨e, he, hd⟩ := List.mem_flatMap.mp h
  split at hd
  · exact .inl hd
  · obtain rfl := List.mem_singleton.mp hd
    exact .inr ⟨he, ‹_›⟩

theorem substitute_of_notMem {replacement : Str} (h : c ∉ s) :
    substitute c replacement s = s := by
  induction s with
  | nil => rfl
  | cons d s ih =>
    simp only [List.mem_cons, not_or] at h
    unfold substitute at ih ⊢
    rw [List.flatMap_cons, ih h.2, if_neg (Ne.symm h.1)]
    rfl

theorem joinLines_eq (pattern line : Str) (rest : List Str) :
    joinLines pattern (line :: rest) =
      escapeBreaks (pattern ++ '\n' :: ['\n'].intercalate (line :: rest)) := by
  induction rest generalizing pattern line with
  | nil => simp [joinLines, List.intercalate, escapeBreaks]
  | cons next rest ih =>
    rw [joinLines, if_neg (List.cons_ne_nil _ _), ih]
    simp [List.intercalate]

theorem newline_notMem_escapeLine (h : '\n' ∉ line) : '\n' ∉ escapeLine line := by
  intro mem
  rcases mem_substitute mem with escape | ⟨mem, -⟩
  · simp at escape
  rcases mem_substitute mem with escape | ⟨mem, -⟩
  · simp at escape
  · exact h mem

theorem newline_notMem_escapeBreaks (text : Str) : '\n' ∉ escapeBreaks text := by
  intro mem
  rcases mem_substitute mem with escape | ⟨-, other⟩
  · simp at escape
  · exact other rfl

theorem rdropWhile_newline (h : '\n' ∉ s) : s.rdropWhile (· = '\n') = s := by
  rw [List.rdropWhile_eq_self_iff]
  intro nonempty last
  have mem := List.getLast_mem nonempty
  rw [show s.getLast nonempty = '\n' by simpa using last] at mem
  exact h mem

/-- The first line loses its quotes and backslashes, the other ones do not. -/
theorem jsonEscape_eq (h : '\n' ∉ first) (more : tail = [] ∨ tail.head? = some '\n')
    (ends : (first ++ tail).getLast? ≠ some '\n') :
    jsonEscape (first ++ tail) = escapeLine first ++ escapeBreaks tail := by
  have script : sedScript (inputLines (first ++ tail)) = escapeLine first ++ escapeBreaks tail := by
    rcases more with rfl | head
    · rw [List.append_nil] at ends ⊢
      by_cases empty : first = []
      · subst empty
        rfl
      · rw [inputLines, if_neg empty, if_neg ends, List.splitOn_eq_singleton h]
        exact (List.append_nil _).symm
    · obtain ⟨later, rfl⟩ : ∃ later, tail = '\n' :: later := by
        cases tail with
        | nil => contradiction
        | cons c later => exact ⟨later, by simpa using head⟩
      rw [inputLines, if_neg (by simp), if_neg ends, List.splitOn_append_cons_self_of_not_mem h]
      obtain ⟨line, rest, lines⟩ := List.exists_cons_of_ne_nil (List.splitOn_ne_nil '\n' later)
      rw [lines, sedScript, joinLines_eq, ← lines, List.intercalate_splitOn]
      change substitute _ _ (escapeLine first ++ _) = _
      rw [substitute_append, substitute_of_notMem (newline_notMem_escapeLine h)]
      rfl
  unfold jsonEscape
  rw [script, rdropWhile_newline]
  rw [List.mem_append, not_or]
  exact ⟨newline_notMem_escapeLine h, newline_notMem_escapeBreaks tail⟩

def escapeChar (c : Char) : Str :=
  if c = '\\' then ['\\', '\\'] else if c = '"' then ['\\', '"'] else [c]

theorem escapeLine_cons (c : Char) (line : Str) :
    escapeLine (c :: line) = escapeChar c ++ escapeLine line := by
  change escapeLine ([c] ++ line) = _
  unfold escapeLine
  rw [substitute_append, substitute_append]
  congr 1
  by_cases backslash : c = '\\'
  · subst backslash
    rfl
  by_cases quote : c = '"'
  · subst quote
    rfl
  simp [substitute, escapeChar, backslash, quote]

theorem escapeBreaks_cons (c : Char) (text : Str) :
    escapeBreaks (c :: text) = (if c = '\n' then ['\\', 'n'] else [c]) ++ escapeBreaks text := by
  simp [escapeBreaks, substitute]

theorem length_escapeBreaks (text : Str) : (escapeBreaks text).length = Json.weight '\n' text := by
  induction text with
  | nil => rfl
  | cons c text ih =>
    rw [escapeBreaks_cons, List.length_append, ih, Json.weight_cons]
    split <;> simp [Nat.add_comm]

theorem string?_escapeChar (clean : 0x20 ≤ c.toNat) (rest : Str) :
    Json.string? (escapeChar c ++ rest) =
      (Json.string? rest).map fun found => (c :: found.1, found.2) := by
  unfold escapeChar
  split
  · rename_i backslash
    subst backslash
    exact Json.string?_short rfl
  split
  · rename_i quote
    subst quote
    exact Json.string?_short rfl
  · rename_i backslash quote
    exact Json.string?_plain (by simp [Json.isPlain, backslash, quote, clean])

/-- The first line is read back up to its end, if it holds no control character. -/
theorem string?_escapeLine (clean : ∀ c ∈ line, 0x20 ≤ c.toNat) (rest : Str) :
    Json.string? (escapeLine line ++ rest) =
      (Json.string? rest).map fun found => (line ++ found.1, found.2) := by
  induction line with
  | nil => simp [escapeLine, substitute]
  | cons c line ih =>
    obtain ⟨own, others⟩ := List.forall_mem_cons.mp clean
    rw [escapeLine_cons, List.append_assoc, string?_escapeChar own, ih others, Option.map_map]
    rfl

theorem string?_escapeLine_control (dirty : c ∈ line) (control : c.toNat < 0x20) (rest : Str) :
    Json.string? (escapeLine line ++ rest) = none := by
  induction line with
  | nil => contradiction
  | cons d line ih =>
    rw [escapeLine_cons, List.append_assoc]
    by_cases own : d.toNat < 0x20
    · have backslash : d ≠ '\\' := by
        rintro rfl
        contradiction
      have quote : d ≠ '"' := by
        rintro rfl
        contradiction
      rw [escapeChar, if_neg backslash, if_neg quote]
      exact Json.string?_control own
    · have later : c ∈ line := by
        rcases List.mem_cons.mp dirty with rfl | later
        · contradiction
        · exact later
      rw [string?_escapeChar (Nat.le_of_not_lt own), ih later]
      rfl

/-- A later line is read back only if it holds nothing that needs an escape: a
quote ends the literal, and what stands behind a backslash is too short. -/
theorem string?_escapeBreaks_iff (text : Str) :
    Json.string? (escapeBreaks text ++ ['"']) = some (text, []) ↔
      ∀ c ∈ text, Json.isPlain c = true ∨ c = '\n' := by
  induction text with
  | nil => simp [escapeBreaks, substitute]
  | cons c text ih =>
    rw [escapeBreaks_cons, List.append_assoc, List.forall_mem_cons, ← ih]
    by_cases newline : c = '\n'
    · subst newline
      change Json.string? ('\\' :: 'n' :: _) = _ ↔ _
      rw [Json.string?_short rfl]
      simp
    rw [if_neg newline]
    change Json.string? (c :: _) = _ ↔ _
    by_cases plain : Json.isPlain c = true
    · rw [Json.string?_plain plain]
      simp [plain]
    constructor
    · intro read
      exfalso
      by_cases quote : c = '"'
      · subst quote
        rw [Json.string?_quote] at read
        simp at read
      by_cases backslash : c = '\\'
      · subst backslash
        have long := Json.string?_backslash_weight (x := '\n') rfl (by decide) read
        change _ < (escapeBreaks text ++ ['"']).length at long
        rw [List.length_append, length_escapeBreaks, List.length_singleton] at long
        omega
      · have control : c.toNat < 0x20 := by
          simpa [Json.isPlain, quote, backslash] using plain
        rw [Json.string?_control control] at read
        contradiction
    · rintro ⟨known, -⟩
      rcases known with known | known <;> contradiction

/-- The first line has no control character, and the ones behind it have no
quotes and backslashes either. -/
def Escapable (s : Str) : Prop :=
  (∀ c ∈ s.takeWhile (· ≠ '\n'), 0x20 ≤ c.toNat) ∧
    ∀ c ∈ s.dropWhile (· ≠ '\n'), Json.isPlain c = true ∨ c = '\n'

instance decidableEscapable (s : Str) : Decidable (Escapable s) :=
  decidable_of_iff ((s.takeWhile (· ≠ '\n')).all (fun c => decide (0x20 ≤ c.toNat)) = true ∧
    (s.dropWhile (· ≠ '\n')).all (fun c => Json.isPlain c || decide (c = '\n')) = true)
    (by simp only [Escapable, List.all_eq_true, Bool.or_eq_true, decide_eq_true_eq])

/-- The text of an option comes back from its literal. -/
def Faithful (s : Str) : Prop := literal? (quoted s) = some s

/-- Numbers stand in the payload as they were given. -/
def writeValue : Json.Value → Str
  | .text s => quoted s
  | .word s => s

/-- The name is written out in the script, and the value comes back by itself. -/
structure Declared (field : Str × Json.Value) : Prop where
  name : ∀ c ∈ field.1, Json.isPlain c = true
  value : match field.2 with
    | .text s => Faithful s
    | .word s => s ≠ [] ∧ ∀ c ∈ s, Json.isWordChar c = true

def payloadOf (fields : List (Str × Json.Value)) : Str :=
  Json.writeObject (fields.map (Prod.map id writeValue))

theorem literal?_eq_some_iff {escaped : Str} :
    literal? ('"' :: (escaped ++ ['"'])) = some s ↔
        Json.string? (escaped ++ ['"']) = some (s, []) := by
  unfold literal?
  simp only [Option.bind_eq_some_iff]
  constructor
  · rintro ⟨⟨text, rest⟩, read, h⟩
    split at h
    · rename_i ended
      cases h
      rw [read, ← ended]
    · contradiction
  · intro read
    exact ⟨_, read, rfl⟩

theorem head?_dropWhile_newline (s : Str) :
    s.dropWhile (· ≠ '\n') = [] ∨ (s.dropWhile (· ≠ '\n')).head? = some '\n' := by
  cases head : (s.dropWhile (· ≠ '\n')).head? with
  | none => exact .inl (List.head?_eq_none_iff.mp head)
  | some c =>
    have stops := List.head?_dropWhile_not (· ≠ '\n') s
    rw [head] at stops
    exact .inr (by simpa using stops)

theorem faithful_iff (ends : s.getLast? ≠ some '\n') : Faithful s ↔ Escapable s := by
  have parts := s.takeWhile_append_dropWhile (p := (· ≠ '\n'))
  have more := head?_dropWhile_newline s
  have unbroken : '\n' ∉ s.takeWhile (· ≠ '\n') := by
    intro mem
    simpa using List.mem_takeWhile_imp mem
  unfold Escapable
  generalize s.takeWhile (· ≠ '\n') = first at *
  generalize s.dropWhile (· ≠ '\n') = tail at *
  subst parts
  unfold Faithful quoted
  rw [jsonEscape_eq unbroken more ends, literal?_eq_some_iff, List.append_assoc]
  by_cases clean : ∀ c ∈ first, 0x20 ≤ c.toNat
  · rw [string?_escapeLine clean, ← string?_escapeBreaks_iff]
    simpa using fun _ => clean
  · constructor
    · intro read
      exfalso
      obtain ⟨c, h⟩ := not_forall.mp clean
      obtain ⟨dirty, control⟩ := Classical.not_imp.mp h
      rw [string?_escapeLine_control dirty (Nat.lt_of_not_le control)] at read
      contradiction
    · rintro ⟨known, -⟩
      exact absurd known clean

theorem Declared.written {field : Str × Json.Value} (h : Declared field) :
    Json.Written (writeValue field.2) field.2 := by
  obtain ⟨name, value⟩ := field
  cases value with
  | text s => exact Json.written_text (literal?_eq_some_iff.mp h.value)
  | word s => exact Json.written_word h.value.1 h.value.2

theorem object?_payloadOf {fields : List (Str × Json.Value)} (nonempty : fields ≠ [])
    (h : ∀ field ∈ fields, Declared field) : Json.object? (payloadOf fields) = some fields :=
  Json.object?_writeObject nonempty fun field mem => ⟨(h field mem).name, (h field mem).written⟩

end Escape

/-- Among members that come back by themselves, the option's member is the only
one it adds to the payload. -/
def Contained (s : Str) : Prop :=
  ∀ (before after : List (Str × Json.Value)) (name : Str),
    (∀ field ∈ before ++ after, Declared field) → (∀ c ∈ name, Json.isPlain c = true) →
      Json.object? (payloadOf (before ++ (name, .text s) :: after)) =
        some (before ++ (name, .text s) :: after)

theorem Faithful.contained {s : Str} (h : Faithful s) : Contained s := by
  intro before after name others plain
  refine object?_payloadOf (by simp) fun field mem => ?_
  rcases List.mem_append.mp mem with mem | mem
  · exact others field (List.mem_append_left _ mem)
  rcases List.mem_cons.mp mem with rfl | mem
  · exact ⟨plain, h⟩
  · exact others field (List.mem_append_right _ mem)

theorem escape_faithful_iff {s : Str} (ends : s.getLast? ≠ some '\n') :
    (literal? (quoted s) = some s ∧ Contained s) ↔ Escapable s := by
  constructor
  · rintro ⟨faithful, -⟩
    exact (faithful_iff ends).mp faithful
  · intro escapable
    have faithful := (faithful_iff ends).mpr escapable
    exact ⟨faithful, faithful.contained⟩

/-- Quotes and backslashes are escaped in the first line. -/
def sampleText : Str := "say \"a\\b\"\nand more".toList

theorem escape_faithful_iff_sample :
    Escapable sampleText ∧ literal? (quoted sampleText) = some sampleText ∧
        Contained sampleText :=
  ⟨by decide, (escape_faithful_iff (by decide)).mpr (by decide)⟩

/-- A quote in the second line ends the literal. -/
def closingText : Str := "a\nb\",\"psk\":\"c".toList

theorem closingText_adds_field :
    '\x00' ∉ closingText ∧ closingText.getLast? ≠ some '\n' ∧
      literal? (quoted closingText) ≠ some closingText ∧
      Json.object? (payloadOf [("description".toList, .text closingText)]) =
        some [("description".toList, .text "a\nb".toList), ("psk".toList, .text "c".toList)] := by
  have ends : closingText.getLast? ≠ some '\n' := by decide
  refine ⟨by decide, ends, ?_, ?_⟩
  · intro read
    have escapable := (faithful_iff ends).mp read
    revert escapable
    decide
  · have same : payloadOf [("description".toList, .text closingText)] =
        payloadOf [("description".toList, .text "a\nb".toList),
            ("psk".toList, .text "c".toList)] := by
      decide
    rw [same]
    refine object?_payloadOf (by simp) fun field mem => ?_
    rcases List.mem_cons.mp mem with rfl | mem
    · exact ⟨List.all_eq_true.mp (by decide), (faithful_iff (by decide)).mpr (by decide)⟩
    · obtain rfl := List.mem_singleton.mp mem
      exact ⟨List.all_eq_true.mp (by decide), (faithful_iff (by decide)).mpr (by decide)⟩

end Tumgrd
