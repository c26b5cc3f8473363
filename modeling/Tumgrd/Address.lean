import Mathlib.Algebra.BigOperators.Group.List.Basic
import Tumgrd.Text

/-! `inet_pton` for the two families: which texts are addresses, and of what. -/
namespace Tumgrd

def hexValue (c : Char) : Option Nat :=
  if c.isDigit then some (c.toNat - '0'.toNat)
  else if 'a' ≤ c ∧ c ≤ 'f' then some (c.toNat - 'a'.toNat + 10)
  else if 'A' ≤ c ∧ c ≤ 'F' then some (c.toNat - 'A'.toNat + 10)
  else none

/-- One to three decimal digits up to 255, without a leading zero. -/
def isOctet (s : Str) : Bool :=
  0 < s.length && s.length ≤ 3 && s.all Char.isDigit && (s.length = 1 || s.head? ≠ some '0') &&
    Nat.ofDigitChars 10 s 0 ≤ 255

/-- `inet_pton(AF_INET, ...)`: the four bytes of a dotted quad. -/
def inetPton4 (s : Str) : Option (List Nat) :=
  let parts := s.splitOn '.'
  if parts.length = 4 ∧ parts.all isOctet then
    some (parts.map fun part => Nat.ofDigitChars 10 part 0)
  else none

/-- One to four hexadecimal digits. -/
def isGroup (s : Str) : Bool :=
  0 < s.length && s.length ≤ 4 && s.all fun c => (hexValue c).isSome

def groupValue (s : Str) : Nat := s.foldl (fun value c => 16 * value + (hexValue c).getD 0) 0

def hexGroups (parts : List Str) : Option (List Nat) :=
  if parts.all isGroup then some (parts.map groupValue) else none

/-- Groups up to the end of the text, where a dotted quad stands for two. -/
def lastGroups (parts : List Str) : Option (List Nat) :=
  match parts.getLast?.bind inetPton4 with
  | some [a, b, c, d] => (hexGroups parts.dropLast).map (· ++ [256 * a + b, 256 * c + d])
  | _ => hexGroups parts

/-- The text in front of the first `::` and behind it. -/
def cutDoubleColon : Str → Option (Str × Str)
  | ':' :: ':' :: rest => some ([], rest)
  | c :: rest => (cutDoubleColon rest).map fun cut => (c :: cut.1, cut.2)
  | [] => none

/-- Colon-separated groups, or nothing at all. -/
def groupsOf (parse : List Str → Option (List Nat)) (s : Str) : Option (List Nat) :=
  if s = [] then some [] else parse (s.splitOn ':')

/-- `inet_pton(AF_INET6, ...)`: the eight groups, with zeros for a `::`. -/
def inetPton6 (s : Str) : Option (List Nat) :=
  match cutDoubleColon s with
  | none => (lastGroups (s.splitOn ':')).filter fun groups => groups.length = 8
  | some (front, back) =>
      match groupsOf hexGroups front, groupsOf lastGroups back with
      | some front, some back =>
          if front.length + back.length ≤ 7 then
            some (front ++ List.replicate (8 - front.length - back.length) 0 ++ back)
          else none
      | _, _ => none

/-- The address a text denotes, in four bytes or in eight groups. -/
def inetPton (s : Str) : Option (List Nat) := (inetPton4 s).or (inetPton6 s)

section Texts

/-- What addresses are written with. -/
def isAddressChar (c : Char) : Bool := (hexValue c).isSome || c = '.' || c = ':'

/-- What `inet_pton` accepts is at most this. -/
structure AddressText (s : Str) : Prop where
  nonempty : s ≠ []
  length_le : s.length ≤ 45
  chars : ∀ c ∈ s, isAddressChar c = true

theorem length_splitOn (x : Char) (s : Str) :
    ((s.splitOn x).map fun part => part.length + 1).sum = s.length + 1 := by
  induction s with
  | nil => rfl
  | cons c s ih =>
    rw [List.splitOn_cons_eq_if_modifyHead]
    split
    · simp [ih]
      omega
    · obtain ⟨part, rest, h⟩ := List.exists_cons_of_ne_nil (List.splitOn_ne_nil x s)
      rw [h] at ih ⊢
      simp only [List.modifyHead_cons, List.map_cons, List.sum_cons, List.length_cons] at ih ⊢
      omega

theorem sum_length_le {parts : List Str} {n : Nat} (h : ∀ part ∈ parts, part.length + 1 ≤ n) :
    (parts.map fun part => part.length + 1).sum ≤ n * parts.length := by
  induction parts with
  | nil => simp
  | cons part rest ih =>
    obtain ⟨own, others⟩ := List.forall_mem_cons.mp h
    have := ih others
    rw [List.map_cons, List.sum_cons, List.length_cons, Nat.mul_succ]
    omega

theorem mem_of_mem_splitOn {x c : Char} {s : Str} (h : c ∈ s) :
    c = x ∨ ∃ part ∈ s.splitOn x, c ∈ part := by
  induction s with
  | nil => contradiction
  | cons d s ih =>
    rw [List.splitOn_cons_eq_if_modifyHead]
    split
    · rename_i same
      rcases List.mem_cons.mp h with rfl | h
      · exact .inl (by simpa using same)
      · exact (ih h).imp id fun ⟨part, hpart, hc⟩ =>
          ⟨part, List.mem_cons_of_mem _ hpart, hc⟩
    · obtain ⟨part, rest, hs⟩ := List.exists_cons_of_ne_nil (List.splitOn_ne_nil x s)
      rw [hs] at ih ⊢
      simp only [List.modifyHead_cons, List.mem_cons] at h ih ⊢
      rcases h with rfl | h
      · exact .inr ⟨_, .inl rfl, List.mem_cons_self⟩
      rcases ih h with rfl | ⟨part', rfl | hpart, hc⟩
      · exact .inl rfl
      · exact .inr ⟨_, .inl rfl, List.mem_cons_of_mem _ hc⟩
      · exact .inr ⟨part', .inr hpart, hc⟩

theorem isAddressChar_of_isDigit {c : Char} (h : c.isDigit = true) : isAddressChar c = true := by
  simp [isAddressChar, hexValue, h]

theorem chars_of_splitOn {x : Char} {s : Str} (hx : isAddressChar x = true)
    (h : ∀ part ∈ s.splitOn x, ∀ c ∈ part, isAddressChar c = true) :
    ∀ c ∈ s, isAddressChar c = true := by
  intro c hc
  rcases mem_of_mem_splitOn (x := x) hc with rfl | ⟨part, hpart, hc⟩
  · exact hx
  · exact h part hpart c hc

theorem isOctet_spec {s : Str} (h : isOctet s = true) :
    0 < s.length ∧ s.length ≤ 3 ∧ ∀ c ∈ s, isAddressChar c = true := by
  simp only [isOctet, Bool.and_eq_true, decide_eq_true_eq, List.all_eq_true] at h
  obtain ⟨⟨⟨⟨nonempty, short⟩, digits⟩, -⟩, -⟩ := h
  exact ⟨nonempty, short, fun c hc => isAddressChar_of_isDigit (digits c hc)⟩

theorem isGroup_spec {s : Str} (h : isGroup s = true) :
    0 < s.length ∧ s.length ≤ 4 ∧ ∀ c ∈ s, isAddressChar c = true := by
  simp only [isGroup, Bool.and_eq_true, decide_eq_true_eq, List.all_eq_true] at h
  obtain ⟨⟨nonempty, short⟩, digits⟩ := h
  exact ⟨nonempty, short, fun c hc => by simp [isAddressChar, digits c hc]⟩

theorem inetPton4_spec {s : Str} {octets : List Nat} (h : inetPton4 s = some octets) :
    s ≠ [] ∧ s.length ≤ 15 ∧ ∀ c ∈ s, isAddressChar c = true := by
  unfold inetPton4 at h
  dsimp only at h
  split at h
  · rename_i quad
    obtain ⟨four, octet⟩ := quad
    have octet : ∀ part ∈ s.splitOn '.', isOctet part = true := List.all_eq_true.mp octet
    have count := length_splitOn '.' s
    have bound : ((s.splitOn '.').map fun part => part.length + 1).sum ≤
        4 * (s.splitOn '.').length :=
      sum_length_le fun part hpart => Nat.succ_le_succ (isOctet_spec (octet part hpart)).2.1
    refine ⟨?_, ?_, chars_of_splitOn rfl fun part hpart =>
      (isOctet_spec (octet part hpart)).2.2⟩
    · rintro rfl
      contradiction
    · omega
  · contradiction

/-- A group takes at most five characters with its colon. -/
theorem hexGroups_spec {parts : List Str} {groups : List Nat} (h : hexGroups parts = some groups) :
    (parts.map fun part => part.length + 1).sum ≤ 5 * groups.length ∧
      ∀ part ∈ parts, ∀ c ∈ part, isAddressChar c = true := by
  unfold hexGroups at h
  split at h
  · rename_i all
    cases h
    have group : ∀ part ∈ parts, isGroup part = true := List.all_eq_true.mp all
    refine ⟨?_, fun part hpart => (isGroup_spec (group part hpart)).2.2⟩
    rw [List.length_map]
    exact sum_length_le fun part hpart => Nat.succ_le_succ (isGroup_spec (group part hpart)).2.1
  · contradiction

/-- A dotted quad takes at most sixteen for its two. -/
theorem lastGroups_spec {parts : List Str} {groups : List Nat}
    (h : lastGroups parts = some groups) :
    (parts.map fun part => part.length + 1).sum ≤ 5 * groups.length + 6 ∧
      ∀ part ∈ parts, ∀ c ∈ part, isAddressChar c = true := by
  unfold lastGroups at h
  split at h
  · rename_i quad
    obtain ⟨last, hlast, quad⟩ := Option.bind_eq_some_iff.mp quad
    obtain ⟨front, hfront, rfl⟩ := Option.map_eq_some_iff.mp h
    have own := inetPton4_spec quad
    obtain ⟨short, chars⟩ := hexGroups_spec hfront
    rw [← List.dropLast_append_getLast? last hlast]
    simp only [List.map_append, List.sum_append, List.map_singleton, List.sum_singleton,
      List.length_append, List.length_cons, List.length_nil, List.forall_mem_append,
      List.forall_mem_singleton]
    exact ⟨by omega, chars, own.2.2⟩
  · obtain ⟨short, chars⟩ := hexGroups_spec h
    exact ⟨by omega, chars⟩

theorem groupsOf_spec {parse : List Str → Option (List Nat)} {s : Str}
    {groups : List Nat} {n : Nat}
    (spec : ∀ parts groups, parse parts = some groups →
      (parts.map fun part => part.length + 1).sum ≤ 5 * groups.length + n ∧
        ∀ part ∈ parts, ∀ c ∈ part, isAddressChar c = true)
    (h : groupsOf parse s = some groups) :
    s.length ≤ 5 * groups.length + n ∧ ∀ c ∈ s, isAddressChar c = true := by
  unfold groupsOf at h
  split at h
  · rename_i empty
    subst empty
    simp
  · obtain ⟨short, chars⟩ := spec _ _ h
    rw [length_splitOn] at short
    exact ⟨by omega, chars_of_splitOn rfl chars⟩

theorem eq_of_cutDoubleColon {s front back : Str} (h : cutDoubleColon s = some (front, back)) :
    s = front ++ ':' :: ':' :: back := by
  fun_induction cutDoubleColon s generalizing front back with
  | case1 rest =>
    cases h
    rfl
  | case2 c rest _ ih =>
    obtain ⟨⟨front', back'⟩, cut, same⟩ := Option.map_eq_some_iff.mp h
    cases same
    rw [ih cut, List.cons_append]
  | case3 => contradiction

theorem inetPton6_spec {s : Str} {groups : List Nat} (h : inetPton6 s = some groups) :
    AddressText s := by
  unfold inetPton6 at h
  split at h
  · obtain ⟨last, eight⟩ := Option.filter_eq_some_iff.mp h
    obtain ⟨short, chars⟩ := lastGroups_spec last
    rw [length_splitOn] at short
    refine ⟨?_, by simp at eight; omega, chars_of_splitOn rfl chars⟩
    rintro rfl
    contradiction
  · rename_i front back cut
    rw [eq_of_cutDoubleColon cut]
    split at h
    · rename_i hfront hback
      split at h
      · rename_i seven
        have front := groupsOf_spec (n := 0) (fun _ _ => hexGroups_spec) hfront
        have back := groupsOf_spec (fun _ _ => lastGroups_spec) hback
        refine ⟨by simp, ?_, ?_⟩
        · simp only [List.length_append, List.length_cons]
          omega
        · simp only [List.forall_mem_append, List.forall_mem_cons]
          exact ⟨front.2, rfl, rfl, back.2⟩
      · contradiction
    · contradiction

theorem addressText_of_inetPton4 {s : Str} (h : (inetPton4 s).isSome) : AddressText s := by
  obtain ⟨octets, h⟩ := Option.isSome_iff_exists.mp h
  obtain ⟨nonempty, short, chars⟩ := inetPton4_spec h
  exact ⟨nonempty, by omega, chars⟩

theorem addressText_of_inetPton6 {s : Str} (h : (inetPton6 s).isSome) : AddressText s := by
  obtain ⟨groups, h⟩ := Option.isSome_iff_exists.mp h
  exact inetPton6_spec h

end Texts

section Letters

theorem isUpper_iff {c : Char} : c.isUpper = true ↔ 'A'.val ≤ c.val ∧ c.val ≤ 'Z'.val :=
  decide_eq_true_iff

theorem toLower_of_not_isUpper {c : Char} (h : ¬c.isUpper = true) : c.toLower = c := by
  unfold Char.toLower
  exact dif_neg (mt isUpper_iff.mpr h)

theorem eq_of_isUpper {c : Char} (h : c.isUpper = true) :
    ∃ i : Fin 26, c = Char.ofNat ('A'.toNat + i) := by
  have bounds : 65 ≤ c.toNat ∧ c.toNat ≤ 90 := by
    simpa [UInt32.le_iff_toNat_le] using isUpper_iff.mp h
  refine ⟨⟨c.toNat - 65, by omega⟩, ?_⟩
  have same : 'A'.toNat + (c.toNat - 65) = c.toNat := Nat.add_sub_cancel' bounds.1
  rw [same, Char.ofNat_toNat]

/-- What the capitals share with their small letters, every character does. -/
theorem apply_toLower {α : Type} {f : Char → α}
    (letters : ∀ i : Fin 26,
      f (Char.ofNat ('A'.toNat + i)).toLower = f (Char.ofNat ('A'.toNat + i)))
    (c : Char) : f c.toLower = f c := by
  by_cases upper : c.isUpper = true
  · obtain ⟨i, rfl⟩ := eq_of_isUpper upper
    exact letters i
  · rw [toLower_of_not_isUpper upper]

theorem hexValue_toLower (c : Char) : hexValue c.toLower = hexValue c :=
  apply_toLower (by decide) c

theorem isDigit_toLower (c : Char) : c.toLower.isDigit = c.isDigit :=
  apply_toLower (by decide) c

theorem beq_toLower {x : Char} (hx : x = '.' ∨ x = ':') (c : Char) :
    (c.toLower == x) = (c == x) := by
  rcases hx with rfl | rfl <;> exact apply_toLower (f := (· == _)) (by decide) c

theorem toLower_of_isDigit {c : Char} (h : c.isDigit = true) : c.toLower = c := by
  refine toLower_of_not_isUpper fun upper => ?_
  obtain ⟨i, rfl⟩ := eq_of_isUpper upper
  revert i
  decide

theorem splitOn_toLower {x : Char} (hx : x = '.' ∨ x = ':') (s : Str) :
    (s.map Char.toLower).splitOn x = (s.splitOn x).map (List.map Char.toLower) := by
  induction s with
  | nil => rfl
  | cons c s ih =>
    rw [List.map_cons, List.splitOn_cons_eq_if_modifyHead, List.splitOn_cons_eq_if_modifyHead, ih,
      beq_toLower hx]
    split
    · rfl
    · obtain ⟨part, rest, h⟩ := List.exists_cons_of_ne_nil (List.splitOn_ne_nil x s)
      rw [h]
      rfl

theorem map_toLower_of_digits {s : Str} (h : s.all Char.isDigit = true) :
    s.map Char.toLower = s := by
  conv_rhs => rw [← List.map_id s]
  exact List.map_congr_left fun c hc => toLower_of_isDigit (List.all_eq_true.mp h c hc)

theorem isOctet_toLower (s : Str) : isOctet (s.map Char.toLower) = isOctet s := by
  have all : (s.map Char.toLower).all Char.isDigit = s.all Char.isDigit := by
    simp only [List.all_map, Function.comp_def, isDigit_toLower]
  by_cases digits : s.all Char.isDigit = true
  · rw [map_toLower_of_digits digits]
  · simp only [isOctet, all, (Bool.not_eq_true _).mp digits, Bool.and_false, Bool.false_and]

theorem octet_toLower {s : Str} (h : isOctet s = true) : s.map Char.toLower = s := by
  simp only [isOctet, Bool.and_eq_true] at h
  exact map_toLower_of_digits h.1.1.2

theorem inetPton4_toLower (s : Str) : inetPton4 (s.map Char.toLower) = inetPton4 s := by
  simp only [inetPton4, splitOn_toLower (.inl rfl), List.length_map, List.all_map,
    Function.comp_def, isOctet_toLower, List.map_map]
  split
  · rename_i quad
    refine congrArg some (List.map_congr_left fun part hpart => ?_)
    rw [octet_toLower (List.all_eq_true.mp quad.2 part hpart)]
  · rfl

theorem isGroup_toLower (s : Str) : isGroup (s.map Char.toLower) = isGroup s := by
  simp [isGroup, List.all_map, Function.comp_def, hexValue_toLower]

theorem groupValue_toLower (s : Str) : groupValue (s.map Char.toLower) = groupValue s := by
  simp only [groupValue, List.foldl_map, hexValue_toLower]

theorem hexGroups_toLower (parts : List Str) :
    hexGroups (parts.map (List.map Char.toLower)) = hexGroups parts := by
  simp only [hexGroups, List.all_map, Function.comp_def, isGroup_toLower, List.map_map,
    groupValue_toLower]

theorem lastGroups_toLower (parts : List Str) :
    lastGroups (parts.map (List.map Char.toLower)) = lastGroups parts := by
  have last : (parts.map (List.map Char.toLower)).getLast?.bind inetPton4 =
      parts.getLast?.bind inetPton4 := by
    rw [List.getLast?_map]
    cases parts.getLast? with
    | none => rfl
    | some part => exact inetPton4_toLower part
  simp only [lastGroups, last, ← List.map_dropLast, hexGroups_toLower]

theorem groupsOf_toLower {parse : List Str → Option (List Nat)}
    (h : ∀ parts, parse (parts.map (List.map Char.toLower)) = parse parts) (s : Str) :
    groupsOf parse (s.map Char.toLower) = groupsOf parse s := by
  simp only [groupsOf, List.map_eq_nil_iff, splitOn_toLower (.inr rfl), h]

theorem cutDoubleColon_toLower (s : Str) : cutDoubleColon (s.map Char.toLower) =
    (cutDoubleColon s).map (Prod.map (List.map Char.toLower) (List.map Char.toLower)) := by
  have colon : ∀ c : Char, c.toLower = ':' ↔ c = ':' := fun c => by
    simpa using congrArg (· = true) (beq_toLower (.inr rfl) c)
  fun_induction cutDoubleColon s with
  | case1 rest => rfl
  | case2 c rest other ih =>
    rw [List.map_cons, cutDoubleColon, ih, Option.map_map, Option.map_map]
    · rfl
    · intro rest' hc hrest
      cases rest with
      | nil => exact absurd hrest.symm (List.cons_ne_nil _ _)
      | cons d rest =>
        obtain ⟨hd, -⟩ := List.cons.inj hrest
        exact other rest ((colon c).mp hc) (by rw [(colon d).mp hd])
  | case3 => rfl

theorem inetPton6_toLower (s : Str) : inetPton6 (s.map Char.toLower) = inetPton6 s := by
  unfold inetPton6
  rw [cutDoubleColon_toLower]
  cases cutDoubleColon s with
  | none => simp only [Option.map_none, splitOn_toLower (.inr rfl), lastGroups_toLower]
  | some cut =>
    simp only [Option.map_some, Prod.map, groupsOf_toLower hexGroups_toLower,
      groupsOf_toLower lastGroups_toLower]

/-- The letters of an address may be of either case. -/
theorem inetPton_of_streqcase {a b : Str} (h : streqcase a b = true) : inetPton a = inetPton b := by
  have same : a.map Char.toLower = b.map Char.toLower := by simpa [streqcase] using h
  simp only [inetPton]
  rw [← inetPton4_toLower a, ← inetPton6_toLower a, same, inetPton4_toLower, inetPton6_toLower]

end Letters

end Tumgrd
