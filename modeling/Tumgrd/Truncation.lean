import Tumgrd.Ipdetect

/-! Whether the address that is found is one that the service sent, when the
response is longer than the buffers it goes through. -/
namespace Tumgrd

open Lex

section Receiving

/-- However the bytes arrive, the buffer holds as many of them as it has room for. -/
theorem recvLoop_eq (room : Nat) (arrives : List Recv) :
    recvLoop room arrives = (Recv.stream arrives).take room := by
  induction arrives generalizing room with
  | nil => simp [recvLoop, Recv.stream]
  | cons event rest ih =>
    cases event with
    | interrupted => exact ih room
    | data first more =>
      rw [recvLoop, Recv.stream, List.take_append]
      congr 1
      split
      · rename_i more
        rw [List.length_take] at more
        rw [ih, List.length_take, Nat.min_eq_right (by omega)]
      · rename_i full
        rw [List.length_take] at full
        rw [Nat.sub_eq_zero_of_le (by omega), List.take_zero]

theorem cString_take (bytes : Str) (n : Nat) : cString (bytes.take n) = (cString bytes).take n :=
  List.take_takeWhile.symm

theorem cString_initial (bytes : Str) : cString bytes <+: bytes := List.takeWhile_prefix _

end Receiving

section EmptyLine

/-- The bytes behind the first empty line, whichever line ends are used. -/
def afterEmptyLine : Str → Option Str
  | '\n' :: '\n' :: rest => some rest
  | '\n' :: '\r' :: '\n' :: rest => some rest
  | _ :: rest => afterEmptyLine rest
  | [] => none

theorem suffix_of_afterEmptyLine {s rest : Str} (h : afterEmptyLine s = some rest) :
    rest <:+ s := by
  fun_induction afterEmptyLine s with
  | case1 tail =>
    cases h
    exact (List.suffix_cons _ _).trans (List.suffix_cons _ _)
  | case2 tail =>
    cases h
    exact ((List.suffix_cons _ _).trans (List.suffix_cons _ _)).trans (List.suffix_cons _ _)
  | case3 c tail _ _ ih => exact (ih h).trans (List.suffix_cons _ _)
  | case4 => contradiction

/-- What may stand for an empty line with the line in front of it. -/
def emptyLines : List Str := ["\n\n".toList, "\n\r\n".toList]

/-- No empty line ends in front of the first one. -/
theorem afterEmptyLine_first {s line rest : Str} (empty : line ∈ emptyLines)
    (h : line ++ rest <:+ s) :
    ∃ first, afterEmptyLine s = some first ∧ rest.length ≤ first.length := by
  have long : 2 ≤ line.length := by
    rcases List.mem_pair.mp empty with rfl | rfl <;> decide
  fun_induction afterEmptyLine s with
  | case1 tail =>
    have := h.length_le
    simp only [List.length_append, List.length_cons] at this
    exact ⟨tail, rfl, by omega⟩
  | case2 tail =>
    refine ⟨tail, rfl, ?_⟩
    rcases List.suffix_cons_iff.mp h with whole | inside
    · rcases List.mem_pair.mp empty with rfl | rfl
      · cases whole
      · cases whole
        exact Nat.le_refl _
    · have := inside.length_le
      simp only [List.length_append, List.length_cons] at this
      omega
  | case3 c tail other other' ih =>
    rcases List.suffix_cons_iff.mp h with whole | inside
    · rcases List.mem_pair.mp empty with rfl | rfl
      · cases whole
        exact absurd rfl (other _ rfl)
      · cases whole
        exact absurd rfl (other' _ rfl)
    · exact ih inside
  | case4 =>
    have := h.length_le
    simp only [List.length_append, List.length_nil] at this
    omega

theorem found_of_strstr {text needle : Str} {i : Nat} (h : strstr text needle = some i) :
    needle <+: text.drop i := by
  induction text generalizing i with
  | nil =>
    unfold strstr at h
    split at h
    · rename_i found
      cases h
      exact List.isPrefixOf_iff_prefix.mp found
    · contradiction
  | cons c text ih =>
    unfold strstr at h
    split at h
    · rename_i found
      cases h
      exact List.isPrefixOf_iff_prefix.mp found
    · obtain ⟨j, later, rfl⟩ := Option.map_eq_some_iff.mp h
      exact ih later

end EmptyLine

section Documents

variable {s : Str} {n start : Nat}

theorem suffix_of_found {text needle : Str} {i : Nat} (inside : text <+: s)
    (found : needle <+: text.drop i) : needle ++ s.drop (i + needle.length) <:+ s := by
  obtain ⟨rest, hrest⟩ := found.trans (inside.drop i)
  rw [← List.drop_drop, ← hrest, List.drop_left, hrest]
  exact List.drop_suffix i s

/-- The body starts behind an empty line. -/
theorem emptyLine_of_headerEnd (h : headerEnd (cString (s.take n)) = some start) :
    ∃ line ∈ emptyLines, line ++ s.drop start <:+ s := by
  have inside : cString (s.take n) <+: s := (cString_initial _).trans (List.take_prefix n s)
  unfold headerEnd at h
  split at h
  · rename_i i found
    cases h
    have suffix := suffix_of_found inside (found_of_strstr found)
    exact ⟨"\n\r\n".toList, by simp [emptyLines], (List.suffix_cons _ _).trans suffix⟩
  · obtain ⟨i, found, rfl⟩ := Option.map_eq_some_iff.mp h
    exact ⟨"\n\n".toList, by simp [emptyLines],
      suffix_of_found inside (found_of_strstr found)⟩

/-- The code may overlook empty lines, but not the end of a line. -/
theorem document_of_headerEnd (h : headerEnd (cString (s.take n)) = some start) :
    ∃ document skipped, afterEmptyLine s = some document ∧
      document = skipped ++ s.drop start ∧
      ∀ c ∈ skipped.getLast?, isDelimiter c = true := by
  obtain ⟨line, empty, suffix⟩ := emptyLine_of_headerEnd h
  obtain ⟨document, first, long⟩ := afterEmptyLine_first empty suffix
  have within := suffix_of_afterEmptyLine first
  have tail := (List.suffix_append line (s.drop start)).trans suffix
  obtain ⟨skipped, rfl⟩ := List.suffix_of_suffix_length_le tail within long
  refine ⟨_, skipped, first, rfl, fun c hc => ?_⟩
  obtain ⟨x, hx⟩ := within
  obtain ⟨y, hy⟩ := suffix
  have same : x ++ skipped = y ++ line := by
    have both := hx.trans hy.symm
    rw [← List.append_assoc, ← List.append_assoc] at both
    exact List.append_cancel_right both
  have last : (x ++ skipped).getLast? = some c := by
    rw [List.getLast?_append, Option.mem_def.mp hc, Option.some_or]
  rw [same, List.getLast?_append] at last
  rcases List.mem_pair.mp empty with rfl | rfl
  · cases last
    rfl
  · cases last
    rfl

end Documents

section Cutting

variable {s body document : Str} {start kept : Nat} {accepts : Str → Bool}

/-- How much of the body reaches `extract_ip`: both buffers and a NUL byte cut it. -/
def keptLength (body : Str) (start : Nat) : Nat :=
  min (min 511 (4095 - start)) (cString body).length

theorem httpBody_eq_some {text : Str} : httpBody (s.take 4095) = some text ↔
    statusOk (cString (s.take 4095)) = true ∧
      ∃ start, headerEnd (cString (s.take 4095)) = some start ∧
      (s.take 4095).drop start ≠ [] ∧ text = ((s.take 4095).drop start).take 511 := by
  unfold httpBody
  constructor
  · intro h
    split at h
    · rename_i ok
      split at h
      · contradiction
      · rename_i start found
        split at h
        · contradiction
        · rename_i nonempty
          exact ⟨ok, start, found, nonempty, (Option.some.inj h).symm⟩
    · contradiction
  · rintro ⟨ok, start, found, nonempty, rfl⟩
    rw [if_pos ok, found]
    dsimp only
    rw [if_neg nonempty]

theorem cString_kept (s : Str) (start : Nat) :
    cString (((s.take 4095).drop start).take 511) =
      (s.drop start).take (keptLength (s.drop start) start) := by
  have initial := List.prefix_iff_eq_take.mp (cString_initial (s.drop start))
  rw [List.drop_take, List.take_take, cString_take, initial, List.take_take]
  rfl

/-- The cut after `kept` bytes goes through a token, the piece in front of it is
an address, the first one, and no token of the document. -/
def Severs (accepts : Str → Bool) (document body : Str) (kept : Nat) : Prop :=
  ∃ front piece next rest, body = front ++ (piece ++ next :: rest) ∧
    (front ++ piece).length = kept ∧ (∀ c ∈ front.getLast?, isDelimiter c = true) ∧
    Solid isDelimiter piece ∧ isDelimiter next = false ∧ accepts piece = true ∧
    (∀ token, IsWord isDelimiter front token → accepts token = false) ∧
    ¬IsWord isDelimiter document piece

/-- The first address in front of the cut is a token of the document, unless the
cut severs it. -/
theorem kept_address_iff {skipped : Str} (real : accepts [] = false)
    (hdoc : document = skipped ++ body) (last : ∀ c ∈ skipped.getLast?, isDelimiter c = true) :
    (∀ token, (words isDelimiter (body.take kept)).find? accepts = some token →
      IsWord isDelimiter document token) ↔ ¬Severs accepts document body kept := by
  have extend : ∀ token, IsWord isDelimiter body token → IsWord isDelimiter document token :=
    fun token h => hdoc ▸ h.append_left last
  constructor
  · rintro complete ⟨front, piece, next, rest, hbody, hkept, hfront, solid, -, address,
      first, absent⟩
    refine absent (complete piece ?_)
    have nonempty : piece ≠ [] := by
      rintro rfl
      rw [real] at address
      contradiction
    have cut : body.take kept = front ++ piece := by
      rw [hbody, ← hkept, ← List.append_assoc, List.take_left]
    have earlier : (words isDelimiter front).find? accepts = none := by
      rw [List.find?_eq_none]
      intro token htoken
      simp [first token (mem_words.mp htoken)]
    rw [cut, words_append_of_last hfront, words_solid nonempty solid, List.find?_append, earlier,
      Option.none_or, List.find?_cons_of_pos address]
  · intro whole token found
    by_contra absent
    have address : accepts token = true := List.find?_some found
    obtain ⟨nonempty, solid, before, after, htake, hlast, hnext⟩ :=
      mem_words.mp (List.mem_of_find?_eq_some found)
    have hbody : body = before ++ (token ++ (after ++ body.drop kept)) := by
      rw [← List.append_assoc token, ← List.append_assoc, ← htake, List.take_append_drop]
    have cut : ¬∀ c ∈ (after ++ body.drop kept).head?, isDelimiter c = true := fun next =>
      absent (extend token ⟨nonempty, solid, before, _, hbody, hlast, next⟩)
    cases after with
    | cons c after => exact cut fun d hd => hnext d hd
    | nil =>
      rw [List.append_nil] at htake
      rw [List.nil_append] at cut hbody
      cases hrest : body.drop kept with
      | nil => simp [hrest] at cut
      | cons next rest =>
        rw [hrest] at cut hbody
        refine whole ⟨before, token, next, rest, hbody, ?_, hlast, solid, by simpa using cut,
          address, ?_, absent⟩
        · rw [← htake, List.length_take, Nat.min_eq_left]
          by_contra short
          rw [List.drop_eq_nil_of_le (by omega)] at hrest
          exact List.cons_ne_nil _ _ hrest.symm
        · intro token' first
          rw [← Bool.not_eq_true]
          intro address'
          have finds := List.find?_isSome.mpr ⟨token', mem_words.mpr first, address'⟩
          obtain ⟨token'', earlier⟩ := Option.isSome_iff_exists.mp finds
          rw [htake, words_append_of_last hlast, List.find?_append, earlier,
            Option.some_or] at found
          cases found
          have inside := mem_words.mp (List.mem_of_find?_eq_some earlier)
          refine absent (extend token ?_)
          rw [hbody]
          exact inside.append_right hlast _

/-- The response severs an address of the family that `ip_version` asks for. -/
def SeversAddress (ipVersion response : Str) : Prop :=
  statusOk (cString (response.take 4095)) = true ∧ ∃ start document,
    headerEnd (cString (response.take 4095)) = some start ∧
      afterEmptyLine response = some document ∧
      Severs (ipFamilyFromVersion ipVersion).accepts document (response.drop start)
        (keptLength (response.drop start) start)

theorem extractIp_kept (response ipVersion : Str) (start : Nat) :
    extractIp (cString (((response.take 4095).drop start).take 511)) ipVersion =
      ((words isDelimiter
          ((response.drop start).take (keptLength (response.drop start) start))).find?
        (ipFamilyFromVersion ipVersion).accepts).map .copy := by
  rw [cString_kept, extractIp_eq]
  rw [List.length_take]
  unfold keptLength
  omega

theorem text_copy_of_accepts {family : Family} {token : Str} (h : family.accepts token = true) :
    (Buf.copy token : Buf 64).text = token := by
  refine Buf.text_copy_of_fits ?_
  have := (Family.addressText h).length_le
  omega

theorem accepts_nil (family : Family) : family.accepts [] = false := by
  rw [← Bool.not_eq_true]
  exact fun h => (Family.addressText h).nonempty rfl

end Cutting

/-- The address that is found is a complete token of what the service sent
behind its headers, exactly for the responses that sever none. -/
theorem address_complete_iff (arrives : List Recv) (ipVersion : Str) :
    (∀ body ip, httpGetWithMark arrives = some body →
      extractIp (cString body) ipVersion = some ip →
        ∃ document, afterEmptyLine (Recv.stream arrives) = some document ∧
          IsWord isDelimiter document ip.text) ↔
      ¬SeversAddress ipVersion (Recv.stream arrives) := by
  have received : httpGetWithMark arrives = httpBody ((Recv.stream arrives).take 4095) := by
    rw [httpGetWithMark, recvLoop_eq]
  rw [received]
  generalize Recv.stream arrives = response
  constructor
  · rintro complete ⟨ok, start, document, found, first, severs⟩
    obtain ⟨_, skipped, first', hdoc, last⟩ := document_of_headerEnd found
    obtain rfl := Option.some.inj (first.symm.trans first')
    refine (kept_address_iff (accepts_nil _) hdoc last).mp (fun token htoken => ?_) severs
    have extracted := extractIp_kept response ipVersion start
    rw [htoken] at extracted
    have nonempty : (response.take 4095).drop start ≠ [] := by
      intro empty
      rw [← cString_kept, empty] at htoken
      contradiction
    have body := httpBody_eq_some.mpr ⟨ok, start, found, nonempty, rfl⟩
    obtain ⟨document', first'', word⟩ := complete _ _ body extracted
    obtain rfl := Option.some.inj (first.symm.trans first'')
    rw [text_copy_of_accepts (List.find?_some htoken)] at word
    exact word
  · intro whole body ip got extracted
    obtain ⟨ok, start, found, -, rfl⟩ := httpBody_eq_some.mp got
    obtain ⟨document, skipped, first, hdoc, last⟩ := document_of_headerEnd found
    rw [extractIp_kept] at extracted
    obtain ⟨token, htoken, rfl⟩ := Option.map_eq_some_iff.mp extracted
    refine ⟨document, first, ?_⟩
    rw [text_copy_of_accepts (List.find?_some htoken)]
    refine (kept_address_iff (accepts_nil _) hdoc last).mpr (fun severs => ?_) token htoken
    exact whole ⟨ok, start, document, found, first, severs⟩

/-- A page of blanks with an address that ends one byte behind the kept part. -/
def longPage : Str :=
  "HTTP/1.0 200 OK\r\n\r\n".toList ++ List.replicate 504 ' ' ++ "1.2.3.45".toList

theorem address_cut : ∃ arrives ip document, Recv.stream arrives = longPage ∧
    (httpGetWithMark arrives).bind (fun body =>
      extractIp (cString body) "ipv4".toList) = some ip ∧
      ip.text = "1.2.3.4".toList ∧ afterEmptyLine longPage = some document ∧
      ¬IsWord isDelimiter document ip.text := by
  have kept : httpGetWithMark [.data 'H' longPage.tail] =
      some (List.replicate 504 ' ' ++ "1.2.3.4".toList) := by decide +kernel
  have word : (words isDelimiter (cString (List.replicate 504 ' ' ++ "1.2.3.4".toList))).find?
      (ipFamilyFromVersion "ipv4".toList).accepts = some "1.2.3.4".toList := by decide +kernel
  have whole : words isDelimiter (List.replicate 504 ' ' ++ "1.2.3.45".toList) =
      ["1.2.3.45".toList] := by decide +kernel
  refine ⟨[.data 'H' longPage.tail], .copy "1.2.3.4".toList,
    List.replicate 504 ' ' ++ "1.2.3.45".toList,
      by decide +kernel, ?_, rfl, by decide +kernel, ?_⟩
  · rw [kept, Option.bind_some, extractIp_eq (by decide +kernel), word]
    rfl
  · rw [← mem_words, whole]
    decide

end Tumgrd
