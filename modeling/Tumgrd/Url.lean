import Tumgrd.Ipdetect

/-! The grammar of `parse_url_host_path`, part by part, and that the function
accepts exactly what is written in it. -/
namespace Tumgrd

/-! Numbers with leading zeros. -/

theorem toNat_digitChar : ∀ n < 10, (Nat.digitChar n).toNat = 48 + n := by decide

theorem digitChar_of_isDigit {c : Char} (h : c.isDigit = true) :
    Nat.digitChar (c.toNat - '0'.toNat) = c ∧ c.toNat - '0'.toNat < 10 := by
  simp only [Char.isDigit, Bool.and_eq_true, decide_eq_true_eq] at h
  have low : 48 ≤ c.toNat := h.1
  have high : c.toNat ≤ 57 := h.2
  have small : c.toNat - '0'.toNat < 10 := by
    show c.toNat - 48 < 10
    omega
  refine ⟨Char.toNat_inj.mp ?_, small⟩
  rw [toNat_digitChar _ small]
  show 48 + (c.toNat - 48) = c.toNat
  omega

theorem ofDigitChars_concat (digits : Str) (c : Char) :
    Nat.ofDigitChars 10 (digits ++ [c]) 0 =
      10 * Nat.ofDigitChars 10 digits 0 + (c.toNat - '0'.toNat) := by
  rw [Nat.ofDigitChars_append, Nat.ofDigitChars_cons, Nat.ofDigitChars_nil]

/-- Digits are zeros, or zeros in front of their value in decimal. -/
theorem digits_eq (digits : Str) (all : ∀ c ∈ digits, c.isDigit = true) :
    ∃ zeros, digits = List.replicate zeros '0' ++
      if Nat.ofDigitChars 10 digits 0 = 0 then []
      else Nat.toDigits 10 (Nat.ofDigitChars 10 digits 0) := by
  induction digits using List.reverseRecOn with
  | nil => exact ⟨0, rfl⟩
  | append_singleton digits c ih =>
    obtain ⟨zeros, ih⟩ := ih fun d hd => all d (List.mem_append_left _ hd)
    obtain ⟨char, small⟩ := digitChar_of_isDigit (all c (by simp))
    rw [ofDigitChars_concat]
    generalize Nat.ofDigitChars 10 digits 0 = front at ih ⊢
    generalize c.toNat - '0'.toNat = last at char small ⊢
    have own : Nat.toDigits 10 last = [c] := by rw [Nat.toDigits_of_lt_base small, char]
    by_cases zero : front = 0
    · subst zero
      rw [if_pos rfl, List.append_nil] at ih
      rw [Nat.mul_zero, Nat.zero_add, ih]
      split
      · rename_i none
        subst none
        exact ⟨zeros + 1, by rw [← char, List.replicate_succ', List.append_nil]; rfl⟩
      · exact ⟨zeros, by rw [own]⟩
    · rw [if_neg zero] at ih
      rw [if_neg (by omega), ih]
      refine ⟨zeros, ?_⟩
      rw [← Nat.toDigits_append_toDigits (by decide) (Nat.pos_of_ne_zero zero) small, own,
        List.append_assoc]

/-! The grammar, and each function that reads a part of it. -/

def isSchemeChar (c : Char) : Bool := c.isAlphanum || c = '+' || c = '-' || c = '.'

inductive Scheme : Str → Prop
  | mk {c : Char} {rest : Str} : c.isAlpha = true → (∀ d ∈ rest, isSchemeChar d = true) →
      Scheme (c :: rest)

def httpScheme : Str := "http".toList

/-- An explicit scheme, and what follows it. -/
def withScheme (scheme rest : Str) : Str := scheme ++ ':' :: '/' :: '/' :: rest

/-- What follows `http://`, which may be left out. -/
inductive Body : Str → Str → Prop
  | http (body : Str) : Body (withScheme httpScheme body) body
  | bare {url : Str} :
    (∀ scheme rest, Scheme scheme → url ≠ withScheme scheme rest) → Body url url

/-- The host and what follows it. -/
inductive SplitsHost : Str → Str → Str → Prop
  | bracketed {host tail : Str} :
    ']' ∉ host → SplitsHost ('[' :: (host ++ ']' :: tail)) host tail
  | plain {host tail : Str} : '/' ∉ host → ':' ∉ host →
    (host ++ tail).head? ≠ some '[' →
      (∀ c ∈ tail.head?, c = '/' ∨ c = ':') → SplitsHost (host ++ tail) host tail

/-- The port, which may be left out or written with zeros in front, and what follows it. -/
inductive SplitsPort : Str → Int → Str → Prop
  | omitted {tail : Str} : tail.head? ≠ some ':' → SplitsPort tail 80 tail
  | written {zeros : Nat} {port : Int} {rest : Str} : 1 ≤ port → port ≤ 65535 →
      (∀ c ∈ rest.head?, c.isDigit = false) →
      SplitsPort (':' :: (List.replicate zeros '0' ++ (decimal port ++ rest))) port rest

inductive SplitsPath : Str → Str → Prop
  | omitted : SplitsPath [] ['/']
  | written {rest : Str} : SplitsPath ('/' :: rest) ('/' :: rest)

def isHostChar (c : Char) : Bool := c ≠ '/' && c ≠ ':'

section Parts

variable {url body host tail rest path : Str} {port : Int}

theorem dropWhile_stop {p : Char → Bool} {a b : Str} (all : ∀ c ∈ a, p c = true)
    (stop : ∀ c ∈ b.head?, p c = false) : (a ++ b).dropWhile p = b := by
  rw [List.dropWhile_append_of_pos all]
  cases b with
  | nil => rfl
  | cons c b => rw [List.dropWhile_cons_of_neg (by simp [stop c rfl])]

theorem takeWhile_stop {p : Char → Bool} {a b : Str} (all : ∀ c ∈ a, p c = true)
    (stop : ∀ c ∈ b.head?, p c = false) : (a ++ b).takeWhile p = a := by
  rw [List.takeWhile_append_of_pos all]
  cases b with
  | nil => rw [List.takeWhile_nil, List.append_nil]
  | cons c b => rw [List.takeWhile_cons_of_neg (by simp [stop c rfl]), List.append_nil]

theorem isSchemeChar_colon : isSchemeChar ':' = false := by decide

theorem hasUrlScheme_iff :
    hasUrlScheme url = true ↔
      ∃ scheme rest, Scheme scheme ∧ url = withScheme scheme rest := by
  constructor
  · intro h
    cases url with
    | nil => contradiction
    | cons c tail =>
      obtain ⟨alpha, follows⟩ := Bool.and_eq_true_iff.mp h
      obtain ⟨rest, hrest⟩ := List.isPrefixOf_iff_prefix.mp follows
      refine ⟨c :: tail.takeWhile isSchemeChar, rest,
        .mk alpha fun d hd => List.mem_takeWhile_imp hd, ?_⟩
      have whole := List.takeWhile_append_dropWhile (p := isSchemeChar) (l := tail)
      have behind : tail.dropWhile isSchemeChar = ':' :: '/' :: '/' :: rest := hrest.symm
      rw [behind] at whole
      rw [withScheme, List.cons_append, whole]
  · rintro ⟨_, rest, ⟨alpha, all⟩, rfl⟩
    refine Bool.and_eq_true_iff.mpr ⟨alpha, List.isPrefixOf_iff_prefix.mpr ⟨rest, ?_⟩⟩
    refine (dropWhile_stop (p := isSchemeChar) all ?_).symm
    intro c hc
    cases hc
    exact isSchemeChar_colon

/-- A scheme ends at the first colon. -/
theorem withScheme_inj {scheme scheme' : Str} {rest rest' : Str} (h : Scheme scheme)
    (h' : Scheme scheme') (same : withScheme scheme rest = withScheme scheme' rest') :
    scheme = scheme' ∧ rest = rest' := by
  have plain {s : Str} (h : Scheme s) : ∀ c ∈ s, (c ≠ ':') := by
    cases h with
    | @mk d rest alpha all =>
      intro c hc
      rintro rfl
      rcases List.mem_cons.mp hc with rfl | hc
      · contradiction
      · have := all _ hc
        rw [isSchemeChar_colon] at this
        contradiction
  have stop {s : Str} : ∀ c ∈ (':' :: '/' :: '/' :: s).head?, decide (c ≠ ':') = false := by
    intro c hc
    cases hc
    rfl
  have own := takeWhile_stop (p := (· ≠ ':')) (fun c hc => by simpa using plain h c hc)
    (stop (s := rest))
  have other := takeWhile_stop (p := (· ≠ ':')) (fun c hc => by simpa using plain h' c hc)
    (stop (s := rest'))
  have equal : scheme = scheme' := by
    rw [← own, ← other]
    exact congrArg _ same
  subst equal
  exact ⟨rfl, by simpa [withScheme] using same⟩

theorem scheme_http : Scheme httpScheme := by
  have all : "ttp".toList.all isSchemeChar = true := by decide
  exact .mk (by decide) (List.all_eq_true.mp all)

theorem isPrefixOf_http : "http://".toList.isPrefixOf url = true ↔
    ∃ body, url = withScheme httpScheme body := by
  rw [List.isPrefixOf_iff_prefix]
  exact ⟨fun ⟨body, h⟩ => ⟨body, h.symm⟩, fun ⟨body, h⟩ => ⟨body, h.symm⟩⟩

theorem afterScheme_iff : afterScheme url = some body ↔ Body url body := by
  unfold afterScheme
  constructor
  · intro h
    split at h
    · rename_i none
      cases h
      exact .bare fun scheme rest explicit same =>
        none (hasUrlScheme_iff.mpr ⟨scheme, rest, explicit, same⟩)
    split at h
    · rename_i http
      obtain ⟨body, rfl⟩ := isPrefixOf_http.mp http
      cases h
      exact .http _
    · contradiction
  · rintro (body | none)
    · rw [if_neg (not_not.mpr (hasUrlScheme_iff.mpr ⟨_, _, scheme_http, rfl⟩)),
        if_pos (isPrefixOf_http.mpr ⟨body, rfl⟩)]
      rfl
    · rw [if_pos]
      intro explicit
      obtain ⟨scheme, rest, explicit, same⟩ := hasUrlScheme_iff.mp explicit
      exact none scheme rest explicit same

theorem splitsHost_of_urlHost (h : urlHost body = some (host, tail)) :
    SplitsHost body host tail := by
  unfold urlHost at h
  split at h
  · rename_i rest
    split at h
    · rename_i closed
      cases h
      have remains : rest.dropWhile (· ≠ ']') ≠ [] := by
        intro all
        have := List.dropWhile_eq_nil_iff.mp all _ closed
        simp at this
      obtain ⟨c, behind, hbehind⟩ := List.exists_cons_of_ne_nil remains
      have stopped := Lex.head_dropWhile (· ≠ ']') rest c (by rw [hbehind]; rfl)
      have bracket : c = ']' := by simpa using stopped
      have whole := List.takeWhile_append_dropWhile (p := (· ≠ ']')) (l := rest)
      rw [hbehind, bracket] at whole
      rw [hbehind]
      have split : SplitsHost ('[' :: (rest.takeWhile (· ≠ ']') ++ ']' :: behind))
          (rest.takeWhile (· ≠ ']')) behind :=
        .bracketed fun inside => by simpa using List.mem_takeWhile_imp inside
      rw [whole] at split
      exact split
    · contradiction
  · rename_i other
    cases h
    have whole := List.takeWhile_append_dropWhile (p := isHostChar) (l := body)
    have split : SplitsHost (body.takeWhile isHostChar ++ body.dropWhile isHostChar)
        (body.takeWhile isHostChar) (body.dropWhile isHostChar) := by
      apply SplitsHost.plain
      · exact fun inside => by simpa [isHostChar] using List.mem_takeWhile_imp inside
      · exact fun inside => by simpa [isHostChar] using List.mem_takeWhile_imp inside
      · rw [whole]
        cases body with
        | nil => simp
        | cons c rest =>
          rintro ⟨⟩
          exact other rest rfl
      · intro c hc
        have stopped := Lex.head_dropWhile isHostChar body c hc
        simpa [isHostChar, or_iff_not_imp_left] using stopped
    rw [whole] at split
    exact split

theorem urlHost_iff : urlHost body = some (host, tail) ↔ SplitsHost body host tail := by
  refine ⟨splitsHost_of_urlHost, ?_⟩
  rintro (⟨unclosed⟩ | ⟨noSlash, noColon, noBracket, stop⟩)
  · have all : ∀ c ∈ host, decide (c ≠ ']') = true := by
      intro c hc
      rw [decide_eq_true_eq]
      rintro rfl
      exact unclosed hc
    have stop : ∀ c ∈ (']' :: tail).head?, decide (c ≠ ']') = false := by
      intro c hc
      cases hc
      rfl
    unfold urlHost
    split
    · rename_i rest same
      cases same
      rw [if_pos (by simp), takeWhile_stop all stop, dropWhile_stop all stop]
      rfl
    · rename_i other
      exact absurd rfl (other _)
  · have all : ∀ c ∈ host, isHostChar c = true := by
      intro c hc
      simp only [isHostChar, ne_eq, decide_not, Bool.and_eq_true, Bool.not_eq_true',
        decide_eq_false_iff_not]
      constructor
      · rintro rfl
        exact noSlash hc
      · rintro rfl
        exact noColon hc
    have stop' : ∀ c ∈ tail.head?, isHostChar c = false := by
      intro c hc
      rcases stop c hc with rfl | rfl
      · rfl
      · rfl
    unfold urlHost
    split
    · rename_i same
      rw [same] at noBracket
      exact absurd rfl noBracket
    · have first := takeWhile_stop all stop'
      have second := dropWhile_stop all stop'
      exact congrArg some (Prod.ext first second)

theorem decimal_of_nat (n : Nat) : decimal n = Nat.toDigits 10 n := by
  unfold decimal
  rw [if_neg (by omega)]
  rfl

theorem urlPort_colon (behind : Str) :
    urlPort (':' :: behind) =
      if behind.takeWhile Char.isDigit = [] ∨
          Nat.ofDigitChars 10 (behind.takeWhile Char.isDigit) 0 < 1 ∨
          65535 < Nat.ofDigitChars 10 (behind.takeWhile Char.isDigit) 0 then none
      else
        some (((Nat.ofDigitChars 10 (behind.takeWhile Char.isDigit) 0 : Nat) : Int),
          behind.dropWhile Char.isDigit) := rfl

theorem urlPort_iff : urlPort tail = some (port, rest) ↔ SplitsPort tail port rest := by
  constructor
  · intro h
    unfold urlPort at h
    split at h
    · rename_i behind
      dsimp only at h
      split at h
      · contradiction
      · rename_i bad
        rw [not_or, not_or] at bad
        obtain ⟨-, low, high⟩ := bad
        cases h
        have all : ∀ c ∈ behind.takeWhile Char.isDigit, c.isDigit = true :=
          fun c hc => List.mem_takeWhile_imp hc
        have whole := List.takeWhile_append_dropWhile (p := Char.isDigit) (l := behind)
        obtain ⟨zeros, digits⟩ := digits_eq _ all
        rw [if_neg (by omega), ← decimal_of_nat] at digits
        have stop : ∀ c ∈ (behind.dropWhile Char.isDigit).head?, c.isDigit = false :=
          Lex.head_dropWhile _ _
        have shape : behind = List.replicate zeros '0' ++
            (decimal (Nat.ofDigitChars 10 (behind.takeWhile Char.isDigit) 0) ++
              behind.dropWhile Char.isDigit) := by
          rw [← List.append_assoc, ← digits, whole]
        generalize Nat.ofDigitChars 10 (behind.takeWhile Char.isDigit) 0 = value
          at low high shape ⊢
        generalize behind.dropWhile Char.isDigit = rest at stop shape ⊢
        rw [shape]
        exact .written (by omega) (by omega) stop
    · rename_i other
      cases h
      refine .omitted fun colon => ?_
      cases tail with
      | nil => contradiction
      | cons c rest =>
        cases colon
        exact other rest rfl
  · rintro (⟨other⟩ | ⟨low, high, stop⟩)
    · unfold urlPort
      split
      · exact absurd rfl other
      · rfl
    · rename_i zeros
      obtain ⟨n, rfl⟩ := Int.eq_ofNat_of_zero_le (show 0 ≤ port by omega)
      have all : ∀ c ∈ List.replicate zeros '0' ++ decimal n, c.isDigit = true := by
        intro c hc
        rcases List.mem_append.mp hc with hc | hc
        · rw [List.eq_of_mem_replicate hc]
          rfl
        · rw [decimal_of_nat] at hc
          exact Nat.isDigit_of_mem_toDigits (by decide) (by decide) hc
      have value : Nat.ofDigitChars 10 (List.replicate zeros '0' ++ decimal n) 0 = n := by
        rw [Nat.ofDigitChars_append, Nat.ofDigitChars_replicate_zero, Nat.mul_zero, decimal_of_nat,
          Nat.ofDigitChars_ten_toDigits]
      have nonempty : List.replicate zeros '0' ++ decimal n ≠ [] := by
        rw [decimal_of_nat]
        simp [Nat.toDigits_ne_nil]
      rw [← List.append_assoc, urlPort_colon, takeWhile_stop all stop,
        dropWhile_stop all stop, value,
        if_neg]
      simp only [nonempty, false_or, not_or]
      omega

theorem urlPath_iff : urlPath rest = some path ↔ SplitsPath rest path := by
  constructor
  · intro h
    unfold urlPath at h
    split at h
    · cases h
      exact .omitted
    · cases h
      exact .written
    · contradiction
  · rintro (_ | _)
    · rfl
    · rfl

end Parts

/-- `parse_url_host_path` accepts what the parts make up. -/
theorem parseUrlHostPath_iff {url : Str} {t : HttpTarget} :
    parseUrlHostPath url = some t ↔ ∃ body tail rest, Body url body ∧
      SplitsHost body t.host.text tail ∧ t.host.text ≠ [] ∧ SplitsPort tail t.port rest ∧
      SplitsPath rest t.path.text := by
  constructor
  · intro h
    unfold parseUrlHostPath at h
    split at h
    · contradiction
    obtain ⟨body, hbody, h⟩ := Option.bind_eq_some_iff.mp h
    obtain ⟨⟨host, tail⟩, hhost, h⟩ := Option.bind_eq_some_iff.mp h
    dsimp only at h
    split at h
    · rename_i fits
      obtain ⟨⟨port, rest⟩, hport, h⟩ := Option.bind_eq_some_iff.mp h
      obtain ⟨path, hpath, h⟩ := Option.bind_eq_some_iff.mp h
      split at h
      · cases h
        exact ⟨body, tail, rest, afterScheme_iff.mp hbody, urlHost_iff.mp hhost, fits.2,
          urlPort_iff.mp hport, urlPath_iff.mp hpath⟩
      · contradiction
    · contradiction
  · rintro ⟨body, tail, rest, hbody, hhost, nonempty, hport, hpath⟩
    have filled : url ≠ [] := by
      rintro rfl
      cases hbody with
      | bare =>
        generalize empty : ([] : Str) = p at hhost
        cases hhost with
        | bracketed => contradiction
        | plain => exact nonempty (List.append_eq_nil_iff.mp empty.symm).1
    unfold parseUrlHostPath
    rw [if_neg filled, afterScheme_iff.mpr hbody, Option.bind_eq_bind, Option.bind_some,
      urlHost_iff.mpr hhost, Option.bind_eq_bind, Option.bind_some]
    dsimp only
    rw [dif_pos ⟨t.host.fits, nonempty⟩, urlPort_iff.mpr hport, Option.bind_eq_bind,
      Option.bind_some, urlPath_iff.mpr hpath, Option.bind_some]
    dsimp only
    rw [dif_pos t.path.fits]

section Exact

variable {url body host tail rest : Str} {port : Int} {t : HttpTarget}

/-- A host as it may be written. -/
inductive HostText (host : Str) : Str → Prop
  | bracketed : ']' ∉ host → HostText host ('[' :: (host ++ [']']))
  | plain : '/' ∉ host → ':' ∉ host → host.head? ≠ some '[' → HostText host host

/-- A port as it may be written: left out, or with zeros in front. -/
inductive PortText (port : Int) : Str → Prop
  | omitted : port = 80 → PortText port []
  | written (zeros : Nat) : 1 ≤ port → port ≤ 65535 →
      PortText port (':' :: (List.replicate zeros '0' ++ decimal port))

inductive PathText (path : Str) : Str → Prop
  | omitted : path = ['/'] → PathText path []
  | written : path.head? = some '/' → PathText path path

/-- A URL that stands for `t`. -/
inductive Renders (t : HttpTarget) : Str → Prop
  | mk {scheme host port path : Str} : scheme = [] ∨ scheme = "http://".toList →
    t.host.text ≠ [] →
      HostText t.host.text host → PortText t.port port → PathText t.path.text path →
      Renders t (scheme ++ (host ++ (port ++ path)))

theorem Body.scheme (h : Body url body) :
    ∃ scheme, (scheme = [] ∨ scheme = "http://".toList) ∧ url = scheme ++ body := by
  cases h with
  | http => exact ⟨"http://".toList, .inr rfl, rfl⟩
  | bare => exact ⟨[], .inl rfl, rfl⟩

theorem SplitsHost.text (h : SplitsHost body host tail) (nonempty : host ≠ []) :
    ∃ text, HostText host text ∧ body = text ++ tail := by
  cases h with
  | bracketed unclosed => exact ⟨_, .bracketed unclosed, by simp⟩
  | plain noSlash noColon noBracket =>
    refine ⟨host, .plain noSlash noColon ?_, rfl⟩
    rw [List.head?_append_of_ne_nil _ nonempty] at noBracket
    exact noBracket

theorem SplitsPort.text (h : SplitsPort tail port rest) :
    ∃ text, PortText port text ∧ tail = text ++ rest := by
  cases h with
  | omitted => exact ⟨[], .omitted rfl, rfl⟩
  | @written zeros _ _ low high => exact ⟨_, .written zeros low high, by simp⟩

theorem SplitsPath.text {path : Str} (h : SplitsPath rest path) : PathText path rest := by
  cases h with
  | omitted => exact .omitted rfl
  | written => exact .written rfl

theorem renders_of_parse (h : parseUrlHostPath url = some t) : Renders t url := by
  obtain ⟨body, tail, rest, hbody, hhost, nonempty, hport, hpath⟩ := parseUrlHostPath_iff.mp h
  obtain ⟨scheme, hscheme, rfl⟩ := hbody.scheme
  obtain ⟨hostText, written, rfl⟩ := hhost.text nonempty
  obtain ⟨portText, written', rfl⟩ := hport.text
  exact .mk hscheme nonempty written written' hpath.text

theorem stops_at_path {path : Str} (slash : path.head? = some '/') :
    ∀ c ∈ path.head?, c.isDigit = false := by
  intro c hc
  rw [slash] at hc
  cases hc
  rfl

theorem splitsPath_self {path : Str} (slash : path.head? = some '/') : SplitsPath path path := by
  cases path with
  | nil => contradiction
  | cons c rest =>
    cases slash
    exact .written

/-- What is rendered with everything written is read back. -/
theorem parse_of_host (nonempty : t.host.text ≠ []) (low : 1 ≤ t.port) (high : t.port ≤ 65535)
    (slash : t.path.text.head? = some '/')
    (split : SplitsHost body t.host.text (':' :: (decimal t.port ++ t.path.text))) :
    parseUrlHostPath (withScheme httpScheme body) = some t :=
  have zeros : SplitsPort (':' :: (List.replicate 0 '0' ++ (decimal t.port ++ t.path.text))) t.port
      t.path.text := .written low high (stops_at_path slash)
  parseUrlHostPath_iff.mpr
    ⟨body, _, t.path.text, .http body, split, nonempty, zeros, splitsPath_self slash⟩

theorem refused_scheme {scheme : Str} (explicit : Scheme scheme) (other : scheme ≠ httpScheme) :
    parseUrlHostPath (withScheme scheme rest) = none := by
  rw [Option.eq_none_iff_forall_ne_some]
  intro t h
  obtain ⟨body, _, _, hbody, -⟩ := parseUrlHostPath_iff.mp h
  generalize same : withScheme scheme rest = url at hbody
  cases hbody with
  | http => exact other (withScheme_inj explicit scheme_http same).1
  | bare none => exact none scheme rest explicit same.symm

theorem refused_bracket (hbody : Body url ('[' :: rest)) (unclosed : ']' ∉ rest) :
    parseUrlHostPath url = none := by
  rw [Option.eq_none_iff_forall_ne_some]
  intro t h
  obtain ⟨body, tail, _, hbody', hhost, -⟩ := parseUrlHostPath_iff.mp h
  have same := (afterScheme_iff.mpr hbody).symm.trans (afterScheme_iff.mpr hbody')
  cases same
  have split := urlHost_iff.mpr hhost
  simp [urlHost, unclosed] at split

theorem refused_host (hbody : Body url body) (hhost : SplitsHost body host tail)
    (bad : host = [] ∨ 128 ≤ host.length) : parseUrlHostPath url = none := by
  rw [Option.eq_none_iff_forall_ne_some]
  intro t h
  obtain ⟨body', tail', _, hbody', hhost', nonempty, -⟩ := parseUrlHostPath_iff.mp h
  cases (afterScheme_iff.mpr hbody).symm.trans (afterScheme_iff.mpr hbody')
  cases (urlHost_iff.mpr hhost).symm.trans (urlHost_iff.mpr hhost')
  have fits := t.host.fits
  rcases bad with empty | long
  · exact nonempty empty
  · omega

theorem refused_port {digits : Str} (hbody : Body url body)
    (hhost : SplitsHost body host (':' :: (digits ++ rest)))
    (all : ∀ c ∈ digits, c.isDigit = true)
    (stop : ∀ c ∈ rest.head?, c.isDigit = false)
    (bad : digits = [] ∨ Nat.ofDigitChars 10 digits 0 = 0 ∨
      65535 < Nat.ofDigitChars 10 digits 0) :
    parseUrlHostPath url = none := by
  rw [Option.eq_none_iff_forall_ne_some]
  intro t h
  obtain ⟨body', tail', rest', hbody', hhost', -, hport, -⟩ := parseUrlHostPath_iff.mp h
  cases (afterScheme_iff.mpr hbody).symm.trans (afterScheme_iff.mpr hbody')
  cases (urlHost_iff.mpr hhost).symm.trans (urlHost_iff.mpr hhost')
  have split := urlPort_iff.mpr hport
  rw [urlPort_colon, takeWhile_stop all stop, if_pos] at split
  · contradiction
  · exact bad.imp_right (Or.imp_left fun zero => by omega)

theorem refused_path (hbody : Body url body) (hhost : SplitsHost body host tail)
    (hport : SplitsPort tail port rest)
    (bad : 256 ≤ rest.length ∨ rest ≠ [] ∧ rest.head? ≠ some '/') :
    parseUrlHostPath url = none := by
  rw [Option.eq_none_iff_forall_ne_some]
  intro t h
  obtain ⟨body', tail', rest', hbody', hhost', -, hport', hpath⟩ := parseUrlHostPath_iff.mp h
  cases (afterScheme_iff.mpr hbody).symm.trans (afterScheme_iff.mpr hbody')
  cases (urlHost_iff.mpr hhost).symm.trans (urlHost_iff.mpr hhost')
  cases (urlPort_iff.mpr hport).symm.trans (urlPort_iff.mpr hport')
  have fits := t.path.fits
  generalize t.path.text = path at hpath fits
  cases hpath with
  | omitted => simp at bad
  | written =>
    rcases bad with long | ⟨-, other⟩
    · omega
    · exact other rfl

/-- Every host, port and path is read back from its two renderings. What is accepted
is such a rendering up to what may be left out. Everything else is refused: another
scheme, a bracket that is not closed, a host that is empty or too long, a port
without digits or out of range, a path that is too long, and any other text. -/
theorem url_exact :
    (∀ t : HttpTarget, t.host.text ≠ [] → 1 ≤ t.port → t.port ≤ 65535 →
      t.path.text.head? = some '/' →
      (']' ∉ t.host.text → parseUrlHostPath ("http://[".toList ++
          (t.host.text ++ ("]:".toList ++ (decimal t.port ++ t.path.text)))) = some t) ∧
        ('/' ∉ t.host.text → ':' ∉ t.host.text → t.host.text.head? ≠ some '[' →
          parseUrlHostPath ("http://".toList ++
            (t.host.text ++ (":".toList ++ (decimal t.port ++ t.path.text)))) = some t)) ∧
      (∀ url t, parseUrlHostPath url = some t → Renders t url) ∧
      (∀ scheme rest, Scheme scheme → scheme ≠ "http".toList →
        parseUrlHostPath (scheme ++ ("://".toList ++ rest)) = none) ∧
      ∀ url body, Body url body →
        (∀ rest, body = '[' :: rest → ']' ∉ rest → parseUrlHostPath url = none) ∧
        ∀ host tail, SplitsHost body host tail →
          (host = [] ∨ 128 ≤ host.length → parseUrlHostPath url = none) ∧
          (∀ digits rest, tail = ':' :: (digits ++ rest) →
            (∀ c ∈ digits, c.isDigit = true) →
            (∀ c ∈ rest.head?, c.isDigit = false) →
            digits = [] ∨ Nat.ofDigitChars 10 digits 0 = 0 ∨
              65535 < Nat.ofDigitChars 10 digits 0 →
            parseUrlHostPath url = none) ∧
          ∀ port rest, SplitsPort tail port rest →
            256 ≤ rest.length ∨ rest ≠ [] ∧ rest.head? ≠ some '/' →
                parseUrlHostPath url = none := by
  refine ⟨fun t nonempty low high slash => ⟨?_, ?_⟩, fun url t => renders_of_parse,
    fun scheme rest => refused_scheme, fun url body hbody => ⟨?_, ?_⟩⟩
  · intro unclosed
    exact parse_of_host nonempty low high slash (.bracketed unclosed)
  · intro noSlash noColon noBracket
    refine parse_of_host nonempty low high slash (.plain noSlash noColon ?_ ?_)
    · rw [List.head?_append_of_ne_nil _ nonempty]
      exact noBracket
    · intro c hc
      cases hc
      exact .inr rfl
  · rintro rest rfl unclosed
    exact refused_bracket hbody unclosed
  · intro host tail hhost
    refine ⟨refused_host hbody hhost, ?_, fun port rest => refused_path hbody hhost⟩
    rintro digits rest rfl all stop bad
    exact refused_port hbody hhost all stop bad

def loopback : HttpTarget :=
  ⟨⟨"::1".toList, by decide⟩, 8080, ⟨"/ip".toList, by decide⟩⟩

theorem url_exact_loopback :
    parseUrlHostPath "http://[::1]:8080/ip".toList = some loopback ∧
      parseUrlHostPath "ftp://host/".toList = none := by
  constructor
  · have url : "http://[::1]:8080/ip".toList = "http://[".toList ++
        (loopback.host.text ++ ("]:".toList ++ (decimal loopback.port ++ loopback.path.text))) := by
      decide
    rw [url]
    exact (url_exact.1 loopback (by decide) (by decide) (by decide) rfl).1 (by decide)
  · have all : "tp".toList.all isSchemeChar = true := by decide
    exact url_exact.2.2.1 "ftp".toList "host/".toList
      (.mk (by decide) (List.all_eq_true.mp all)) (by decide)

end Exact

end Tumgrd
