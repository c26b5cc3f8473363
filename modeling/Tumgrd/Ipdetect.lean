import Tumgrd.Address
import Tumgrd.Lex.Words
import Tumgrd.World

/-! `ipdetect.c`: the URL of the address service, its response, and the address
in it. What is received may contain NUL bytes, which end a C string. -/
namespace Tumgrd

/-- The C string that starts where `bytes` start. -/
def cString (bytes : Str) : Str := bytes.takeWhile (· ≠ '\x00')

/-- The family an `ip_version` asks for. -/
inductive Family where
  | any
  | ipv4
  | ipv6
  deriving DecidableEq

/-- `ip_family_from_version`. -/
def ipFamilyFromVersion (ipVersion : Str) : Family :=
  if streqcase ipVersion "ipv4".toList then .ipv4
  else if streqcase ipVersion "ipv6".toList then .ipv6
  else .any

def isIpv4 (s : Str) : Bool := (inetPton4 s).isSome

def isIpv6 (s : Str) : Bool := (inetPton6 s).isSome

def Family.accepts (family : Family) (s : Str) : Bool :=
  (family ≠ .ipv6 && isIpv4 s) || (family ≠ .ipv4 && isIpv6 s)

/-- What `extract_ip` splits tokens at. -/
def isDelimiter (c : Char) : Bool :=
  isSpace c || c = '"' || c = '\'' || c = '<' || c = '>' || c = ',' || c = ';'

theorem length_afterToken {text : Str} {c : Char} {rest : Str}
    (h : text.dropWhile isDelimiter = c :: rest) :
    ((c :: rest).dropWhile (!isDelimiter ·)).length < text.length := by
  have token : isDelimiter c = false := Lex.head_dropWhile isDelimiter text c (by rw [h]; rfl)
  rw [List.dropWhile_cons_of_pos (by simp [token])]
  have shorter := List.length_dropWhile_le (!isDelimiter ·) rest
  have cut := List.length_dropWhile_le isDelimiter text
  rw [h, List.length_cons] at cut
  omega

/-- The token loop of `extract_ip`, whose `token` has room for 127 bytes. -/
def firstAddress (accepts : Str → Bool) (text : Str) : Option Str :=
  match _h : text.dropWhile isDelimiter with
  | [] => none
  | c :: rest =>
      let token := ((c :: rest).takeWhile (!isDelimiter ·)).take 127
      if accepts token then some token
      else firstAddress accepts ((c :: rest).dropWhile (!isDelimiter ·))
termination_by text.length
decreasing_by exact length_afterToken _h

def extractIp (text ipVersion : Str) : Option (Buf 64) :=
  let buf := trim (text.take 511)
  let family := ipFamilyFromVersion ipVersion
  if family.accepts buf then some (.copy buf)
  else (firstAddress family.accepts buf).map .copy

/-- `extract_ip` with an output of `outLen` bytes, which is 64 above. -/
def extractIpInto (outLen : Nat) [NeZero outLen] (text ipVersion : Str) : Option (Buf outLen) :=
  let buf := trim (text.take 511)
  let family := ipFamilyFromVersion ipVersion
  if family.accepts buf then some (.copy buf)
  else (firstAddress family.accepts buf).map .copy

theorem extractIp_eq_into (text ipVersion : Str) :
    extractIp text ipVersion = extractIpInto 64 text ipVersion := rfl

/-! The URL of the service. -/

/-- `has_url_scheme`. -/
def hasUrlScheme (url : Str) : Bool :=
  match url with
  | [] => false
  | c :: rest => c.isAlpha && "://".toList.isPrefixOf
      (rest.dropWhile fun c => c.isAlphanum || c = '+' || c = '-' || c = '.')

structure HttpTarget where
  host : Buf 128
  port : Int
  path : Buf 256
  deriving DecidableEq

/-- The text behind the scheme, if the scheme is supported. -/
def afterScheme (url : Str) : Option Str :=
  if ¬hasUrlScheme url then some url
  else if "http://".toList.isPrefixOf url then some (url.drop 7)
  else none

/-- The host, and the text behind it. -/
def urlHost (p : Str) : Option (Str × Str) :=
  match p with
  | '[' :: rest =>
      if ']' ∈ rest then some (rest.takeWhile (· ≠ ']'), (rest.dropWhile (· ≠ ']')).drop 1)
        else none
  | p => some (p.takeWhile fun c => c ≠ '/' && c ≠ ':', p.dropWhile fun c =>
    c ≠ '/' && c ≠ ':')

/-- The port, and the text behind it. -/
def urlPort (p : Str) : Option (Int × Str) :=
  match p with
  | ':' :: rest =>
      let digits := rest.takeWhile Char.isDigit
      let port := Nat.ofDigitChars 10 digits 0
      if digits = [] ∨ port < 1 ∨ 65535 < port then none
      else some (port, rest.dropWhile Char.isDigit)
  | p => some (80, p)

def urlPath (p : Str) : Option Str :=
  match p with
  | [] => some "/".toList
  | '/' :: rest => some ('/' :: rest)
  | _ => none

/-- `parse_url_host_path`. -/
def parseUrlHostPath (url : Str) : Option HttpTarget :=
  if url = [] then none
  else do
    let p ← afterScheme url
    let (host, p) ← urlHost p
    if fits : host.length < 128 ∧ host ≠ [] then
      let (port, p) ← urlPort p
      let path ← urlPath p
      if fits' :
        path.length < 256 then some ⟨⟨host, fits.1⟩, port, ⟨path, fits'⟩⟩ else none
    else none

/-! The response. -/

/-- What `recv` returns: an interruption, or some bytes that have arrived. -/
inductive Recv where
  | interrupted
  | data (first : Char) (more : Str)

/-- The bytes that arrive, up to the end of the stream. -/
def Recv.stream : List Recv → Str
  | [] => []
  | .interrupted :: rest => stream rest
  | .data first more :: rest => first :: more ++ stream rest

/-- The loop around `recv`, with `room` bytes left in the buffer. -/
def recvLoop (room : Nat) : List Recv → Str
  | [] => []
  | .interrupted :: rest => recvLoop room rest
  | .data first more :: rest =>
      let bytes := (first :: more).take room
      bytes ++ if bytes.length < room then recvLoop (room - bytes.length) rest else []

def strstr (text needle : Str) : Option Nat :=
  if needle.isPrefixOf text then some 0
  else
    match text with
    | [] => none
    | _ :: rest => (strstr rest needle).map (· + 1)

def crlfcrlf : Str := "\r\n\r\n".toList
def lflf : Str := "\n\n".toList

/-- The status line of the response is there and says 200. -/
def statusOk (text : Str) : Bool :=
  "HTTP/".toList.isPrefixOf text &&
    "200".toList.isPrefixOf (((text.drop 5).dropWhile (· ≠ ' ')).dropWhile (· = ' '))

/-- Where the body starts. -/
def headerEnd (text : Str) : Option Nat :=
  match strstr text crlfcrlf with
  | some found => some (found + 4)
  | none => (strstr text lflf).map (· + 2)

/-- The part of `http_get_with_mark` behind the loop, with an output of 512 bytes. -/
def httpBody (response : Str) : Option Str :=
  if statusOk (cString response) then
    match headerEnd (cString response) with
    | none => none
    | some start => if response.drop start = [] then none else some ((response.drop start).take 511)
  else none

/-- `http_get_with_mark` from its first `recv` on. -/
def httpGetWithMark (arrives : List Recv) : Option Str := httpBody (recvLoop 4095 arrives)

def defaultHttpTarget : HttpTarget :=
  ⟨⟨"ip.3322.net".toList, by decide⟩, 80, ⟨"/".toList, by decide⟩⟩

/-- What `detect_ipv6_wan_by_connect` does: `inet_ntop` writes the address of
the local end, which a link-local one leaves in the output. -/
structure Probe where
  result : Detection
  written : result.ok = true → (inetPton6 result.ip.text).isSome

/-- `detect_public_ip`. The service is reached over `fetch`, which is `none`
where `http_get_with_mark` gives up in front of its first `recv`. -/
def detectPublicIp (url ipVersion : Str) (probe : Probe)
    (fetch : HttpTarget → Option (List Recv)) :
    Detection :=
  match if url = [] then some defaultHttpTarget else parseUrlHostPath url with
  | none => ⟨false, .empty⟩
  | some target =>
      let probes := ipFamilyFromVersion ipVersion = .ipv6 ∧
        streqcase target.host.text defaultHttpTarget.host.text
      if probes ∧ probe.result.ok then probe.result
      else
        match ((fetch target).bind httpGetWithMark).bind fun body =>
            extractIp (cString body) ipVersion with
        | some ip => ⟨true, ip⟩
        | none => ⟨false, if probes then probe.result.ip else .empty⟩

section Extraction

variable {accepts : Str → Bool} {family : Family} {text : Str}

theorem Family.addressText (h : family.accepts text = true) : AddressText text := by
  simp only [Family.accepts, Bool.or_eq_true, Bool.and_eq_true] at h
  rcases h with ⟨-, v4⟩ | ⟨-, v6⟩
  · exact addressText_of_inetPton4 v4
  · exact addressText_of_inetPton6 v6

theorem toNat_of_isAddressChar {c : Char} (h : isAddressChar c = true) :
    c.toNat = 46 ∨ 48 ≤ c.toNat ∧ c.toNat ≤ 58 ∨ 65 ≤ c.toNat ∧ c.toNat ≤ 70 ∨
      97 ≤ c.toNat ∧ c.toNat ≤ 102 := by
  simp only [isAddressChar, Bool.or_eq_true, decide_eq_true_eq] at h
  rcases h with (hex | rfl) | rfl
  · unfold hexValue at hex
    split at hex
    · rename_i digit
      simp only [Char.isDigit, Bool.and_eq_true, decide_eq_true_eq] at digit
      have low : 48 ≤ c.toNat := digit.1
      have high : c.toNat ≤ 57 := digit.2
      omega
    split at hex
    · rename_i lower
      have low : 97 ≤ c.toNat := lower.1
      have high : c.toNat ≤ 102 := lower.2
      omega
    split at hex
    · rename_i upper
      have low : 65 ≤ c.toNat := upper.1
      have high : c.toNat ≤ 70 := upper.2
      omega
    · contradiction
  · decide
  · decide

theorem toNat_of_isDelimiter {c : Char} (h : isDelimiter c = true) :
    9 ≤ c.toNat ∧ c.toNat ≤ 44 ∧ c.toNat ≠ 46 ∨ c.toNat = 59 ∨ c.toNat = 60 ∨
        c.toNat = 62 := by
  simp only [isDelimiter, isSpace, Bool.or_eq_true, Bool.and_eq_true, decide_eq_true_eq] at h
  rcases h with ((((((rfl | blank) | rfl) | rfl) | rfl) | rfl) | rfl) | rfl
  · decide
  · have low : 9 ≤ c.toNat := blank.1
    have high : c.toNat ≤ 13 := blank.2
    omega
  all_goals decide

/-- Nothing an address is written with delimits. -/
theorem isDelimiter_of_isAddressChar {c : Char} (h : isAddressChar c = true) :
    isDelimiter c = false := by
  have own := toNat_of_isAddressChar h
  rw [← Bool.not_eq_true]
  intro delimits
  have other := toNat_of_isDelimiter delimits
  omega

theorem AddressText.solid (h : AddressText text) : Lex.Solid isDelimiter text :=
  fun c hc => isDelimiter_of_isAddressChar (h.chars c hc)

/-- A token that is cut to the size of `token` is as little an address as the whole. -/
theorem accepts_take (short : ∀ s, accepts s = true → s.length < 127) (token : Str) :
    accepts (token.take 127) = accepts token ∧
      (accepts token = true → token.take 127 = token) := by
  by_cases long : token.length ≤ 127
  · rw [List.take_of_length_le long]
    exact ⟨rfl, fun _ => rfl⟩
  · have refused : ¬accepts token = true := fun accepted => by
      have := short token accepted
      omega
    have refused' : ¬accepts (token.take 127) = true := fun accepted => by
      have := short _ accepted
      rw [List.length_take] at this
      omega
    rw [Bool.not_eq_true] at refused refused'
    rw [refused, refused']
    exact ⟨rfl, fun h => absurd h (by decide)⟩

theorem firstAddress_of_blank (h : text.dropWhile isDelimiter = []) :
    firstAddress accepts text = none := by
  rw [firstAddress]
  split
  · rfl
  · rename_i c rest h'
    rw [h] at h'
    contradiction

theorem firstAddress_of_token {c : Char} {rest : Str} (h : text.dropWhile isDelimiter = c :: rest) :
    firstAddress accepts text =
      let token := ((c :: rest).takeWhile (!isDelimiter ·)).take 127
      if accepts token then some token
      else firstAddress accepts ((c :: rest).dropWhile (!isDelimiter ·)) := by
  rw [firstAddress]
  split
  · rename_i h'
    rw [h] at h'
    contradiction
  · rename_i c' rest' h'
    rw [h] at h'
    cases h'
    rfl

/-- The words of a text, from its first token on. -/
theorem words_of_token {c : Char} {rest : Str} (h : text.dropWhile isDelimiter = c :: rest) :
    Lex.words isDelimiter text = (c :: rest).takeWhile (!isDelimiter ·) ::
      Lex.words isDelimiter ((c :: rest).dropWhile (!isDelimiter ·)) := by
  have start : isDelimiter c = false := Lex.head_dropWhile isDelimiter text c (by rw [h]; rfl)
  have whole : text = text.takeWhile isDelimiter ++
      ((c :: rest).takeWhile (!isDelimiter ·) ++ (c :: rest).dropWhile (!isDelimiter ·)) := by
    rw [List.takeWhile_append_dropWhile, ← h, List.takeWhile_append_dropWhile]
  refine (congrArg (Lex.words isDelimiter) whole).trans (Lex.words_first ?_ ?_ ?_ ?_)
  · exact fun d hd => List.mem_takeWhile_imp hd
  · rw [List.takeWhile_cons_of_pos (by simp [start])]
    exact List.cons_ne_nil _ _
  · intro d hd
    simpa using List.mem_takeWhile_imp hd
  · intro d hd
    simpa using Lex.head_dropWhile (!isDelimiter ·) _ d hd

/-- The loop finds the first token that is an address. -/
theorem firstAddress_eq (short : ∀ s, accepts s = true → s.length < 127) (text : Str) :
    firstAddress accepts text = (Lex.words isDelimiter text).find? accepts := by
  induction text using firstAddress.induct accepts with
  | case1 text blank =>
    rw [Lex.words_blank (List.dropWhile_eq_nil_iff.mp blank), firstAddress_of_blank blank]
    rfl
  | case2 text c rest h token accepted =>
    rw [firstAddress_of_token h, words_of_token h]
    have same := accepts_take short ((c :: rest).takeWhile (!isDelimiter ·))
    have whole : accepts ((c :: rest).takeWhile (!isDelimiter ·)) = true := same.1 ▸ accepted
    rw [List.find?_cons_of_pos whole]
    dsimp only
    rw [if_pos accepted, same.2 whole]
  | case3 text c rest h token refused ih =>
    rw [firstAddress_of_token h, words_of_token h]
    have same := accepts_take short ((c :: rest).takeWhile (!isDelimiter ·))
    have whole : ¬accepts ((c :: rest).takeWhile (!isDelimiter ·)) = true := same.1 ▸ refused
    rw [List.find?_cons_of_neg whole]
    dsimp only
    rw [if_neg refused, ih]

theorem isDelimiter_of_isSpace {c : Char} (h : isSpace c = true) : isDelimiter c = true := by
  simp [isDelimiter, h]

/-- Trimming removes no word. -/
theorem words_trim (text : Str) :
    Lex.words isDelimiter (trim text) = Lex.words isDelimiter text := by
  have front : ∀ c ∈ text.takeWhile isSpace, isDelimiter c = true :=
    fun c hc => isDelimiter_of_isSpace (List.mem_takeWhile_imp hc)
  have back : ∀ c ∈ (text.dropWhile isSpace).rtakeWhile isSpace, isDelimiter c = true :=
    fun c hc => isDelimiter_of_isSpace (List.mem_rtakeWhile_imp hc)
  calc Lex.words isDelimiter (trim text)
      = Lex.words isDelimiter (trim text ++ (text.dropWhile isSpace).rtakeWhile isSpace) :=
        (Lex.words_append_blank _ back).symm
    _ = Lex.words isDelimiter (text.dropWhile isSpace) := by
        rw [trim, List.rdropWhile_append_rtakeWhile]
    _ = Lex.words isDelimiter text := by
        rw [← Lex.words_blank_append _ front, List.takeWhile_append_dropWhile]

/-- The fast path for a text that is an address all by itself finds what the loop
would find. -/
theorem extractIpInto_eq {outLen : Nat} [NeZero outLen] {ipVersion : Str}
    (fits : text.length ≤ 511) :
    extractIpInto outLen text ipVersion =
      ((Lex.words isDelimiter text).find? (ipFamilyFromVersion ipVersion).accepts).map .copy := by
  have short (s : Str) (h : (ipFamilyFromVersion ipVersion).accepts s = true) : s.length < 127 := by
    have := (Family.addressText h).length_le
    omega
  unfold extractIpInto
  dsimp only
  rw [List.take_of_length_le fits, firstAddress_eq short, words_trim]
  split
  · rename_i accepted
    have address := Family.addressText accepted
    rw [← words_trim, Lex.words_solid address.nonempty address.solid,
      List.find?_cons_of_pos accepted]
    rfl
  · rfl

/-- `extract_ip` finds the first token of a text that fits its buffer. -/
theorem extractIp_eq {ipVersion : Str} (fits : text.length ≤ 511) :
    extractIp text ipVersion = ((Lex.words isDelimiter text).find?
      (ipFamilyFromVersion ipVersion).accepts).map .copy := by
  rw [extractIp_eq_into, extractIpInto_eq fits]

/-- The bytes that end a token: whitespace, quotes, angle brackets, `,` and `;`. -/
def separators : List Char :=
  [' ', '\t', '\n', '\x0b', '\x0c', '\r', '"', '\'', '<', '>', ',', ';']

theorem isDelimiter_eq : isDelimiter = (separators.contains ·) := by
  funext c
  have blank : ('\t' ≤ c ∧ c ≤ '\r') ↔ c = '\t' ∨ c = '\n' ∨ c = '\x0b' ∨
      c = '\x0c' ∨ c = '\r' := by
    constructor
    · rintro ⟨low, high⟩
      have low' : 9 ≤ c.toNat := low
      have high' : c.toNat ≤ 13 := high
      have codes : c.toNat = 9 ∨ c.toNat = 10 ∨ c.toNat = 11 ∨ c.toNat = 12 ∨
          c.toNat = 13 := by
        omega
      have named (d : Char) (same : c.toNat = d.toNat) : c = d := Char.toNat_inj.mp same
      rcases codes with code | code | code | code | code
      · exact .inl (named '\t' code)
      · exact .inr (.inl (named '\n' code))
      · exact .inr (.inr (.inl (named '\x0b' code)))
      · exact .inr (.inr (.inr (.inl (named '\x0c' code))))
      · exact .inr (.inr (.inr (.inr (named '\r' code))))
    · rintro (rfl | rfl | rfl | rfl | rfl) <;> decide
  rw [Bool.eq_iff_iff]
  simp only [isDelimiter, isSpace, separators, Bool.or_eq_true, Bool.and_eq_true, decide_eq_true_eq,
    blank, List.contains_eq_mem, List.mem_cons, List.not_mem_nil, or_false, or_assoc]

/-- `token` is an address of the family that `ipVersion` names, in letters of any
case, and of either family when it names none. -/
def Requested (ipVersion token : Str) : Prop :=
  if ipVersion.map Char.toLower = "ipv4".toList then isIpv4 token = true
  else if ipVersion.map Char.toLower = "ipv6".toList then isIpv6 token = true
  else isIpv4 token = true ∨ isIpv6 token = true

theorem accepts_iff {ipVersion token : Str} :
    (ipFamilyFromVersion ipVersion).accepts token = true ↔ Requested ipVersion token := by
  have v4 : "ipv4".toList.map Char.toLower = "ipv4".toList := by decide
  have v6 : "ipv6".toList.map Char.toLower = "ipv6".toList := by decide
  simp only [ipFamilyFromVersion, Requested, streqcase, v4, v6, decide_eq_true_eq]
  split
  · simp [Family.accepts]
  split
  · simp [Family.accepts]
  · simp [Family.accepts]

/-- An address is found if and only if some token, a maximal run of bytes that do
not separate, is an address that the version asks for; the output is then the
first such token, unchanged. -/
theorem extract_ip_exact {outLen : Nat} [NeZero outLen] {ipVersion : Str}
    (fits : text.length ≤ 511) (room : 46 ≤ outLen) :
    ((extractIpInto outLen text ipVersion).isSome ↔
        ∃ token, Lex.IsWord (separators.contains ·) text token ∧ Requested ipVersion token) ∧
      ∀ out, extractIpInto outLen text ipVersion = some out →
        ∃ before after, Lex.words (separators.contains ·) text = before ++ out.text :: after ∧
          Requested ipVersion out.text ∧ ∀ token ∈ before, ¬Requested ipVersion token := by
  rw [extractIpInto_eq fits, ← isDelimiter_eq]
  constructor
  · rw [Option.isSome_map, List.find?_isSome]
    refine exists_congr fun token => and_congr ?_ accepts_iff
    exact ⟨Lex.isWord_of_mem, Lex.mem_words_of_isWord⟩
  · intro out found
    obtain ⟨token, first, rfl⟩ := Option.map_eq_some_iff.mp found
    obtain ⟨accepted, before, after, split, refused⟩ := List.find?_eq_some_iff_append.mp first
    have short := (Family.addressText accepted).length_le
    rw [Buf.text_copy_of_fits (by omega)]
    refine ⟨before, after, split, accepts_iff.mp accepted, fun other earlier requested => ?_⟩
    have refusal := refused other earlier
    rw [accepts_iff.mpr requested] at refusal
    contradiction

theorem extract_ip_exact_tagged :
    (extractIpInto 46 "<b>10.0.0.7</b>".toList "ipv4".toList).isSome := by
  have room : "<b>10.0.0.7</b>".toList.length ≤ 511 := by decide
  have token : Lex.IsWord (separators.contains ·) "<b>10.0.0.7</b>".toList "10.0.0.7".toList := by
    refine ⟨by decide, ?_, "<b>".toList, "</b>".toList, rfl, ?_, ?_⟩
    · intro c hc
      have plain : "10.0.0.7".toList.all (!separators.contains ·) = true := by decide
      simpa using List.all_eq_true.mp plain c hc
    · exact fun c hc => by
        cases hc
        decide
    · exact fun c hc => by
        cases hc
        decide
  exact (extract_ip_exact room (Nat.le_refl 46)).1.mpr ⟨_, token, accepts_iff.mp (by decide)⟩

end Extraction

end Tumgrd
