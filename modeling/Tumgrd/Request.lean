import Tumgrd.Lex.Lines
import Tumgrd.Url

/-! The request `http_get_with_mark` sends for a target. -/
namespace Tumgrd

def crlf : Str := ['\r', '\n']

def userAgent : Str := "User-Agent: Wget/1.21.4".toList
def connection : Str := "Connection: close".toList

def hostHeaderText (t : HttpTarget) : Str :=
  if isIpv6 t.host.text then
    if t.port ≠ 80 then '[' :: (t.host.text ++ ']' :: ':' :: decimal t.port)
    else '[' :: (t.host.text ++ [']'])
  else if t.port ≠ 80 then t.host.text ++ ':' :: decimal t.port
  else t.host.text

/-- `host_header`, with 288 bytes; an over-long one ends the function. -/
def hostHeader (t : HttpTarget) : Option Str :=
  if (hostHeaderText t).length < 288 then some (hostHeaderText t) else none

def requestLine (t : HttpTarget) : Str := "GET ".toList ++ (t.path.text ++ " HTTP/1.1".toList)

def requestText (t : HttpTarget) (header : Str) : Str :=
  requestLine t ++ (crlf ++ ("Host: ".toList ++ header ++
    (crlf ++ (userAgent ++ (crlf ++ (connection ++ (crlf ++ crlf)))))))

/-- `request`, with 512 bytes. -/
def httpRequest (t : HttpTarget) : Option Str := do
  let header ← hostHeader t
  let request := requestText t header
  if request.length < 512 then some request else none

/-- A byte that has no place in a request line. -/
def breaksLine (c : Char) : Bool := isSpace c || c.toNat < 32 || c.toNat = 127

/-- The host, in brackets if and only if it is an IPv6 literal. -/
def shownHost (t : HttpTarget) : Str :=
  if isIpv6 t.host.text then '[' :: (t.host.text ++ [']']) else t.host.text

/-- The port, if and only if it is not 80. -/
def shownPort (t : HttpTarget) : Str := if t.port = 80 then [] else ':' :: decimal t.port

/-- Five lines, each ended by CR LF, and a path that fits in the first. -/
structure WellFormedRequest (t : HttpTarget) (request : Str) : Prop where
  path : ∀ c ∈ t.path.text, breaksLine c = false
  lines : Lex.lines '\r' '\n' request =
    ["GET ".toList ++ (t.path.text ++ " HTTP/1.1".toList),
      "Host: ".toList ++ (shownHost t ++ shownPort t), "User-Agent: Wget/1.21.4".toList,
      "Connection: close".toList, [], []]

section Lines

variable {t : HttpTarget}

theorem hostHeaderText_eq (t : HttpTarget) : hostHeaderText t = shownHost t ++ shownPort t := by
  unfold hostHeaderText shownHost shownPort
  by_cases literal : isIpv6 t.host.text = true <;> by_cases standard : t.port = 80 <;>
    simp [literal, standard]

theorem length_decimal_port {port : Int} (low : 1 ≤ port) (high : port ≤ 65535) :
    (decimal port).length ≤ 5 := by
  unfold decimal
  rw [if_neg (by omega), Nat.length_toDigits_le_iff (by decide) (by decide)]
  omega

theorem length_hostHeaderText (low : 1 ≤ t.port) (high : t.port ≤ 65535) :
    (hostHeaderText t).length ≤ 135 := by
  have host := t.host.fits
  have port := length_decimal_port low high
  unfold hostHeaderText
  by_cases literal : isIpv6 t.host.text = true <;> by_cases standard : t.port = 80 <;>
    simp only [literal, standard, List.length_append, List.length_cons, List.length_nil, if_true,
      if_false, ne_eq, not_true_eq_false, not_false_eq_true, Bool.false_eq_true] <;> omega

theorem length_requestText (t : HttpTarget) (header : Str) :
    (requestText t header).length = t.path.text.length + header.length + 69 := by
  have get : "GET ".toList.length = 4 := by decide
  have version : " HTTP/1.1".toList.length = 9 := by decide
  have host : "Host: ".toList.length = 6 := by decide
  have agent : userAgent.length = 23 := by decide
  have close : connection.length = 17 := by decide
  have pair : crlf.length = 2 := rfl
  unfold requestText requestLine
  simp only [List.length_append, get, version, host, agent, close, pair]
  omega

/-- No request is too long for its buffers. -/
theorem httpRequest_eq (low : 1 ≤ t.port) (high : t.port ≤ 65535) :
    httpRequest t = some (requestText t (shownHost t ++ shownPort t)) := by
  have header := length_hostHeaderText low high
  have path := t.path.fits
  have request := length_requestText t (shownHost t ++ shownPort t)
  rw [hostHeaderText_eq] at header
  unfold httpRequest hostHeader
  rw [hostHeaderText_eq, if_pos (by omega), Option.bind_eq_bind, Option.bind_some]
  dsimp only
  rw [if_pos (by omega)]

theorem not_mem_of_breaksLine {c : Char} {l : Str} (clean : ∀ d ∈ l, breaksLine d = false)
    (breaks : breaksLine c = true) : c ∉ l := by
  intro inside
  rw [clean c inside] at breaks
  contradiction

/-- What stands around the host in its line does not break it. -/
theorem unbroken_hostLine (low : 1 ≤ t.port) :
    Lex.Unbroken '\r' '\n' ("Host: ".toList ++ (shownHost t ++ shownPort t)) ↔
      Lex.Unbroken '\r' '\n' t.host.text := by
  have port : '\n' ∉ shownPort t := by
    unfold shownPort
    split
    · simp
    · obtain ⟨n, hn⟩ := Int.eq_ofNat_of_zero_le (show 0 ≤ t.port by omega)
      rw [hn, decimal_of_nat]
      intro inside
      rcases List.mem_cons.mp inside with colon | digit
      · contradiction
      · have := Nat.isDigit_of_mem_toDigits (by decide) (by decide) digit
        contradiction
  unfold shownHost
  split
  · have bracket : '\n' ∉ ']' :: shownPort t := by simp [port]
    rw [show "Host: ".toList ++ ('[' :: (t.host.text ++ [']']) ++ shownPort t) =
      "Host: [".toList ++ (t.host.text ++ ']' :: shownPort t) by simp]
    exact Lex.unbroken_surround (by decide) bracket
  · exact Lex.unbroken_surround (by decide) port

theorem lines_requestText (clean : ∀ c ∈ t.path.text, breaksLine c = false) (header : Str) :
    Lex.lines '\r' '\n' (requestText t header) =
      requestLine t :: (Lex.lines '\r' '\n' ("Host: ".toList ++ header) ++
        [userAgent, connection, [], []]) := by
  have first : Lex.lines '\r' '\n' (requestLine t) = [requestLine t] := by
    refine Lex.lines_eq_singleton_iff.mpr (Lex.unbroken_of_first ?_)
    have path : '\r' ∉ t.path.text := not_mem_of_breaksLine clean (by decide)
    simp [requestLine, path]
  have agent : Lex.lines '\r' '\n' userAgent = [userAgent] := by decide
  have close : Lex.lines '\r' '\n' connection = [connection] := by decide
  have last : Lex.lines '\r' '\n' crlf = [[], []] := by decide
  have different : '\r' ≠ '\n' := by decide
  have ended (a b : Str) : Lex.lines '\r' '\n' (a ++ (crlf ++ b)) =
      Lex.lines '\r' '\n' a ++ Lex.lines '\r' '\n' b := Lex.lines_append different a b
  unfold requestText
  rw [ended, first, ended, ended, agent, ended, close, last]
  rfl

end Lines

theorem port_of_parse {url : Str} {t : HttpTarget} (accepted : parseUrlHostPath url = some t) :
    1 ≤ t.port ∧ t.port ≤ 65535 := by
  obtain ⟨_, _, _, -, -, -, port, -⟩ := parseUrlHostPath_iff.mp accepted
  generalize t.port = port' at port
  cases port with
  | omitted => decide
  | written low high => exact ⟨low, high⟩

/-- For every URL that is accepted the request fits its buffers, and it consists of the
five lines if and only if the path has no blank and no control character, and the host
no CR LF. -/
theorem request_lines_iff {url : Str} {t : HttpTarget} (accepted : parseUrlHostPath url = some t) :
    (∃ request, httpRequest t = some request ∧ WellFormedRequest t request) ↔
      (∀ c ∈ t.path.text, breaksLine c = false) ∧ ¬crlf <:+: t.host.text := by
  obtain ⟨low, high⟩ := port_of_parse accepted
  have host : Lex.lines '\r' '\n' ("Host: ".toList ++ (shownHost t ++ shownPort t)) =
      ["Host: ".toList ++ (shownHost t ++ shownPort t)] ↔ ¬crlf <:+: t.host.text := by
    rw [Lex.lines_eq_singleton_iff, unbroken_hostLine low, Lex.unbroken_iff]
    rfl
  rw [← host, httpRequest_eq low high]
  constructor
  · rintro ⟨request, same, wellFormed⟩
    cases same
    refine ⟨wellFormed.path, ?_⟩
    have lines := wellFormed.lines
    rw [lines_requestText wellFormed.path] at lines
    exact List.append_cancel_right (List.cons.inj lines).2
  · rintro ⟨clean, one⟩
    refine ⟨_, rfl, clean, ?_⟩
    rw [lines_requestText clean, one]
    rfl

theorem request_lines_iff_default :
    ∃ request, httpRequest defaultHttpTarget = some request ∧
      WellFormedRequest defaultHttpTarget request := by
  have accepted : parseUrlHostPath "http://ip.3322.net".toList = some defaultHttpTarget := by decide
  have clean : defaultHttpTarget.path.text.all (!breaksLine ·) = true := by decide
  refine (request_lines_iff accepted).mpr ⟨fun c hc => ?_, by decide⟩
  simpa using List.all_eq_true.mp clean c hc

/-- A path that ends the request line and adds a line of its own. -/
def injecting : HttpTarget :=
  ⟨.copy "ip.3322.net".toList, 80, ⟨"/ HTTP/1.1\r\nX-Other: 1\r\nX:".toList, by decide⟩⟩

theorem request_injected :
    ¬ ∀ url t, parseUrlHostPath url = some t →
      ∃ request, httpRequest t = some request ∧ WellFormedRequest t request := by
  intro wellFormed
  have accepted : parseUrlHostPath
      "http://ip.3322.net/ HTTP/1.1\r\nX-Other: 1\r\nX:".toList = some injecting := by decide
  obtain ⟨request, -, lines⟩ := wellFormed _ _ accepted
  have carriageReturn := lines.path '\r' (by decide)
  contradiction

end Tumgrd
