import Tumgrd.Address
import Tumgrd.Lex.Words
import Tumgrd.Runner

/-! The commands in words: the arguments that the two tools are called with, and
the lines of words that `tuctl_client` reads. -/
namespace Tumgrd

open Lex

/-- What stands in a script for the address that the server sees. -/
def placeholder : Str := "@client_ip@".toList

section Words

/-- A key in words, where there is one. -/
def keyWords (key : Str) : List Str := if key = [] then [] else ["xor".toList, key]

def commentWords (comment : Str) : List Str :=
  if comment = [] then [] else ["comment".toList, comment]

/-- A connection to the server of the node at `k`. -/
def tuctlWords (k : Key) (psk : Str) : List Str :=
  ["tuctl_client".toList] ++ (ipVersionFlag k.ipVersion).toList ++
    ["max-retries".toList, "1".toList, "psk".toList, psk, "server".toList, k.serverHost,
      "server-port".toList, decimal k.serverPort, "script".toList, "-".toList]

def serverAddWords (uid : Str) (clientPort : Int) (address key comment : Str) : List Str :=
  ["server-add".toList, "uid".toList, uid, "port".toList, decimal clientPort, "address".toList,
    address] ++ keyWords key ++ commentWords comment

def serverDelWords (uid : Str) : List Str := ["server-del".toList, "uid".toList, uid]

def clientAddWords (k : Key) (clientPort : Int) (description key : Str) : List Str :=
  ["ktuctl".toList] ++ (ipVersionFlag k.ipVersion).toList ++
    ["client-add".toList, "address".toList, k.serverHost, "port".toList, decimal clientPort,
      "uid".toList, k.uid] ++ commentWords description ++ keyWords key

def clientDelWords (k : Key) : List Str :=
  ["ktuctl".toList] ++ (ipVersionFlag k.ipVersion).toList ++
    ["client-del".toList, "address".toList, k.serverHost, "uid".toList, k.uid]

/-- One line, with a blank between two words. -/
def scriptOf (words : List Str) : Str := " ".toList.intercalate words ++ "\n".toList

/-- The invocation has `tuctl_client` read these words at the server of the node. -/
def Node.Sends (n : Node) (call : Invocation) (words : List Str) : Prop :=
  call = ⟨tuctlWords n.key n.psk.text, some (scriptOf words),
    if n.hasMemlimit then some n.memlimit else none⟩

/-- The invocation says what its runner function is to say of the node: its name,
its port, its key. -/
def Issue.Builds (issue : Issue) (call : Invocation) : Prop :=
  let n := issue.node
  match issue.tool with
  | .serverAdd => ∃ address, (address = placeholder ∨ address = issue.ip) ∧
      n.Sends call (serverAddWords n.uid.text n.clientPort address n.xorKey.text
        (sanitizeComment n.clientComment.text 256))
  | .serverDel => n.Sends call (serverDelWords n.uid.text)
  | .clientAdd =>
      call = ⟨clientAddWords n.key n.clientPort n.description.text n.xorKey.text, none, none⟩
  | .clientDel => call = ⟨clientDelWords n.key, none, none⟩

/-- The invocation gives its tool this key for the node at `k`: the key stands
behind `xor`, and where it is empty no `xor` stands there. -/
def Invocation.Gives (call : Invocation) (tool : Tool) (ip : Str) (k : Key) (key : Str) : Prop :=
  match tool with
  | .serverAdd => ∃ psk script port address comment, call.argv = tuctlWords k psk ∧
      call.stdin = some script ∧ (address = placeholder ∨ address = ip) ∧
      (comment = [] ∨ comment.head? = some "comment".toList) ∧
      words isSpace script =
        ["server-add".toList, "uid".toList, k.uid, "port".toList, decimal port, "address".toList] ++
          words isSpace address ++ keyWords key ++ comment
  | .clientAdd => ∃ port description, call.argv = clientAddWords k port description key
  | .serverDel | .clientDel => False

end Words

section Fields

/-- A text that is one word of a command line. -/
def Field (s : Str) : Prop := s ≠ [] ∧ Solid isSpace s

theorem toNat_of_isSpace {c : Char} (h : isSpace c = true) :
    c.toNat = 32 ∨ 9 ≤ c.toNat ∧ c.toNat ≤ 13 := by
  simp only [isSpace, Bool.or_eq_true, Bool.and_eq_true, decide_eq_true_eq] at h
  rcases h with rfl | blank
  · exact .inl rfl
  · have low : 9 ≤ c.toNat := blank.1
    have high : c.toNat ≤ 13 := blank.2
    exact .inr ⟨low, high⟩

theorem isSpace_eq_false {c : Char} (h : 33 ≤ c.toNat) : isSpace c = false := by
  rw [← Bool.not_eq_true]
  intro blank
  have := toNat_of_isSpace blank
  omega

theorem field_of_isSafeId {s : Str} (h : isSafeId s = true) : Field s := by
  simp only [isSafeId, Bool.and_eq_true, decide_eq_true_eq, List.all_eq_true] at h
  refine ⟨h.1, fun c hc => isSpace_eq_false ?_⟩
  have safe := h.2 c hc
  simp only [Bool.or_eq_true, decide_eq_true_eq, not_or, not_lt] at safe
  have blank : c.toNat ≠ 32 := fun same => safe.2 (Char.toNat_inj.mp same)
  omega

theorem isSafeId_take {s : Str} (h : isSafeId s = true) {n : Nat} (room : 0 < n) :
    isSafeId (s.take n) = true := by
  simp only [isSafeId, Bool.and_eq_true, decide_eq_true_eq, List.all_eq_true] at h ⊢
  refine ⟨?_, fun c hc => h.2 c (List.mem_of_mem_take hc)⟩
  rw [ne_eq, List.take_eq_nil_iff]
  exact not_or_intro (Nat.pos_iff_ne_zero.mp room) h.1

theorem isSafeId_copy {n : Nat} [NeZero n] {s : Str} (h : isSafeId s = true) (room : 1 < n) :
    isSafeId (Buf.copy s : Buf n).text = true := by
  rw [Buf.text_copy]
  exact isSafeId_take h (by omega)

theorem isSafeId_hexKey (key : HexKey) : isSafeId key.buf.text = true := by
  simp only [isSafeId, Bool.and_eq_true, decide_eq_true_eq, List.all_eq_true]
  refine ⟨key.text_buf_ne_nil, fun c hc => ?_⟩
  have hex := List.all_eq_true.mp key.hex c hc
  simp only [Char.isDigit, Bool.or_eq_true, Bool.and_eq_true, decide_eq_true_eq] at hex
  have printable : 48 ≤ c.toNat ∧ c.toNat ≤ 57 ∨ 97 ≤ c.toNat ∧ c.toNat ≤ 102 := hex
  simp only [Bool.or_eq_true, decide_eq_true_eq]
  rintro ((control | delete) | rfl)
  · omega
  · omega
  · contradiction

theorem field_decimal (i : Int) : Field (decimal i) := by
  have digits (n : Nat) : ∀ c ∈ Nat.toDigits 10 n, isSpace c = false := by
    intro c hc
    have digit := Nat.isDigit_of_mem_toDigits (by decide) (by decide) hc
    simp only [Char.isDigit, Bool.and_eq_true, decide_eq_true_eq] at digit
    have low : 48 ≤ c.toNat := digit.1
    exact isSpace_eq_false (by omega)
  unfold decimal
  split
  · exact ⟨List.cons_ne_nil _ _, List.forall_mem_cons.mpr ⟨by decide, digits _⟩⟩
  · exact ⟨Nat.toDigits_ne_nil, digits _⟩

theorem field_placeholder : Field placeholder := by
  have solid : placeholder.all (!isSpace ·) = true := by decide
  refine ⟨by decide, fun c hc => ?_⟩
  simpa using List.all_eq_true.mp solid c hc

theorem Field.newline {s : Str} (h : Field s) : '\n' ∉ s := by
  intro inside
  have := h.2 _ inside
  contradiction

theorem Field.words {s : Str} (h : Field s) : words isSpace s = [s] := words_solid h.1 h.2

/-- The words of a line are those of its parts, each part on its own. -/
theorem words_scriptOf (parts : List Str) :
    words isSpace (scriptOf parts) = parts.flatMap (words isSpace) := by
  have last : ∀ c ∈ "\n".toList, isSpace c = true := List.all_eq_true.mp (by decide)
  have blank : ∀ c ∈ " ".toList, isSpace c = true := List.all_eq_true.mp (by decide)
  unfold scriptOf
  rw [words_append_blank _ last]
  induction parts with
  | nil => rfl
  | cons part rest ih =>
    cases rest with
    | nil => simp
    | cons next rest =>
      have ended : ∀ c ∈ (part ++ " ".toList).getLast?, isSpace c = true := by
        rw [List.getLast?_append_of_ne_nil _ (by decide)]
        exact fun c hc => blank c (List.mem_of_getLast? hc)
      rw [List.intercalate_cons_cons, words_append_of_last ended, words_append_blank _ blank, ih]
      exact List.flatMap_cons.symm

theorem words_keyWords {key : Str} (named : key ≠ [] → Field key) :
    (keyWords key).flatMap (words isSpace) = keyWords key := by
  unfold keyWords
  split
  · rfl
  · rename_i keyed
    have label : words isSpace "xor".toList = ["xor".toList] := by decide
    simp only [List.flatMap_cons, List.flatMap_nil, label, (named keyed).words, List.append_nil,
      List.cons_append, List.nil_append]

theorem words_commentWords (comment : Str) : (commentWords comment).flatMap (words isSpace) =
    if comment = [] then [] else "comment".toList :: words isSpace comment := by
  unfold commentWords
  split
  · rfl
  · have label : words isSpace "comment".toList = ["comment".toList] := by decide
    simp only [List.flatMap_cons, List.flatMap_nil, label, List.append_nil, List.cons_append,
      List.nil_append]

/-- Of the parts of a `server-add` the address and the comment may be several words. -/
theorem words_serverAddWords {uid address key comment : Str} {port : Int} (named : Field uid)
    (keyed : key ≠ [] → Field key) :
    words isSpace (scriptOf (serverAddWords uid port address key comment)) =
      ["server-add".toList, "uid".toList, uid, "port".toList, decimal port, "address".toList] ++
        words isSpace address ++ keyWords key ++
        if comment = [] then [] else "comment".toList :: words isSpace comment := by
  have command : words isSpace "server-add".toList = ["server-add".toList] := by decide
  have uidLabel : words isSpace "uid".toList = ["uid".toList] := by decide
  have portLabel : words isSpace "port".toList = ["port".toList] := by decide
  have addressLabel : words isSpace "address".toList = ["address".toList] := by decide
  unfold serverAddWords
  rw [words_scriptOf, List.flatMap_append, List.flatMap_append, words_keyWords keyed,
    words_commentWords]
  simp only [List.flatMap_cons, List.flatMap_nil, command, uidLabel, portLabel, addressLabel,
    named.words, (field_decimal port).words, List.cons_append, List.nil_append, List.append_nil,
    List.append_assoc]

theorem words_serverDelWords {uid : Str} (named : Field uid) :
    words isSpace (scriptOf (serverDelWords uid)) = serverDelWords uid := by
  have command : words isSpace "server-del".toList = ["server-del".toList] := by decide
  have uidLabel : words isSpace "uid".toList = ["uid".toList] := by decide
  unfold serverDelWords
  rw [words_scriptOf]
  simp only [List.flatMap_cons, List.flatMap_nil, command, uidLabel, named.words,
    List.append_nil, List.cons_append, List.nil_append]

end Fields

section Comments

/-- The comment of a script has no line break. -/
theorem newline_sanitizeComment (src : Str) (size : Nat) : '\n' ∉ sanitizeComment src size := by
  intro inside
  have mapped : '\n' ∈ (src.take (size - 1)).map
      fun c => if c = '\n' || c = '\r' then ' ' else c := by
    exact (List.dropWhile_sublist isSpace).subset ((List.rdropWhile_prefix isSpace _).subset inside)
  obtain ⟨c, -, hc⟩ := List.mem_map.mp mapped
  split at hc
  · contradiction
  · rename_i other
    exact other (by simp [hc])

theorem length_sanitizeComment (src : Str) (size : Nat) :
    (sanitizeComment src size).length ≤ size - 1 := by
  have trimmed := (List.rdropWhile_prefix isSpace (((src.take (size - 1)).map fun c =>
    if c = '\n' || c = '\r' then ' ' else c).dropWhile isSpace)).length_le
  have cut := List.length_dropWhile_le isSpace ((src.take (size - 1)).map fun c =>
    if c = '\n' || c = '\r' then ' ' else c)
  rw [List.length_map, List.length_take] at cut
  unfold sanitizeComment trim
  omega

end Comments

section Suffixes

variable {n : Node}

/-- The buffers of the suffixes have room for every key and every comment. -/
theorem xorSuffix_eq (n : Node) :
    xorSuffix n = if n.xorKey.text = [] then [] else " xor ".toList ++ n.xorKey.text := by
  unfold xorSuffix
  split
  · rfl
  · refine Buf.text_copy_of_fits ?_
    have := n.xorKey.fits
    simp only [List.length_append]
    have : " xor ".toList.length = 5 := by decide
    omega

theorem commentSuffix_eq (n : Node) :
    commentSuffix n = if sanitizeComment n.clientComment.text 256 = [] then []
      else " comment ".toList ++ sanitizeComment n.clientComment.text 256 := by
  unfold commentSuffix
  dsimp only
  split
  · rfl
  · refine Buf.text_copy_of_fits ?_
    have := length_sanitizeComment n.clientComment.text 256
    simp only [List.length_append]
    have : " comment ".toList.length = 9 := by decide
    omega

end Suffixes

section Builders

/-! The builders of `runner.c` say these words. -/

variable {n : Node} {address : Str}

theorem tuctlArgv_eq_words (n : Node) : tuctlArgv n = tuctlWords n.key n.psk.text := rfl

theorem clientAddArgv_eq_words (n : Node) : clientAddArgv n =
    clientAddWords n.key n.clientPort n.description.text n.xorKey.text := rfl

theorem clientDelArgv_eq_words (n : Node) : clientDelArgv n = clientDelWords n.key := rfl

/-- Blank by blank, with a key and a comment only where there is one. -/
theorem serverAddScript_eq_words (n : Node) (address : Str) : serverAddScript n address =
    scriptOf (serverAddWords n.uid.text n.clientPort address n.xorKey.text
      (sanitizeComment n.clientComment.text 256)) := by
  have front : "server-add uid ".toList =
      "server-add".toList ++ " ".toList ++ ("uid".toList ++ " ".toList) := by decide
  have port : " port ".toList = " ".toList ++ ("port".toList ++ " ".toList) := by decide
  have located : " address ".toList = " ".toList ++ ("address".toList ++ " ".toList) := by decide
  have keyed : " xor ".toList = " ".toList ++ ("xor".toList ++ " ".toList) := by decide
  have commented : " comment ".toList = " ".toList ++ ("comment".toList ++ " ".toList) := by
    decide
  unfold serverAddScript scriptOf serverAddWords keyWords commentWords
  rw [xorSuffix_eq, commentSuffix_eq]
  split <;> split <;>
    simp only [front, port, located, keyed, commented, List.cons_append, List.nil_append,
      List.append_nil, List.append_assoc, List.intercalate_cons_cons, List.intercalate_singleton]

theorem serverDelScript_eq_words (n : Node) :
    serverDelScript n = scriptOf (serverDelWords n.uid.text) := by
  have front : "server-del uid ".toList =
      "server-del".toList ++ " ".toList ++ ("uid".toList ++ " ".toList) := by decide
  unfold serverDelScript scriptOf serverDelWords
  simp only [front, List.intercalate_cons_cons, List.intercalate_singleton, List.append_assoc]

theorem sends_tuctlCall {words : List Str} {script : Str} (told : script = scriptOf words) :
    n.Sends (tuctlCall n script) words := by
  rw [told]
  rfl

theorem builds_serverAdd {ip : Str} (named : address = placeholder ∨ address = ip) :
    Issue.Builds ⟨.serverAdd, n, ip⟩ (tuctlCall n (serverAddScript n address)) :=
  ⟨address, named, sends_tuctlCall (serverAddScript_eq_words n address)⟩

theorem builds_serverDel {ip : Str} :
    Issue.Builds ⟨.serverDel, n, ip⟩ (tuctlCall n (serverDelScript n)) :=
  sends_tuctlCall (serverDelScript_eq_words n)

theorem builds_clientAdd {ip : Str} :
    Issue.Builds ⟨.clientAdd, n, ip⟩ ⟨clientAddArgv n, none, none⟩ := rfl

theorem builds_clientDel {ip : Str} :
    Issue.Builds ⟨.clientDel, n, ip⟩ ⟨clientDelArgv n, none, none⟩ := rfl

/-- The commands that add a node give its key. -/
theorem Issue.Builds.gives {issue : Issue} {call : Invocation} (builds : issue.Builds call)
    (adds : issue.tool = .serverAdd ∨ issue.tool = .clientAdd)
    (named : Field issue.node.uid.text)
    (keyed : issue.node.xorKey.text ≠ [] → Field issue.node.xorKey.text) :
    call.Gives issue.tool issue.ip issue.node.key issue.node.xorKey.text := by
  unfold Issue.Builds at builds
  rcases adds with tool | tool
  · rw [tool] at builds ⊢
    obtain ⟨address, told, rfl⟩ := builds
    refine ⟨_, _, _, address, _, rfl, rfl, told, ?_, words_serverAddWords named keyed⟩
    split
    · exact .inl rfl
    · exact .inr rfl
  · rw [tool] at builds ⊢
    rw [builds]
    exact ⟨_, _, rfl⟩

end Builders

end Tumgrd
