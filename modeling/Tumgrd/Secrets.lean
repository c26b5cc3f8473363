import Tumgrd.Scripts

/-! What the log shows of the two secrets of a node. Argument lists are logged
with the values behind `psk` and `xor` hidden; scripts are logged as they are. -/
namespace Tumgrd

open Effect

section Logging

variable {α β : Type}

/-- The lines a program logs while its subprocesses end with these results, up
to the first subprocess there is no result for. -/
def logged : Prog α → Bool → List ExecResult → List LogLine
  | .call (.log line) rest, flag, results => line :: logged (rest ()) flag results
  | .call .timedOut rest, flag, results => logged (rest flag) flag results
  | .call (.exec _ _) rest, _, result :: results =>
      result.lines ++ logged (rest result) result.timedOut results
  | _, _, _ => []

/-- Two programs that log the same and go the same ways. -/
inductive Alike : Prog α → Prog α → Prop
  | done (value : α) : Alike (.done value) (.done value)
  | log {line : LogLine} {rest rest' : Unit → Prog α} : Alike (rest ()) (rest' ()) →
      Alike (.call (.log line) rest) (.call (.log line) rest')
  | timedOut {rest rest' : Bool → Prog α} : (∀ flag, Alike (rest flag) (rest' flag)) →
      Alike (.call .timedOut rest) (.call .timedOut rest')
  | exec {issue issue' : Issue} {call call' : Invocation} {rest rest' : ExecResult → Prog α} :
      (∀ result, Alike (rest result) (rest' result)) →
      Alike (.call (.exec issue call) rest) (.call (.exec issue' call') rest')

theorem Alike.logged {p p' : Prog α} (h : Alike p p') (flag : Bool) (results : List ExecResult) :
    logged p flag results = logged p' flag results := by
  induction h generalizing flag results with
  | done => rfl
  | @log line _ _ _ ih => exact congrArg (line :: ·) (ih flag results)
  | timedOut _ ih => exact ih flag flag results
  | exec _ ih =>
    cases results with
    | nil => rfl
    | cons result results => exact congrArg (result.lines ++ ·) (ih result result.timedOut results)

theorem Alike.bind {p p' : Prog α} {f f' : α → Prog β} (h : Alike p p')
    (next : ∀ value, Alike (f value) (f' value)) : Alike (p >>= f) (p' >>= f') := by
  induction h with
  | done value => exact next value
  | log _ ih => exact .log ih
  | timedOut _ ih => exact .timedOut ih
  | exec _ ih => exact .exec ih

theorem alike_log {level : Level} {text text' : Str} (h : text = text') :
    Alike (log level text) (log level text') := by
  rw [h]
  exact .log (.done ())

theorem alike_readTimedOut : Alike readTimedOut readTimedOut := .timedOut fun flag => .done flag

theorem alike_exec {issue issue' : Issue} {call call' : Invocation} :
    Alike (exec issue call) (exec issue' call') :=
  .exec fun result => .done result

theorem World.lines_after (w : World) (q : Req) (r : Resp q) :
    (w.after q r).lines = w.lines ++ Event.lines ⟨q, r⟩ := by
  simp [World.lines]

/-- The lines of a finished run are those its results lead to. -/
theorem lines_of_runs {p : Prog α} {w v : World} {value : α} (only : Alike p p)
    (runs : (sem True).Runs p w (.done value) v) : ∃ results,
      v.commands.reverse.map Command.result = w.commands.reverse.map Command.result ++ results ∧
        v.lines = w.lines ++ logged p w.timedOut results := by
  induction p generalizing w with
  | done value' =>
    obtain ⟨-, rfl⟩ := Semantics.runs_pure runs
    exact ⟨[], by simp [logged]⟩
  | call q rest ih =>
    obtain ⟨r, u, answered, later⟩ := Semantics.runs_bind (p := perform q) (f := rest) runs
    obtain ⟨allowed, rfl⟩ := Semantics.runs_perform answered
    cases only with
    | log only =>
      obtain ⟨results, commands, lines⟩ := ih () only later
      refine ⟨results, commands, lines.trans ?_⟩
      rw [World.lines_after, List.append_assoc]
      rfl
    | timedOut only =>
      obtain ⟨results, commands, lines⟩ := ih r (only r) later
      refine ⟨results, commands, lines.trans ?_⟩
      cases (show r = w.timedOut from allowed)
      rw [World.lines_after, List.append_assoc]
      rfl
    | exec only =>
      obtain ⟨results, commands, lines⟩ := ih r (only r) later
      refine ⟨r :: results, ?_, lines.trans ?_⟩
      · rw [commands, World.commands_after_exec, List.reverse_cons, List.map_append,
          List.append_assoc]
        rfl
      · rw [World.lines_after, List.append_assoc]
        rfl

end Logging

section Arguments

/-- Argument lists that differ in hidden values only. Where the loop goes on
behind a hidden value, both values hide the next argument or neither does. -/
inductive Masked : Bool → List Str → List Str → Prop
  | last (sensitiveNext : Bool) : Masked sensitiveNext [] []
  | shown {sensitiveNext : Bool} (arg : Str) {rest rest' : List Str} :
      Masked (isSecretName arg) rest rest' → Masked sensitiveNext (arg :: rest) (arg :: rest')
  | hidden {arg arg' : Str} {rest rest' : List Str} : isSecretName arg = isSecretName arg' →
      Masked (isSecretName arg) rest rest' → Masked true (arg :: rest) (arg' :: rest')
  | hiddenLast (arg arg' : Str) : Masked true [arg] [arg']

theorem Masked.refl (sensitiveNext : Bool) (args : List Str) : Masked sensitiveNext args args := by
  induction args generalizing sensitiveNext with
  | nil => exact .last _
  | cons arg rest ih => exact .shown arg (ih _)

/-- Behind common arguments the next one is hidden if the last of them says so. -/
theorem Masked.behind {sensitiveNext : Bool} (common : List Str) {name : Str}
    {rest rest' : List Str} (h : Masked (isSecretName name) rest rest') :
    Masked sensitiveNext (common ++ name :: rest) (common ++ name :: rest') := by
  induction common generalizing sensitiveNext with
  | nil => exact .shown name h
  | cons arg common ih => exact .shown arg ih

theorem Masked.argvText {sensitiveNext : Bool} {args args' : List Str}
    (h : Masked sensitiveNext args args') (off : Nat) :
    argvText off sensitiveNext args = argvText off sensitiveNext args' := by
  induction h generalizing off with
  | last => rfl
  | shown arg _ ih => simp only [Tumgrd.argvText, ih]
  | hidden same _ ih =>
    simp only [Tumgrd.argvText, if_true, ih]
    rw [same]
  | hiddenLast => rfl

theorem Masked.argvLine {args args' : List Str} (h : Masked false args args') (tag : Str) :
    argvLine tag args = argvLine tag args' := by
  unfold Tumgrd.argvLine
  dsimp only
  rw [h.argvText]

/-- What the loop appends for an argument. -/
def argvPiece (sensitiveNext : Bool) (arg : Str) : Str :=
  ' ' :: if sensitiveNext then "****".toList else arg

theorem argvText_cons {off : Nat} (room : off < 2048 - 32) (sensitiveNext : Bool) (arg : Str)
    (rest : List Str) : argvText off sensitiveNext (arg :: rest) = argvPiece sensitiveNext arg ++
      argvText (off + (argvPiece sensitiveNext arg).length) (isSecretName arg) rest :=
  if_pos room

/-- The text of arguments that leave room in the buffer. -/
theorem argvText_append {sensitiveNext : Bool} {args : List Str} (rest : List Str) {off : Nat}
    (room : off + (argvText off sensitiveNext args).length < 2048 - 32) :
    argvText off sensitiveNext (args ++ rest) = argvText off sensitiveNext args ++
      argvText (off + (argvText off sensitiveNext args).length)
        (args.getLast?.elim sensitiveNext isSecretName) rest := by
  induction args generalizing off sensitiveNext with
  | nil => rfl
  | cons arg args ih =>
    have here : off < 2048 - 32 := by omega
    rw [argvText_cons here, List.length_append, ← Nat.add_assoc] at room
    rw [List.cons_append, argvText_cons here, argvText_cons here, ih room, List.append_assoc,
      List.length_append, Nat.add_assoc, List.getLast?_cons]
    cases args.getLast? <;> rfl

end Arguments

section Tools

variable {n : Node} {psk : Buf 256} {xorKey : Buf 129}

/-- The arguments in front of the secret. -/
def tuctlFront (ipVersion : Str) : List Str :=
  ["tuctl_client".toList] ++ (ipVersionFlag ipVersion).toList ++
    ["max-retries".toList, "1".toList, "psk".toList]

def tuctlBack (n : Node) : List Str :=
  ["server".toList, n.serverHost.text, "server-port".toList, decimal n.serverPort,
    "script".toList, "-".toList]

theorem tuctlArgv_eq (n : Node) :
    tuctlArgv n = tuctlFront n.ipVersion.text ++ n.psk.text :: tuctlBack n := by
  simp only [tuctlArgv, tuctlFront, tuctlBack, List.append_assoc, List.cons_append, List.nil_append]

/-- The line does not depend on the secret, but for its effect on the next argument. -/
theorem masked_tuctlArgv (same : isSecretName n.psk.text = isSecretName psk.text) :
    Masked false (tuctlArgv n) (tuctlArgv { n with psk, xorKey }) := by
  rw [tuctlArgv_eq, tuctlArgv_eq]
  unfold tuctlFront
  simp only [List.append_assoc, List.cons_append, List.nil_append]
  have hidden : Masked (isSecretName "psk".toList) (n.psk.text :: tuctlBack n)
      (psk.text :: tuctlBack n) := .hidden same (.refl _ _)
  exact .shown _ (.behind _ (.shown _ (.shown _ hidden)))

def tuctlHead : Str := "[runner] ".toList ++ "tuctl_client".toList ++ " exec:".toList

/-- Where the text of the argument behind the secret starts in the line. -/
def behindSecret (ipVersion : Str) : Nat :=
  tuctlHead.length + (argvText tuctlHead.length false (tuctlFront ipVersion)).length + 6

theorem behindSecret_lt (ipVersion : Str) : behindSecret ipVersion < 100 := by
  unfold behindSecret tuctlFront ipVersionFlag
  split
  · decide
  split <;> decide

theorem getLast?_tuctlFront (ipVersion : Str) :
    (tuctlFront ipVersion).getLast? = some "psk".toList := by
  unfold tuctlFront
  rw [List.getLast?_append]
  rfl

/-- The first letter of `server`, or of what hides it. -/
theorem tuctlLine_behindSecret (n : Node) :
    (argvLine "tuctl_client".toList (tuctlArgv n))[behindSecret n.ipVersion.text]? =
      some (if isSecretName n.psk.text then '*' else 's') := by
  have short := behindSecret_lt n.ipVersion.text
  unfold behindSecret at short
  have hides : isSecretName "psk".toList = true := by decide
  have room : tuctlHead.length +
      (argvText tuctlHead.length false (tuctlFront n.ipVersion.text)).length < 2048 - 32 := by omega
  obtain ⟨front, hfront⟩ : ∃ front,
      front = argvText tuctlHead.length false (tuctlFront n.ipVersion.text) := ⟨_, rfl⟩
  have line : argvLine "tuctl_client".toList (tuctlArgv n) =
      ((tuctlHead ++ front ++ " ****".toList) ++ (argvPiece (isSecretName n.psk.text)
        "server".toList ++ argvText (tuctlHead.length + front.length + 5 +
          (argvPiece (isSecretName n.psk.text) "server".toList).length) false
            (tuctlBack n).tail)).take 2047 := by
    show (tuctlHead ++ argvText tuctlHead.length false (tuctlArgv n)).take 2047 = _
    rw [tuctlArgv_eq, argvText_append _ room, getLast?_tuctlFront, argvText_cons room, ← hfront]
    simp only [Option.elim_some, hides, List.append_assoc]
    congr 4
    have room' : tuctlHead.length + front.length + 5 < 2048 - 32 := by
      rw [hfront]
      omega
    exact argvText_cons room' _ _ _
  have at' : behindSecret n.ipVersion.text = (tuctlHead ++ front ++ " ****".toList).length + 1 := by
    rw [behindSecret, hfront]
    simp only [List.length_append]
    rfl
  have here : behindSecret n.ipVersion.text < 2047 := by
    unfold behindSecret
    omega
  rw [line, List.getElem?_take_of_lt here, at', List.getElem?_append_right (by omega),
    Nat.add_sub_cancel_left]
  unfold argvPiece
  split <;> rfl

theorem isSecretName_of_tuctlLine (same : argvLine "tuctl_client".toList (tuctlArgv n) =
    argvLine "tuctl_client".toList (tuctlArgv { n with psk, xorKey })) :
    isSecretName n.psk.text = isSecretName psk.text := by
  have letters := congrArg (·[behindSecret n.ipVersion.text]?) same
  have left := tuctlLine_behindSecret n
  have right := tuctlLine_behindSecret { n with psk, xorKey }
  have both := left.symm.trans (letters.trans right)
  dsimp only at both
  split at both <;> split at both <;> simp_all

theorem masked_clientAddArgv (keyed : n.xorKey.text ≠ []) (keyed' : xorKey.text ≠ []) :
    Masked false (clientAddArgv n) (clientAddArgv { n with psk, xorKey }) := by
  unfold clientAddArgv
  rw [if_neg keyed, if_neg keyed']
  exact .behind _ (.hiddenLast _ _)

end Tools

section Scripts

variable {n : Node} {psk : Buf 256} {xorKey : Buf 129} {p : Char → Bool} {s t u : Str}

theorem rdropWhile_append (p : Char → Bool) (s t : Str) : (s ++ t).rdropWhile p =
    if t.rdropWhile p = [] then s.rdropWhile p else s ++ t.rdropWhile p := by
  unfold List.rdropWhile
  rw [List.reverse_append, List.dropWhile_append]
  simp only [List.isEmpty_iff, List.reverse_eq_nil_iff]
  split
  · rfl
  · rw [List.reverse_append, List.reverse_reverse]

/-- What is in front does not matter to how two texts end. -/
theorem rdropWhile_append_inj :
    (s ++ t).rdropWhile p = (s ++ u).rdropWhile p ↔ t.rdropWhile p = u.rdropWhile p := by
  have shorter := (List.rdropWhile_prefix p s).length_le
  rw [rdropWhile_append, rdropWhile_append]
  constructor
  · intro same
    have lengths := congrArg List.length same
    split at same <;> split at same
    · rename_i left right
      rw [left, right]
    · rename_i left right
      rw [if_pos left, if_neg right, List.length_append] at lengths
      have := List.length_pos_iff.mpr right
      omega
    · rename_i left right
      rw [if_neg left, if_pos right, List.length_append] at lengths
      have := List.length_pos_iff.mpr left
      omega
    · exact List.append_cancel_left same
  · intro same
    rw [same]

/-- How a script ends that shows its whole key, or its key up to the blanks. -/
theorem trim_key_iff (comment key key' : Str) (trimmed : comment.rdropWhile isSpace = comment) :
    (key ++ (comment ++ "\n".toList)).rdropWhile isSpace =
      (key' ++ (comment ++ "\n".toList)).rdropWhile isSpace ↔
    if comment = [] then key.rdropWhile isSpace = key'.rdropWhile isSpace else key = key' := by
  have ends (text : Str) : (text ++ "\n".toList).rdropWhile isSpace = text.rdropWhile isSpace :=
    rdropWhile_append isSpace text "\n".toList
  rw [← List.append_assoc, ← List.append_assoc, ends, ends]
  split
  · rename_i none
    rw [none, List.append_nil, List.append_nil]
  · rename_i some
    rw [rdropWhile_append, rdropWhile_append, trimmed, if_neg some, if_neg some,
      List.append_left_inj]

theorem rdropWhile_trim (s : Str) : (trim s).rdropWhile isSpace = trim s :=
  List.rdropWhile_idempotent isSpace _

theorem commentSuffix_eq_nil :
    commentSuffix n = [] ↔ sanitizeComment n.clientComment.text 256 = [] := by
  rw [commentSuffix_eq]
  split
  · rename_i none
    exact ⟨fun _ => none, fun _ => rfl⟩
  · rename_i some
    exact ⟨fun nil => absurd (List.append_eq_nil_iff.mp nil).2 some,
      fun none => absurd none some⟩

theorem rdropWhile_commentSuffix (n : Node) :
    (commentSuffix n).rdropWhile isSpace = commentSuffix n := by
  have trimmed : (sanitizeComment n.clientComment.text 256).rdropWhile isSpace =
      sanitizeComment n.clientComment.text 256 := rdropWhile_trim _
  rw [commentSuffix_eq]
  split
  · rfl
  · rename_i some
    rw [rdropWhile_append, trimmed, if_neg some]

/-- The script up to the key. -/
def scriptFront (n : Node) (address : Str) : Str :=
  "server-add uid ".toList ++ (n.uid.text ++ (" port ".toList ++ (decimal n.clientPort ++
    (" address ".toList ++ (address ++ " xor ".toList)))))

theorem scriptFront_append (n : Node) (address rest : Str) :
    scriptFront n address ++ rest =
      "server-add uid ".toList ++ (n.uid.text ++ (" port ".toList ++ (decimal n.clientPort ++
        (" address ".toList ++ (address ++ (" xor ".toList ++ rest)))))) := by
  unfold scriptFront
  simp only [List.append_assoc]

theorem xorSuffix_append (keyed : n.xorKey.text ≠ []) (rest : Str) :
    xorSuffix n ++ rest = " xor ".toList ++ (n.xorKey.text ++ rest) := by
  rw [xorSuffix_eq, if_neg keyed]
  exact List.append_assoc _ _ _

theorem serverAddScript_eq (n : Node) (address : Str) :
    serverAddScript n address = "server-add uid ".toList ++ (n.uid.text ++ (" port ".toList ++
      (decimal n.clientPort ++ (" address ".toList ++ (address ++ (xorSuffix n ++
        (commentSuffix n ++ "\n".toList))))))) := by
  unfold serverAddScript
  simp only [List.append_assoc]

theorem serverAddScript_keyed (keyed : n.xorKey.text ≠ []) (address : Str) :
    serverAddScript n address =
      scriptFront n address ++ (n.xorKey.text ++ (commentSuffix n ++ "\n".toList)) := by
  rw [scriptFront_append, ← xorSuffix_append keyed]
  exact serverAddScript_eq n address

theorem trim_serverAddScript (n : Node) (address : Str) :
    trim (serverAddScript n address) = (serverAddScript n address).rdropWhile isSpace := by
  have first : "server-add uid ".toList = 's' :: "erver-add uid ".toList := rfl
  have solid : ¬isSpace 's' = true := by decide
  rw [trim, serverAddScript_eq, first, List.cons_append, List.dropWhile_cons_of_neg solid]

/-- The keys agree as far as the script shows them. -/
def KeysAgree (n : Node) (xorKey : Buf 129) : Prop :=
  if sanitizeComment n.clientComment.text 256 = [] then
    n.xorKey.text.rdropWhile isSpace = xorKey.text.rdropWhile isSpace
  else n.xorKey.text = xorKey.text

theorem trim_serverAddScript_iff (keyed : n.xorKey.text ≠ []) (keyed' : xorKey.text ≠ [])
    (address : Str) : trim (serverAddScript n address) =
      trim (serverAddScript { n with psk, xorKey } address) ↔ KeysAgree n xorKey := by
  have front : scriptFront { n with psk, xorKey } address = scriptFront n address := rfl
  have comment : commentSuffix { n with psk, xorKey } = commentSuffix n := rfl
  rw [trim_serverAddScript, trim_serverAddScript, serverAddScript_keyed keyed,
    serverAddScript_keyed (n := { n with psk, xorKey }) keyed', front, comment,
    rdropWhile_append_inj, trim_key_iff _ _ _ (rdropWhile_commentSuffix n)]
  simp only [commentSuffix_eq_nil, KeysAgree]

end Scripts

section Runner

variable {n : Node} {psk : Buf 256} {xorKey : Buf 129} {cfg : Config} {ip : Str}

theorem alike_runTuctlScript {tool : Tool} {address script script' marker : Str}
    (names : isSecretName n.psk.text = isSecretName psk.text) :
    Alike (runTuctlScript ⟨tool, n, address⟩ script marker)
      (runTuctlScript ⟨tool, { n with psk, xorKey }, address⟩ script' marker) := by
  unfold runTuctlScript
  refine (alike_log ((masked_tuctlArgv names).argvLine _)).bind fun _ => ?_
  refine alike_exec.bind fun result => ?_
  refine (alike_log rfl).bind fun _ => ?_
  split
  · exact .done _
  split
  · exact (alike_log rfl).bind fun _ => .done _
  · exact .done _

theorem alike_runKtuctl {tool : Tool} {argv argv' : List Str} (masked : Masked false argv argv') :
    Alike (runKtuctl ⟨tool, n, []⟩ argv)
        (runKtuctl ⟨tool, { n with psk, xorKey }, []⟩ argv') := by
  unfold runKtuctl
  refine (alike_log (masked.argvLine _)).bind fun _ => ?_
  refine alike_exec.bind fun result => ?_
  exact (alike_log rfl).bind fun _ => .done _

theorem alike_serverAdd (names : isSecretName n.psk.text = isSecretName psk.text)
    (scripts : ip ≠ [] → ∀ address, trim (serverAddScript n address) =
      trim (serverAddScript { n with psk, xorKey } address)) :
    Alike (serverAdd n cfg ip) (serverAdd { n with psk, xorKey } cfg ip) := by
  have script (located : ip ≠ []) (tag address : Str) :
      Alike (logTrimmed tag (serverAddScript n address))
        (logTrimmed tag (serverAddScript { n with psk, xorKey } address)) := by
    unfold logTrimmed
    rw [scripts located]
    exact alike_log rfl
  have detected (located : ip ≠ []) :
      Alike (serverAddDetected n ip) (serverAddDetected { n with psk, xorKey } ip) :=
    (script located _ _).bind fun _ => alike_runTuctlScript names
  unfold serverAdd
  split
  · exact .done _
  · rename_i located
    split
    · refine (script located _ _).bind fun _ => (alike_runTuctlScript names).bind fun rc => ?_
      split
      · exact .done _
      refine alike_readTimedOut.bind fun late => ?_
      split
      · exact (alike_log rfl).bind fun _ => .done _
      · exact (alike_log rfl).bind fun _ => detected located
    · exact detected located

theorem alike_serverDel (names : isSecretName n.psk.text = isSecretName psk.text) :
    Alike (serverDel n) (serverDel { n with psk, xorKey }) :=
  (alike_log rfl).bind fun _ => alike_runTuctlScript names

theorem alike_clientAdd (keyed : n.xorKey.text ≠ []) (keyed' : xorKey.text ≠ []) :
    Alike (clientAdd n) (clientAdd { n with psk, xorKey }) :=
  alike_runKtuctl (masked_clientAddArgv keyed keyed')

theorem alike_resetLocalClient (keyed : n.xorKey.text ≠ []) (keyed' : xorKey.text ≠ []) :
    Alike (resetLocalClient n) (resetLocalClient { n with psk, xorKey }) := by
  unfold resetLocalClient
  refine (alike_runKtuctl (.refl _ _)).bind fun _ => alike_readTimedOut.bind fun late => ?_
  split
  · exact .done _
  · exact alike_clientAdd keyed keyed'

/-- The four functions log the same for both nodes, whatever the flag was before
and however their subprocesses end. -/
structure SameLog (cfg : Config) (ip : Str) (n n' : Node) : Prop where
  serverAdd : ∀ flag results,
    logged (serverAdd n cfg ip) flag results = logged (serverAdd n' cfg ip) flag results
  serverDel :
    ∀ flag results, logged (serverDel n) flag results = logged (serverDel n') flag results
  clientAdd :
    ∀ flag results, logged (clientAdd n) flag results = logged (clientAdd n') flag results
  resetLocalClient : ∀ flag results,
    logged (resetLocalClient n) flag results = logged (resetLocalClient n') flag results

/-- What is logged in front of the first subprocess. -/
theorem logged_serverDel (n : Node) : ∃ script, logged (serverDel n) false [] =
    [script, ⟨.debug, argvLine "tuctl_client".toList (tuctlArgv n)⟩] := ⟨_, rfl⟩

theorem logged_serverAdd (n : Node) (cfg : Config) (located : ip ≠ []) :
    ∃ (tag address : Str) (line : Node → LogLine), ∀ psk xorKey,
      logged (Tumgrd.serverAdd { n with psk, xorKey } cfg ip) false [] =
      [⟨.info, tag ++ ": ".toList ++ trim (serverAddScript { n with psk, xorKey } address)⟩,
        line { n with psk, xorKey }] := by
  unfold Tumgrd.serverAdd
  simp only [if_neg located]
  split
  · exact ⟨_, _, fun n => ⟨.debug, argvLine "tuctl_client".toList (tuctlArgv n)⟩,
      fun _ _ => rfl⟩
  · exact ⟨_, _, fun n => ⟨.debug, argvLine "tuctl_client".toList (tuctlArgv n)⟩,
      fun _ _ => rfl⟩

/-- The log tells nothing about the secrets exactly if neither PSK or both are
one of the words that hide an argument, and either no script is sent or the keys
are the same in it. -/
theorem secrets_unlogged_iff (keyed : n.xorKey.text ≠ []) (keyed' : xorKey.text ≠ []) :
    SameLog cfg ip n { n with psk, xorKey } ↔
      isSecretName n.psk.text = isSecretName psk.text ∧ (ip = [] ∨ KeysAgree n xorKey) := by
  constructor
  · intro same
    constructor
    · obtain ⟨_, left⟩ := logged_serverDel n
      obtain ⟨_, right⟩ := logged_serverDel { n with psk, xorKey }
      have lines := same.serverDel false []
      rw [left, right] at lines
      simp only [List.cons.injEq, LogLine.mk.injEq] at lines
      exact isSecretName_of_tuctlLine lines.2.1.2
    · by_cases located : ip = []
      · exact .inl located
      · refine .inr ?_
        obtain ⟨tag, address, line, first⟩ := logged_serverAdd n cfg located
        have lines := same.serverAdd false []
        have left := first n.psk n.xorKey
        rw [first psk xorKey, left] at lines
        simp only [List.cons.injEq, LogLine.mk.injEq, List.append_cancel_left_eq] at lines
        exact (trim_serverAddScript_iff keyed keyed' address).mp lines.1.2
  · rintro ⟨names, agree⟩
    have scripts (located : ip ≠ []) (address : Str) : trim (serverAddScript n address) =
        trim (serverAddScript { n with psk, xorKey } address) :=
      (trim_serverAddScript_iff keyed keyed' address).mpr (agree.resolve_left located)
    exact {
      serverAdd := (alike_serverAdd names scripts).logged
      serverDel := (alike_serverDel names).logged
      clientAdd := (alike_clientAdd keyed keyed').logged
      resetLocalClient := (alike_resetLocalClient keyed keyed').logged }

end Runner

section Samples

/-- A node with a key and no comment. -/
def sampleKeyed : Node :=
  { Node.zero with
    uid := .copy "node".toList
    serverHost := .copy "host".toList
    serverPort := 4000
    psk := .copy "secret".toList
    clientPort := 5000
    xorKey := .copy "k1".toList }

/-- The script that is logged shows the key. -/
theorem key_logged : sampleKeyed.xorKey.text ≠ [] ∧
    ¬SameLog ⟨true, false, 3600⟩ "1.2.3.4".toList sampleKeyed
      { sampleKeyed with psk := .copy "other".toList, xorKey := .copy "k2".toList } := by
  refine ⟨by decide, fun same => ?_⟩
  have lines := same.serverAdd false []
  revert lines
  decide +kernel

/-- Another PSK does not show, and neither does a blank at the end of the key. -/
theorem secrets_unlogged_iff_psk : SameLog ⟨true, false, 3600⟩ "1.2.3.4".toList sampleKeyed
    { sampleKeyed with psk := .copy "other".toList, xorKey := .copy "k1 ".toList } := by
  refine (secrets_unlogged_iff (by decide) (by decide)).mpr ⟨by decide, .inr ?_⟩
  unfold KeysAgree
  decide

end Samples

end Tumgrd
