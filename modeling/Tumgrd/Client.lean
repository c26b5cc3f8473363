import Tumgrd.Attributes
import Tumgrd.Cli

/-! `tumgr register` and `tumgr deregister`: their options, and the messages
that their payloads become. -/
namespace Tumgrd

open Effect Semantics Program

/-- The options, by the variables that they set. -/
inductive Opt where
  | uid
  | serverHost
  | serverPort
  | clientPort
  | psk
  | memlimit
  | description
  | clientComment
  | ipCheckUrl
  | ipVersion
  | lifetime
  | socket
  deriving DecidableEq

def Opt.names : Opt → List Str
  | .uid => ["-uid".toList, "-u".toList]
  | .serverHost => ["-server-host".toList, "-H".toList]
  | .serverPort => ["-server-port".toList, "-S".toList]
  | .clientPort => ["-client-port".toList, "-p".toList]
  | .psk => ["-psk".toList, "-k".toList]
  | .memlimit => ["-memlimit".toList, "-m".toList]
  | .description => ["-description".toList, "-d".toList]
  | .clientComment => ["-client-comment".toList, "-c".toList]
  | .ipCheckUrl => ["-ip-check-url".toList, "-i".toList]
  | .ipVersion => ["-ip-version".toList, "-V".toList]
  | .lifetime => ["-lifetime".toList, "-L".toList]
  | .socket => ["-socket".toList, "-s".toList]

abbrev Vars := Opt → Str

/-- The loop over the arguments. An option that is not known and one without its
value end the script. -/
def parseOpts (known : List Opt) : List Str → Vars → Option Vars
  | [], vars => some vars
  | [_], _ => none
  | name :: value :: rest, vars =>
      match known.find? fun opt => name ∈ opt.names with
      | none => none
      | some opt => parseOpts known rest (Function.update vars opt value)

/-- `is_uint`. -/
def isUint (s : Str) : Bool := s ≠ [] && s.all Char.isDigit

def textMember (name : String) (s : Str) : List (Str × Json.Value) := [(name.toList, .text s)]

def wordMember (name : String) (s : Str) : List (Str × Json.Value) := [(name.toList, .word s)]

def registerMembers (vars : Vars) : List (Str × Json.Value) :=
  textMember "uid" (vars .uid) ++ textMember "server_host" (vars .serverHost) ++
    wordMember "server_port" (vars .serverPort) ++ wordMember "client_port" (vars .clientPort) ++
    textMember "psk" (vars .psk) ++
    (if vars .memlimit = [] then [] else wordMember "memlimit" (vars .memlimit)) ++
    (if vars .description = [] then [] else textMember "description" (vars .description)) ++
    (if vars .clientComment = [] then [] else textMember "client_comment" (vars .clientComment)) ++
    (if vars .ipCheckUrl = [] then [] else textMember "ip_check_url" (vars .ipCheckUrl)) ++
    (if vars .ipVersion = [] then [] else textMember "ip_version" (vars .ipVersion)) ++
    (if vars .lifetime = [] then [] else wordMember "lifetime" (vars .lifetime))

def deregisterMembers (vars : Vars) : List (Str × Json.Value) :=
  textMember "uid" (vars .uid) ++ textMember "server_host" (vars .serverHost) ++
    wordMember "server_port" (vars .serverPort) ++ textMember "ip_version" (vars .ipVersion)

/-- `cmd_register`, up to its call of `ubus_call`: the members of the payload. -/
def cmdRegister (args : List Str) : Option (List (Str × Json.Value)) := do
  let vars ← parseOpts [.uid, .serverHost, .serverPort, .clientPort, .psk,
    .memlimit, .description,
    .clientComment, .ipCheckUrl, .ipVersion, .lifetime, .socket] args fun _ => []
  guard (∀ opt ∈ [Opt.uid, .serverHost, .serverPort, .clientPort, .psk], vars opt ≠ [])
  guard (isUint (vars .serverPort))
  guard (isUint (vars .clientPort))
  guard (vars .memlimit = [] ∨ isUint (vars .memlimit))
  guard (vars .lifetime = [] ∨ isUint (vars .lifetime))
  pure (registerMembers vars)

def deregisterOpts : List Opt := [.uid, .serverHost, .serverPort, .ipVersion, .socket]

/-- `cmd_deregister`. -/
def cmdDeregister (args : List Str) : Option (List (Str × Json.Value)) := do
  let vars ← parseOpts deregisterOpts args fun _ => []
  guard (∀ opt ∈ [Opt.uid, .serverHost, .serverPort, .ipVersion], vars opt ≠ [])
  guard (isUint (vars .serverPort))
  pure (deregisterMembers vars)

/-- The number that digits stand for, in the smallest type that `ubus` has for it. -/
def number (digits : Str) : Blob :=
  let n := Nat.ofDigitChars 10 digits 0
  if n ≤ 2147483647 then .int32 (UInt32.ofNat n)
  else .int64 (UInt64.ofNat (min n 9223372036854775807))

def attributeOf : Json.Value → Blob
  | .text s => .string s
  | .word s => number s

/-- The member comes back from the payload; words are numbers. -/
structure Carried (member : Str × Json.Value) : Prop where
  name : ∀ c ∈ member.1, Json.isPlain c = true
  value : match member.2 with
    | .text s => Faithful s
    | .word s => isUint s = true

def messageOf (members : List (Str × Json.Value)) : Message :=
  members.map (Prod.map id attributeOf)

/-- What the `ubus` program does to a payload of carried members with different
names. It is not described for other payloads. -/
def Conveys (ubus : Str → Option Message) : Prop :=
  ∀ members, members ≠ [] → (members.map Prod.fst).Nodup →
    (∀ member ∈ members, Carried member) →
    ubus (payloadOf members) = some (messageOf members)

/-- Some arguments of `tumgr deregister`, which its payload carries, ask for the row. -/
def Deregisterable (ubus : Str → Option Message) (w : World) (k : Key) : Prop :=
  ∃ args members msg, cmdDeregister args = some members ∧
    (∀ member ∈ members, Carried member) ∧
    ubus (payloadOf members) = some msg ∧ (blobmsgParse msg).nodeArgs.Resolves w k

/-- The request tells the family, and the host that is stored can be told again. -/
structure RegisterArgs.Nameable (args : RegisterArgs) : Prop where
  ipVersion : args.ipVersion.getD [] ≠ []
  serverHost : ∀ host, args.serverHost = some host →
    (Buf.copy host : Buf 256).text ≠ [] ∧ Faithful (Buf.copy host : Buf 256).text

variable {cfg : Config} {args : RegisterArgs} {reg : Registration} {w v : World}
  {k : Key} {n : Node}

section Stored

/-- Whatever row the request puts in has the key. -/
def Req.Puts (k : Key) (q : Req) : Prop := ∀ m s, q = .sql (.upsert m s) → m.key = k

theorem puts_of_quiet {q : Req} (quiet : q.quiet = true) : q.Puts k := by
  rintro m s rfl
  contradiction

theorem puts_of_serves {rekeys : Prop} {q : Req} (serves : q.Serves n rekeys) : q.Puts k := by
  rintro m s rfl
  cases serves
  contradiction

theorem emits_dbGetNode (asked : Key) : Emits (Req.Puts k) (fun _ => True) (dbGetNode asked) := by
  simp only [dbGetNode, emits_bind, emits_sql]
  refine ⟨puts_of_quiet rfl, fun reply => ?_⟩
  split
  · trivial
  · trivial
  · simp only [emits_bind, rowToNode]
    split
    · trivial
    · simp only [emits_bind, emits_time]
      exact ⟨puts_of_quiet rfl, fun _ => trivial⟩

theorem emits_timeIfZero (t : Int) : Emits (Req.Puts k) (fun _ => True) (timeIfZero t) := by
  unfold timeIfZero
  split
  · exact ⟨puts_of_quiet rfl, fun _ => trivial⟩
  · trivial

theorem emits_storeAndApply (action : Action) (s : Bool) :
    Emits (Req.Puts n.key) (fun _ => True) (storeAndApply cfg action s n) := by
  have upsert : Emits (Req.Puts n.key) (fun _ => True) (dbUpsertNode n s) := by
    simp only [dbUpsertNode, emits_bind, emits_sql]
    refine (emits_timeIfZero _).post fun createdAt _ => (emits_timeIfZero _).post
      fun lastUpdated _ => ?_
    refine ⟨?_, fun reply => ?_⟩
    · rintro m s ⟨⟩
      rfl
    · split <;> trivial
  have call : Emits (Req.Puts n.key) (fun _ => True) (reconcileOne cfg n true) := by
    simp only [reconcileOne, emits_bind, emits_report, emits_time]
    refine ⟨fun _ _ => Req.noConfusion, puts_of_quiet rfl, fun now => ?_⟩
    have serves : Emits (Req.Serves n True) (fun result => n.Continues result.2 True)
        (afterClock cfg n true now) := emits_afterClock (fun _ => trivial) fun _ _ => trivial
    unfold afterClock at serves
    rw [emits_bind] at serves
    exact serves.mono (fun _ => puts_of_serves) fun flow later =>
      later.mono (fun _ => puts_of_serves) fun _ _ => trivial
  simp only [storeAndApply, emits_bind]
  refine upsert.post fun rc _ => ?_
  split
  · trivial
  simp only [emits_bind]
  exact call.post fun result _ => (emits_dbGetNode _).post fun lookup _ => trivial

theorem emits_handleRegister (check : args.check = some reg) :
    Emits (Req.Puts reg.storedKey) (fun _ => True) (handleRegister cfg args) := by
  have finishing (action : Action) {base : Node}
      (key : { base.key with ipVersion := reg.ipVersion.text } = reg.storedKey) :
      Emits (Req.Puts reg.storedKey) (fun _ => True) (finishRegister cfg args reg action base) := by
    unfold finishRegister
    split
    · trivial
    · rename_i n finish
      rw [← key_of_created key finish]
      exact emits_storeAndApply action _
  have base : Emits (Req.Puts reg.storedKey) (fun _ => True) (registerBase cfg reg.key) := by
    simp only [registerBase, emits_bind]
    refine (emits_dbGetNode _).post fun lookup _ => ?_
    split
    · trivial
    · simp only [emits_bind, emits_time]
      exact ⟨puts_of_quiet rfl, fun _ => trivial⟩
    · trivial
  unfold handleRegister
  simp only [check, emits_bind]
  refine base.post fun drafted _ => ?_
  split
  · trivial
  rename_i action base
  unfold registerXor
  split
  · simp only [emits_bind, emits_randomKey]
    refine ⟨puts_of_quiet rfl, fun key => ?_⟩
    cases key with
    | none => trivial
    | some key => exact finishing action rfl
  · simp only [emits_bind, emits_pure]
    exact finishing action rfl

/-- The row that a registration put in between two worlds. -/
theorem key_of_did {m : Node} {s : Bool} {r : SqlReply} {reply : UbusReply}
    (check : args.check = some reg)
    (runs : (sem True).Runs (handleRegister cfg args) w (.done reply) v)
    (did : w.Did v ⟨.sql (.upsert m s), r⟩) : m.key = reg.storedKey := by
  let own (v : World) : Prop :=
    ∃ recent, v.trace = recent ++ w.trace ∧ ∀ e ∈ recent, e.req.Puts reg.storedKey
  have start : own w := ⟨[], rfl, by simp⟩
  have step (u : World) (q : Req) (r : Resp q) (before : own u) (puts : q.Puts reg.storedKey) :
      own (u.after q r) := by
    obtain ⟨recent, trace, puts'⟩ := before
    refine ⟨⟨q, r⟩ :: recent, ?_, List.forall_mem_cons.mpr ⟨puts, puts'⟩⟩
    rw [World.trace_after, trace, List.cons_append]
  have emits := @emits_handleRegister cfg args reg check
  have safe := (safe_of_emits (S := sem True) (w := w) emits).invariant
    start fun u q r before puts _ => step u q r before puts
  obtain ⟨recent, trace, puts⟩ := (safe.result runs).2
  obtain ⟨recent', trace', mem⟩ := did
  have same := List.append_cancel_right (trace.symm.trans trace')
  exact puts _ (same ▸ mem) m s rfl

end Stored

section Members

variable {member : Str × Json.Value} {members : List (Str × Json.Value)} {s : Str} {vars : Vars}
  {ubus : Str → Option Message} {arguments : List Str} {msg : Message}

theorem isWordChar_of_isDigit {c : Char} (h : c.isDigit = true) : Json.isWordChar c = true := by
  simp [Json.isWordChar, Char.isAlphanum, h]

theorem Carried.declared (h : Carried member) : Declared member := by
  obtain ⟨name, value⟩ := member
  refine ⟨h.name, ?_⟩
  cases value with
  | text s => exact h.value
  | word s =>
    have uint : isUint s = true := h.value
    simp only [isUint, Bool.and_eq_true, decide_eq_true_eq, List.all_eq_true] at uint
    exact ⟨uint.1, fun c hc => isWordChar_of_isDigit (uint.2 c hc)⟩

/-- `ubus`, as far as it is described. -/
def ubusRead (payload : Str) : Option Message := (Json.object? payload).map messageOf

theorem conveys_ubusRead : Conveys ubusRead := by
  intro members nonempty _ carried
  unfold ubusRead
  rw [object?_payloadOf nonempty fun member mem => (carried member mem).declared]
  rfl

theorem nodeArgs_deregister (vars : Vars) :
    (blobmsgParse (messageOf (deregisterMembers vars))).nodeArgs =
      ⟨some (vars .uid), some (vars .serverHost), (number (vars .serverPort)).u32?,
        some (vars .ipVersion)⟩ := by
  have port : (blobmsgParse (messageOf (deregisterMembers vars))).getU32 .serverPort =
      (number (vars .serverPort)).u32? := by
    change Option.bind
      (List.findSome? _ [_, _, ("server_port".toList, number (vars .serverPort)), _]) _ = _
    generalize number (vars .serverPort) = blob
    cases blob <;> rfl
  unfold Tb.nodeArgs
  rw [port]
  rfl

theorem toInt_ofNat {n : Nat} (h : n < 2147483648) : toInt (UInt32.ofNat n) = n := by
  unfold toInt
  rw [← Int32.toInt_ofNat_of_lt h]
  rfl

theorem number_decimal {n : Nat} (h : n < 2147483648) :
    isUint (decimal n) = true ∧ number (decimal n) = .int32 (UInt32.ofNat n) := by
  have digits : decimal n = Nat.toDigits 10 n := by
    unfold decimal
    rw [if_neg (by omega)]
    rfl
  constructor
  · simp only [isUint, digits, Bool.and_eq_true, decide_eq_true_eq, List.all_eq_true]
    exact ⟨Nat.toDigits_ne_nil, fun c => Nat.isDigit_of_mem_toDigits (by decide) (by decide)⟩
  · unfold number
    rw [digits, Nat.ofDigitChars_ten_toDigits]
    exact if_pos (Nat.le_of_lt_succ h)

/-- A text of one line without control characters comes back. -/
theorem faithful_of_clean (clean : ∀ c ∈ s, 0x20 ≤ c.toNat) : Faithful s := by
  have unbroken : ∀ c ∈ s, decide (c ≠ '\n') = true := by
    intro c hc
    rw [decide_eq_true_eq]
    rintro rfl
    exact absurd (clean _ hc) (by decide)
  refine (faithful_iff ?_).mpr ⟨fun c hc => ?_, fun c hc => ?_⟩
  · intro last
    exact absurd (clean _ (List.mem_of_getLast? last)) (by decide)
  · exact clean c (List.takeWhile_subset _ hc)
  · rw [List.dropWhile_eq_nil_iff.mpr unbroken] at hc
    contradiction

theorem parseOpts_cons {known : List Opt} {name value : Str} {rest : List Str} {opt : Opt}
    (h : known.find? (fun opt => name ∈ opt.names) = some opt) :
    parseOpts known (name :: value :: rest) vars =
      parseOpts known rest (Function.update vars opt value) := by
  rw [parseOpts, h]

/-- The arguments that name a row. -/
def deregisterArgs (uid serverHost serverPort ipVersion : Str) : List Str :=
  ["-uid".toList, uid, "-server-host".toList, serverHost, "-server-port".toList, serverPort,
    "-ip-version".toList, ipVersion]

theorem cmdDeregister_args {uid serverHost serverPort ipVersion : Str} (huid : uid ≠ [])
    (hhost : serverHost ≠ []) (hport : isUint serverPort = true) (hversion : ipVersion ≠ []) :
    ∃ vars, cmdDeregister (deregisterArgs uid serverHost serverPort ipVersion) =
        some (deregisterMembers vars) ∧ vars .uid = uid ∧ vars .serverHost = serverHost ∧
          vars .serverPort = serverPort ∧ vars .ipVersion = ipVersion := by
  let vars : Vars := Function.update (Function.update (Function.update (Function.update
    (fun _ => []) .uid uid) .serverHost serverHost) .serverPort serverPort) .ipVersion ipVersion
  have parsed : parseOpts deregisterOpts (deregisterArgs uid serverHost serverPort ipVersion)
      (fun _ => []) = some vars := by
    have first :
      deregisterOpts.find? (fun opt => "-uid".toList ∈ opt.names) = some .uid := by decide
    have second : deregisterOpts.find? (fun opt => "-server-host".toList ∈ opt.names) =
        some .serverHost := by decide
    have third : deregisterOpts.find? (fun opt => "-server-port".toList ∈ opt.names) =
        some .serverPort := by decide
    have fourth : deregisterOpts.find? (fun opt => "-ip-version".toList ∈ opt.names) =
        some .ipVersion := by decide
    unfold deregisterArgs
    rw [parseOpts_cons first, parseOpts_cons second, parseOpts_cons third, parseOpts_cons fourth]
    rfl
  have port : serverPort ≠ [] := by
    rintro rfl
    contradiction
  refine ⟨vars, ?_, rfl, rfl, rfl, rfl⟩
  unfold cmdDeregister
  rw [parsed]
  have given : ∀ opt ∈ [Opt.uid, .serverHost, .serverPort, .ipVersion], vars opt ≠ [] := by
    simpa [vars, Function.update] using ⟨huid, hhost, port, hversion⟩
  have uint : isUint (vars .serverPort) = true := hport
  simp [given, uint]

end Members

section Deregistering

variable {ubus : Str → Option Message} {arguments : List Str} {msg : Message} {vars : Vars}
  {members : List (Str × Json.Value)}

theorem names_deregister (vars : Vars) : ((deregisterMembers vars).map Prod.fst).Nodup := by
  change ["uid".toList, "server_host".toList, "server_port".toList, "ip_version".toList].Nodup
  decide

theorem members_of_cmdDeregister (accepted : cmdDeregister arguments = some members) :
    ∃ vars, members = deregisterMembers vars ∧ vars .serverHost ≠ [] ∧
        vars .ipVersion ≠ [] := by
  simp only [cmdDeregister, Option.bind_eq_bind, Option.bind_eq_some_iff, Option.guard_eq_some',
    Option.pure_def, Option.some.injEq] at accepted
  obtain ⟨vars, -, -, given, -, -, rfl⟩ := accepted
  exact ⟨vars, rfl, given _ (by simp), given _ (by simp)⟩

theorem normalizeIpVersion_blank {text : Str} {buf : Buf 16}
    (h : normalizeIpVersion text = some buf) :
    buf.text = [] ↔ text = [] := by
  unfold normalizeIpVersion at h
  split at h
  · rename_i blank
    cases h
    simp [blank, Buf.empty]
  rename_i nonempty
  split at h
  · cases h
    simp [nonempty, ipv4]
  split at h
  · cases h
    simp [nonempty, ipv6]
  · contradiction

/-- A lookup that finds a row at `k` asked for it. -/
theorem key_of_resolves {args : NodeArgs} (resolves : args.Resolves w k) : args.key? = some k := by
  obtain ⟨asked, known, finds⟩ := resolves
  cases stored : w.table.find? asked with
  | none => exact absurd ⟨asked, known, finds⟩ (not_resolves_of_absent known stored)
  | some r =>
    obtain ⟨asked', known', finds'⟩ := resolves_of_find? known stored
    cases known.symm.trans known'
    obtain ⟨lookup, v, runs⟩ :=
      exists_run (S := sem False) (sample 1700000000).fair (dbGetNode asked) w
    obtain ⟨n, rfl, key⟩ := finds lookup v runs
    obtain ⟨n', same, key'⟩ := finds' _ v runs
    cases same
    rw [known, ← key, key']

/-- The row is asked for with a family, and with a host that the payload carries. -/
theorem Deregisterable.key (conveys : Conveys ubus) (h : Deregisterable ubus w k) :
    k.ipVersion ≠ [] ∧ k.serverHost ≠ [] ∧ Faithful k.serverHost := by
  obtain ⟨arguments, members, msg, accepted, carried, asked, resolves⟩ := h
  obtain ⟨vars, rfl, hhost, hversion⟩ := members_of_cmdDeregister accepted
  have message :=
    conveys _ (by simp [deregisterMembers, textMember]) (names_deregister vars) carried
  cases asked.symm.trans message
  have known := key_of_resolves resolves
  rw [nodeArgs_deregister] at known
  simp only [NodeArgs.key?, Option.bind_eq_bind, Option.bind_some, Option.bind_eq_some_iff,
    Option.pure_def, Option.some.injEq, Option.getD_some] at known
  obtain ⟨port, -, buf, normal, rfl⟩ := known
  refine ⟨?_, hhost, ?_⟩
  · intro blank
    exact hversion ((normalizeIpVersion_blank normal).mp blank)
  · exact (carried ("server_host".toList, .text (vars .serverHost))
      (by simp [deregisterMembers, textMember])).value

theorem normalizeIpVersion_idem {text : Str} {buf : Buf 16}
    (h : normalizeIpVersion text = some buf) :
    normalizeIpVersion buf.text = some buf := by
  unfold normalizeIpVersion at h
  split at h
  · cases h
    rfl
  split at h
  · cases h
    decide
  split at h
  · cases h
    decide
  · contradiction

theorem normalizeIpVersion_faithful {text : Str} {buf : Buf 16}
    (h : normalizeIpVersion text = some buf) : Faithful buf.text := by
  suffices clean : buf.text.all (fun c => decide (0x20 ≤ c.toNat)) = true from
    faithful_of_clean (by simpa using clean)
  unfold normalizeIpVersion at h
  split at h
  · cases h
    simp [Buf.empty]
  split at h
  · cases h
    decide
  split at h
  · cases h
    decide
  · contradiction

/-- What the checks of `register` let through can be asked for. -/
theorem deregisterable_of_stored (conveys : Conveys ubus) {r : Row}
    (stored : w.table.find? k = some r)
    {buf : Buf 16} (normal : normalizeIpVersion k.ipVersion = some buf)
    (same : buf.text = k.ipVersion)
    (named : k.ipVersion ≠ []) (huid : k.uid ≠ []) (clean : ∀ c ∈ k.uid, 0x20 ≤ c.toNat)
    (legal : legalPort k.serverPort = true) (hhost : k.serverHost ≠ [])
    (faithful : Faithful k.serverHost) : Deregisterable ubus w k := by
  simp only [legalPort, Bool.and_eq_true, decide_eq_true_eq] at legal
  obtain ⟨port, hport⟩ := Int.eq_ofNat_of_zero_le (Int.le_of_lt legal.1)
  obtain ⟨uint, number⟩ := number_decimal (n := port) (by omega)
  obtain ⟨vars, accepted, uid', host', port', version'⟩ :=
    cmdDeregister_args huid hhost uint named
  have carried : ∀ member ∈ deregisterMembers vars, Carried member := by
    have names :
        ∀ name ∈ (deregisterMembers vars).map Prod.fst, name.all Json.isPlain = true := by
      change ∀ name ∈ ["uid".toList, "server_host".toList, "server_port".toList,
        "ip_version".toList], _
      decide
    have plain (member : Str × Json.Value) (mem : member ∈ deregisterMembers vars) :
        ∀ c ∈ member.1, Json.isPlain c = true :=
      List.all_eq_true.mp (names _ (List.mem_map_of_mem mem))
    refine fun member mem => ⟨plain member mem, ?_⟩
    simp only [deregisterMembers, textMember, wordMember, List.cons_append, List.nil_append,
      List.mem_cons, List.not_mem_nil, or_false] at mem
    rcases mem with rfl | rfl | rfl | rfl
    · exact uid'.symm ▸ faithful_of_clean clean
    · exact host'.symm ▸ faithful
    · exact port'.symm ▸ uint
    · rw [version', ← same]
      exact normalizeIpVersion_faithful normal
  refine ⟨_, _, _, accepted, carried, conveys _ (by simp [deregisterMembers, textMember])
    (names_deregister vars) carried, resolves_of_find? ?_ stored⟩
  rw [nodeArgs_deregister, uid', host', port', version', number]
  have back : toInt (UInt32.ofNat port) = k.serverPort := by
    rw [toInt_ofNat (by omega), hport]
  simp only [NodeArgs.key?, Blob.u32?, Option.getD_some, Option.bind_eq_bind,
    Option.bind_some, normal,
    same, back, Option.pure_def]

theorem facts_of_check (check : args.check = some reg) :
    isSafeId reg.key.uid = true ∧ legalPort reg.key.serverPort = true ∧
      normalizeIpVersion (args.ipVersion.getD []) = some reg.ipVersion := by
  simp only [RegisterArgs.check, Option.bind_eq_bind, Option.bind_eq_some_iff,
    Option.guard_eq_some',
    Option.pure_def, Option.some.injEq] at check
  obtain ⟨uid, -, host, -, port, -, _, -, _, -, _, safe, _, legal, _, -, version, normal,
    rfl⟩ := check
  exact ⟨safe, legal, normal⟩

theorem copy_of_safe {uid : Str} (safe : isSafeId uid = true) :
    (Buf.copy uid : Buf 128).text ≠ [] ∧
      ∀ c ∈ (Buf.copy uid : Buf 128).text, 0x20 ≤ c.toNat := by
  simp only [isSafeId, Bool.and_eq_true, decide_eq_true_eq, List.all_eq_true] at safe
  obtain ⟨nonempty, clean⟩ := safe
  change uid.take 127 ≠ [] ∧ ∀ c ∈ uid.take 127, _
  refine ⟨by simpa using nonempty, fun c hc => ?_⟩
  have own := clean c (List.mem_of_mem_take hc)
  simp only [not_or, Bool.or_eq_true, decide_eq_true_eq] at own
  exact Nat.le_of_not_lt own.1.1

/-- The names of the payload, in its order. -/
theorem names_register (vars : Vars) : ((registerMembers vars).map Prod.fst).Nodup := by
  have part (blank : Prop) [Decidable blank] (member : List (Str × Json.Value)) :
      ((if blank then [] else member).map Prod.fst).Sublist (member.map Prod.fst) := by
    split <;> simp
  have sub : ((registerMembers vars).map Prod.fst).Sublist
      ["uid".toList, "server_host".toList, "server_port".toList, "client_port".toList, "psk".toList,
        "memlimit".toList, "description".toList, "client_comment".toList, "ip_check_url".toList,
        "ip_version".toList, "lifetime".toList] := by
    simp only [registerMembers, List.map_append]
    exact ((((((List.Sublist.refl _).append (part _ _)).append (part _ _)).append (part _ _)).append
      (part _ _)).append (part _ _)).append (part _ _)
  refine sub.nodup ?_
  decide

theorem type_number (digits : Str) : (number digits).type ≠ .string := by
  unfold number
  dsimp only
  split <;> exact nofun

/-- A text of the message is one of the payload. -/
theorem text_of_parse {policy : Policy} {value : Blob} (string : policy.type = .string)
    (h : blobmsgParse (messageOf members) policy = some value) :
    ∃ text, value = .string text ∧ (policy.name, Json.Value.text text) ∈ members := by
  obtain ⟨told, type⟩ := blobmsgParse_mem h
  obtain ⟨⟨name, origin⟩, given, same⟩ := List.mem_map.mp told
  obtain ⟨rfl, rfl⟩ := Prod.mk.inj same
  cases origin with
  | text s => exact ⟨s, rfl, given⟩
  | word s => exact absurd (type.trans string) (type_number s)

/-- The message tells the family if and only if the members do. -/
theorem ipVersion_told_iff
    (nonempty : ∀ text, ("ip_version".toList, Json.Value.text text) ∈ members → text ≠ []) :
    (blobmsgParse (messageOf members)).registerArgs.ipVersion.getD [] ≠ [] ↔
      ∃ text, ("ip_version".toList, Json.Value.text text) ∈ members := by
  change ((blobmsgParse (messageOf members) .ipVersion).bind Blob.string?).getD [] ≠ [] ↔ _
  cases parsed : blobmsgParse (messageOf members) .ipVersion with
  | none =>
    refine ⟨fun told => absurd rfl told, fun ⟨text, mem⟩ => ?_⟩
    have fits : (messageOf members).Fits .ipVersion :=
      ⟨.string text, List.mem_map.mpr ⟨_, mem, rfl⟩, rfl⟩
    obtain ⟨value, found⟩ := fits_iff.mp fits
    cases parsed.symm.trans found
  | some value =>
    obtain ⟨text, rfl, mem⟩ := text_of_parse rfl parsed
    exact ⟨fun _ => ⟨text, mem⟩, fun _ => nonempty text mem⟩

theorem ipVersion_of_mem_register {version : Str}
    (mem : ("ip_version".toList, Json.Value.text version) ∈ registerMembers vars) :
    version ≠ [] := by
  have told : vars .ipVersion ≠ [] ∧ version = vars .ipVersion := by
    simpa [registerMembers, textMember, wordMember] using mem
  rw [told.2]
  exact told.1

theorem members_of_cmdRegister (accepted : cmdRegister arguments = some members) :
    ∃ vars, members = registerMembers vars := by
  simp only [cmdRegister, Option.bind_eq_bind, Option.bind_eq_some_iff, Option.guard_eq_some',
    Option.pure_def, Option.some.injEq] at accepted
  obtain ⟨vars, -, -, -, -, -, -, -, -, -, -, -, rfl⟩ := accepted
  exact ⟨vars, rfl⟩

/-- The arguments of a registration that its payload carries tell the family by
`-ip-version`. -/
theorem told_of_carried (conveys : Conveys ubus) (accepted : cmdRegister arguments = some members)
    (asked : ubus (payloadOf members) = some msg)
    (carried : ∀ member ∈ members, Carried member) :
    (blobmsgParse msg).registerArgs.ipVersion.getD [] ≠ [] ↔
      ∃ version, ("ip_version".toList, Json.Value.text version) ∈ members := by
  obtain ⟨vars, rfl⟩ := members_of_cmdRegister accepted
  cases asked.symm.trans
    (conveys _ (by simp [registerMembers, textMember]) (names_register vars) carried)
  exact ipVersion_told_iff fun version => ipVersion_of_mem_register

/-- A row that `tumgr register` stored can be asked for by `tumgr deregister` if
and only if the request told the family, and the host survived. -/
theorem deregisterable_iff (conveys : Conveys ubus) {fields : Fields}
    (accepted : cmdRegister arguments = some members) (asked : ubus (payloadOf members) = some msg)
    (runs : (sem True).Runs (Method.register.handle cfg msg) w (.done (.ok fields)) v) :
    ((∃ m s changes, w.Did v ⟨.sql (.upsert m s), .ok [] changes⟩ ∧
      Deregisterable ubus v m.key) ↔
        (blobmsgParse msg).registerArgs.Nameable) ∧
      ((∀ member ∈ members, Carried member) →
        ((blobmsgParse msg).registerArgs.ipVersion.getD [] ≠ [] ↔
          ∃ version, ("ip_version".toList, Json.Value.text version) ∈ members)) := by
  refine ⟨?_, told_of_carried conveys accepted asked⟩
  change (sem True).Runs (handleRegister cfg (blobmsgParse msg).registerArgs) w _ v at runs
  generalize (blobmsgParse msg).registerArgs = args at runs ⊢
  cases registerRun_of_runs runs with
  | refused _ refused => exact absurd rfl (refused fields)
  | @stored reg action base n _ _ _ _ _ _ _ h _ =>
    obtain ⟨-, -, host⟩ := RegisterArgs.key?_of_check h.check
    obtain ⟨safe, legal, normal⟩ := facts_of_check h.check
    constructor
    · rintro ⟨m, s, changes, did, named⟩
      obtain ⟨hversion, hhost, faithful⟩ := named.key conveys
      rw [key_of_did h.check runs did] at hversion hhost faithful
      refine ⟨fun blank => hversion ((normalizeIpVersion_blank normal).mpr blank),
        fun text given => ?_⟩
      cases host.symm.trans given
      exact ⟨hhost, faithful⟩
    · intro nameable
      obtain ⟨m, s, changes, key, did⟩ := h.did
      obtain ⟨r, hr⟩ := h.present
      refine ⟨m, s, changes, did, ?_⟩
      rw [h.key] at hr
      obtain ⟨nonempty, clean⟩ := copy_of_safe safe
      obtain ⟨hhost, faithful⟩ := nameable.serverHost _ host
      rw [key, h.key]
      have named := mt (normalizeIpVersion_blank normal).mp nameable.ipVersion
      exact deregisterable_of_stored conveys hr (normalizeIpVersion_idem normal) rfl named nonempty
        clean legal hhost faithful

end Deregistering

section Samples

/-- A registration of the manual, with the arguments behind it. -/
def sampleArguments (more : List Str) : List Str :=
  ["-uid".toList, "my-node-01".toList, "-server-host".toList, "192.168.1.100".toList, "-S".toList,
    "14801".toList, "-client-port".toList, "1443".toList, "-psk".toList,
    "my-secret-password".toList] ++ more

/-- The variables that they set, and the family. -/
def sampleVars (version : Str) : Vars
  | .uid => "my-node-01".toList
  | .serverHost => "192.168.1.100".toList
  | .serverPort => "14801".toList
  | .clientPort => "1443".toList
  | .psk => "my-secret-password".toList
  | .ipVersion => version
  | _ => []

def sampleMessage (version : Str) : Message := messageOf (registerMembers (sampleVars version))

theorem sample_carried {version : Str}
    (clean : (registerMembers (sampleVars version)).all (fun member =>
      member.1.all Json.isPlain && match member.2 with
        | .text s => s.all fun c => 0x20 ≤ c.toNat
        | .word s => isUint s) = true) :
    ubusRead (payloadOf (registerMembers (sampleVars version))) = some (sampleMessage version) := by
  refine conveys_ubusRead _ (by simp [registerMembers, textMember]) (names_register _) ?_
  intro member mem
  have own := List.all_eq_true.mp clean member mem
  rw [Bool.and_eq_true] at own
  refine ⟨List.all_eq_true.mp own.1, ?_⟩
  obtain ⟨name, value⟩ := member
  cases value with
  | text s => exact faithful_of_clean (by simpa using own.2)
  | word s => exact own.2

@[irreducible] def sampleClient (version : Str) : Prog UbusReply × World :=
  playFor World.after (sample 1700000000).answer 30
    (Method.register.handle keyless (sampleMessage version)) .first

theorem sampleClient_runs {version : Str} {fields : Fields}
    (returns : (sampleClient version).1.result?.bind UbusReply.ok? = some fields) :
    (sem True).Runs (Method.register.handle keyless (sampleMessage version)) .first
      (.done (.ok fields)) (sampleClient version).2 := by
  rw [← done_of_ok? returns]
  unfold sampleClient
  exact runs_playFor (S := sem True) (sample _).fair 30 _ _

theorem deregisterable_iff_sample : ∃ m s changes,
    World.first.Did (sampleClient "ipv4".toList).2 ⟨.sql (.upsert m s), .ok [] changes⟩ ∧
      Deregisterable ubusRead (sampleClient "ipv4".toList).2 m.key := by
  obtain ⟨fields, returns⟩ := Option.isSome_iff_exists.mp
    (show ((sampleClient "ipv4".toList).1.result?.bind UbusReply.ok?).isSome by decide +kernel)
  have accepted : cmdRegister (sampleArguments ["-V".toList, "ipv4".toList]) =
      some (registerMembers (sampleVars "ipv4".toList)) := by decide
  refine (deregisterable_iff conveys_ubusRead accepted (sample_carried (by decide))
    (sampleClient_runs returns)).1.mpr ⟨by decide, ?_⟩
  rintro host ⟨⟩
  have clean : (Buf.copy (sampleVars "ipv4".toList .serverHost) : Buf 256).text.all
      (fun c => decide (0x20 ≤ c.toNat)) = true := by decide
  exact ⟨by decide, faithful_of_clean fun c hc =>
    of_decide_eq_true (List.all_eq_true.mp clean c hc)⟩

/-- Without a family, no arguments of `tumgr deregister` name the row. -/
theorem registered_without_version :
    cmdRegister (sampleArguments []) = some (registerMembers (sampleVars [])) ∧
      ubusRead (payloadOf (registerMembers (sampleVars []))) = some (sampleMessage []) ∧
      ∃ fields v, (sem True).Runs (Method.register.handle keyless (sampleMessage [])) .first
        (.done (.ok fields)) v ∧ v.table.rows ≠ [] ∧
          ∀ m s changes, World.first.Did v ⟨.sql (.upsert m s), .ok [] changes⟩ →
            ¬Deregisterable ubusRead v m.key := by
  obtain ⟨fields, returns⟩ := Option.isSome_iff_exists.mp
    (show ((sampleClient []).1.result?.bind UbusReply.ok?).isSome by decide +kernel)
  have runs := sampleClient_runs returns
  refine ⟨by decide, sample_carried (by decide), fields, _, runs, by decide +kernel, ?_⟩
  rintro m s changes did named
  have version := (named.key conveys_ubusRead).1
  change (sem True).Runs (handleRegister keyless (blobmsgParse (sampleMessage [])).registerArgs)
    .first _ _ at runs
  cases registerRun_of_runs runs with
  | refused _ refused => exact absurd rfl (refused fields)
  | @stored reg action base n _ _ _ _ _ _ _ h _ =>
    have normal := (facts_of_check h.check).2.2
    rw [key_of_did h.check runs did] at version
    exact version ((normalizeIpVersion_blank normal).mpr rfl)

end Samples

end Tumgrd
