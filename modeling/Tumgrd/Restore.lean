import Tumgrd.Client
import Tumgrd.Scripts

/-! What `status` and `dump` say of a node, as a request to `register`: the names
are the same on both sides, and a reply may be sent as it came, or as the JSON
that the `ubus` program makes of it. -/
namespace Tumgrd

open Effect Semantics Service

/-- An attribute of a reply as one of a request. Read back from JSON, a number has
the smallest type that the `ubus` program has for it. -/
def Value.attribute (json : Bool) : Value → Blob
  | .string text => .string text
  | .u8 flag => .int8 (if flag then 1 else 0)
  | .u32 value => .int32 (.ofInt value)
  | .u64 value =>
      if json ∧ -2147483648 ≤ value ∧ value ≤ 2147483647 then .int32 (.ofInt value)
      else .int64 (.ofInt value)

def Fields.message (json : Bool) (fields : Fields) : Message :=
  fields.map (Prod.map id (Value.attribute json))

/-- A text that a reply leaves out when it is empty. -/
def anyText (text : Str) : Option Str := if text = [] then none else some text

/-- What `register` is asked by the entry of a node. -/
def Node.registerArgs (json : Bool) (n : Node) : RegisterArgs where
  uid := some n.uid.text
  serverHost := some n.serverHost.text
  serverPort := some (.ofInt n.serverPort)
  ipVersion := anyText n.ipVersion.text
  clientPort := some (.ofInt n.clientPort)
  psk := some n.psk.text
  description := anyText n.description.text
  clientComment := anyText n.clientComment.text
  memlimit := if n.hasMemlimit then some (.ofInt n.memlimit) else none
  ipCheckUrl := anyText n.ipCheckUrl.text
  xor := anyText n.xorKey.text
  lifetime :=
    if json ∧ -2147483648 ≤ n.lifetime ∧ n.lifetime ≤ 2147483647 then
      some (.ofInt n.lifetime)
    else none

section Parsing

variable {json : Bool} {policy : Policy} {n : Node}

/-- The entry, attribute by attribute: each has a name of its own. -/
def Node.parts (n : Node) : List (Str × Fields) :=
  [("uid".toList, textField "uid" n.uid.text),
    ("server_host".toList, textField "server_host" n.serverHost.text),
    ("server_port".toList, [("server_port".toList, .u32 n.serverPort)]),
    ("psk".toList, textField "psk" n.psk.text),
    ("client_port".toList, [("client_port".toList, .u32 n.clientPort)]),
    ("description".toList, textFieldIfAny "description" n.description.text),
    ("client_comment".toList, textFieldIfAny "client_comment" n.clientComment.text),
    ("ip_check_url".toList, textFieldIfAny "ip_check_url" n.ipCheckUrl.text),
    ("ip_version".toList, textFieldIfAny "ip_version" n.ipVersion.text),
    ("current_ip".toList, textField "current_ip" n.currentIp.text),
    ("node_status".toList, textField "node_status" n.status.text),
    ("created_at".toList, [("created_at".toList, .u64 n.createdAt)]),
    ("last_updated".toList, [("last_updated".toList, .u64 n.lastUpdated)]),
    ("memlimit".toList, if n.hasMemlimit then [("memlimit".toList, .u32 n.memlimit)] else []),
    ("xor".toList, textFieldIfAny "xor" n.xorKey.text),
    ("lifetime".toList, [("lifetime".toList, .u64 n.lifetime)]),
    ("expires_at".toList,
      if n.lifetime > 0 ∧ n.lastAppliedAt > 1 ∧
        n.lastAppliedAt ≤ 9223372036854775807 - n.lifetime then
        [("expires_at".toList, .u64 (n.lastAppliedAt + n.lifetime))] else []),
    ("rotation_state".toList,
      if n.rotationState ≠ rotationNone then
        [("rotation_state".toList, .u32 n.rotationState.toInt)] else []),
    ("xor_key_pending".toList,
      if n.rotationState ≠ rotationNone then textFieldIfAny "xor_key_pending" n.xorKeyPending.text
      else [])]

theorem nodeBrief_eq (n : Node) : nodeBrief n = n.parts.flatMap Prod.snd := by
  have rotation : (if n.rotationState ≠ rotationNone then
      ("rotation_state".toList, Value.u32 n.rotationState.toInt) ::
        textFieldIfAny "xor_key_pending" n.xorKeyPending.text else []) =
      (if n.rotationState ≠ rotationNone then
        [("rotation_state".toList, Value.u32 n.rotationState.toInt)] else []) ++
      if n.rotationState ≠ rotationNone then
        textFieldIfAny "xor_key_pending" n.xorKeyPending.text else [] := by
    split <;> rfl
  unfold nodeBrief
  rw [rotation]
  simp only [Node.parts, List.flatMap_cons, List.flatMap_nil, List.append_assoc, List.append_nil]
  rfl

/-- A part has no name but its own. -/
def Named (part : Str × Fields) : Prop := ∀ field ∈ part.2, field.1 = part.1

theorem named_one (name : String) (value : Value) : Named (name.toList, [(name.toList, value)]) :=
  fun _ mem => congrArg Prod.fst (List.mem_singleton.mp mem)

theorem Named.ite {c : Prop} [Decidable c] {name : Str} {fields : Fields}
    (h : Named (name, fields)) :
    Named (name, if c then fields else []) := by
  split
  · exact h
  · exact nofun

theorem named_any (name : String) (text : Str) : Named (name.toList, textFieldIfAny name text) := by
  unfold textFieldIfAny
  split
  · exact nofun
  · exact named_one name _

theorem named_parts (n : Node) : ∀ part ∈ n.parts, Named part := by
  simp only [Node.parts, List.forall_mem_cons]
  exact ⟨named_one _ _, named_one _ _, named_one _ _, named_one _ _, named_one _ _, named_any _ _,
    named_any _ _, named_any _ _, named_any _ _, named_one _ _, named_one _ _, named_one _ _,
    named_one _ _, (named_one _ _).ite, named_any _ _, named_one _ _, (named_one _ _).ite,
    (named_one _ _).ite, (named_any _ _).ite, nofun⟩

theorem parse_append {msg msg' : Message} : blobmsgParse (msg ++ msg') policy =
    (blobmsgParse msg policy).or (blobmsgParse msg' policy) := List.findSome?_append

theorem Named.parse {part : Str × Fields} (named : Named part) (other : part.1 ≠ policy.name)
    (json : Bool) : blobmsgParse (part.2.message json) policy = none := by
  unfold blobmsgParse
  rw [List.findSome?_eq_none_iff]
  intro attr mem
  obtain ⟨field, given, rfl⟩ := List.mem_map.mp mem
  rw [if_neg]
  rintro ⟨same, -⟩
  exact other ((named field given).symm.trans same)

theorem parse_cons (part : Str × Fields) (rest : List (Str × Fields)) :
    blobmsgParse (Fields.message json ((part :: rest).flatMap Prod.snd)) policy =
      (blobmsgParse (part.2.message json) policy).or
        (blobmsgParse (Fields.message json (rest.flatMap Prod.snd)) policy) := by
  unfold Fields.message
  rw [List.flatMap_cons, List.map_append, parse_append]

/-- Of parts with different names, one is parsed. -/
theorem parse_parts {parts : List (Str × Fields)} {fields : Fields}
    (named : ∀ part ∈ parts, Named part) (distinct : (parts.map Prod.fst).Nodup)
    (mem : (policy.name, fields) ∈ parts) :
    blobmsgParse (Fields.message json (parts.flatMap Prod.snd)) policy =
      blobmsgParse (fields.message json) policy := by
  have absent {rest : List (Str × Fields)} (named : ∀ part ∈ rest, Named part)
      (other : policy.name ∉ rest.map Prod.fst) :
      blobmsgParse (Fields.message json (rest.flatMap Prod.snd)) policy = none := by
    induction rest with
    | nil => rfl
    | cons part rest ih =>
      rw [List.map_cons, List.mem_cons, not_or] at other
      have tail := ih (fun part mem => named part (List.mem_cons_of_mem _ mem)) other.2
      rw [parse_cons, (named part List.mem_cons_self).parse (Ne.symm other.1) json, tail]
      rfl
  induction parts with
  | nil => contradiction
  | cons part rest ih =>
    rw [List.map_cons, List.nodup_cons] at distinct
    have named' : ∀ part ∈ rest, Named part :=
      fun part mem => named part (List.mem_cons_of_mem _ mem)
    rw [parse_cons]
    rcases List.mem_cons.mp mem with rfl | mem
    · rw [absent named' distinct.1, Option.or_none]
    · have other : part.1 ≠ policy.name := by
        rintro same
        exact distinct.1 (same ▸ List.mem_map_of_mem mem)
      rw [(named part List.mem_cons_self).parse other json, Option.none_or]
      exact ih named' distinct.2 mem

theorem parse_entry (policy : Policy) {fields : Fields} (mem : (policy.name, fields) ∈ n.parts) :
    blobmsgParse ((nodeBrief n).message json) policy =
        blobmsgParse (fields.message json) policy := by
  rw [nodeBrief_eq]
  exact parse_parts (named_parts n)
    (by simp only [Node.parts, List.map_cons, List.map_nil]; decide) mem

theorem parse_one (name : Str) (value : Value) :
    blobmsgParse (Fields.message json [(name, value)]) policy =
      if name = policy.name ∧ (value.attribute json).type = policy.type then
        some (value.attribute json) else none := by
  unfold blobmsgParse
  change List.findSome? _ [(name, value.attribute json)] = _
  rw [List.findSome?_cons, List.findSome?_nil]
  dsimp only
  split <;> rename_i found <;> exact found.symm

theorem getString_entry (policy : Policy) {text : Str}
    (mem : (policy.name, [(policy.name, .string text)]) ∈ n.parts)
    (type : policy.type = .string) :
    (blobmsgParse ((nodeBrief n).message json)).getString policy = some text := by
  unfold Tb.getString
  rw [parse_entry policy mem, parse_one, if_pos ⟨rfl, type.symm⟩]
  rfl

theorem getString_any (policy : Policy) {text : Str}
    (mem : (policy.name, if text = [] then [] else [(policy.name, .string text)]) ∈ n.parts)
    (type : policy.type = .string) :
    (blobmsgParse ((nodeBrief n).message json)).getString policy = anyText text := by
  unfold Tb.getString anyText
  rw [parse_entry policy mem]
  split
  · rfl
  · rw [parse_one, if_pos ⟨rfl, type.symm⟩]
    rfl

theorem getU32_entry (policy : Policy) {value : Int}
    (mem : (policy.name, [(policy.name, .u32 value)]) ∈ n.parts)
    (type : policy.type = .int32) :
    (blobmsgParse ((nodeBrief n).message json)).getU32 policy = some (.ofInt value) := by
  unfold Tb.getU32
  rw [parse_entry policy mem, parse_one, if_pos ⟨rfl, type.symm⟩]
  rfl

/-- The entry of a node asks for what the node has. -/
theorem registerArgs_entry (json : Bool) (n : Node) :
    (blobmsgParse ((nodeBrief n).message json)).registerArgs = n.registerArgs json := by
  have part (i : Nat) {name : Str} {fields : Fields} (h : n.parts[i]? = some (name, fields)) :
      (name, fields) ∈ n.parts := List.mem_of_getElem? h
  have memlimit : (blobmsgParse ((nodeBrief n).message json)).getU32 .memlimit =
      if n.hasMemlimit then some (.ofInt n.memlimit) else none := by
    unfold Tb.getU32
    rw [parse_entry .memlimit (part 13 rfl)]
    split
    · rw [parse_one, if_pos ⟨rfl, rfl⟩]
      rfl
    · rfl
  have lifetime : (blobmsgParse ((nodeBrief n).message json)).getU32 .lifetime =
      if json ∧ -2147483648 ≤ n.lifetime ∧ n.lifetime ≤ 2147483647 then
        some (.ofInt n.lifetime)
      else none := by
    unfold Tb.getU32
    rw [parse_entry .lifetime (part 15 rfl), parse_one, Value.attribute]
    split
    · rw [if_pos ⟨rfl, rfl⟩]
      rfl
    · rw [if_neg fun h => BlobType.noConfusion h.2]
      rfl
  unfold Tb.registerArgs Tb.nodeArgs
  rw [getString_entry .uid (part 0 rfl) rfl,
    getString_entry .serverHost (part 1 rfl) rfl,
    getU32_entry .serverPort (part 2 rfl) rfl,
    getString_entry .psk (part 3 rfl) rfl,
    getU32_entry .clientPort (part 4 rfl) rfl,
    getString_any .description (part 5 rfl) rfl,
    getString_any .clientComment (part 6 rfl) rfl,
    getString_any .ipCheckUrl (part 7 rfl) rfl,
    getString_any .ipVersion (part 8 rfl) rfl,
    getString_any .xorKey (part 14 rfl) rfl, memlimit, lifetime]
  rfl

end Parsing

section Registrable

/-- A row as `register` would check it. -/
structure Row.Registrable (r : Row) : Prop extends r.Sendable where
  serverPort : legalPort r.serverPort = true
  clientPort : legalPort r.clientPort = true
  ipVersion : normalizeIpVersion r.ipVersion.text = some r.ipVersion
  memlimit : ∀ value, r.memlimit = some value → 0 < value ∧ value ≤ 2147483647

variable {sqlMayFail : Prop} {c : Call} {w w₀ : World} {cfg : Config} {args : RegisterArgs}
  {reg : Registration} {n : Node} {s : Bool}

theorem Row.Registrable.update {r : Row} (h : r.Registrable) {set : Assign} {guard : Guard}
    (updates : Updates sqlMayFail c w set guard) : (r.assign set).Registrable := by
  have sendable := h.toSendable.update updates
  cases updates with
  | _ => exact { h with toSendable := sendable }

theorem Row.Registrable.merge {r excluded : Row} (h : r.Registrable) (h' : excluded.Registrable) :
    (r.merge excluded).Registrable where
  toSendable := h.toSendable.merge h'.toSendable
  serverPort := h.serverPort
  clientPort := h'.clientPort
  ipVersion := h.ipVersion
  memlimit := h'.memlimit

theorem legalPort_clientPort (h : args.check = some reg) : legalPort reg.clientPort = true := by
  simp only [RegisterArgs.check, Option.bind_eq_bind, Option.bind_eq_some_iff,
    Option.guard_eq_some', Option.pure_def, Option.some.injEq] at h
  obtain ⟨_, -, _, -, _, -, _, -, _, -, _, -, _, -, _, legal, _, -, rfl⟩ := h
  exact legal

theorem toInt_le (value : UInt32) : toInt value ≤ 2147483647 := by
  have := value.toInt32.toInt_le
  exact this

theorem Registers.registrable (h : Registers cfg args reg w₀ w n s)
    (check : args.check = some reg)
    (rows : ∀ r ∈ w₀.table.rows, r.Registrable) (createdAt lastUpdated : Int) :
    (Row.ofNode (n.withDefaults createdAt lastUpdated) s).Registrable := by
  have sendable := h.sendable check (fun r mem => (rows r mem).toSendable) createdAt lastUpdated
  have registrable : ∀ base : Node, base.serverPort = reg.key.serverPort →
      base.clientPort = reg.clientPort →
      (base.hasMemlimit = true → 0 < base.memlimit ∧ base.memlimit ≤ 2147483647) →
      args.finish reg base = some n →
      (Row.ofNode (n.withDefaults createdAt lastUpdated) s).Registrable := by
    intro base server client limited finish
    obtain ⟨rfl, accepts⟩ := finish_eq finish
    obtain ⟨-, legal, normal⟩ := facts_of_check check
    refine ⟨sendable, ?_, ?_, ?_, ?_⟩
    · show legalPort base.serverPort = true
      rw [server]
      exact legal
    · show legalPort base.clientPort = true
      rw [client]
      exact legalPort_clientPort check
    · exact normalizeIpVersion_idem normal
    · intro value stored
      simp only [Row.ofNode, Node.withDefaults, RegisterArgs.complete,
        RegisterArgs.fillOptional] at stored
      cases given : args.memlimit with
      | none =>
        simp only [given, Option.map_none, Option.getD_none, Option.ite_none_right_eq_some,
          Option.some.injEq] at stored
        exact stored.2 ▸ limited stored.1
      | some limit =>
        simp only [given, Option.map_some, Option.getD_some, decide_eq_true_eq,
          Option.ite_none_right_eq_some, Option.some.injEq] at stored
        obtain ⟨positive, rfl⟩ := stored
        rw [if_pos positive]
        exact ⟨positive, toInt_le limit⟩
  cases h with
  | @updated r _ _ found loaded finish =>
    obtain ⟨load, rfl, -⟩ := loaded
    have own := rows r (Keyed.find?_eq_some.mp found).1
    refine registrable _ rfl rfl (fun limited => ?_) finish
    obtain ⟨value, stored⟩ := Option.isSome_iff_exists.mp limited
    show 0 < r.memlimit.getD 0 ∧ r.memlimit.getD 0 ≤ 2147483647
    rw [stored]
    exact own.memlimit value stored
  | created _ _ _ _ finish drafts =>
    cases drafts with
    | plain => exact registrable _ rfl rfl (fun limited => (Bool.false_ne_true limited).elim) finish
    | keyed => exact registrable _ rfl rfl (fun limited => (Bool.false_ne_true limited).elim) finish

theorem registrable_rows : RowInvariant sqlMayFail Row.Registrable where
  update := fun _ _ _ _ _ _ _ _ _ updates _ registrable => registrable.update updates
  upsert := by
    intro t w₀ w args reg n s createdAt lastUpdated _ check keeps registers rows
    have own := registers.registrable check (keeps.table ▸ rows) createdAt lastUpdated
    unfold Table.written
    cases stored : w.table.find? (n.withDefaults createdAt lastUpdated).key with
    | none => exact own
    | some old => exact (rows old (Keyed.find?_eq_some.mp stored).1).merge own

end Registrable

section Accepted

variable {json : Bool} {load : Int} {r prev : Row}

theorem ofInt_eq_ofNat {value : Int} (low : 0 ≤ value) (high : value ≤ 2147483647) :
    UInt32.ofInt value = UInt32.ofNat value.toNat := by
  show UInt32.ofNat _ = _
  congr 1
  omega

theorem toInt_ofInt {value : Int} (low : 0 ≤ value) (high : value ≤ 2147483647) :
    toInt (UInt32.ofInt value) = value := by
  rw [ofInt_eq_ofNat low high, toInt_ofNat (by omega)]
  omega

theorem toNat_ofInt {value : Int} (low : 0 ≤ value) (high : value ≤ 2147483647) :
    ((UInt32.ofInt value).toNat : Int) = value := by
  rw [ofInt_eq_ofNat low high, UInt32.toNat_ofNat_of_lt' (by show _ < 4294967296; omega)]
  omega

theorem range_of_legalPort {port : Int} (legal : legalPort port = true) :
    0 ≤ port ∧ port ≤ 2147483647 := by
  simp only [legalPort, Bool.and_eq_true, decide_eq_true_eq] at legal
  omega

/-- The lifetimes that are read are those that `register` accepts. -/
theorem legal_clampLifetime (lifetime : Int) : LegalLifetime (clampLifetime lifetime) := by
  unfold clampLifetime LegalLifetime
  split
  · exact .inl rfl
  · simp only [lifetimeMin, lifetimeMax] at *
    omega

theorem range_of_legalLifetime {lifetime : Int} (legal : LegalLifetime lifetime) :
    0 ≤ lifetime ∧ lifetime ≤ 2147483647 := by
  simp only [LegalLifetime, lifetimeMin, lifetimeMax] at legal
  omega

theorem anyText_getD (text : Str) : (anyText text).getD [] = text := by
  unfold anyText
  split
  · exact (‹text = []›).symm
  · rfl

theorem anyText_eq_some {text given : Str} (h : anyText text = some given) :
    given = text ∧ text ≠ [] := by
  unfold anyText at h
  split at h
  · contradiction
  · cases h
    exact ⟨rfl, ‹_›⟩

/-- The registration that an entry stands for. -/
def Row.registration (r : Row) : Registration := ⟨r.key, r.ipVersion, r.clientPort, r.psk.text⟩

theorem check_entry (h : r.Registrable) :
    ((r.toNode load).registerArgs json).check = some r.registration := by
  obtain ⟨low, high⟩ := range_of_legalPort h.serverPort
  obtain ⟨low', high'⟩ := range_of_legalPort h.clientPort
  simp only [RegisterArgs.check, Node.registerArgs, Row.toNode, anyText_getD, Option.bind_eq_bind,
    Option.bind_some, toInt_ofInt low high, toInt_ofInt low' high', h.uid, h.serverPort,
    h.clientPort, h.ipVersion, guard_true, Option.pure_def]
  rfl

theorem fits_entry : ((r.toNode load).registerArgs json).toNodeArgs.Fits where
  uid := by
    rintro _ ⟨⟩
    exact r.uid.fits
  serverHost := by
    rintro _ ⟨⟩
    exact r.serverHost.fits

theorem accepts_entry {base : Node} (h : r.Registrable)
    (resting : base.rotationState = rotationNone) :
    ((r.toNode load).registerArgs json).Accepts base where
  xor := by
    intro text given
    obtain ⟨rfl, nonempty⟩ := anyText_eq_some given
    exact ⟨h.xorKey nonempty, resting⟩
  lifetime := by
    intro value given
    unfold Node.registerArgs at given
    dsimp only at given
    split at given
    case isFalse => contradiction
    obtain rfl := Option.some.inj given
    have legal := legal_clampLifetime (r.lifetime.getD 0)
    obtain ⟨low, high⟩ := range_of_legalLifetime legal
    change LegalLifetime (UInt32.ofInt (clampLifetime (r.lifetime.getD 0))).toNat
    rw [toNat_ofInt low high]
    exact legal

/-- A row with what the entry of another one says put over it. -/
def Row.restored (json : Bool) (r prev : Row) : Row :=
  { prev with
    clientPort := r.clientPort
    psk := r.psk
    description := r.description.or prev.description
    clientComment := r.clientComment.or prev.clientComment
    memlimit := r.memlimit.or prev.memlimit
    ipCheckUrl := r.ipCheckUrl
    xorKey := r.xorKey.or prev.xorKey
    lifetime := if json then some (clampLifetime (r.lifetime.getD 0)) else prev.lifetime }

theorem given_column {n : Nat} [NeZero n] {column : Option (Buf n)} (h : column ≠ some .empty)
    (prev : Option (Buf n)) (store : Str → Option (Buf n))
    (stores : ∀ b : Buf n, b.text ≠ [] → store b.text = some b) :
    ((anyText (columnText column).text).map store).getD prev = column.or prev := by
  cases column with
  | none => rfl
  | some b =>
    have nonempty : b.text ≠ [] := fun nil => h (congrArg some (Buf.text_eq_nil_iff.mp nil))
    have given : anyText (columnText (some b)).text = some b.text := if_neg nonempty
    rw [given, Option.map_some, Option.getD_some, stores b nonempty, Option.some_or]

theorem merged_entry (tidy : r.Tidy) (h : r.Registrable) (prev : Row) :
    ((r.toNode load).registerArgs json).merged r.registration prev = r.restored json prev := by
  have bound {n : Nat} [NeZero n] (b : Buf n) (nonempty : b.text ≠ []) :
      bindTextOrNull (Buf.copy b.text) = some b := by
    rw [Buf.copy_text, bindTextOrNull_of_ne nonempty]
  simp only [RegisterArgs.merged, Row.restored, Row.mk.injEq, true_and, and_true]
  refine ⟨given_column tidy.description _ _ bound, given_column tidy.clientComment _ _ bound,
    Buf.copy_text _, rfl, ?memlimit, ?url, ?xorKey, ?lifetime⟩
  case memlimit =>
    have given : ((r.toNode load).registerArgs json).memlimit = r.memlimit.map UInt32.ofInt := by
      unfold Node.registerArgs Row.toNode
      cases r.memlimit <;> rfl
    rw [given]
    cases limit : r.memlimit with
    | none => rfl
    | some value =>
      obtain ⟨positive, high⟩ := h.memlimit value limit
      simp only [Option.map_some, toInt_ofInt positive.le high, if_pos positive, Option.getD_some,
        Option.some_or]
  case url =>
    obtain ⟨url, stored, nonempty⟩ := tidy.ipCheckUrl
    have filled : r.ipCheckUrl ≠ some .empty := by
      rw [stored]
      rintro ⟨⟩
      exact nonempty rfl
    refine (given_column filled _ _ fun b named => ?_).trans ?_
    · rw [if_neg named, Buf.copy_text]
    · rw [stored, Option.some_or]
  case xorKey =>
    exact given_column tidy.xorKey _ _ fun b _ => congrArg some (Buf.copy_text b)
  case lifetime =>
    have legal := legal_clampLifetime (r.lifetime.getD 0)
    obtain ⟨low, high⟩ := range_of_legalLifetime legal
    cases json with
    | false =>
      have given : ((r.toNode load).registerArgs false).lifetime = none := by
        unfold Node.registerArgs
        dsimp only
        rw [if_neg fun h => Bool.false_ne_true h.1]
      rw [given]
      rfl
    | true =>
      have given : ((r.toNode load).registerArgs true).lifetime =
          some (.ofInt (clampLifetime (r.lifetime.getD 0))) :=
        if_pos ⟨rfl, le_trans (by decide) low, high⟩
      rw [given, Option.map_some, Option.getD_some, toNat_ofInt low high, if_pos rfl]

end Accepted

section Restoring

variable {admits : World → Task → Prop} {cfg : Config} {args : RegisterArgs}
  {reg : Registration}
  {w v v' : World} {json : Bool} {r : Row} {load : Int}

theorem resting_of_base {k : Key} {action : Action} {n : Node} {u : World}
    (resting : ∀ prev, w.table.find? k = some prev → prev.rotationState = rotationNone)
    (runs : (sem True).Runs (registerBase cfg k) w (.done (some (action, n))) u) :
    n.rotationState = rotationNone := by
  obtain ⟨lookup, v, get, runs⟩ := runs_bind runs
  cases (looked_of_runs get).2 with
  | failed =>
    obtain ⟨drafted, -⟩ := runs_pure runs
    contradiction
  | found found reading =>
    obtain ⟨drafted, -⟩ := runs_pure runs
    cases drafted
    exact resting _ found
  | absent absent clock =>
    obtain ⟨now, v', reading, runs⟩ := runs_bind runs
    obtain ⟨drafted, -⟩ := runs_pure runs
    cases drafted
    rfl

theorem rotation_of_xor {action : Action} {n m : Node} {u : World}
    (runs : (sem True).Runs (registerXor cfg action n) w (.done (some m)) u) :
    m.rotationState = n.rotationState := by
  unfold registerXor at runs
  split at runs
  · obtain ⟨generated, v, random, runs⟩ := runs_bind runs
    cases generated with
    | none =>
      obtain ⟨drafted, -⟩ := runs_pure runs
      contradiction
    | some generated =>
      obtain ⟨drafted, -⟩ := runs_pure runs
      cases drafted
      rfl
  · obtain ⟨drafted, -⟩ := runs_pure runs
    cases drafted
    rfl

theorem valid_of_store {action : Action} {setLifetime : Bool} {n : Node} :
    ¬(sem True).Runs (storeAndApply cfg action setLifetime n) w (.done .invalidArgument) v := by
  intro runs
  obtain ⟨rc, u, upsert, runs⟩ := runs_bind runs
  split at runs
  · obtain ⟨reply, -⟩ := runs_pure runs
    contradiction
  · obtain ⟨result, u', call, runs⟩ := runs_bind runs
    obtain ⟨lookup, u'', get, runs⟩ := runs_bind runs
    obtain ⟨reply, -⟩ := runs_pure runs
    contradiction

/-- A registration that passes the checks is not refused as invalid, whatever comes
of it, as long as no rotation is in progress. -/
theorem valid_of_runs (check : args.check = some reg)
    (accepts : ∀ base : Node, base.rotationState = rotationNone → args.Accepts base)
    (resting : ∀ prev, w.table.find? reg.key = some prev → prev.rotationState = rotationNone) :
    ¬(sem True).Runs (handleRegister cfg args) w (.done .invalidArgument) v := by
  intro runs
  unfold handleRegister at runs
  rw [check] at runs
  obtain ⟨start, u, base, runs⟩ := runs_bind runs
  cases start with
  | none =>
    obtain ⟨reply, -⟩ := runs_pure runs
    contradiction
  | some drafted =>
    obtain ⟨action, n⟩ := drafted
    have rests := resting_of_base resting base
    obtain ⟨drafted, u', key, runs⟩ := runs_bind runs
    cases drafted with
    | none =>
      obtain ⟨reply, -⟩ := runs_pure runs
      contradiction
    | some m =>
      have rests : m.rotationState = rotationNone := (rotation_of_xor key).trans rests
      dsimp only at runs
      unfold finishRegister at runs
      rw [finish_of_accepts rests (accepts m rests)] at runs
      exact valid_of_store runs

/-- What becomes of the entry of a row when it is registered, by any daemon in any
state that it reaches: it is valid unless the daemon is rotating the key of that
node, and where it is stored, the run comes through a world right behind the
upsert, in which what the entry says of the row is put over the row that is
there, or over a fresh one, and over no other. -/
def Restores (json : Bool) (r : Row) (entry : Fields) : Prop :=
  ∀ (admits : World → Task → Prop) (cfg : Config) (v v' : World) (reply : UbusReply),
    (daemon (sem True) admits).Reachable World.Fresh (.idle v) →
    (sem True).Runs (Method.register.handle cfg (entry.message json)) v (.done reply) v' →
    ((∀ prev, v.table.find? r.key = some prev → prev.rotationState = rotationNone) →
      reply ≠ .invalidArgument) ∧
    ∀ fields, reply = .ok fields →
      ∃ (p : Prog UbusReply) (u : World) (prev : Row) (createdAt lastUpdated : Int),
        (sem True).Runs (Method.register.handle cfg (entry.message json)) v p u ∧
        (sem True).Runs p u (.done reply) v' ∧
        (∃ m s changes, u.trace.head? = some ⟨.sql (.upsert m s), .ok [] changes⟩) ∧
        r.registration.Previous cfg v u prev ∧
        u.table.find? r.key = some { r.restored json prev with createdAt, lastUpdated } ∧
        ∀ k, k ≠ r.key → u.table.find? k = v.table.find? k

theorem handle_register (msg : Message) : Method.register.handle cfg msg =
    handleRegister cfg (blobmsgParse msg).registerArgs := rfl

theorem restores_of_row (tidy : r.Tidy) (h : r.Registrable) :
    Restores json r (nodeBrief (r.toNode load)) := by
  intro admits cfg v v' reply reach runs
  rw [handle_register, registerArgs_entry] at runs
  have check : ((r.toNode load).registerArgs json).check = some r.registration := check_entry h
  refine ⟨fun resting => ?_, ?_⟩
  · rintro rfl
    exact valid_of_runs check (fun _ rests => accepts_entry h rests) resting runs
  · rintro fields rfl
    have rows := ((tidy_rows.contract admits).invariant reach).2
    cases registerRun_of_runs runs with
    | refused _ refused => exact absurd rfl (refused fields)
    | stored stages reached =>
      obtain ⟨p, stores, replies⟩ := reached
      have merged := stages.merged rows fits_entry
      obtain ⟨reg, prev, createdAt, lastUpdated, check', previous, stored, -, -, others⟩ :=
        merged.row
      obtain rfl : r.registration = reg := Option.some.inj (check.symm.trans check')
      rw [merged_entry tidy h] at stored
      rw [handle_register, registerArgs_entry]
      exact ⟨p, _, prev, createdAt, lastUpdated, stores, replies, merged.statement,
        previous, stored,
        others⟩

/-- In every state that a daemon reaches, `status` and `dump` have one entry for
every row, which registers what the row has. -/
theorem dump_restores {entries : List Fields}
    (reach : (daemon (sem True) admits).Reachable World.Fresh (.idle w))
    (lists : (sem True).Runs handleStatus w (.done (some entries)) v) (json : Bool) :
    ∃ rows, rows.Perm w.table.rows ∧ List.Forall₂ (Restores json) rows entries := by
  have tidy := ((tidy_rows.contract admits).invariant reach).2
  have registrable := ((registrable_rows.contract admits).invariant reach).2
  unfold handleStatus at lists
  obtain ⟨result, u, listed, lists⟩ := runs_bind lists
  obtain ⟨same, -⟩ := runs_pure lists
  have safe : (sem True).Safe (fun _ _ => True) dbListNodes w fun result u =>
      ∀ nodes, result = some nodes → ∃ rows, rows.Perm w.table.rows ∧
        List.Forall₂ (Loaded w u) rows nodes := by
    refine safe_listRows (fun _ _ _ => trivial) (fun rows nodes u _ perm _ loaded => ?_)
      fun _ u _ => ?_
    · rintro _ ⟨⟩
      exact ⟨rows, perm, loaded⟩
    · exact nofun
  cases result with
  | none => contradiction
  | some nodes =>
    cases same
    obtain ⟨rows, perm, loaded⟩ := safe.result listed nodes rfl
    refine ⟨rows, perm, ?_⟩
    have stored : ∀ r ∈ rows, r ∈ w.table.rows := fun r mem => perm.mem_iff.mp mem
    rw [List.forall₂_map_right_iff]
    refine ((List.forall₂_and_left _ _).mpr ⟨stored, loaded⟩).imp ?_
    rintro r _ ⟨mem, load, rfl, -⟩
    exact restores_of_row (tidy r mem) (registrable r mem)

@[irreducible] def sampleListing : Prog (Option (List Fields)) × World :=
  playFor World.after (sample 1700000100).answer 5 handleStatus sampleStored

theorem dump_restores_sample :
    ∃ r ∈ sampleStored.table.rows, ∃ entry, Restores true r entry := by
  obtain ⟨entries, returns⟩ := Option.isSome_iff_exists.mp
    (show (sampleListing.1.result?.bind id).isSome by decide +kernel)
  obtain ⟨result, ends, rfl⟩ := Option.bind_eq_some_iff.mp returns
  have lists : (sem True).Runs handleStatus sampleStored sampleListing.1 sampleListing.2 := by
    unfold sampleListing
    exact runs_playFor (S := sem True) (sample _).fair 5 _ _
  rw [Program.eq_done ends] at lists
  obtain ⟨rows, perm, restores⟩ := dump_restores sampleStored_reachable lists true
  have occupied : sampleStored.table.rows ≠ [] := by decide +kernel
  cases restores with
  | nil => exact absurd perm.symm.eq_nil occupied
  | cons own _ => exact ⟨_, perm.mem_iff.mp List.mem_cons_self, _, own⟩

end Restoring

end Tumgrd
