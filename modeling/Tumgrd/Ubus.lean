import Tumgrd.Reconcile

/-! `ubus_if.c`: the methods of the `tumgrd` object and the callbacks of the
event loop. A message arrives as its parsed attributes, absent ones as `none`;
a handler answers with a status code or with the fields of its reply. -/
namespace Tumgrd

inductive Value where
  | string (text : Str)
  | u8 (flag : Bool)
  | u32 (value : Int)
  | u64 (value : Int)
  deriving DecidableEq

abbrev Fields := List (Str × Value)

inductive UbusReply where
  | invalidArgument
  | unknownError
  | ok (fields : Fields)

def ipv4 : Buf 16 := ⟨"ipv4".toList, by decide⟩
def ipv6 : Buf 16 := ⟨"ipv6".toList, by decide⟩

/-- `normalize_ip_version`. -/
def normalizeIpVersion (input : Str) : Option (Buf 16) :=
  if input = [] then some .empty
  else if streqcase input "4".toList || streqcase input "-4".toList ||
      streqcase input "ipv4".toList then
    some ipv4
  else if streqcase input "6".toList || streqcase input "-6".toList ||
      streqcase input "ipv6".toList then
    some ipv6
  else none

/-- `(int) blobmsg_get_u32(attr)`. -/
def toInt (value : UInt32) : Int := value.toInt32.toInt

def textField (name : String) (text : Str) : Fields := [(name.toList, .string text)]

def textFieldIfAny (name : String) (text : Str) : Fields :=
  if text = [] then [] else textField name text

/-- `add_node_brief`. -/
def nodeBrief (n : Node) : Fields :=
  textField "uid" n.uid.text ++ textField "server_host" n.serverHost.text ++
    [("server_port".toList, .u32 n.serverPort)] ++ textField "psk" n.psk.text ++
    [("client_port".toList, .u32 n.clientPort)] ++
    textFieldIfAny "description" n.description.text ++
    textFieldIfAny "client_comment" n.clientComment.text ++
    textFieldIfAny "ip_check_url" n.ipCheckUrl.text ++
    textFieldIfAny "ip_version" n.ipVersion.text ++
    textField "current_ip" n.currentIp.text ++ textField "node_status" n.status.text ++
    [("created_at".toList, .u64 n.createdAt), ("last_updated".toList, .u64 n.lastUpdated)] ++
    (if n.hasMemlimit then [("memlimit".toList, .u32 n.memlimit)] else []) ++
    textFieldIfAny "xor" n.xorKey.text ++ [("lifetime".toList, .u64 n.lifetime)] ++
    (if n.lifetime > 0 ∧ n.lastAppliedAt > 1 ∧
      n.lastAppliedAt ≤ 9223372036854775807 - n.lifetime then
      [("expires_at".toList, .u64 (n.lastAppliedAt + n.lifetime))] else []) ++
    (if n.rotationState ≠ rotationNone then
      ("rotation_state".toList, .u32 n.rotationState.toInt) ::
        textFieldIfAny "xor_key_pending" n.xorKeyPending.text else [])

/-- What the three methods use to name a node. The texts are the caller's own
and may be longer than the fields they are later copied into. -/
structure NodeArgs where
  uid : Option Str := none
  serverHost : Option Str := none
  serverPort : Option UInt32 := none
  ipVersion : Option Str := none

def NodeArgs.key? (args : NodeArgs) : Option Key := do
  let uid ← args.uid
  let serverHost ← args.serverHost
  let serverPort ← args.serverPort
  let ipVersion ← normalizeIpVersion (args.ipVersion.getD [])
  pure ⟨serverHost, toInt serverPort, uid, ipVersion.text⟩

/-- The attributes of `register`. -/
structure RegisterArgs extends NodeArgs where
  clientPort : Option UInt32 := none
  psk : Option Str := none
  description : Option Str := none
  clientComment : Option Str := none
  memlimit : Option UInt32 := none
  ipCheckUrl : Option Str := none
  xor : Option Str := none
  lifetime : Option UInt32 := none

/-- A register request that passed the checks in front of the lookup. -/
structure Registration where
  key : Key
  ipVersion : Buf 16
  clientPort : Int
  psk : Str

def legalPort (port : Int) : Bool := 0 < port && port ≤ 65535

def RegisterArgs.check (args : RegisterArgs) : Option Registration := do
  let uid ← args.uid
  let serverHost ← args.serverHost
  let serverPort ← args.serverPort
  let clientPort ← args.clientPort
  let psk ← args.psk
  guard (isSafeId uid)
  guard (legalPort (toInt serverPort))
  guard (legalPort (toInt clientPort))
  let ipVersion ← normalizeIpVersion (args.ipVersion.getD [])
  pure ⟨⟨serverHost, toInt serverPort, uid, ipVersion.text⟩, ipVersion,
    toInt clientPort, psk⟩

inductive Action where
  | created
  | updated
  deriving DecidableEq

def Action.text : Action → Str
  | .created => "created".toList
  | .updated => "updated".toList

def Node.fresh (cfg : Config) (now : Int) : Node :=
  { Node.zero with
    lifetime := cfg.defaultLifetime
    lastAppliedAt := if now ≥ minSaneTime then now else 0 }

/-- The node a registration starts from: the stored one, or a fresh one. -/
def registerBase (cfg : Config) (k : Key) : Prog (Option (Action × Node)) := do
  match ← dbGetNode k with
  | .found old => pure (some (.updated, old))
  | .absent => do
      let now ← time
      pure (some (.created, .fresh cfg now))
  | .failed => pure none

/-- The fields every registration sets, each cut to its buffer. -/
def Registration.fill (reg : Registration) (n : Node) : Node :=
  { n with
    uid := .copy reg.key.uid
    serverHost := .copy reg.key.serverHost
    serverPort := reg.key.serverPort
    clientPort := reg.clientPort
    psk := .copy reg.psk }

def registerXor (cfg : Config) (action : Action) (n : Node) : Prog (Option Node) :=
  if action = .created ∧ cfg.enableXor then do
    match ← randomKey with
    | none => pure none
    | some key => pure (some { n with xorKey := key.buf })
  else pure (some n)

def RegisterArgs.fillOptional (args : RegisterArgs) (n : Node) : Node :=
  { n with
    description := (args.description.map .copy).getD n.description
    clientComment := (args.clientComment.map .copy).getD n.clientComment
    hasMemlimit := (args.memlimit.map fun v => decide (toInt v > 0)).getD n.hasMemlimit
    memlimit := (args.memlimit.map fun v => if toInt v > 0 then toInt v else 0).getD n.memlimit
    ipCheckUrl := (args.ipCheckUrl.map .copy).getD n.ipCheckUrl }

/-- An explicit key is refused while a rotation is in progress. -/
def RegisterArgs.overrideXor (args : RegisterArgs) (n : Node) : Option Node :=
  match args.xor with
  | none => some n
  | some xor => do
      guard (isSafeId xor)
      guard (n.rotationState = rotationNone)
      pure { n with xorKey := .copy xor }

def RegisterArgs.overrideLifetime (args : RegisterArgs) (n : Node) : Option Node :=
  match args.lifetime with
  | none => some n
  | some value => do
      let lifetime : Int := value.toNat
      guard (¬(lifetime ≠ 0 ∧ lifetime < lifetimeMin))
      guard (¬lifetime > lifetimeMax)
      pure { n with lifetime }

/-- The in-memory node that is stored and applied. -/
def RegisterArgs.finish (args : RegisterArgs) (reg : Registration) (n : Node) : Option Node := do
  let n ← args.overrideXor { args.fillOptional n with ipVersion := reg.ipVersion }
  args.overrideLifetime n

/-- Store the node, apply it at once, and read it back for the reply. The row
stays as stored when applying it fails. -/
def storeAndApply (cfg : Config) (action : Action) (setLifetime : Bool) (n : Node) :
    Prog UbusReply := do
  let rc ← dbUpsertNode n setLifetime
  if rc ≠ 0 then pure .unknownError
  else do
    let (err, n) ← reconcileOne cfg n true
    let lookup ← dbGetNode n.key
    let n := match lookup with
      | .found updated => updated
      | _ => n
    pure (.ok (textField "status" (if err = 0 then "ok" else "stored_but_apply_failed").toList ++
      textField "action" action.text ++ [("applied".toList, .u8 (err = 0))] ++ nodeBrief n))

def finishRegister (cfg : Config) (args : RegisterArgs) (reg : Registration) (action : Action)
    (n : Node) : Prog UbusReply :=
  match args.finish reg n with
  | none => pure .invalidArgument
  | some n => storeAndApply cfg action (action = .created || args.lifetime.isSome) n

def handleRegister (cfg : Config) (args : RegisterArgs) : Prog UbusReply :=
  match args.check with
  | none => pure .invalidArgument
  | some reg => do
      match ← registerBase cfg reg.key with
      | none => pure .unknownError
      | some (action, base) => do
          match ← registerXor cfg action (reg.fill base) with
          | none => pure .unknownError
          | some n => finishRegister cfg args reg action n

/-- The row is deleted whatever became of the two commands. -/
def handleDeregister (args : NodeArgs) : Prog UbusReply :=
  match args.key? with
  | none => pure .invalidArgument
  | some k => do
      match ← dbGetNode k with
      | .failed => pure .unknownError
      | .absent => pure (.ok (textField "status" "not_found".toList ++
          textField "message" "node not found".toList))
      | .found n => do
          let rcServer ← serverDel n
          let rcClient ← clientDel n
          let rcDb ← dbDeleteNode n.key
          let status :=
            if rcDb ≠ 0 then textField "status" "error".toList ++
              textField "message" "database delete failed".toList
            else if rcServer = 0 ∧ rcClient = 0 then textField "status" "deleted".toList
            else textField "status" "deleted_with_cleanup_errors".toList
          pure (.ok (status ++ [("server_deleted".toList, .u8 (rcServer = 0)),
            ("client_deleted".toList, .u8 (rcClient = 0)), ("db_deleted".toList, .u8 (rcDb = 0))] ++
            nodeBrief n))

structure RefreshArgs extends NodeArgs where
  force : Bool := false
  all : Bool := false

def refreshAll (cfg : Config) (force : Bool) : Prog UbusReply := do
  let err ← reconcileAll cfg force
  pure (.ok (textField "status" (if err = 0 then "ok" else "partial_error").toList ++
    textField "scope" "all".toList ++ [("force".toList, .u8 force)]))

def refreshOne (cfg : Config) (force : Bool) (k : Key) : Prog UbusReply := do
  match ← dbGetNode k with
  | .failed => pure .unknownError
  | .absent => pure (.ok (textField "status" "not_found".toList))
  | .found n => do
      let (err, n) ← reconcileOne cfg n force
      let lookup ← dbGetNode n.key
      let n := match lookup with
        | .found updated => updated
        | _ => n
      pure (.ok (textField "status" (if err = 0 then "ok" else "error").toList ++
        textField "scope" "one".toList ++ [("force".toList, .u8 force)] ++
        textField "note"
          "force=true forces apply; otherwise apply only when IP changed or status error".toList ++
        nodeBrief n))

def handleRefresh (cfg : Config) (args : RefreshArgs) : Prog UbusReply :=
  if args.all then refreshAll cfg args.force
  else
    match args.key? with
    | none => pure .invalidArgument
    | some k => refreshOne cfg args.force k

/-- `status` and `dump`; each node becomes one table of the reply's array. -/
def handleStatus : Prog (Option (List Fields)) := do
  let nodes ← dbListNodes
  pure (nodes.map fun nodes => nodes.map nodeBrief)

/-- `net_event_cb` for an `ifup` of a WAN interface. -/
def netEvent (cfg : Config) : Prog Unit := do
  let _ ← reconcileAll cfg true

def startupReconcile (cfg : Config) : Prog Unit := do
  let _ ← reconcileAll cfg true
  report .startupDone

def periodicReconcile (cfg : Config) : Prog Unit := do
  let _ ← reconcileAll cfg false

end Tumgrd
