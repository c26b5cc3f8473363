import Tumgrd.Text

/-! The node record, the configuration, and the columns of the `nodes` table.
Times and ports are integers, which no computation of the daemon takes out of
their range; the rotation state is an `int`, whatever its value. -/
namespace Tumgrd

@[simp] abbrev rotationNone : Int32 := 0
@[simp] abbrev rotationPendingRemote : Int32 := 1
@[simp] abbrev rotationPendingLocalRecovery : Int32 := 2

@[simp] abbrev lifetimeMin : Int := 60
@[simp] abbrev lifetimeMax : Int := 2147483647
@[simp] abbrev minSaneTime : Int := 1600000000

def statusActive : Buf 32 := ⟨"active".toList, by decide⟩
def statusError : Buf 32 := ⟨"error".toList, by decide⟩
def statusSyncing : Buf 32 := ⟨"syncing".toList, by decide⟩

def defaultIpCheckUrl : Buf 256 := ⟨"http://ip.3322.net/".toList, by decide⟩

/-- The primary key. Lookups pass arguments of any length, so these are not
cut to the node's buffers. -/
structure Key where
  serverHost : Str
  serverPort : Int
  uid : Str
  ipVersion : Str
  deriving DecidableEq

/-- The other unique constraint: one `client_port` for each server and family. -/
structure Slot where
  serverHost : Str
  serverPort : Int
  clientPort : Int
  ipVersion : Str
  deriving DecidableEq

/-- `struct tumgrd_node`. -/
structure Node where
  uid : Buf 128
  description : Buf 256
  clientComment : Buf 256
  createdAt : Int
  serverHost : Buf 256
  serverPort : Int
  psk : Buf 256
  clientPort : Int
  hasMemlimit : Bool
  memlimit : Int
  ipCheckUrl : Buf 256
  ipVersion : Buf 16
  currentIp : Buf 64
  lastUpdated : Int
  status : Buf 32
  xorKey : Buf 129
  lifetime : Int
  lastAppliedAt : Int
  rotationState : Int32
  xorKeyPending : Buf 129
  deriving DecidableEq

/-- `memset(&node, 0, sizeof(node))`. -/
def Node.zero : Node :=
  ⟨.empty, .empty, .empty, 0, .empty, 0, .empty, 0, false, 0, .empty, .empty, .empty, 0, .empty,
    .empty, 0, 0, 0, .empty⟩

def Node.key (n : Node) : Key := ⟨n.serverHost.text, n.serverPort, n.uid.text, n.ipVersion.text⟩

/-- The members of `struct tumgrd_config` that the handlers read. -/
structure Config where
  enableXor : Bool
  useClientIp : Bool
  defaultLifetime : Int

/-- A row of `nodes`. Every text in it was bound from a field of a node, so it
fits the buffer it is read back into, and an `int` was bound as one; `none` is
`NULL`. -/
structure Row where
  uid : Buf 128
  description : Option (Buf 256)
  clientComment : Option (Buf 256)
  createdAt : Int
  serverHost : Buf 256
  serverPort : Int
  psk : Buf 256
  clientPort : Int
  memlimit : Option Int
  ipCheckUrl : Option (Buf 256)
  ipVersion : Buf 16
  currentIp : Option (Buf 64)
  lastUpdated : Int
  status : Option (Buf 32)
  xorKey : Option (Buf 129)
  lifetime : Option Int
  lastAppliedAt : Int
  rotationState : Int32
  xorKeyPending : Option (Buf 129)
  deriving DecidableEq

def Row.key (r : Row) : Key := ⟨r.serverHost.text, r.serverPort, r.uid.text, r.ipVersion.text⟩

def Row.slot (r : Row) : Slot :=
  ⟨r.serverHost.text, r.serverPort, r.clientPort, r.ipVersion.text⟩

/-- `bind_text_or_null`. -/
def bindTextOrNull {n : Nat} (b : Buf n) : Option (Buf n) :=
  if b.text = [] then none else some b

/-- `column_text`. -/
def columnText {n : Nat} [NeZero n] (column : Option (Buf n)) : Buf n := column.getD .empty

@[simp] theorem columnText_some {n : Nat} [NeZero n] (b : Buf n) : columnText (some b) = b := rfl

@[simp] theorem columnText_none {n : Nat} [NeZero n] :
    columnText (none : Option (Buf n)) = .empty :=
  rfl

@[simp] theorem columnText_bind {n : Nat} [NeZero n] (b : Buf n) :
    columnText (bindTextOrNull b) = b := by
  unfold bindTextOrNull
  split
  · exact (Buf.text_eq_nil_iff.mp ‹_›).symm
  · rfl

/-- The lifetime `row_to_node` accepts: disabled, or in the legal range. -/
def clampLifetime (lifetime : Int) : Int :=
  if lifetime ≠ 0 ∧ (lifetime < lifetimeMin ∨ lifetime > lifetimeMax) then 0 else lifetime

/-- `last_applied_at` as read at `now`: never negative, and expired at once when
it lies more than a day ahead. -/
def clampAppliedAt (now t : Int) : Int :=
  if t < 0 then 0 else if t > now + 86400 then 1 else t

/-- The pure part of `row_to_node`, with the clock reading it makes. -/
def Row.toNode (now : Int) (r : Row) : Node where
  uid := r.uid
  description := columnText r.description
  clientComment := columnText r.clientComment
  createdAt := r.createdAt
  serverHost := r.serverHost
  serverPort := r.serverPort
  psk := r.psk
  clientPort := r.clientPort
  hasMemlimit := r.memlimit.isSome
  memlimit := r.memlimit.getD 0
  ipCheckUrl := columnText r.ipCheckUrl
  ipVersion := r.ipVersion
  currentIp := columnText r.currentIp
  lastUpdated := r.lastUpdated
  status := columnText r.status
  xorKey := columnText r.xorKey
  lifetime := clampLifetime (r.lifetime.getD 0)
  lastAppliedAt := clampAppliedAt now r.lastAppliedAt
  rotationState := r.rotationState
  xorKeyPending := columnText r.xorKeyPending

@[simp] theorem Row.key_toNode (now : Int) (r : Row) : (r.toNode now).key = r.key := rfl

/-- The values `tumgrd_db_upsert_node` binds. -/
def Row.ofNode (n : Node) (setLifetime : Bool) : Row where
  uid := n.uid
  description := bindTextOrNull n.description
  clientComment := bindTextOrNull n.clientComment
  createdAt := n.createdAt
  serverHost := n.serverHost
  serverPort := n.serverPort
  psk := n.psk
  clientPort := n.clientPort
  memlimit := if n.hasMemlimit then some n.memlimit else none
  ipCheckUrl := bindTextOrNull n.ipCheckUrl
  ipVersion := n.ipVersion
  currentIp := bindTextOrNull n.currentIp
  lastUpdated := n.lastUpdated
  status := bindTextOrNull n.status
  xorKey := bindTextOrNull n.xorKey
  lifetime := if setLifetime then some n.lifetime else none
  lastAppliedAt := n.lastAppliedAt
  rotationState := n.rotationState
  xorKeyPending := bindTextOrNull n.xorKeyPending

@[simp] theorem Row.key_ofNode (n : Node) (setLifetime : Bool) :
    (Row.ofNode n setLifetime).key = n.key := rfl

/-- `ON CONFLICT ... DO UPDATE SET` of the upsert; `excluded` is the refused row. -/
def Row.merge (r excluded : Row) : Row :=
  { r with
    description := excluded.description
    clientComment := excluded.clientComment
    createdAt := excluded.createdAt
    psk := excluded.psk
    clientPort := excluded.clientPort
    memlimit := excluded.memlimit
    ipCheckUrl := excluded.ipCheckUrl
    currentIp := excluded.currentIp
    lastUpdated := excluded.lastUpdated
    status := excluded.status
    lifetime := excluded.lifetime.or r.lifetime
    xorKey := if r.rotationState ≠ 0 then r.xorKey else excluded.xorKey }

theorem Row.key_merge (r excluded : Row) : (r.merge excluded).key = r.key := rfl

theorem Row.slot_merge (r excluded : Row) (h : r.key = excluded.key) :
    (r.merge excluded).slot = excluded.slot := by
  simp only [Row.key, Key.mk.injEq] at h
  simp [Row.slot, Row.merge, h]

end Tumgrd
