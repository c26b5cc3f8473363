import Tumgrd.Merge

/-! The attributes of a message. `blobmsg_parse` leaves out what is absent and
what has another type than the policy says, and a handler cannot tell the two
apart. -/
namespace Tumgrd

open Effect Semantics

inductive BlobType where
  | array
  | table
  | string
  | int64
  | int32
  | int16
  | int8
  | double
  deriving DecidableEq

/-- The data of an attribute. Of what no handler reads, only the type counts. -/
inductive Blob where
  | array
  | table
  | string (text : Str)
  | int64 (value : UInt64)
  | int32 (value : UInt32)
  | int16 (value : UInt16)
  | int8 (value : UInt8)
  | double
  deriving DecidableEq

def Blob.type : Blob → BlobType
  | .array => .array
  | .table => .table
  | .string _ => .string
  | .int64 _ => .int64
  | .int32 _ => .int32
  | .int16 _ => .int16
  | .int8 _ => .int8
  | .double => .double

/-- Named attributes, in the order of the message. -/
abbrev Message := List (Str × Blob)

/-- `struct blobmsg_policy`. -/
structure Policy where
  name : Str
  type : BlobType
  deriving DecidableEq

namespace Policy

def uid : Policy := ⟨"uid".toList, .string⟩
def serverHost : Policy := ⟨"server_host".toList, .string⟩
def serverPort : Policy := ⟨"server_port".toList, .int32⟩
def clientPort : Policy := ⟨"client_port".toList, .int32⟩
def psk : Policy := ⟨"psk".toList, .string⟩
def description : Policy := ⟨"description".toList, .string⟩
def clientComment : Policy := ⟨"client_comment".toList, .string⟩
def memlimit : Policy := ⟨"memlimit".toList, .int32⟩
def ipCheckUrl : Policy := ⟨"ip_check_url".toList, .string⟩
def ipVersion : Policy := ⟨"ip_version".toList, .string⟩
def xorKey : Policy := ⟨"xor".toList, .string⟩
def lifetime : Policy := ⟨"lifetime".toList, .int32⟩
def force : Policy := ⟨"force".toList, .int8⟩
def all : Policy := ⟨"all".toList, .int8⟩

end Policy

def regPolicy : List Policy :=
  [.uid, .serverHost, .serverPort, .clientPort, .psk, .description, .clientComment, .memlimit,
    .ipCheckUrl, .ipVersion, .xorKey, .lifetime]

def deregPolicy : List Policy := [.uid, .serverHost, .serverPort, .ipVersion]

def refPolicy : List Policy := [.uid, .serverHost, .serverPort, .ipVersion, .force, .all]

/-- The entries of `tb`. -/
abbrev Tb := Policy → Option Blob

/-- `blobmsg_parse`: the first attribute of the entry's name and type. -/
def blobmsgParse (msg : Message) : Tb := fun policy =>
  msg.findSome? fun attr =>
    if attr.1 = policy.name ∧ attr.2.type = policy.type then some attr.2 else none

def Blob.string? : Blob → Option Str
  | .string text => some text
  | _ => none

def Blob.u32? : Blob → Option UInt32
  | .int32 value => some value
  | _ => none

def Blob.u8? : Blob → Option UInt8
  | .int8 value => some value
  | _ => none

namespace Tb

variable (tb : Tb)

/-- `blobmsg_get_string`, of an attribute that is there. -/
def getString (policy : Policy) : Option Str := (tb policy).bind Blob.string?

/-- `blobmsg_get_u32`, of an attribute that is there. -/
def getU32 (policy : Policy) : Option UInt32 := (tb policy).bind Blob.u32?

/-- `blobmsg_get_bool_default`. -/
def getBoolDefault (policy : Policy) (default : Bool) : Bool :=
  (((tb policy).bind Blob.u8?).map fun value => decide (value ≠ 0)).getD default

def nodeArgs : NodeArgs where
  uid := tb.getString .uid
  serverHost := tb.getString .serverHost
  serverPort := tb.getU32 .serverPort
  ipVersion := tb.getString .ipVersion

def registerArgs : RegisterArgs :=
  { tb.nodeArgs with
    clientPort := tb.getU32 .clientPort
    psk := tb.getString .psk
    description := tb.getString .description
    clientComment := tb.getString .clientComment
    memlimit := tb.getU32 .memlimit
    ipCheckUrl := tb.getString .ipCheckUrl
    xor := tb.getString .xorKey
    lifetime := tb.getU32 .lifetime }

def refreshArgs : RefreshArgs :=
  { tb.nodeArgs with
    force := tb.getBoolDefault .force false
    all := tb.getBoolDefault .all false }

end Tb

inductive Method where
  | register
  | deregister
  | refresh
  deriving DecidableEq

namespace Method

def policy : Method → List Policy
  | .register => regPolicy
  | .deregister => deregPolicy
  | .refresh => refPolicy

/-- The handler behind its call of `blobmsg_parse`. -/
def handler (cfg : Config) (tb : Tb) : Method → Prog UbusReply
  | .register => handleRegister cfg tb.registerArgs
  | .deregister => handleDeregister tb.nodeArgs
  | .refresh => handleRefresh cfg tb.refreshArgs

def handle (method : Method) (cfg : Config) (msg : Message) : Prog UbusReply :=
  method.handler cfg (blobmsgParse msg)

/-- What no state of the daemon would make the handler accept. -/
def refuses (tb : Tb) : Method → Prop
  | .register => tb.registerArgs.check = none ∨ ¬tb.registerArgs.Accepts .zero
  | .deregister => tb.nodeArgs.key? = none
  | .refresh => tb.refreshArgs.all = false ∧ tb.nodeArgs.key? = none

/-- Which entries the handler looks at: with `all`, a refresh names no node. -/
def reads (tb : Tb) : Method → Policy → Prop
  | .refresh, policy => tb.refreshArgs.all = false ∨ policy = .force ∨ policy = .all
  | .register, _ | .deregister, _ => True

end Method

variable {cfg : Config} {msg : Message} {tb : Tb} {args : RegisterArgs} {reg : Registration}
  {base n : Node}
  {policy : Policy} {w v : World} {fields : Fields}

section Acceptance

theorem finish_of_accepts (resting : base.rotationState = rotationNone) (h : args.Accepts base) :
    args.finish reg base = some (args.complete reg base) := by
  have xor : args.overrideXor { args.fillOptional base with ipVersion := reg.ipVersion } =
      some { args.fillOptional base with
        ipVersion := reg.ipVersion
        xorKey := (args.xor.map .copy).getD base.xorKey } := by
    unfold RegisterArgs.overrideXor
    cases given : args.xor with
    | none => rfl
    | some text =>
      have safe : isSafeId text = true := (h.xor text given).1
      simp [safe, RegisterArgs.fillOptional, resting]
  unfold RegisterArgs.finish
  rw [xor]
  change args.overrideLifetime _ = _
  unfold RegisterArgs.overrideLifetime
  cases given : args.lifetime with
  | none => simp [RegisterArgs.complete, given, RegisterArgs.fillOptional]
  | some value =>
    have legal := h.lifetime value given
    have low : ¬((value.toNat : Int) ≠ 0 ∧ (value.toNat : Int) < lifetimeMin) := by
      rintro ⟨nonzero, low⟩
      exact legal.elim nonzero fun legal => Int.not_le.mpr low legal.1
    have high : ¬(value.toNat : Int) > lifetimeMax := by
      rcases legal with zero | legal
      · rw [zero]
        decide
      · exact Int.not_lt.mpr legal.2
    simp only [low, high, not_false_eq_true, guard_true, Option.bind_eq_bind]
    simp [RegisterArgs.complete, given, RegisterArgs.fillOptional]

end Acceptance

section Messages

/-- One of them has the type of the policy. -/
def Message.Fits (msg : Message) (policy : Policy) : Prop :=
  ∃ value, (policy.name, value) ∈ msg ∧ value.type = policy.type

variable {policy : Policy} {old : Blob}

theorem blobmsgParse_mem (h : blobmsgParse msg policy = some old) :
    (policy.name, old) ∈ msg ∧ old.type = policy.type := by
  obtain ⟨⟨name, value⟩, hmem, same⟩ := List.exists_of_findSome?_eq_some h
  split at same
  · rename_i entry
    cases same
    obtain ⟨rfl, type⟩ := entry
    exact ⟨hmem, type⟩
  · contradiction

theorem fits_iff : msg.Fits policy ↔ ∃ value, blobmsgParse msg policy = some value := by
  constructor
  · rintro ⟨value, hmem, type⟩
    refine Option.isSome_iff_exists.mp (List.findSome?_isSome_iff.mpr ⟨_, hmem, ?_⟩)
    rw [if_pos ⟨rfl, type⟩]
    rfl
  · rintro ⟨value, parsed⟩
    exact ⟨value, blobmsgParse_mem parsed⟩

end Messages

end Tumgrd
