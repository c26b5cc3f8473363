import Tumgrd.Db
import Tumgrd.Runner

/-! `reconcile.c`. The function is cut where its comments and blank lines cut
it; the locals that survive a cut travel in `Locals`, and a jump to
`err_cleanup` is `Flow.fail`. -/
namespace Tumgrd

structure Locals where
  node : Node
  force : Bool
  expired : Bool
  detectedIp : Buf 64
  serverApplySucceeded : Bool

inductive Flow where
  | next (l : Locals)
  | skip (l : Locals)
  | fail (l : Locals) (err : Int)

def andThen (p : Prog Flow) (f : Locals → Prog Flow) : Prog Flow := do
  match ← p with
  | .next l => f l
  | .skip l => pure (.skip l)
  | .fail l err => pure (.fail l err)

/-- The in-memory copy after a key was stored as present and pending. -/
def Node.rotateTo (n : Node) (key : HexKey) : Node :=
  { n with xorKey := key.buf, rotationState := rotationPendingRemote, xorKeyPending := key.buf }

def Node.clearRotation (n : Node) : Node :=
  { n with rotationState := rotationNone, xorKeyPending := .empty }

def Node.stateInvalid (n : Node) : Bool :=
  n.rotationState < rotationNone || n.rotationState > rotationPendingLocalRecovery

def Node.keyMismatch (n : Node) : Bool :=
  n.rotationState ≠ rotationNone && (n.xorKeyPending.text = [] || n.xorKey ≠ n.xorKeyPending)

/-- The condition under which the daemon makes keys for this node. -/
def Node.rotates (n : Node) (cfg : Config) : Bool := cfg.enableXor && n.xorKey.text ≠ []

/-- Either of the two repair blocks, which differ in what they take for damage. -/
def repairRotation (cfg : Config) (now : Int) (damaged : Node → Bool) (l : Locals) : Prog Flow :=
  if ¬damaged l.node then pure (.next l)
  else if l.node.rotates cfg then do
    match ← randomKey with
    | none => pure (.fail l (-1))
    | some key => do
        let rc ← dbReplaceRotation l.node.key key.buf now
        if rc ≠ 0 then pure (.fail l (-1))
        else pure (.next { l with node := l.node.rotateTo key })
  else do
    let rc ← dbClearRotation l.node.key
    if rc ≠ 0 then pure (.fail l (-1))
    else pure (.next { l with node := l.node.clearRotation })

/-- `begin_rotation` for a key that reached its lifetime. -/
def beginRotation (cfg : Config) (now : Int) (l : Locals) : Prog Flow :=
  if l.node.rotates cfg then do
    match ← randomKey with
    | none => pure (.fail l (-1))
    | some key => do
        let rc ← dbBeginRotation l.node.key key.buf rotationPendingRemote now
        if rc ≠ 0 then pure (.fail l (-1))
        else pure (.next { l with node := l.node.rotateTo key })
  else pure (.next l)

def checkExpiry (cfg : Config) (now : Int) (l : Locals) : Prog Flow :=
  let due := { l with force := true, expired := true }
  if l.node.rotationState = rotationPendingLocalRecovery then pure (.next due)
  else if l.node.rotationState = rotationPendingRemote then pure (.next due)
  else if now < minSaneTime then pure (.next l)
  else if l.node.lifetime > 0 ∧ l.node.lastAppliedAt = 0 then pure (.next due)
  else if l.node.lifetime > 0 ∧ now - l.node.lastAppliedAt ≥ l.node.lifetime then
    beginRotation cfg now due
  else pure (.next l)

def pickIpCheckUrl (n : Node) : Str := nonemptyOr n.ipCheckUrl.text defaultIpCheckUrl.text

def detectIp (l : Locals) : Prog Flow := do
  let found ← detect (pickIpCheckUrl l.node) l.node.ipVersion.text
  let l := { l with detectedIp := found.ip }
  if found.ok then pure (.next l) else pure (.fail l (-1))

def Node.wasError (n : Node) : Bool := n.status = statusError || n.status = statusSyncing

def needApply (l : Locals) : Bool :=
  l.force || !streqcase l.node.currentIp.text l.detectedIp.text || l.node.wasError

def skipUnchanged (l : Locals) : Prog Flow :=
  if needApply l then pure (.next l) else pure (.skip l)

def applyServer (cfg : Config) (l : Locals) : Prog Flow := do
  let rc ← serverAdd l.node cfg l.detectedIp.text
  if rc < 0 then pure (.fail l rc)
  else
    let l := { l with serverApplySucceeded := true }
    if l.node.rotationState = rotationPendingRemote then do
      let rc ← dbUpdateRotationState l.node.key rotationPendingLocalRecovery
      if rc ≠ 0 then pure (.fail l (-1))
      else pure (.next { l with
        node := { l.node with rotationState := rotationPendingLocalRecovery } })
    else pure (.next l)

def applyLocal (l : Locals) : Prog Flow := do
  let rc ← resetLocalClient l.node
  if rc < 0 then pure (.fail l rc) else pure (.next l)

def markRuntime (n : Node) (currentIp : Buf 64) (status : Buf 32) : Prog Int := do
  let now ← time
  dbUpdateRuntime n.key currentIp status now

def markActive (l : Locals) : Prog Flow := do
  let rc ← markRuntime l.node l.detectedIp statusActive
  if rc < 0 then pure (.fail l rc) else pure (.next l)

def recordApplied (now : Int) (l : Locals) : Prog Flow :=
  let appliedTs := if now ≥ minSaneTime then now else 0
  if l.node.rotationState ≠ rotationNone ∧ l.serverApplySucceeded then do
    let rc ← dbCompleteRotation l.node.key appliedTs
    if rc ≠ 0 then pure (.fail l (-1))
    else pure (.next { l with node := { l.node.clearRotation with lastAppliedAt := appliedTs } })
  else if l.expired ∧ l.serverApplySucceeded then do
    let rc ← dbUpdateApplied l.node.key now
    if rc ≠ 0 then pure (.fail l (-1))
    else pure (.next { l with node := { l.node with lastAppliedAt := now } })
  else pure (.next l)

/-- Up to the test for `need_apply`. -/
def decideApply (cfg : Config) (now : Int) (l : Locals) : Prog Flow :=
  andThen (repairRotation cfg now Node.stateInvalid l) fun l =>
  andThen (repairRotation cfg now Node.keyMismatch l) fun l =>
  andThen (checkExpiry cfg now l) fun l =>
  andThen (detectIp l) skipUnchanged

/-- From `need_apply` on. -/
def applyNode (cfg : Config) (now : Int) (l : Locals) : Prog Flow :=
  andThen (applyServer cfg l) fun l =>
  andThen (applyLocal l) fun l =>
  andThen (markActive l) (recordApplied now)

/-- The tail of the function: the skip returns at once, `err_cleanup` marks the
node and keeps the error. -/
def finishReconcile : Flow → Prog (Int × Node)
  | .next l => do
      report (.returned l.node 0)
      pure (0, l.node)
  | .skip l => do
      report (.skipped l.node)
      report (.returned l.node 0)
      pure (0, l.node)
  | .fail l err => do
      let ip := if l.detectedIp.text ≠ [] then l.detectedIp else l.node.currentIp
      let _ ← markRuntime l.node ip statusError
      report (.returned l.node err)
      pure (err, l.node)

/-- Returns the code and the node as the caller has it afterwards. -/
def reconcileOne (cfg : Config) (n : Node) (force : Bool) : Prog (Int × Node) := do
  report (.called n force)
  let now ← time
  let flow ← andThen (decideApply cfg now ⟨n, force, false, .empty, false⟩)
    (applyNode cfg now)
  finishReconcile flow

def reconcileNodes (cfg : Config) (force : Bool) : List Node → Prog Nat
  | [] => pure 0
  | n :: rest => do
      let (rc, _) ← reconcileOne cfg n force
      let failed ← reconcileNodes cfg force rest
      pure (failed + if rc ≠ 0 then 1 else 0)

def reconcileAll (cfg : Config) (force : Bool) : Prog Int := do
  match ← dbListNodes with
  | none => pure (-1)
  | some nodes => do
      let failed ← reconcileNodes cfg force nodes
      pure (if failed ≠ 0 then -1 else 0)

end Tumgrd
