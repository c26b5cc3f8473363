import Tumgrd.World

/-! The functions of `db.c` as programs: one statement each, with the return
code made from its reply. -/
namespace Tumgrd

def rowToNode (r : Row) : Prog Node :=
  if r.lastAppliedAt < 0 then pure (r.toNode 0)
  else do
    let now ← time
    pure (r.toNode now)

/-- The three return codes of `tumgrd_db_get_node`: 0, 1 and -1. -/
inductive Lookup where
  | found (n : Node)
  | absent
  | failed

def dbGetNode (k : Key) : Prog Lookup := do
  match ← sql (.select k) with
  | .error => pure .failed
  | .ok [] _ => pure .absent
  | .ok (r :: _) _ => do
      let n ← rowToNode r
      pure (.found n)

def dbListNodes : Prog (Option (List Node)) := do
  match ← sql .list with
  | .error => pure none
  | .ok rows _ => do
      let nodes ← rows.mapM rowToNode
      pure (some nodes)

/-- The copy that `tumgrd_db_upsert_node` binds, with its defaults filled in. -/
def Node.withDefaults (n : Node) (createdAt lastUpdated : Int) : Node :=
  { n with
    createdAt
    lastUpdated
    ipCheckUrl := if n.ipCheckUrl.text = [] then defaultIpCheckUrl else n.ipCheckUrl
    status := if n.status.text = [] then statusActive else n.status }

def timeIfZero (t : Int) : Prog Int := if t = 0 then time else pure t

def dbUpsertNode (n : Node) (setLifetime : Bool) : Prog Int := do
  let createdAt ← timeIfZero n.createdAt
  let lastUpdated ← timeIfZero n.lastUpdated
  match ← sql (.upsert (n.withDefaults createdAt lastUpdated) setLifetime) with
  | .error => pure (-1)
  | .ok _ _ => pure 0

def dbDeleteNode (k : Key) : Prog Int := do
  match ← sql (.delete k) with
  | .error => pure (-1)
  | .ok _ changes => pure (if changes > 0 then 0 else 1)

/-- A keyed `UPDATE` that must change exactly one row. -/
def dbUpdateOne (k : Key) (set : Assign) (guard : Guard) : Prog Int := do
  match ← sql (.update k set guard) with
  | .error => pure (-1)
  | .ok _ changes => pure (if changes ≠ 1 then -1 else 0)

def setRuntime (currentIp : Buf 64) (status : Buf 32) (lastUpdated : Int) : Assign :=
  { currentIp := some (bindTextOrNull currentIp), status, lastUpdated }

/-- Unlike the others, this one only warns when no row was there to update. -/
def dbUpdateRuntime (k : Key) (currentIp : Buf 64) (status : Buf 32) (lastUpdated : Int) :
    Prog Int := do
  match ← sql (.update k (setRuntime currentIp status lastUpdated) .any) with
  | .error => pure (-1)
  | .ok _ _ => pure 0

def setApplied (lastAppliedAt : Int) : Assign := { lastAppliedAt }

def dbUpdateApplied (k : Key) (lastAppliedAt : Int) : Prog Int :=
  dbUpdateOne k (setApplied lastAppliedAt) .any

/-- The key is stored as the present and as the pending one in one statement. -/
def setRotation (newXorKey : Buf 129) (rotationState : Int32) (now : Int) : Assign :=
  { xorKey := newXorKey, xorKeyPending := newXorKey, rotationState, lastUpdated := now }

def dbBeginRotation (k : Key) (newXorKey : Buf 129) (rotationState : Int32) (now : Int) :
    Prog Int :=
  dbUpdateOne k (setRotation newXorKey rotationState now) .zero

def dbReplaceRotation (k : Key) (newXorKey : Buf 129) (now : Int) : Prog Int :=
  dbUpdateOne k (setRotation newXorKey rotationPendingRemote now) .any

def setCompleted (lastAppliedAt : Int) : Assign :=
  { rotationState := some 0, xorKeyPending := some .empty, lastAppliedAt }

def dbCompleteRotation (k : Key) (lastAppliedAt : Int) : Prog Int :=
  dbUpdateOne k (setCompleted lastAppliedAt) .nonzero

def setRotationState (rotationState : Int32) : Assign := { rotationState }

def dbUpdateRotationState (k : Key) (rotationState : Int32) : Prog Int :=
  if rotationState ≠ rotationPendingRemote ∧ rotationState ≠ rotationPendingLocalRecovery then
    pure (-1)
  else
    dbUpdateOne k (setRotationState rotationState) .pending

def setCleared : Assign := { rotationState := some 0, xorKeyPending := some .empty }

def dbClearRotation (k : Key) : Prog Int := dbUpdateOne k setCleared .any

end Tumgrd
