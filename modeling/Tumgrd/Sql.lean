import Tumgrd.Node
import Tumgrd.Store.Keyed

/-! The SQL statements of `db.c` and what each of them does to the table. -/
namespace Tumgrd

abbrev Table := Keyed Row.key Row.slot

/-- The `SET` list of an `UPDATE`: the columns it names, with their values. -/
structure Assign where
  currentIp : Option (Option (Buf 64)) := none
  status : Option (Buf 32) := none
  lastUpdated : Option Int := none
  lastAppliedAt : Option Int := none
  xorKey : Option (Buf 129) := none
  rotationState : Option Int32 := none
  xorKeyPending : Option (Buf 129) := none
  deriving DecidableEq

def Row.assign (r : Row) (set : Assign) : Row :=
  { r with
    currentIp := set.currentIp.getD r.currentIp
    status := set.status.or r.status
    lastUpdated := set.lastUpdated.getD r.lastUpdated
    lastAppliedAt := set.lastAppliedAt.getD r.lastAppliedAt
    xorKey := set.xorKey.or r.xorKey
    rotationState := set.rotationState.getD r.rotationState
    xorKeyPending := set.xorKeyPending.or r.xorKeyPending }

@[simp] theorem Row.key_assign (r : Row) (set : Assign) : (r.assign set).key = r.key := rfl

@[simp] theorem Row.slot_assign (r : Row) (set : Assign) : (r.assign set).slot = r.slot := rfl

/-- What the `WHERE` clause asks of `rotation_state`, besides the key. -/
inductive Guard where
  | any
  | zero
  | nonzero
  | pending
  deriving DecidableEq

def Guard.holds : Guard → Int32 → Bool
  | .any, _ => true
  | .zero, state => state = 0
  | .nonzero, state => state ≠ 0
  | .pending, state => state = rotationPendingRemote || state = rotationPendingLocalRecovery

inductive Stmt where
  | select (k : Key)
  | list
  | upsert (n : Node) (setLifetime : Bool)
  | delete (k : Key)
  | update (k : Key) (set : Assign) (guard : Guard)
  deriving DecidableEq

/-- What a statement returns: its rows and `sqlite3_changes`, or an error. -/
inductive SqlReply where
  | error
  | ok (rows : List Row) (changes : Nat)

def Row.update (set : Assign) (guard : Guard) (r : Row) : Row :=
  if guard.holds r.rotationState then r.assign set else r

theorem Row.key_update (set : Assign) (guard : Guard) (r : Row) :
    (r.update set guard).key = r.key := by
  unfold Row.update
  split <;> rfl

theorem Row.slot_update (set : Assign) (guard : Guard) (r : Row) :
    (r.update set guard).slot = r.slot := by
  unfold Row.update
  split <;> rfl

/-- The table after a statement that did not fail. -/
def Stmt.effect (t : Table) : Stmt → Table
  | .select _ | .list => t
  | .upsert n setLifetime =>
      (t.put? Row.merge Row.key_merge Row.slot_merge (Row.ofNode n setLifetime)).getD t
  | .delete k => t.erase k
  | .update k set guard =>
      t.updateAt k (Row.update set guard) (Row.key_update set guard) (Row.slot_update set guard)

/-- `ORDER BY server_host, server_port, uid`. -/
def Row.listedBefore (r s : Row) : Prop :=
  r.serverHost.text < s.serverHost.text ∨ r.serverHost = s.serverHost ∧
    (r.serverPort < s.serverPort ∨ r.serverPort = s.serverPort ∧ r.uid.text ≤ s.uid.text)

/-- The reply of a statement that did not fail for a reason outside the table.
Rows that compare equal are listed in any order. -/
def Stmt.Replies (t : Table) : Stmt → SqlReply → Prop
  | .select k, reply => reply = .ok (t.find? k).toList 0
  | .list, reply => ∃ rows, reply = .ok rows 0 ∧ rows.Perm t.rows ∧
    rows.Pairwise Row.listedBefore
  | .upsert n setLifetime, reply =>
      reply = if t.Taken (Row.ofNode n setLifetime) then .error else .ok [] 1
  | .delete k, reply => reply = .ok [] (t.countAt k fun _ => true)
  | .update k _ guard, reply => reply = .ok [] (t.countAt k fun r => guard.holds r.rotationState)

end Tumgrd
