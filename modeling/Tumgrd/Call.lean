import Tumgrd.Commands
import Tumgrd.Reconcile
import Tumgrd.Rules

/-! What one call of `tumgrd_reconcile_one` may issue, and in which situation.
The call is described from its entry: the arguments, the table it starts on,
and how the node in memory and its stored row agree. -/
namespace Tumgrd

/-- The rotation fields in memory are the stored ones. -/
structure Mirrors (n : Node) (r : Row) : Prop where
  xorKey : columnText r.xorKey = n.xorKey
  rotationState : r.rotationState = n.rotationState
  xorKeyPending : columnText r.xorKeyPending = n.xorKeyPending

/-- A register whose texts are longer than the node's buffers may create a node
over a row it has not read. That row may be rotating, which the node is not. -/
inductive Linked : Bool → Node → Row → Prop
  | faithful {n : Node} {r : Row} : Mirrors n r → Linked true n r
  | stale {n : Node} {r : Row} :
      n.rotationState = rotationNone → r.rotationState ≠ rotationNone → Linked false n r

theorem Linked.mirrors {n : Node} {r : Row} (h : Linked true n r) : Mirrors n r := by
  cases h with
  | faithful mirrors => exact mirrors

/-- A call at its entry, with the commands that ran before it. -/
structure Call where
  cfg : Config
  node : Node
  force : Bool
  table : Table
  commands : List Command
  row : Row
  faithful : Bool
  stored : table.find? node.key = some row
  clientPort : row.clientPort = node.clientPort
  linked : Linked faithful node row

def Call.key (c : Call) : Key := c.node.key

/-- The call for a row as `row_to_node` reads it. -/
def Row.call (cfg : Config) (force : Bool) (load : Int) (w : World) (r : Row)
    (stored : w.table.find? r.key = some r) : Call where
  cfg := cfg
  node := r.toNode load
  force := force
  table := w.table
  commands := w.commands
  row := r
  faithful := true
  stored := stored
  clientPort := rfl
  linked := .faithful ⟨rfl, rfl, rfl⟩

/-- Either repair block finds something to repair. -/
def Node.damaged (n : Node) : Bool := n.stateInvalid || n.keyMismatch

def Node.seeds (n : Node) (now : Int) : Prop :=
  minSaneTime ≤ now ∧ 0 < n.lifetime ∧ n.lastAppliedAt = 0

def Node.overdue (n : Node) (now : Int) : Prop :=
  minSaneTime ≤ now ∧ 0 < n.lifetime ∧ n.lastAppliedAt ≠ 0 ∧
    n.lifetime ≤ now - n.lastAppliedAt

/-- The ways through the repair blocks and the expiry check, with the node, the
two flags and the table they lead to. -/
inductive Decided (c : Call) (now : Int) : Node → Bool → Bool → Table → Prop
  | unexpired : c.node.damaged = false → c.node.rotationState = rotationNone →
      ¬c.node.seeds now → ¬c.node.overdue now → Decided c now c.node c.force false c.table
  | resumed : c.node.damaged = false → c.node.rotationState ≠ rotationNone →
      Decided c now c.node true true c.table
  | seeded : c.node.damaged = false → c.node.rotationState = rotationNone → c.node.seeds now →
      Decided c now c.node true true c.table
  | unkeyed : c.node.damaged = false → c.node.rotationState = rotationNone →
    c.node.overdue now →
      c.node.rotates c.cfg = false → Decided c now c.node true true c.table
  | begun (key : HexKey) (t : Table) : c.node.damaged = false →
      c.node.rotationState = rotationNone → c.node.overdue now → c.node.rotates c.cfg = true →
      Decided c now (c.node.rotateTo key) true true t
  | replaced (key : HexKey) (t : Table) : c.node.damaged = true → c.node.rotates c.cfg = true →
      Decided c now (c.node.rotateTo key) true true t
  | cleared (expired : Bool) (t : Table) :
    c.node.damaged = true → c.node.rotates c.cfg = false →
      (expired = true ↔ c.node.seeds now ∨ c.node.overdue now) →
      Decided c now c.node.clearRotation (c.force || expired) expired t

/-- Only the rotation and the runtime columns of a row move during a call. -/
def Row.Follows (r r₀ : Row) : Prop :=
  r = { r₀ with
    xorKey := r.xorKey
    rotationState := r.rotationState
    xorKeyPending := r.xorKeyPending
    lastUpdated := r.lastUpdated
    currentIp := r.currentIp
    status := r.status }

theorem Row.Follows.refl (r : Row) : r.Follows r := rfl

theorem Row.Follows.assign {r r₀ : Row} (h : r.Follows r₀) {set : Assign}
    (hset : set.lastAppliedAt = none) : (r.assign set).Follows r₀ := by
  unfold Row.Follows at h ⊢
  rw [h]
  simp [Row.assign, hset]

/-- A call in progress with `n` in memory, before it records what it applied.
The address it has found is empty until it has one. -/
structure During (c : Call) (now : Int) (n : Node) (found : Buf 64) (w : World) : Prop where
  others : ∀ k, k ≠ c.key → w.table.find? k = c.table.find? k
  row : ∃ r, w.table.find? c.key = some r ∧ Linked c.faithful n r ∧ r.Follows c.row
  running : w.running = some c.node
  clock : w.callTrace.getLast? = some ⟨.time, now⟩
  own : ∀ cmd ∈ w.callCommands, cmd.issue.node.key = c.key
  earlier : w.commands = w.callCommands ++ c.commands
  kept : n = { c.node with
    xorKey := n.xorKey
    rotationState := n.rotationState
    xorKeyPending := n.xorKeyPending }
  fresh : n.xorKey = c.node.xorKey ∧
      (c.node.rotationState = rotationNone → n.rotationState = rotationNone) ∨
    ∃ key, ⟨.randomKey, some key⟩ ∈ w.callTrace ∧ n.xorKey = key.buf
  detected : found = .empty ∨
    ∃ url ipVersion, ⟨.detect url ipVersion, ⟨true, found⟩⟩ ∈ w.callTrace

/-- An acknowledged server-add with the port and the key of `n`. -/
structure Command.Pushes (cmd : Command) (n : Node) (ip : Str) : Prop where
  tool : cmd.issue.tool = .serverAdd
  key : cmd.issue.node.key = n.key
  clientPort : cmd.issue.node.clientPort = n.clientPort
  xorKey : cmd.issue.node.xorKey = n.xorKey
  ip : cmd.issue.ip = ip
  built : cmd.issue.Builds cmd.call
  acknowledged : cmd.result.acknowledges serverUpdated = true

/-- A successful client-add with the port and the key of `n`. -/
structure Command.Installs (cmd : Command) (n : Node) : Prop where
  tool : cmd.issue.tool = .clientAdd
  key : cmd.issue.node.key = n.key
  clientPort : cmd.issue.node.clientPort = n.clientPort
  xorKey : cmd.issue.node.xorKey = n.xorKey
  built : cmd.issue.Builds cmd.call
  succeeded : cmd.result.rc = 0

/-- The commands of a call after its server-add, newest first. -/
def Pushed (cmds : List Command) (n : Node) (ip : Str) : Prop :=
  ∃ cmd rest, cmds = cmd :: rest ∧ cmd.Pushes n ip

/-- The commands of a call after its client-add. -/
def Installed (cmds : List Command) (n : Node) (ip : Str) : Prop :=
  ∃ add del rest, cmds = add :: del :: rest ∧ add.Installs n ∧ del.issue.tool = .clientDel ∧
    Pushed rest n ip

/-- A call that is about to test whether it has to apply anything. -/
structure Ready (c : Call) (now : Int) (l : Locals) (w : World) : Prop where
  decided : Decided c now l.node l.force l.expired w.table
  during : During c now l.node l.detectedIp w
  idle : w.callCommands = []
  detected : l.detectedIp.text ≠ []

/-- A call that has applied the node remotely, which promotes a pending rotation. -/
structure Applying (c : Call) (now : Int) (l : Locals) (w : World) : Prop where
  during : During c now l.node l.detectedIp w
  origin : ∃ m t, Decided c now m l.force l.expired t ∧
    (l.node = m ∧ m.rotationState ≠ rotationPendingRemote ∨
      m.rotationState = rotationPendingRemote ∧
        l.node = { m with rotationState := rotationPendingLocalRecovery })
  succeeded : l.serverApplySucceeded = true
  detected : l.detectedIp.text ≠ []
  needed : needApply l = true

/-- What a call that applied the node leaves behind. -/
structure Completed (c : Call) (now : Int) (l : Locals) (w : World) : Prop where
  others : ∀ k, k ≠ c.key → w.table.find? k = c.table.find? k
  origin : ∃ m t, Decided c now m l.force l.expired t ∧ l.node.xorKey = m.xorKey
  clock : w.callTrace.getLast? = some ⟨.time, now⟩
  found : ∃ url ipVersion, ⟨.detect url ipVersion, ⟨true, l.detectedIp⟩⟩ ∈ w.callTrace
  needed : needApply l = true
  own : ∀ cmd ∈ w.callCommands, cmd.issue.node.key = c.key
  earlier : w.commands = w.callCommands ++ c.commands
  commands : Installed w.callCommands l.node l.detectedIp.text
  kept : l.node = { c.node with
    xorKey := l.node.xorKey
    rotationState := l.node.rotationState
    xorKeyPending := l.node.xorKeyPending
    lastAppliedAt := l.node.lastAppliedAt }
  rotationState : l.node.rotationState = rotationNone
  xorKeyPending : l.node.xorKeyPending = .empty ∨
    c.node.rotationState = rotationNone ∧ l.node.xorKeyPending = c.node.xorKeyPending
  row : ∃ r, w.table.find? c.key = some r ∧ Linked c.faithful l.node r ∧
    r.clientPort = c.node.clientPort ∧ r.status = some statusActive ∧
    r.currentIp = some l.detectedIp ∧
    (l.expired = false → r.lastAppliedAt = c.row.lastAppliedAt) ∧
    (l.expired = true → minSaneTime ≤ now → r.lastAppliedAt = now)

/-- How a call ends: with which code and node in memory, and in which world. -/
inductive Outcome (sqlMayFail : Prop) (c : Call) (now : Int) : Int × Node → World → Prop
  | skipped {l : Locals} {v w : World} : Ready c now l v → needApply l = false →
      w.table = v.table → w.commands = v.commands → w.callCommands = v.callCommands →
      v.callTrace <:+ w.callTrace →
      Outcome sqlMayFail c now (0, l.node) w
  | applied {l : Locals} {w : World} :
    Completed c now l w → Outcome sqlMayFail c now (0, l.node) w
  | failed {n : Node} {err : Int} {w : World} {r : Row} : err ≠ 0 →
      n.key = c.key → (∀ k, k ≠ c.key → w.table.find? k = c.table.find? k) →
      (∀ cmd ∈ w.callCommands, cmd.issue.node.key = c.key) →
      w.commands = w.callCommands ++ c.commands → w.table.find? c.key = some r →
      Linked c.faithful n r → (r.status = some statusError ∨ sqlMayFail) →
      Outcome sqlMayFail c now (err, n) w

/-- The requests of a call, each with what is known where it is issued. -/
inductive Issued (sqlMayFail : Prop) (c : Call) : World → Req → Prop
  | quiet {w : World} {q : Req} : q.quiet = true → Issued sqlMayFail c w q
  | called {w : World} : w.table = c.table →
      Issued sqlMayFail c w (.report (.called c.node c.force))
  | replace {w : World} {key : HexKey} {now : Int} : c.node.damaged = true →
      c.node.rotates c.cfg = true → w.table = c.table →
      Issued sqlMayFail c w
        (.sql (.update c.key (setRotation key.buf rotationPendingRemote now) .any))
  | clear {w : World} : c.node.damaged = true → c.node.rotates c.cfg = false →
      w.table = c.table → Issued sqlMayFail c w (.sql (.update c.key setCleared .any))
  | begin {w : World} {key : HexKey} {now : Int} : c.node.damaged = false →
      c.node.rotationState = rotationNone → c.node.overdue now → c.node.rotates c.cfg = true →
      w.table = c.table → Issued sqlMayFail c w
        (.sql (.update c.key (setRotation key.buf rotationPendingRemote now) .zero))
  | skipped {w : World} {now : Int} {l : Locals} : Ready c now l w → needApply l = false →
      Issued sqlMayFail c w (.report (.skipped l.node))
  | exec {w : World} {now : Int} {found : Buf 64} {issue : Issue} {call : Invocation} :
      During c now issue.node found w → issue.Builds call →
        Issued sqlMayFail c w (.exec issue call)
  | promote {w : World} {now : Int} {n : Node} {found : Buf 64} {ip : Str} :
      During c now n found w →
      n.rotationState = rotationPendingRemote → Pushed w.callCommands n ip →
      Issued sqlMayFail c w
        (.sql (.update c.key (setRotationState rotationPendingLocalRecovery) .pending))
  | runtime {w : World} {ip : Buf 64} {status : Buf 32} {now : Int} : status.text ≠ [] →
      Issued sqlMayFail c w (.sql (.update c.key (setRuntime ip status now) .any))
  | complete {w : World} {now : Int} {l : Locals} : Applying c now l w →
      Installed w.callCommands l.node l.detectedIp.text →
        l.node.rotationState ≠ rotationNone →
      Issued sqlMayFail c w
        (.sql (.update c.key (setCompleted (if now ≥ minSaneTime then now else 0)) .nonzero))
  | applied {w : World} {now : Int} {l : Locals} : Applying c now l w →
      l.node.rotationState = rotationNone → l.expired = true →
      Issued sqlMayFail c w (.sql (.update c.key (setApplied now) .any))
  | returned {w : World} {now err : Int} {n : Node} : Outcome sqlMayFail c now (err, n) w →
      Issued sqlMayFail c w (.report (.returned n err))

end Tumgrd
