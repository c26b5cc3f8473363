import Tumgrd.Effect.Program
import Tumgrd.Sql

/-! What the daemon asks of its surroundings, and the world that answers: the
clock, the random device, address detection, the two tools, SQLite, the log. -/
namespace Tumgrd

inductive Level where
  | error
  | warn
  | info
  | debug
  deriving DecidableEq

structure LogLine where
  level : Level
  text : Str
  deriving DecidableEq

inductive Tool where
  | serverAdd
  | serverDel
  | clientAdd
  | clientDel
  deriving DecidableEq

/-- Which runner function started a subprocess, for which node, and with which
detected address. The subprocess sees only the invocation. -/
structure Issue where
  tool : Tool
  node : Node
  ip : Str := []
  deriving DecidableEq

structure Invocation where
  argv : List Str
  stdin : Option Str
  memlimit : Option Int
  deriving DecidableEq

/-- What `exec_with_stdio` leaves behind: its return value, the timeout flag,
the two buffers, and the lines it logged itself. -/
structure ExecResult where
  rc : Int
  timedOut : Bool
  stdout : Str
  stderr : Str
  lines : List LogLine

/-- The return of `detect_public_ip` and its output buffer, which a failed
detection may leave filled. -/
structure Detection where
  ok : Bool
  ip : Buf 64

/-- Calls and returns of `tumgrd_reconcile_one`, with the node as it is in
memory, and the end of the startup reconcile. They do nothing. -/
inductive Report where
  | called (n : Node) (force : Bool)
  | skipped (n : Node)
  | returned (n : Node) (err : Int)
  | startupDone
  deriving DecidableEq

inductive Req where
  | time
  | randomKey
  | detect (url ipVersion : Str)
  | exec (issue : Issue) (call : Invocation)
  | timedOut
  | sql (s : Stmt)
  | log (line : LogLine)
  | report (what : Report)
  deriving DecidableEq

@[reducible] def Resp : Req → Type
  | .time => Int
  | .randomKey => Option HexKey
  | .detect _ _ => Detection
  | .exec _ _ => ExecResult
  | .timedOut => Bool
  | .sql _ => SqlReply
  | .log _ => Unit
  | .report _ => Unit

structure Event where
  req : Req
  resp : Resp req

/-- A subprocess that ran. -/
structure Command where
  issue : Issue
  call : Invocation
  result : ExecResult

@[simp, reducible] def Report.isCall : Report → Bool
  | .called _ _ => true
  | .skipped _ | .returned _ _ | .startupDone => false

@[simp, reducible] def Req.isCall : Req → Bool
  | .report what => what.isCall
  | .time | .randomKey | .detect _ _ | .exec _ _ | .timedOut | .sql _ | .log _ => false

def Req.isExec : Req → Bool
  | .exec _ _ => true
  | _ => false

/-- A report that changes which call is running. -/
@[simp, reducible] def Report.mark? : Report → Option (Option Node)
  | .called n _ => some (some n)
  | .returned _ _ => some none
  | .skipped _ | .startupDone => none

@[simp, reducible] def Req.mark? : Req → Option (Option Node)
  | .report what => what.mark?
  | .time | .randomKey | .detect _ _ | .exec _ _ | .timedOut | .sql _ | .log _ => none

@[simp] def Event.command? : Event → Option Command
  | ⟨.exec issue call, result⟩ => some ⟨issue, call, result⟩
  | _ => none

/-- The lines an event wrote to the log. -/
def Event.lines : Event → List LogLine
  | ⟨.log line, _⟩ => [line]
  | ⟨.exec _ _, result⟩ => result.lines
  | _ => []

/-- The stored table, everything that happened (newest first), the global
`g_watchdog_timed_out`, and whether the forced startup reconcile is still due. -/
structure World where
  table : Table
  trace : List Event
  timedOut : Bool
  booting : Bool

namespace World

/-- The subprocesses that ran, newest first. -/
def commands (w : World) : List Command := w.trace.filterMap Event.command?

/-- What happened since the last call of `tumgrd_reconcile_one`, newest first. -/
def callTrace (w : World) : List Event := w.trace.takeWhile fun e => !e.req.isCall

def callCommands (w : World) : List Command := w.callTrace.filterMap Event.command?

/-- The node of the call of `tumgrd_reconcile_one` that has not returned. -/
def running (w : World) : Option Node := (w.trace.findSome? fun e => e.req.mark?).join

/-- The log, oldest line first. -/
def lines (w : World) : List LogLine := w.trace.reverse.flatMap Event.lines

def tableAfter (t : Table) : (q : Req) → Resp q → Table
  | .sql s, .ok _ _ => s.effect t
  | _, _ => t

def timedOutAfter (flag : Bool) : (q : Req) → Resp q → Bool
  | .exec _ _, result => result.timedOut
  | _, _ => flag

def bootingAfter (booting : Bool) : Req → Bool
  | .report .startupDone => false
  | _ => booting

def after (w : World) (q : Req) (r : Resp q) : World where
  table := tableAfter w.table q r
  trace := ⟨q, r⟩ :: w.trace
  timedOut := timedOutAfter w.timedOut q r
  booting := bootingAfter w.booting q

end World

/-- The answers the surroundings may give. A subprocess that exits with success
leaves the timeout flag clear; a successful detection gives a non-empty
address. A failing statement (`sqlMayFail`) leaves the table as it is. -/
def allowed (sqlMayFail : Prop) (w : World) : (q : Req) → Resp q → Prop
  | .detect _ _, found => found.ok → found.ip.text ≠ []
  | .exec _ _, result => result.rc ≤ 0 ∧ (result.rc = 0 → result.timedOut = false)
  | .timedOut, flag => flag = w.timedOut
  | .sql s, reply => s.Replies w.table reply ∨ sqlMayFail ∧ reply = .error
  | _, _ => True

abbrev sem (sqlMayFail : Prop) : Effect.Semantics Req Resp World :=
  ⟨allowed sqlMayFail, World.after⟩

abbrev Prog := Effect.Program Req Resp

def perform (q : Req) : Prog (Resp q) := Effect.Program.perform q

def time : Prog Int := perform .time
def randomKey : Prog (Option HexKey) := perform .randomKey
def detect (url ipVersion : Str) : Prog Detection := perform (.detect url ipVersion)
def exec (issue : Issue) (call : Invocation) : Prog ExecResult := perform (.exec issue call)
def readTimedOut : Prog Bool := perform .timedOut
def sql (s : Stmt) : Prog SqlReply := perform (.sql s)
def log (level : Level) (text : Str) : Prog Unit := perform (.log ⟨level, text⟩)
def report (what : Report) : Prog Unit := perform (.report what)

namespace World

variable (w : World)

@[simp] theorem trace_after (q : Req) (r : Resp q) :
    (w.after q r).trace = ⟨q, r⟩ :: w.trace := rfl

@[simp] theorem table_after_time (t : Int) : (w.after .time t).table = w.table := rfl

@[simp] theorem table_after_randomKey (key : Option HexKey) :
    (w.after .randomKey key).table = w.table := rfl

@[simp] theorem table_after_detect (url ipVersion : Str) (found : Detection) :
    (w.after (.detect url ipVersion) found).table = w.table := rfl

@[simp] theorem table_after_exec (issue : Issue) (call : Invocation) (result : ExecResult) :
    (w.after (.exec issue call) result).table = w.table := rfl

@[simp] theorem table_after_timedOut (flag : Bool) : (w.after .timedOut flag).table = w.table := rfl

@[simp] theorem table_after_log (line : LogLine) : (w.after (.log line) ()).table = w.table := rfl

@[simp] theorem table_after_report (what : Report) :
    (w.after (.report what) ()).table = w.table := rfl

@[simp] theorem table_after_error (s : Stmt) : (w.after (.sql s) .error).table = w.table := rfl

@[simp] theorem table_after_ok (s : Stmt) (rows : List Row) (changes : Nat) :
    (w.after (.sql s) (.ok rows changes)).table = s.effect w.table := rfl

theorem commands_after (q : Req) (r : Resp q) :
    (w.after q r).commands = (Event.command? ⟨q, r⟩).toList ++ w.commands := by
  unfold commands
  rw [trace_after, List.filterMap_cons]
  cases Event.command? ⟨q, r⟩ <;> rfl

@[simp] theorem callTrace_after {q : Req} (r : Resp q) (h : q.isCall = false) :
    (w.after q r).callTrace = ⟨q, r⟩ :: w.callTrace := by
  exact List.takeWhile_cons_of_pos (congrArg (fun b => !b) h)

@[simp] theorem callTrace_after_called (n : Node) (force : Bool) :
    (w.after (.report (.called n force)) ()).callTrace = [] := rfl

@[simp] theorem callCommands_after {q : Req} (r : Resp q) (h : q.isCall = false) :
    (w.after q r).callCommands = (Event.command? ⟨q, r⟩).toList ++ w.callCommands := by
  unfold callCommands
  rw [callTrace_after w r h, List.filterMap_cons]
  cases Event.command? ⟨q, r⟩ <;> rfl

@[simp] theorem callCommands_after_called (n : Node) (force : Bool) :
    (w.after (.report (.called n force)) ()).callCommands = [] := rfl

@[simp] theorem running_after {q : Req} (r : Resp q) (h : q.mark? = none) :
    (w.after q r).running = w.running := by
  unfold running
  rw [trace_after, List.findSome?_cons, h]

@[simp] theorem running_after_called (n : Node) (force : Bool) :
    (w.after (.report (.called n force)) ()).running = some n := rfl

@[simp] theorem commands_after_time (t : Int) : (w.after .time t).commands = w.commands := rfl

@[simp] theorem commands_after_randomKey (key : Option HexKey) :
    (w.after .randomKey key).commands = w.commands := rfl

@[simp] theorem commands_after_detect (url ipVersion : Str) (found : Detection) :
    (w.after (.detect url ipVersion) found).commands = w.commands := rfl

@[simp] theorem commands_after_exec (issue : Issue) (call : Invocation) (result : ExecResult) :
    (w.after (.exec issue call) result).commands = ⟨issue, call, result⟩ :: w.commands := rfl

@[simp] theorem commands_after_timedOut (flag : Bool) :
    (w.after .timedOut flag).commands = w.commands := rfl

@[simp] theorem commands_after_log (line : LogLine) :
    (w.after (.log line) ()).commands = w.commands := rfl

@[simp] theorem commands_after_report (what : Report) :
    (w.after (.report what) ()).commands = w.commands := rfl

@[simp] theorem commands_after_sql (s : Stmt) (reply : SqlReply) :
    (w.after (.sql s) reply).commands = w.commands := rfl

end World

end Tumgrd
