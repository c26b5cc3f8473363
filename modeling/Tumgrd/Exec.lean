import Tumgrd.Effect.Process
import Tumgrd.World

/-! `exec_with_stdio` of `runner.c`, system call by system call. Its own log lines
are left out; the kernel, the child and `g_watchdog_timed_out`, which the signal
handler writes, are its surroundings. -/
namespace Tumgrd

open Effect

@[simp] abbrev subprocTimeout : Nat := 90
@[simp] abbrev subprocTimeoutRetry : Nat := 5

inductive Stream where
  | stdin
  | stdout
  | stderr
  deriving DecidableEq

/-- One end of one of the three pipes, as the parent holds it. -/
structure PipeEnd where
  stream : Stream
  writes : Bool
  deriving DecidableEq

/-- What is done before the child is spawned, each of which may fail. -/
inductive Setup where
  | pipe (s : Stream)
  | prepare (e : PipeEnd)
  | fileActionsInit
  | adddup2 (s : Stream)
  | attrInit
  | setsigdefault
  | setpgroup
  | setflags
  | callocEnvp
  | strdupMemlimit
  deriving DecidableEq

inductive WaitStatus where
  | exited (code : Nat)
  | signaled
  deriving DecidableEq

inductive Waited where
  | reaped (status : WaitStatus)
  | interrupted
  | failed
  deriving DecidableEq

inductive Written where
  | count (n : Nat)
  | interrupted
  | failed
  deriving DecidableEq

inductive ReadResult where
  | eof
  | data (first : Char) (more : Str)
  | interrupted
  | failed
  deriving DecidableEq

inductive Syscall where
  | maskAlarm
  | restoreMask
  | alarm (seconds : Nat)
  | discardPending
  | clearTimedOut
  | readTimedOut
  | setup (what : Setup)
  | spawn
  | kill (group : Bool)
  | waitpid
  | write (bytes : Str)
  | read (s : Stream) (room : Nat)
  | close (e : PipeEnd)
  deriving DecidableEq

@[reducible] def SysResp : Syscall → Type
  | .readTimedOut | .setup _ | .spawn => Bool
  | .waitpid => Waited
  | .write _ => Written
  | .read _ _ => ReadResult
  | .maskAlarm | .restoreMask | .alarm _ | .discardPending | .clearTimedOut | .kill _ | .close _ =>
      Unit

abbrev Sub := Process Syscall SysResp

def syscall (q : Syscall) : Sub (SysResp q) := Process.perform q

/-! The watchdog. -/

def watchdogArm (usable : Bool) : Sub Unit := do
  syscall .maskAlarm
  syscall (.alarm 0)
  syscall .discardPending
  syscall .clearTimedOut
  if usable then do
    syscall (.alarm subprocTimeout)
    syscall .restoreMask
  else syscall .restoreMask

def watchdogDisarm : Sub Unit := do
  syscall .maskAlarm
  syscall (.alarm 0)
  syscall .discardPending
  syscall .restoreMask

def reapStep (_ : Unit) : Sub (Unit ⊕ Unit) := do
  match ← syscall .waitpid with
  | .interrupted => do
      syscall (.kill false)
      pure (.inl ())
  | .reaped _ | .failed => pure (.inr ())

/-- `watchdog_check(pid)` for a child that has not been reaped: whether it returns -1. -/
def watchdogCheck : Sub Bool := do
  let late ← syscall .readTimedOut
  if late then do
    syscall (.kill true)
    Process.iterate reapStep ()
    pure true
  else pure false

/-- `watchdog_check(-1)`. -/
def watchdogCheckReaped : Sub Bool := syscall .readTimedOut

/-! The loops. -/

def writeStep (rest : Str) : Sub (Str ⊕ Unit) :=
  if rest = [] then pure (.inr ())
  else do
    let late ← syscall .readTimedOut
    if late then pure (.inr ())
    else do
      match ← syscall (.write rest) with
      | .count n => pure (.inl (rest.drop n))
      | .interrupted => do
          let late ← syscall .readTimedOut
          pure (if late then .inr () else .inl rest)
      | .failed => pure (.inr ())

/-- One round of `read_all_fd` with a buffer of `size` bytes. -/
def readStep (s : Stream) (size : Nat) (used : Str) : Sub (Str ⊕ Str) := do
  match ← syscall (.read s (size - 1 - used.length)) with
  | .eof | .failed => pure (.inr used)
  | .interrupted => do
      let late ← syscall .readTimedOut
      pure (if late then .inr used else .inl used)
  | .data first more =>
      let used := used ++ first :: more
      pure (if used.length ≥ size - 1 then .inr used else .inl used)

/-- `read_all_fd`, whose return value only decides on a log line. Without a
buffer nothing is read. -/
def readAllFd (s : Stream) (size : Nat) : Sub Str :=
  if size = 0 then pure [] else Process.iterate (readStep s size) []

def waitStep (_ : Unit) : Sub (Unit ⊕ Option WaitStatus) := do
  match ← syscall .waitpid with
  | .reaped status => pure (.inr (some status))
  | .interrupted => do
      let late ← syscall .readTimedOut
      if late then do
        let _ ← watchdogCheck
        pure (.inr none)
      else pure (.inl ())
  | .failed => pure (.inr none)

/-! The function. -/

structure Job where
  argv : List Str
  stdin : Str
  hasMemlimit : Bool
  stdoutSize : Nat
  stderrSize : Nat

def Setup.opens : Setup → List PipeEnd
  | .pipe s => [⟨s, false⟩, ⟨s, true⟩]
  | _ => []

def pipeSetup (s : Stream) : List Setup :=
  [.pipe s, .prepare ⟨s, false⟩, .prepare ⟨s, true⟩]

def setupSteps (hasMemlimit : Bool) : List Setup :=
  pipeSetup .stdin ++ pipeSetup .stdout ++ pipeSetup .stderr ++
    [.fileActionsInit, .adddup2 .stdin, .adddup2 .stdout, .adddup2 .stderr, .attrInit,
      .setsigdefault, .setpgroup, .setflags] ++
    if hasMemlimit then [.callocEnvp, .strdupMemlimit] else []

/-- Up to the first step that fails, with the pipe ends that are open then. -/
def runSetup : List Setup → List PipeEnd → Sub (Bool × List PipeEnd)
  | [], pipes => pure (true, pipes)
  | step :: rest, pipes => do
      let ok ← syscall (.setup step)
      if ok then runSetup rest (pipes ++ step.opens) else pure (false, pipes)

/-- What is at `err_cleanup`: the return value, the buffers, the open pipe ends. -/
structure Ending where
  rc : Int
  stdout : Str
  stderr : Str
  pipes : List PipeEnd
  deriving DecidableEq

def checked (check : Sub Bool) (late : Ending) (rest : Sub Ending) : Sub Ending := do
  let expired ← check
  if expired then pure late else rest

def waitForChild (stdout stderr : Str) : Sub Ending := do
  match ← Process.iterate waitStep () with
  | none => pure ⟨-1, stdout, stderr, []⟩
  | some status =>
      checked watchdogCheckReaped ⟨-1, stdout, stderr, []⟩ <|
        pure ⟨if status = .exited 0 then 0 else -1, stdout, stderr, []⟩

def readStderr (job : Job) (stdout : Str) : Sub Ending := do
  let stderr ← readAllFd .stderr job.stderrSize
  syscall (.close ⟨.stderr, false⟩)
  checked watchdogCheck ⟨-1, stdout, stderr, []⟩ (waitForChild stdout stderr)

def readStdout (job : Job) : Sub Ending := do
  let stdout ← readAllFd .stdout job.stdoutSize
  syscall (.close ⟨.stdout, false⟩)
  checked watchdogCheck ⟨-1, stdout, [], [⟨.stderr, false⟩]⟩ (readStderr job stdout)

def writeStdin (job : Job) : Sub Ending := do
  syscall (.close ⟨.stdin, false⟩)
  syscall (.close ⟨.stdout, true⟩)
  syscall (.close ⟨.stderr, true⟩)
  Process.iterate writeStep job.stdin
  syscall (.close ⟨.stdin, true⟩)
  checked watchdogCheck ⟨-1, [], [], [⟨.stdout, false⟩, ⟨.stderr, false⟩]⟩
    (readStdout job)

def execBody (job : Job) : Sub Ending := do
  let (ready, pipes) ← runSetup (setupSteps job.hasMemlimit) []
  if ready then do
    let spawned ← syscall .spawn
    if spawned then checked watchdogCheck ⟨-1, [], [], pipes⟩ (writeStdin job)
    else pure ⟨-1, [], [], pipes⟩
  else pure ⟨-1, [], [], pipes⟩

def closeAll : List PipeEnd → Sub Unit
  | [] => pure ()
  | e :: rest => do
      syscall (.close e)
      closeAll rest

/-- `err_cleanup`. The flag is left standing where the function fails. -/
def errCleanup (ending : Ending) : Sub Ending := do
  watchdogDisarm
  if ending.rc = 0 then do
    syscall .clearTimedOut
    closeAll ending.pipes
    pure ending
  else do
    closeAll ending.pipes
    pure ending

def execWithStdio (usable : Bool) (job : Job) : Sub Ending :=
  if job.argv = [] then pure ⟨-1, [], [], []⟩
  else do
    watchdogArm usable
    let ending ← execBody job
    errCleanup ending

end Tumgrd
