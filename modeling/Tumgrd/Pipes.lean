import Tumgrd.Watchdog

/-! The child's side of `exec_with_stdio`: three pipes of one capacity between a
child that writes what it likes and a parent that serves them one after another,
into buffers that may be too small. No deadline is reached here. -/
namespace Tumgrd

open Effect Surroundings

inductive Output where
  | stdout
  | stderr
  deriving DecidableEq

def Output.stream : Output → Stream
  | .stdout => .stdout
  | .stderr => .stderr

/-- What a child does before it exits with status 0. It reads a byte, or it writes a
block, which goes into the pipe as a whole, as one of at most `PIPE_BUF` bytes does,
or which may go in parts. -/
inductive Act where
  | read
  | write (o : Output) (whole : Bool) (block : Str)
  deriving DecidableEq

/-- The ends that the parent holds, what the pipes hold, what the child has left to
do, and how it has ended. -/
structure Pipes where
  opened : PipeEnd → Bool
  stdin : Nat
  output : Output → Str
  todo : List Act
  status : Option WaitStatus

namespace Pipes

def ofChild (acts : List Act) : Pipes := ⟨fun _ => true, 0, fun _ => [], acts, none⟩

/-- Nobody is left to read the standard input. -/
def Unread (p : Pipes) : Prop := p.status ≠ none ∧ p.opened ⟨.stdin, false⟩ = false

/-- Nobody is left to write to the stream. -/
def Ended (p : Pipes) (o : Output) : Prop :=
  p.status ≠ none ∧ p.opened ⟨o.stream, true⟩ = false

end Pipes

/-- A read waits for a byte or for the end of the input. A block that fits the pipe is
put there at once. One that does not waits for room, and where it goes in parts a part
that fits is put first. Bytes that nobody can read raise `SIGPIPE`, which
`POSIX_SPAWN_SETSIGDEF` makes fatal. A child that has done everything exits, or it hangs. -/
inductive ChildStep (cap : Nat) (exits : Prop) (p : Pipes) : Pipes → Prop
  | read {n : Nat} {rest : List Act} : p.status = none → p.todo = .read :: rest →
      p.stdin = n + 1 → ChildStep cap exits p { p with stdin := n, todo := rest }
  | eof {rest : List Act} : p.status = none → p.todo = .read :: rest → p.stdin = 0 →
      p.opened ⟨.stdin, true⟩ = false → ChildStep cap exits p { p with todo := rest }
  | write {o : Output} {whole : Bool} {block : Str} {rest : List Act} : p.status = none →
      p.todo = .write o whole block :: rest → block ≠ [] →
      p.opened ⟨o.stream, false⟩ = true → (p.output o).length + block.length ≤ cap →
      ChildStep cap exits p { p with
        output := Function.update p.output o (p.output o ++ block)
        todo := rest }
  | part {o : Output} {head tail : Str} {rest : List Act} : p.status = none →
      p.todo = .write o false (head ++ tail) :: rest → head ≠ [] →
      p.opened ⟨o.stream, false⟩ = true → (p.output o).length + head.length ≤ cap →
      cap < (p.output o).length + (head ++ tail).length →
      ChildStep cap exits p { p with
        output := Function.update p.output o (p.output o ++ head)
        todo := .write o false tail :: rest }
  | nothing {o : Output} {whole : Bool} {rest : List Act} : p.status = none →
      p.todo = .write o whole [] :: rest → ChildStep cap exits p { p with todo := rest }
  | broken {o : Output} {whole : Bool} {block : Str} {rest : List Act} : p.status = none →
      p.todo = .write o whole block :: rest → block ≠ [] →
      p.opened ⟨o.stream, false⟩ = false →
      ChildStep cap exits p { p with status := some .signaled }
  | exit : exits → p.status = none → p.todo = [] →
      ChildStep cap exits p { p with status := some (.exited 0) }

/-- The parent ignores `SIGPIPE`, so its own write only fails. -/
def pipeAnswers (cap : Nat) (p : Pipes) : (q : Syscall) → SysResp q → Pipes → Prop
  | .setup _, ok, p' => ok = true ∧ p' = p
  | .spawn, ok, p' => ok = true ∧ p' = p
  | .close e, _, p' => p' = { p with opened := Function.update p.opened e false }
  | .kill _, _, p' => p' = { p with status := p.status.or (some .signaled) }
  | .write _, .count n, p' => ¬p.Unread ∧ p.stdin + n ≤ cap ∧
    p' = { p with stdin := p.stdin + n }
  | .write _, .failed, p' => p.Unread ∧ p' = p
  | .read s room, .data first more, p' => ∃ o : Output, o.stream = s ∧
      first :: more = (p.output o).take room ∧
      p' = { p with output := Function.update p.output o ((p.output o).drop room) }
  | .read s room, .eof, p' => p' = p ∧
      (room = 0 ∨ ∃ o : Output, o.stream = s ∧ p.output o = [] ∧ p.Ended o)
  | .waitpid, .reaped status, p' => p.status = some status ∧ p' = p
  | .write _, .interrupted, _ | .read _ _, .interrupted, _ | .read _ _, .failed, _
  | .waitpid, .interrupted, _ | .waitpid, .failed, _ => False
  | _, _, p' => p' = p

/-- Between two calls of the parent the child may go on. -/
abbrev piped (cap : Nat) (exits : Prop) : Surroundings Syscall SysResp (Kernel × Pipes) where
  answers w q r w' := posixAnswers w.1 q r w'.1 ∧ pipeAnswers cap w.2 q r w'.2
  event w w' := w.1.child = .alive ∧ w'.1 = w.1 ∧ ChildStep cap exits w.2 w'.2

theorem piped_event {cap : Nat} {exits : Prop} {k : Kernel} {p p' : Pipes}
    (child : k.child = .alive) (step : ChildStep cap exits p p') :
    (piped cap exits).event (k, p) (k, p') := ⟨child, rfl, step⟩

theorem piped_posix {cap : Nat} {exits : Prop} : (piped cap exits).Simulates posix Prod.fst where
  event := by
    rintro w u ⟨-, same, -⟩
    rw [same]
    exact .refl posix _
  answers := fun w _ _ _ answered => ⟨w.1, .refl posix _, answered.1⟩

section Child

variable {cap : Nat} {exits : Prop} {job : Job} {acts past : List Act}

def bytesRead (acts : List Act) : Nat := acts.countP (· = .read)

def written (o : Output) (acts : List Act) : Str :=
  acts.flatMap fun
    | .write o' _ block => if o' = o then block else []
    | .read => []

/-- How many bytes `read_all_fd` takes from the stream. -/
def Job.limit (job : Job) : Output → Nat
  | .stdout => job.stdoutSize - 1
  | .stderr => job.stderrSize - 1

/-- The parent is not at the stream yet. As long as the standard input does not fit its
pipe the parent reads nothing; then it reads its share of the standard output, and only
then the other stream. -/
def Unserved (cap : Nat) (job : Job) (past : List Act) (o : Output) : Prop :=
  bytesRead past + cap < job.stdin.length ∨
    o = .stderr ∧ (written .stdout past).length < job.limit .stdout

instance (cap : Nat) (job : Job) (past : List Act) (o : Output) :
    Decidable (Unserved cap job past o) :=
  inferInstanceAs (Decidable (_ ∨ _))

/-- There is room for the block. Before the parent is at the stream, the pipe is to hold
all that is written to it. After that a block is to begin within the share that the
parent reads. If it goes in parts, then it is also to end there or to fit the pipe. -/
def Fits (cap : Nat) (job : Job) (past : List Act) : Act → Prop
  | .read => True
  | .write o whole block => block ≠ [] →
      if Unserved cap job past o then (written o past).length + block.length ≤ cap
      else (written o past).length < job.limit o ∧
        if whole then block.length ≤ cap
        else (written o past).length + block.length ≤ max (job.limit o) cap

instance (cap : Nat) (job : Job) (past : List Act) (a : Act) : Decidable (Fits cap job past a) :=
  match a with
  | .read => .isTrue trivial
  | .write _ _ _ => inferInstanceAs (Decidable (_ → _))

/-- Whatever a child with these acts writes fits. -/
def Modest (cap : Nat) (job : Job) : List Act → List Act → Prop
  | _, [] => True
  | past, a :: rest => Fits cap job past a ∧ Modest cap job (past ++ [a]) rest

theorem bytesRead_append (acts acts' : List Act) :
    bytesRead (acts ++ acts') = bytesRead acts + bytesRead acts' := List.countP_append

@[simp] theorem bytesRead_read : bytesRead (past ++ [.read]) = bytesRead past + 1 := by
  rw [bytesRead_append]
  rfl

@[simp] theorem bytesRead_write (o : Output) (whole : Bool) (block : Str) :
    bytesRead (past ++ [.write o whole block]) = bytesRead past := by
  rw [bytesRead_append]
  rfl

theorem written_append (o : Output) (acts acts' : List Act) :
    written o (acts ++ acts') = written o acts ++ written o acts' := List.flatMap_append

@[simp] theorem written_read (o : Output) : written o (past ++ [.read]) = written o past := by
  rw [written_append]
  exact List.append_nil _

theorem written_cons_write (o : Output) (whole : Bool) (block : Str) :
    written o (.write o whole block :: acts) = block ++ written o acts := by
  simp [written]

theorem written_cons_of_ne {o o' : Output} (other : o ≠ o') (whole : Bool) (block : Str) :
    written o' (.write o whole block :: acts) = written o' acts := by
  simp [written, other]

@[simp] theorem written_write (o : Output) (whole : Bool) (block : Str) :
    written o (past ++ [.write o whole block]) = written o past ++ block := by
  rw [written_append, written_cons_write]
  exact congrArg _ (List.append_nil _)

theorem written_write_of_ne {o o' : Output} (other : o ≠ o') (whole : Bool) (block : Str) :
    written o' (past ++ [.write o whole block]) = written o' past := by
  rw [written_append, written_cons_of_ne other]
  exact List.append_nil _

/-- The same bytes are read, and the same bytes written. -/
structure SameBytes (acts acts' : List Act) : Prop where
  reads : bytesRead acts = bytesRead acts'
  writes : ∀ o, written o acts = written o acts'

theorem SameBytes.of_eq {acts' : List Act} (same : acts = acts') : SameBytes acts acts' := by
  subst same
  exact ⟨rfl, fun _ => rfl⟩

theorem SameBytes.trans {acts' acts'' : List Act} (h : SameBytes acts acts')
    (h' : SameBytes acts' acts'') : SameBytes acts acts'' :=
  ⟨h.reads.trans h'.reads, fun o => (h.writes o).trans (h'.writes o)⟩

theorem SameBytes.append {acts' : List Act} (h : SameBytes acts acts') (rest : List Act) :
    SameBytes (acts ++ rest) (acts' ++ rest) where
  reads := by rw [bytesRead_append, bytesRead_append, h.reads]
  writes := fun o => by rw [written_append, written_append, h.writes]

/-- A block in two parts. -/
theorem sameBytes_parts (o : Output) (whole whole' whole'' : Bool) (head tail : Str) :
    SameBytes (past ++ [.write o whole (head ++ tail)])
      (past ++ [.write o whole' head] ++ [.write o whole'' tail]) where
  reads := by rw [bytesRead_write, bytesRead_write, bytesRead_write]
  writes := fun o' => by
    by_cases same : o = o'
    · subst same
      rw [written_write, written_write, written_write, List.append_assoc]
    · rw [written_write_of_ne same, written_write_of_ne same, written_write_of_ne same]

/-- What the parent is at now it will be at later. -/
theorem Unserved.earlier {o : Output} (h : Unserved cap job (past ++ acts) o) :
    Unserved cap job past o := by
  rcases h with unfed | ⟨stderr, short⟩
  · rw [bytesRead_append] at unfed
    exact .inl (by omega)
  · rw [written_append, List.length_append] at short
    exact .inr ⟨stderr, by omega⟩

theorem unserved_congr {past' : List Act} (same : SameBytes past past') (o : Output) :
    Unserved cap job past o ↔ Unserved cap job past' o := by
  unfold Unserved
  rw [same.reads, same.writes]

theorem fits_congr {past' : List Act} (same : SameBytes past past') (a : Act) :
    Fits cap job past a ↔ Fits cap job past' a := by
  cases a with
  | read => exact Iff.rfl
  | write o whole block =>
    refine imp_congr_right fun _ => ?_
    have turn : Unserved cap job past o ↔ Unserved cap job past' o := unserved_congr same o
    by_cases unserved : Unserved cap job past o
    · rw [if_pos unserved, if_pos (turn.mp unserved), same.writes]
    · rw [if_neg unserved, if_neg (mt turn.mpr unserved), same.writes]

theorem modest_congr {past' : List Act} (same : SameBytes past past') :
    Modest cap job past acts ↔ Modest cap job past' acts := by
  induction acts generalizing past past' with
  | nil => exact Iff.rfl
  | cons a rest ih => exact and_congr (fits_congr same a) (ih (same.append _))

theorem modest_append {acts' : List Act} :
    Modest cap job past (acts ++ acts') ↔
      Modest cap job past acts ∧ Modest cap job (past ++ acts) acts' := by
  induction acts generalizing past with
  | nil => simp [Modest]
  | cons a rest ih => simp [Modest, ih, and_assoc]

/-- A child whose streams both fit their pipe and their buffer is modest. -/
theorem modest_of_short
    (short : ∀ o, (written o (past ++ acts)).length ≤ min cap (job.limit o)) :
    Modest cap job past acts := by
  induction acts generalizing past with
  | nil => exact trivial
  | cons a rest ih =>
    rw [List.append_cons] at short
    refine ⟨?_, ih short⟩
    cases a with
    | read => exact trivial
    | write o whole block =>
      intro some'
      have all := short o
      rw [written_append, List.length_append, written_write, List.length_append] at all
      have positive := List.length_pos_iff.mpr some'
      split
      · omega
      · refine ⟨by omega, ?_⟩
        split <;> omega

/-- What the parent is at. -/
inductive Phase where
  | feeding
  | draining (o : Output)
  | waiting
  deriving DecidableEq

/-- The ends that the child is not given. -/
def PipeEnd.own : PipeEnd → Bool
  | ⟨.stdin, true⟩ | ⟨.stdout, false⟩ | ⟨.stderr, false⟩ => true
  | _ => false

theorem own_output (o : Output) : PipeEnd.own ⟨o.stream, false⟩ = true := by
  cases o <;> rfl

/-- Those of them that the parent still holds. -/
def Phase.opened (phase : Phase) : PipeEnd → Bool
  | ⟨.stdin, true⟩ => phase = .feeding
  | ⟨.stdout, false⟩ => phase = .feeding || phase = .draining .stdout
  | ⟨.stderr, false⟩ => phase ≠ .waiting
  | _ => false

def Phase.Holds (phase : Phase) (ends : PipeEnd → Bool) : Prop :=
  ∀ e, e.own = true → ends e = phase.opened e

/-- What the child has done, against what the parent has: `rest` bytes of the standard
input are not written yet, and `taken` has been read. -/
structure Accounts (cap : Nat) (exits : Prop) (job : Job) (acts : List Act) (rest : Nat)
    (taken : Output → Str) (past : List Act) (p : Pipes) : Prop where
  acts : SameBytes acts (past ++ p.todo)
  modest : Modest cap job past p.todo
  status : ∀ status, p.status = some status → status = .exited 0 ∧ p.todo = [] ∧ exits
  fed : p.opened ⟨.stdin, true⟩ = true → job.stdin.length = rest + p.stdin + bytesRead past
  room : p.stdin ≤ cap
  taken : ∀ o : Output, p.opened ⟨o.stream, false⟩ = true →
    taken o ++ p.output o = written o past
  delivered : p.opened ⟨.stdin, true⟩ = false → p.status = none →
    job.stdin.length ≤ bytesRead past + cap
  left : ∀ o : Output, p.opened ⟨o.stream, false⟩ = false → p.status = none →
    job.limit o ≤ (written o past).length

/-- Nothing has been read yet of a stream whose turn is still to come. -/
def Phase.Untouched (taken : Output → Str) : Phase → Prop
  | .feeding => ∀ o, taken o = []
  | .draining .stdout => taken .stderr = []
  | .draining .stderr | .waiting => True

/-- The child runs, and has met no obstacle so far. -/
structure Draining (cap : Nat) (exits : Prop) (job : Job) (acts : List Act) (phase : Phase)
    (ends : PipeEnd → Bool) (rest : Nat) (taken : Output → Str)
    (w : Kernel × Pipes) : Prop where
  flag : w.1.flag = false
  child : w.1.child = .alive
  opened : w.2.opened = ends
  holds : phase.Holds ends
  untouched : phase.Untouched taken
  accounts : ∃ past, Accounts cap exits job acts rest taken past w.2

variable {phase : Phase} {ends : PipeEnd → Bool} {rest : Nat} {taken : Output → Str}
  {p p' : Pipes}

/-- The standard error is closed last, and the standard input first. -/
theorem Phase.closed_before {o : Output} (shut : phase.opened ⟨o.stream, false⟩ = false) :
    phase.opened ⟨.stdin, true⟩ = false ∧ phase.opened ⟨.stdout, false⟩ = false := by
  rcases phase with _ | ⟨_ | _⟩ | _ <;> cases o <;> first | contradiction | exact ⟨rfl, rfl⟩

/-- The pipe holds no more than was written. -/
theorem Accounts.held (h : Accounts cap exits job acts rest taken past p) {o : Output}
    (open' : p.opened ⟨o.stream, false⟩ = true) :
    (p.output o).length ≤ (written o past).length := by
  rw [← h.taken o open', List.length_append]
  exact Nat.le_add_left _ _

/-- The parent is at a stream that it has closed. -/
theorem Accounts.served (h : Accounts cap exits job acts rest taken past p)
    (holds : phase.Holds p.opened) (running : p.status = none) {o : Output}
    (shut : p.opened ⟨o.stream, false⟩ = false) : ¬Unserved cap job past o := by
  obtain ⟨fed, first⟩ := Phase.closed_before ((holds _ (own_output o)).symm.trans shut)
  have delivered := h.delivered ((holds _ rfl).trans fed) running
  have left := h.left .stdout ((holds _ rfl).trans first) running
  unfold Unserved
  omega

/-- The parent has closed a stream only behind the child's last byte for it. -/
theorem Accounts.unbroken (h : Accounts cap exits job acts rest taken past p)
    (holds : phase.Holds p.opened) (running : p.status = none) {o : Output} {whole : Bool}
    {block : Str} {todo : List Act} (next : p.todo = .write o whole block :: todo)
    (some' : block ≠ []) : p.opened ⟨o.stream, false⟩ = true := by
  by_contra shut
  rw [Bool.not_eq_true] at shut
  have fits : Fits cap job past (.write o whole block) := (next ▸ h.modest).1
  replace fits := fits some'
  rw [if_neg (h.served holds running shut)] at fits
  have left := h.left o shut running
  omega

/-- One act, or a part of one, which leaves the ends alone. -/
theorem Accounts.advance {a : Act} (h : Accounts cap exits job acts rest taken past p)
    (running : p.status = none) (bytes : SameBytes (past ++ p.todo) (past ++ [a] ++ p'.todo))
    (modest : Modest cap job (past ++ [a]) p'.todo) (same : p'.opened = p.opened)
    (runs : p'.status = none)
    (fed : p'.opened ⟨.stdin, true⟩ = true →
      job.stdin.length = rest + p'.stdin + bytesRead (past ++ [a]))
    (room : p'.stdin ≤ cap)
    (kept : ∀ o : Output, p'.opened ⟨o.stream, false⟩ = true →
      taken o ++ p'.output o = written o (past ++ [a])) :
    Accounts cap exits job acts rest taken (past ++ [a]) p' := by
  refine ⟨h.acts.trans bytes, modest, by simp [runs], fed, room, kept, ?_, ?_⟩
  · intro shut _
    have := h.delivered (same ▸ shut) running
    rw [bytesRead_append]
    omega
  · intro o shut _
    have := h.left o (same ▸ shut) running
    rw [written_append, List.length_append]
    omega

theorem sameBytes_of_next {a : Act} {todo todo' : List Act} (next : todo = a :: todo') :
    SameBytes (past ++ todo) (past ++ [a] ++ todo') := by
  rw [next, List.append_cons]
  exact .of_eq rfl

/-- What has gone into a pipe was written. -/
theorem Accounts.put (h : Accounts cap exits job acts rest taken past p) {o : Output}
    {block : Str} (whole : Bool) (open' : p.opened ⟨o.stream, false⟩ = true) {o' : Output}
    (open'' : p.opened ⟨o'.stream, false⟩ = true) :
    taken o' ++ Function.update p.output o (p.output o ++ block) o' =
      written o' (past ++ [.write o whole block]) := by
  by_cases same : o = o'
  · subst same
    rw [written_write, ← h.taken o open', List.append_assoc, Function.update_self]
  · rw [written_write_of_ne same, ← h.taken o' open'', Function.update_of_ne (Ne.symm same)]

/-- The rest of a block that has gone in part fits, as the parent reads all of it. -/
theorem Modest.part {o : Output} {head tail : Str} {todo : List Act} {held : Nat}
    (modest : Modest cap job past (.write o false (head ++ tail) :: todo)) (some' : head ≠ [])
    (le : held ≤ (written o past).length) (exceeds : cap < held + (head ++ tail).length) :
    Modest cap job (past ++ [.write o false head]) (.write o false tail :: todo) := by
  obtain ⟨fits, rest⟩ := modest
  refine ⟨fun more => ?_,
    (modest_congr (sameBytes_parts o false false false head tail)).mp rest⟩
  replace fits := fits (List.append_ne_nil_of_left_ne_nil some' _)
  by_cases unserved : Unserved cap job past o
  · rw [if_pos unserved] at fits
    omega
  rw [if_neg unserved] at fits
  have later : ¬Unserved cap job (past ++ [.write o false head]) o :=
    fun h => unserved h.earlier
  have positive := List.length_pos_iff.mpr more
  obtain ⟨start, stop⟩ := fits
  rw [if_neg later, written_write, List.length_append]
  simp only [Bool.false_eq_true, if_false, List.length_append] at stop exceeds ⊢
  omega

theorem Accounts.step (h : Accounts cap exits job acts rest taken past p)
    (holds : phase.Holds p.opened) (step : ChildStep cap exits p p') :
    p'.opened = p.opened ∧ ∃ past', Accounts cap exits job acts rest taken past' p' := by
  cases step with
  | @read n todo running next held =>
    have room := h.room
    refine ⟨rfl, _, h.advance running (sameBytes_of_next next) (next ▸ h.modest).2 rfl running
      (fun fed => ?_) (show n ≤ cap by omega) fun o open' => ?_⟩
    · rw [h.fed fed, held, bytesRead_read]
      dsimp only
      omega
    · rw [written_read]
      exact h.taken o open'
  | eof running next held shut =>
    refine ⟨rfl, _, h.advance running (sameBytes_of_next next) (next ▸ h.modest).2 rfl running
      (fun fed => ?_) h.room fun o open' => ?_⟩
    · rw [shut] at fed
      contradiction
    · rw [written_read]
      exact h.taken o open'
  | write running next some' open' room =>
    refine ⟨rfl, _, h.advance running (sameBytes_of_next next) (next ▸ h.modest).2 rfl running
      (fun fed => ?_) h.room fun o' open'' => h.put _ open' open''⟩
    rw [h.fed fed, bytesRead_write]
  | @part o head tail todo running next some' open' room exceeds =>
    refine ⟨rfl, past ++ [.write o false head], h.advance running ?_
      ((next ▸ h.modest).part some' (h.held open') exceeds) rfl running (fun fed => ?_) h.room
      fun o' open'' => h.put _ open' open''⟩
    · refine (sameBytes_of_next next).trans ?_
      refine ((sameBytes_parts o false false false head tail).append todo).trans (.of_eq ?_)
      exact (List.append_cons _ _ _).symm
    · rw [h.fed fed, bytesRead_write]
  | nothing running next =>
    refine ⟨rfl, _, h.advance running (sameBytes_of_next next) (next ▸ h.modest).2 rfl running
      (fun fed => ?_) h.room fun o' open' => ?_⟩
    · rw [h.fed fed, bytesRead_write]
    · exact (h.taken o' open').trans (by simp [written])
  | broken running next some' shut =>
    rw [h.unbroken holds running next some'] at shut
    contradiction
  | exit exits running next =>
    refine ⟨rfl, past, h.acts, h.modest, ?_, h.fed, h.room, h.taken, by simp, by simp⟩
    rintro status ⟨⟩
    exact ⟨rfl, next, exits⟩

theorem stable_draining :
    (piped cap exits).Stable (Draining cap exits job acts phase ends rest taken) := by
  rintro w w' ⟨flag, child, rfl, holds, untouched, past, accounts⟩ ⟨-, same, step⟩
  obtain ⟨kept, past', accounts'⟩ := accounts.step holds step
  exact ⟨same ▸ flag, same ▸ child, kept, holds, untouched, past', accounts'⟩

/-- The parent asks for more. -/
def Phase.Wants (job : Job) (rest : Nat) (taken : Output → Str) : Phase → Prop
  | .feeding => 0 < rest
  | .draining o => (taken o).length < job.limit o
  | .waiting => True

/-- Its call does not block. -/
def Phase.Ready (cap : Nat) (p : Pipes) : Phase → Prop
  | .feeding => p.status ≠ none ∨ p.stdin < cap
  | .draining o => p.status ≠ none ∨ p.output o ≠ []
  | .waiting => p.status ≠ none

theorem Phase.running {phase : Phase} (blocked : ¬phase.Ready cap p) : p.status = none := by
  by_contra ended
  refine blocked ?_
  cases phase with
  | feeding => exact .inl ended
  | draining o => exact .inl ended
  | waiting => exact ended

/-- Where the parent blocks, it waits for something else than an open stream, all of
which is in the pipe then, or it has emptied the pipe. -/
theorem Accounts.turn (h : Accounts cap exits job acts rest taken past p)
    (holds : phase.Holds p.opened) (untouched : phase.Untouched taken)
    (wants : phase.Wants job rest taken) (blocked : ¬phase.Ready cap p) {o : Output}
    (open' : p.opened ⟨o.stream, false⟩ = true) :
    (phase ≠ .draining o ∧ Unserved cap job past o ∧
      (p.output o).length = (written o past).length) ∨
    (phase = .draining o ∧ ¬Unserved cap job past o ∧ p.output o = [] ∧
      (written o past).length < job.limit o) := by
  have running : p.status = none := Phase.running blocked
  have kept := congrArg List.length (h.taken o open')
  rw [List.length_append] at kept
  cases phase with
  | feeding =>
    simp only [Phase.Ready, not_or, Nat.not_lt] at blocked
    have sent := h.fed (holds _ rfl)
    have wants : 0 < rest := wants
    have none := congrArg List.length (untouched o)
    rw [List.length_nil] at none
    exact .inl ⟨by simp, .inl (by omega), by omega⟩
  | draining o' =>
    simp only [Phase.Ready, not_or, not_not] at blocked
    have wants : (taken o').length < job.limit o' := wants
    have delivered := h.delivered (holds _ rfl) running
    rw [holds _ (own_output o)] at open'
    by_cases same : o = o'
    · subst same
      rw [blocked.2, List.length_nil] at kept
      refine .inr ⟨rfl, ?_, blocked.2, by omega⟩
      cases o with
      | stdout =>
        unfold Unserved
        simp only [reduceCtorEq, false_and, or_false]
        omega
      | stderr =>
        have left := h.left .stdout (holds _ rfl) running
        unfold Unserved
        omega
    · have pair : o = .stderr ∧ o' = .stdout := by
        cases o <;> cases o' <;> first | contradiction | exact ⟨rfl, rfl⟩
      obtain ⟨rfl, rfl⟩ := pair
      have first := congrArg List.length (h.taken .stdout (holds _ rfl))
      rw [blocked.2, List.append_nil] at first
      have none := congrArg List.length (show taken .stderr = [] from untouched)
      rw [List.length_nil] at none
      exact .inl ⟨by simp, .inr ⟨rfl, by omega⟩, by omega⟩
  | waiting =>
    rw [holds _ (own_output o)] at open'
    cases o <;> contradiction

/-- How many steps an act takes at most. -/
def Act.size : Act → Nat
  | .read => 1
  | .write _ _ block => block.length + 1

/-- What the child has still to do, its exit included. -/
def Pipes.actsLeft (p : Pipes) : Nat :=
  (p.todo.map Act.size).sum + if p.status = none then 1 else 0

theorem actsLeft_step (step : ChildStep cap exits p p') : p'.actsLeft < p.actsLeft := by
  cases step with
  | read running next => simp [Pipes.actsLeft, running, next, Act.size]
  | eof running next => simp [Pipes.actsLeft, running, next, Act.size]
  | write running next => simp [Pipes.actsLeft, running, next, Act.size]
  | part running next some' =>
    have positive := List.length_pos_iff.mpr some'
    simp only [Pipes.actsLeft, running, next, Act.size, List.map_cons, List.sum_cons,
      List.length_append]
    omega
  | nothing running next => simp [Pipes.actsLeft, running, next, Act.size]
  | broken running => simp [Pipes.actsLeft, running]
  | exit _ running next => simp [Pipes.actsLeft, running, next]

/-- The part of a block that fills the pipe. -/
theorem ChildStep.fill {o : Output} {block : Str} {todo : List Act} (running : p.status = none)
    (next : p.todo = .write o false block :: todo) (open' : p.opened ⟨o.stream, false⟩ = true)
    (room : (p.output o).length < cap) (exceeds : cap < (p.output o).length + block.length) :
    ChildStep cap exits p { p with
      output := Function.update p.output o
        (p.output o ++ block.take (cap - (p.output o).length))
      todo := .write o false (block.drop (cap - (p.output o).length)) :: todo } := by
  refine .part running (next.trans ?_) ?_ open' ?_ ?_
  · rw [List.take_append_drop]
  · refine List.ne_nil_of_length_pos ?_
    rw [List.length_take]
    omega
  · rw [List.length_take]
    omega
  · rwa [List.take_append_drop]

/-- Where the parent blocks the child goes on, until it hangs. -/
theorem Draining.goes_on {w : Kernel × Pipes}
    (h : Draining cap exits job acts phase ends rest taken w) (positive : 0 < cap)
    (wants : phase.Wants job rest taken) (blocked : ¬phase.Ready cap w.2)
    (busy : w.2.todo ≠ [] ∨ exits) :
    ∃ w', (piped cap exits).event w w' := by
  obtain ⟨k, p⟩ := w
  obtain ⟨-, child, rfl, holds, untouched, past, accounts⟩ := h
  have running : p.status = none := Phase.running blocked
  have steps {p' : Pipes} (step : ChildStep cap exits p p') :
      ∃ w', (piped cap exits).event (k, p) w' := ⟨_, piped_event child step⟩
  cases next : p.todo with
  | nil => exact steps (.exit (busy.resolve_left (not_not_intro next)) running next)
  | cons a todo =>
    cases a with
    | read =>
      cases held : p.stdin with
      | zero =>
        refine steps (.eof running next held ?_)
        rw [holds _ rfl]
        cases phase with
        | feeding => exact absurd (.inr (held ▸ positive)) blocked
        | draining o => rfl
        | waiting => rfl
      | succ n => exact steps (.read running next held)
    | write o whole block =>
      by_cases some' : block = []
      · exact steps (.nothing running (some' ▸ next))
      have open' := accounts.unbroken holds running next some'
      have fits : Fits cap job past (.write o whole block) := (next ▸ accounts.modest).1
      replace fits := fits some'
      by_cases room : (p.output o).length + block.length ≤ cap
      · exact steps (.write running next some' open' room)
      rcases accounts.turn holds untouched wants blocked open' with
        ⟨-, unserved, all⟩ | ⟨-, served, emptied, -⟩
      · rw [if_pos unserved, ← all] at fits
        exact absurd fits room
      · rw [if_neg served] at fits
        replace emptied : p.output o = [] := emptied
        rw [emptied, List.length_nil, Nat.zero_add] at room
        cases whole with
        | true => exact absurd fits.2 room
        | false =>
          refine steps (.fill running next open' ?_ ?_) <;> rw [emptied, List.length_nil] <;> omega

/-- A child that exits comes to where the parent needs it. -/
theorem Draining.ready {w : Kernel × Pipes}
    (h : Draining cap exits job acts phase ends rest taken w) (positive : 0 < cap)
    (wants : phase.Wants job rest taken) (ending : exits) :
    ∃ w', (piped cap exits).Events w w' ∧
      Draining cap exits job acts phase ends rest taken w' ∧
      phase.Ready cap w'.2 := by
  refine stable_draining.eventually (fun w => w.2.actsLeft) (fun v hv => ?_) h
  by_cases ready : phase.Ready cap v.2
  · exact .inl ready
  · obtain ⟨v', event⟩ := hv.goes_on positive wants ready (.inr ending)
    exact .inr ⟨v', event, actsLeft_step event.2.2⟩

/-- The ends that the child was given are closed. -/
def Handed (ends : PipeEnd → Bool) : Prop := ∀ e, e.own = false → ends e = false

/-- The call that may block. -/
def Phase.Makes : Phase → Syscall → Prop
  | .feeding, .write bytes => bytes ≠ []
  | .draining o, .read s room => s = o.stream ∧ room ≠ 0
  | .waiting, .waitpid => True
  | _, _ => False

/-- The calls that may block. -/
def Syscall.waits : Syscall → Bool
  | .write bytes => bytes ≠ []
  | .read _ room => room ≠ 0
  | .waitpid => true
  | _ => false

theorem Phase.Makes.waits {q : Syscall} (makes : phase.Makes q) : q.waits = true := by
  rcases phase with _ | o | _ <;> cases q <;> try contradiction
  case feeding.write => exact decide_eq_true makes
  case draining.read => exact decide_eq_true makes.2
  case waiting.waitpid => rfl

theorem Output.stream_inj {o o' : Output} (same : o.stream = o'.stream) : o = o' := by
  cases o <;> cases o' <;> first | rfl | contradiction

/-- It is answered where it does not block, and only there. -/
theorem answer_of_ready (exits : Prop) {k : Kernel} {q : Syscall} (makes : phase.Makes q)
    (handed : Handed p.opened) (alive : k.child = .alive) (ready : phase.Ready cap p) :
    ∃ r w', (piped cap exits).answers (k, p) q r w' := by
  rcases phase with _ | o | _ <;> cases q <;> try contradiction
  case feeding.write bytes =>
    by_cases ended : p.status = none
    · have room : p.stdin < cap := ready.resolve_left (not_not_intro ended)
      exact ⟨.count 1, (k, { p with stdin := p.stdin + 1 }),
        ⟨Nat.one_pos, List.length_pos_iff.mpr makes, rfl⟩,
          fun nobody => nobody.1 ended, room, rfl⟩
    · exact ⟨.failed, (k, p), rfl, ⟨ended, handed _ rfl⟩, rfl⟩
  case draining.read s room =>
    obtain ⟨rfl, some'⟩ := makes
    cases held : p.output o with
    | nil =>
      have ended : p.status ≠ none := ready.resolve_right (not_not_intro held)
      have written : p.opened ⟨o.stream, true⟩ = false := handed _ (by cases o <;> rfl)
      exact ⟨.eof, (k, p), rfl, rfl, .inr ⟨o, rfl, held, ended, written⟩⟩
    | cons c more =>
      obtain ⟨m, rfl⟩ := Nat.exists_eq_succ_of_ne_zero some'
      refine ⟨.data c (more.take m), (k, { p with
        output := Function.update p.output o ((p.output o).drop (m + 1)) }), ⟨?_, rfl⟩, o,
          rfl, ?_, rfl⟩
      · rw [List.length_take]
        omega
      · rw [held, List.take_succ_cons]
  case waiting.waitpid =>
    obtain ⟨status, ended⟩ := Option.ne_none_iff_exists'.mp ready
    exact ⟨.reaped status, ({ k with child := .reaped status, reaps := k.reaps + 1 }, p),
      ⟨alive, rfl⟩, ended, rfl⟩

theorem ready_of_answer {w u : Kernel × Pipes} {q : Syscall} (makes : phase.Makes q)
    {r : SysResp q}
    (answers : (piped cap exits).answers w q r u) : phase.Ready cap w.2 := by
  obtain ⟨kernel, answer⟩ := answers
  rcases phase with _ | o | _ <;> cases q <;> try contradiction
  case feeding.write bytes =>
    cases r with
    | count n =>
      obtain ⟨some', -⟩ := kernel
      obtain ⟨-, room, -⟩ := answer
      exact .inr (by omega)
    | interrupted => exact answer.elim
    | failed => exact .inl answer.1.1
  case draining.read s room =>
    obtain ⟨rfl, some'⟩ := makes
    cases r with
    | eof =>
      obtain ⟨-, none | ⟨-, -, -, ended, -⟩⟩ := answer
      · exact absurd none some'
      · exact .inl ended
    | data first more =>
      obtain ⟨o', same, piece, -⟩ := answer
      cases Output.stream_inj same
      refine .inr fun held => ?_
      rw [held, List.take_nil] at piece
      contradiction
    | interrupted => exact answer.elim
    | failed => exact answer.elim
  case waiting.waitpid =>
    cases r with
    | reaped status =>
      have ended : w.2.status ≠ none := by simp [answer.1]
      exact ended
    | interrupted => exact answer.elim
    | failed => exact answer.elim

/-- A call of the parent is answered at once, or it is its phase's. -/
inductive Asks (cap : Nat) (exits : Prop) (job : Job) (acts : List Act) (w : Kernel × Pipes) :
    Syscall → Prop
  | atOnce {q : Syscall} {r : SysResp q} {u : Kernel × Pipes} : q.waits = false →
      (piped cap exits).answers w q r u → Asks cap exits job acts w q
  | inTurn {q : Syscall} {phase : Phase} {ends : PipeEnd → Bool} {rest : Nat}
      {taken : Output → Str} : phase.Makes q → Handed ends → phase.Wants job rest taken →
      Draining cap exits job acts phase ends rest taken w → Asks cap exits job acts w q

end Child

section Hanging

variable {cap : Nat} {exits : Prop} {p p' : Pipes} {acts : List Act}

/-- A child that has done everything and hangs does nothing. -/
theorem not_step_of_done (done : p.todo = []) : ¬ChildStep cap False p p' := by
  intro step
  cases step with
  | exit exits => exact exits
  | read _ next | eof _ next | write _ next | part _ next | nothing _ next | broken _ next =>
    rw [done] at next
    contradiction

/-- Nor does one whose block neither fits the pipe nor may go in parts. -/
theorem not_step_of_full {o : Output} {whole : Bool} {block : Str} {todo : List Act}
    (next : p.todo = .write o whole block :: todo) (some' : block ≠ [])
    (open' : p.opened ⟨o.stream, false⟩ = true)
    (exceeds : cap < (p.output o).length + block.length)
    (full : whole = true ∨ cap ≤ (p.output o).length) : ¬ChildStep cap exits p p' := by
  intro step
  cases step with
  | read _ next' => cases next.symm.trans next'
  | eof _ next' => cases next.symm.trans next'
  | write _ next' _ _ room =>
    cases next.symm.trans next'
    omega
  | part _ next' some'' _ room =>
    cases next.symm.trans next'
    have positive := List.length_pos_iff.mpr some''
    have full := full.resolve_left Bool.false_ne_true
    omega
  | nothing _ next' =>
    cases next.symm.trans next'
    contradiction
  | broken _ next' _ shut =>
    cases next.symm.trans next'
    rw [open'] at shut
    contradiction
  | exit _ _ next' => cases next.symm.trans next'

/-- What is in a pipe and what is still to be written is all that there is. -/
theorem ChildStep.conserves (step : ChildStep cap exits p p') (o : Output) :
    p'.output o ++ written o p'.todo = p.output o ++ written o p.todo := by
  cases step with
  | read _ next | eof _ next | nothing _ next => simp [next, written]
  | broken | exit => rfl
  | @write o' whole block todo _ next | @part o' head tail todo _ next =>
    by_cases same : o' = o
    · subst same
      simp [next, written]
    · simp [next, written, same, Function.update_of_ne (Ne.symm same)]

/-- The same child with more to do. -/
def Pipes.more (acts : List Act) (p : Pipes) : Pipes := { p with todo := p.todo ++ acts }

/-- A child that has not done all of its acts does the same if it has more of them. -/
theorem ChildStep.more (step : ChildStep cap False p p') (acts : List Act) :
    ChildStep cap True (p.more acts) (p'.more acts) := by
  cases step with
  | read running next held => exact .read running (congrArg (· ++ acts) next) held
  | eof running next held shut => exact .eof running (congrArg (· ++ acts) next) held shut
  | write running next some' open' room =>
    exact .write running (congrArg (· ++ acts) next) some' open' room
  | part running next some' open' room exceeds =>
    exact .part running (congrArg (· ++ acts) next) some' open' room exceeds
  | nothing running next => exact .nothing running (congrArg (· ++ acts) next)
  | broken running next some' shut =>
    exact .broken running (congrArg (· ++ acts) next) some' shut
  | exit exits => exact exits.elim

/-- And what it does before its last acts it does without them. -/
theorem ChildStep.before {a : Act} {todo : List Act} (step : ChildStep cap False p p')
    (next : p.todo = a :: (todo ++ acts)) : ∃ todo', p'.todo = todo' ++ acts ∧
      ChildStep cap False { p with todo := a :: todo } { p' with todo := todo' } := by
  cases step with
  | read running next' held =>
    cases next.symm.trans next'
    exact ⟨todo, rfl, .read running rfl held⟩
  | eof running next' held shut =>
    cases next.symm.trans next'
    exact ⟨todo, rfl, .eof running rfl held shut⟩
  | write running next' some' open' room =>
    cases next.symm.trans next'
    exact ⟨todo, rfl, .write running rfl some' open' room⟩
  | part running next' some' open' room exceeds =>
    cases next.symm.trans next'
    exact ⟨_ :: todo, rfl, .part running rfl some' open' room exceeds⟩
  | nothing running next' =>
    cases next.symm.trans next'
    exact ⟨todo, rfl, .nothing running rfl⟩
  | broken running next' some' shut =>
    cases next.symm.trans next'
    exact ⟨_ :: todo, next, .broken running rfl some' shut⟩
  | exit exits => exact exits.elim

/-- No call of the parent depends on what the child has to do. -/
theorem pipeAnswers_todo {q : Syscall} {r : SysResp q} (answer : pipeAnswers cap p q r p') :
    p'.todo = p.todo ∧
      ∀ todo, pipeAnswers cap { p with todo } q r { p' with todo } := by
  cases q with
  | setup | spawn =>
    obtain ⟨done, rfl⟩ := answer
    exact ⟨rfl, fun _ => ⟨done, rfl⟩⟩
  | waitpid =>
    cases r with
    | reaped status =>
      obtain ⟨ended, rfl⟩ := answer
      exact ⟨rfl, fun _ => ⟨ended, rfl⟩⟩
    | _ => exact answer.elim
  | write bytes =>
    cases r with
    | count n =>
      obtain ⟨reader, room, rfl⟩ := answer
      exact ⟨rfl, fun _ => ⟨reader, room, rfl⟩⟩
    | interrupted => exact answer.elim
    | failed =>
      obtain ⟨nobody, rfl⟩ := answer
      exact ⟨rfl, fun _ => ⟨nobody, rfl⟩⟩
  | read s room =>
    cases r with
    | eof =>
      obtain ⟨rfl, ended⟩ := answer
      exact ⟨rfl, fun _ => ⟨rfl, ended⟩⟩
    | data first rest =>
      obtain ⟨o, same, piece, rfl⟩ := answer
      exact ⟨rfl, fun _ => ⟨o, same, piece, rfl⟩⟩
    | _ => exact answer.elim
  | _ =>
    cases answer
    exact ⟨rfl, fun _ => rfl⟩

/-- Only a read of the parent takes something out of a pipe. -/
theorem output_answers {q : Syscall} {r : SysResp q} {o : Output}
    (answer : pipeAnswers cap p q r p') (other : ¬(Phase.draining o).Makes q) :
    p'.output o = p.output o := by
  cases q with
  | setup | spawn =>
    obtain ⟨-, rfl⟩ := answer
    rfl
  | waitpid =>
    cases r with
    | reaped =>
      obtain ⟨-, rfl⟩ := answer
      rfl
    | _ => exact answer.elim
  | write =>
    cases r with
    | count =>
      obtain ⟨-, -, rfl⟩ := answer
      rfl
    | interrupted => exact answer.elim
    | failed =>
      obtain ⟨-, rfl⟩ := answer
      rfl
  | read s room =>
    cases r with
    | eof =>
      obtain ⟨rfl, -⟩ := answer
      rfl
    | data first more =>
      obtain ⟨o', rfl, piece, rfl⟩ := answer
      refine Function.update_of_ne ?_ _ _
      rintro rfl
      refine other ⟨rfl, ?_⟩
      rintro rfl
      contradiction
    | _ => exact answer.elim
  | _ =>
    cases answer
    rfl

/-- What a child does that hangs behind its acts, one does that has more of them. -/
theorem piped_more :
    (piped cap False).Simulates (piped cap True) fun w => (w.1, w.2.more acts) where
  event := by
    rintro ⟨k, p⟩ ⟨k', p'⟩ ⟨child, same, step⟩
    cases same
    exact .single (piped_event child (step.more acts))
  answers := by
    rintro ⟨k, p⟩ q r ⟨k', p'⟩ ⟨kernel, pipes⟩
    obtain ⟨same, answer⟩ := pipeAnswers_todo pipes
    refine ⟨_, .refl _ _, kernel, ?_⟩
    have more : p'.more acts = { p' with todo := p.todo ++ acts } := by
      rw [Pipes.more, same]
    exact more ▸ answer _

end Hanging

end Tumgrd
