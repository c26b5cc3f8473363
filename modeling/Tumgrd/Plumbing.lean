import Tumgrd.Exec
import Tumgrd.Unix.Descriptors

/-! The descriptors behind the pipe ends of `exec_with_stdio`: the numbers that
the kernel gives out, `set_cloexec` and `prepare_pipe_end`, and what the child
starts with. The daemon may itself have been started without its standard
streams. -/
namespace Tumgrd

open Effect Surroundings Unix

/-- A file of the daemon's own, or an end of a pipe of this call. -/
abbrev OpenFile (α : Type) := α ⊕ PipeEnd

/-- The daemon's table, the variables `stdin_pipe`, `stdout_pipe` and
`stderr_pipe`, the file actions, and the table of the child. -/
structure Plumbing (α : Type) where
  fds : Fds (OpenFile α)
  var : PipeEnd → Option Nat
  actions : List (Nat × Nat)
  child : Option (Fds (OpenFile α))

/-- The end that becomes the child's standard stream, and the stream's number. -/
def Stream.childEnd : Stream → PipeEnd
  | .stdin => ⟨.stdin, false⟩
  | .stdout => ⟨.stdout, true⟩
  | .stderr => ⟨.stderr, true⟩

def Stream.number : Stream → Nat
  | .stdin => 0
  | .stdout => 1
  | .stderr => 2

/-- `prepare_pipe_end`, when its calls of `fcntl` succeed. -/
def preparePipeEnd {F : Type} (t : Fds F) (fd : Nat) : Option (Nat × Fds F) :=
  if fd < Stream.stderr.number + 1 then do
    let (newfd, t) ← t.dupCloexec fd (Stream.stderr.number + 1)
    pure (newfd, t.close fd)
  else do
    let t ← t.setCloexec fd
    pure (fd, t)

namespace Plumbing

variable {α : Type} (w : Plumbing α)

def start (base : Fds α) : Plumbing α := ⟨base.map .inl, fun _ => none, [], none⟩

def pipe (s : Stream) : Plumbing α :=
  let ((reading, writing), fds) := w.fds.pipe (.inr ⟨s, false⟩) (.inr ⟨s, true⟩)
  { w with
    fds
    var := Function.update (Function.update w.var ⟨s, false⟩ (some reading)) ⟨s, true⟩
      (some writing) }

def prepare (e : PipeEnd) : Option (Plumbing α) := do
  let fd ← w.var e
  let (fd, fds) ← preparePipeEnd w.fds fd
  pure { w with fds, var := Function.update w.var e (some fd) }

def adddup2 (s : Stream) : Option (Plumbing α) := do
  let fd ← w.var s.childEnd
  pure { w with actions := w.actions ++ [(fd, s.number)] }

def setup : Setup → Option (Plumbing α)
  | .pipe s => some (w.pipe s)
  | .prepare e => w.prepare e
  | .fileActionsInit => some { w with actions := [] }
  | .adddup2 s => w.adddup2 s
  | .attrInit | .setsigdefault | .setpgroup | .setflags | .callocEnvp | .strdupMemlimit => some w

def spawn (equal : Fds (OpenFile α) → Nat → Option (Fds (OpenFile α))) :
    Option (Plumbing α) := do
  let fds ← Fds.dup2s equal w.actions w.fds
  pure { w with child := some fds.exec }

def close (e : PipeEnd) : Plumbing α :=
  { w with
    fds := (w.var e).elim w.fds w.fds.close
    var := Function.update w.var e none }

/-- The variable holds a number of this end. -/
def Refers (e : PipeEnd) : Prop :=
  ∃ fd cloexec, w.var e = some fd ∧ w.fds.entry fd = some ⟨.inr e, cloexec⟩

/-- Some number of the daemon is one of this end. -/
def Open (e : PipeEnd) : Prop := ∃ fd cloexec, w.fds.entry fd = some ⟨.inr e, cloexec⟩

/-- What a call is made on: the end it is meant for, of a pipe whose other end the
daemon itself no longer holds, so that the child alone decides on `EPIPE` and on the
end of the stream. No standard stream is duplicated onto itself. -/
def Permits : Syscall → Prop
  | .setup (.prepare e) | .close e => w.Refers e
  | .setup (.adddup2 s) => ∃ fd, w.var s.childEnd = some fd ∧ fd ≠ s.number
  | .write _ => w.Refers ⟨.stdin, true⟩ ∧ ¬w.Open ⟨.stdin, false⟩
  | .read s _ => w.Refers ⟨s, false⟩ ∧ ¬w.Open ⟨s, true⟩
  | _ => True

end Plumbing

/-- The child's standard streams are the ends that are meant for it, and apart from
these it has what the daemon would leave to any program. -/
structure Wired {α : Type} (base : Fds α) (child : Fds (OpenFile α)) : Prop where
  streams : ∀ s : Stream, child.entry s.number = some ⟨.inr s.childEnd, false⟩
  others : ∀ fd, (∀ s : Stream, fd ≠ s.number) →
    child.entry fd = (base.exec.map .inl).entry fd

/-- Any of the calls may fail, and then changes nothing. -/
def plumbingAnswers {α : Type} (equal : Fds (OpenFile α) → Nat → Option (Fds (OpenFile α)))
    (w : Plumbing α) : (q : Syscall) → SysResp q → Plumbing α → Prop
  | .setup step, true, w' => w.setup step = some w'
  | .spawn, true, w' => w.spawn equal = some w'
  | .close e, _, w' => w' = w.close e
  | _, _, w' => w' = w

abbrev plumbing {α : Type} (equal : Fds (OpenFile α) → Nat → Option (Fds (OpenFile α))) :
    Surroundings Syscall SysResp (Plumbing α) where
  answers := plumbingAnswers equal
  event _ _ := False

variable {α β : Type} {base : Fds α} {w v : Plumbing α}
  {equal : Fds (OpenFile α) → Nat → Option (Fds (OpenFile α))} {ends : List PipeEnd}

section Ends

/-- The daemon has its own descriptors, those of the open ends, and no other; a
child that has been started is wired. -/
structure Plumbed (base : Fds α) (ends : List PipeEnd) (w : Plumbing α) : Prop where
  adds : Enlarges (base.map .inl) .inr w.fds w.var
  ends : ∀ e, w.var e ≠ none ↔ e ∈ ends
  child : ∀ c ∈ w.child, Wired base c

theorem plumbed_start (base : Fds α) : Plumbed base [] (.start base) :=
  ⟨.refl _ _, fun _ => iff_of_false (fun h => h rfl) List.not_mem_nil, nofun⟩

theorem Plumbed.refers (h : Plumbed base ends w) {e : PipeEnd} (open_ : e ∈ ends) :
    w.Refers e := by
  obtain ⟨fd, held⟩ := Option.ne_none_iff_exists'.mp ((h.ends e).mpr open_)
  obtain ⟨cloexec, entry⟩ := h.adds.own e fd held
  exact ⟨fd, cloexec, held, entry⟩

theorem Plumbed.not_open (h : Plumbed base ends w) {e : PipeEnd} (closed : e ∉ ends) :
    ¬w.Open e := by
  rintro ⟨fd, cloexec, entry⟩
  by_cases held : ∃ e', w.var e' = some fd
  · obtain ⟨e', held⟩ := held
    obtain ⟨cloexec', entry'⟩ := h.adds.own e' fd held
    rw [entry, Option.some.injEq, Descriptor.mk.injEq, Sum.inr.injEq] at entry'
    exact closed ((h.ends e).mp fun none => by rw [entry'.1, held] at none; contradiction)
  · rw [h.adds.others fd fun e' same => held ⟨e', same⟩, Fds.entry_map] at entry
    obtain ⟨d, -, other⟩ := Option.map_eq_some_iff.mp entry
    rw [Descriptor.mk.injEq] at other
    exact absurd other.1 Sum.inl_ne_inr

theorem Plumbed.close (h : Plumbed base ends w) {e : PipeEnd} (open_ : e ∈ ends) :
    Plumbed base (ends.filter (· ≠ e)) (w.close e) := by
  obtain ⟨fd, held⟩ := Option.ne_none_iff_exists'.mp ((h.ends e).mpr open_)
  refine ⟨?_, fun e' => ?_, h.child⟩
  · have closed := h.adds.lose held
    simp only [Plumbing.close, held, Option.elim_some]
    exact closed
  · simp only [Plumbing.close, List.mem_filter, decide_eq_true_eq]
    by_cases same : e' = e
    · subst same
      simp
    · rw [Function.update_of_ne same]
      simp [same, h.ends e']

/-- When no end is open, the daemon's table is what it was. -/
theorem Plumbed.fds_eq (h : Plumbed base [] w) : w.fds = base.map .inl := by
  refine h.adds.eq fun e => ?_
  by_contra held
  exact List.not_mem_nil ((h.ends e).mp held)

end Ends

section Setup

/-- The steps before this one that it depends on are done, and those that depend on
what it changes are not. -/
def Setup.follows (done : List Setup) : Setup → Bool
  | .pipe s => !done.contains (.pipe s)
  | .prepare e => done.contains (.pipe e.stream) &&
      done.all fun
        | .adddup2 s => s.childEnd ≠ e
        | _ => true
  | .fileActionsInit => done.all fun
      | .adddup2 _ => false
      | _ => true
  | .adddup2 s => done.contains (.prepare s.childEnd)
  | _ => true

def Setup.ordered : List Setup → List Setup → Bool
  | _, [] => true
  | done, step :: rest => step.follows done && Setup.ordered (done ++ [step]) rest

theorem ordered_setupSteps (hasMemlimit : Bool) : Setup.ordered [] (setupSteps hasMemlimit) := by
  cases hasMemlimit <;> decide

def Setup.dup? : Setup → Option Stream
  | .adddup2 s => some s
  | _ => none

/-- An end that is out of the way of the standard streams. -/
def Plumbing.Prepared (w : Plumbing α) (e : PipeEnd) : Prop :=
  ∃ fd, w.var e = some fd ∧ Stream.stderr.number < fd ∧
    w.fds.entry fd = some ⟨.inr e, true⟩

/-- What the steps that are done have set up. -/
structure Built (base : Fds α) (done : List Setup) (ends : List PipeEnd)
    (w : Plumbing α) : Prop where
  plumbed : Plumbed base ends w
  nodup : ends.Nodup
  opens : ends = done.flatMap Setup.opens
  prepared : ∀ e, .prepare e ∈ done → w.Prepared e
  dups : ∀ s, .adddup2 s ∈ done → .prepare s.childEnd ∈ done
  actions : w.actions =
    (done.filterMap Setup.dup?).map fun s => ((w.var s.childEnd).getD 0, s.number)

variable {done : List Setup} {step : Setup} {e : PipeEnd} {s : Stream}

theorem built_start (base : Fds α) : Built base [] [] (.start base) :=
  ⟨plumbed_start base, List.nodup_nil, rfl, nofun, nofun, rfl⟩

theorem mem_opens : e ∈ done.flatMap Setup.opens ↔ .pipe e.stream ∈ done := by
  rw [List.mem_flatMap]
  constructor
  · rintro ⟨step, mem, opened⟩
    cases step with
    | pipe s =>
      simp only [Setup.opens, List.mem_cons, List.not_mem_nil, or_false] at opened
      rcases opened with rfl | rfl <;> exact mem
    | _ => simp [Setup.opens] at opened
  · intro mem
    refine ⟨_, mem, ?_⟩
    obtain ⟨s, writes⟩ := e
    cases writes <;> simp [Setup.opens]

/-- What two plumbings have in common is enough for what has been set up before. -/
theorem Built.frame (h : Built base done ends w) (plumbed : Plumbed base (ends ++ step.opens) v)
    (nodup : (ends ++ step.opens).Nodup)
    (prepared : ∀ e, .prepare e ∈ done → v.Prepared e)
    (kept : ∀ s, .adddup2 s ∈ done → v.var s.childEnd = w.var s.childEnd)
    (own : ∀ e, step = .prepare e → v.Prepared e)
    (actions : v.actions = w.actions) (quiet : step.dup? = none) :
    Built base (done ++ [step]) (ends ++ step.opens) v := by
  refine ⟨plumbed, nodup, by simp [h.opens], fun e mem => ?_, fun s mem => ?_, ?_⟩
  · rcases List.mem_append.mp mem with before | now
    · exact prepared e before
    · exact own e (List.mem_singleton.mp now).symm
  · rcases List.mem_append.mp mem with before | now
    · exact List.mem_append_left _ (h.dups s before)
    · rw [← List.mem_singleton.mp now] at quiet
      contradiction
  · have same : (done ++ [step]).filterMap Setup.dup? = done.filterMap Setup.dup? := by
      simp [List.filterMap_append, quiet]
    rw [actions, h.actions, same]
    refine List.map_congr_left fun s mem => ?_
    obtain ⟨step', before, dup⟩ := List.mem_filterMap.mp mem
    cases step' with
    | adddup2 s' =>
      cases dup
      rw [kept s before]
    | _ => contradiction

theorem Built.pipe (h : Built base done ends w) (follows : (Setup.pipe s).follows done) :
    Built base (done ++ [.pipe s]) (ends ++ (Setup.pipe s).opens) (w.pipe s) := by
  have fresh : .pipe s ∉ done := by simpa [Setup.follows] using follows
  have closed (writes : Bool) : w.var ⟨s, writes⟩ = none := by
    by_contra held
    have mem := (h.plumbed.ends _).mp held
    rw [h.opens, mem_opens] at mem
    exact fresh mem
  let first := w.fds.free 0
  let opened := w.fds.set first ⟨.inr ⟨s, false⟩, false⟩
  let second := opened.free 0
  have adds : Enlarges (base.map .inl) .inr (w.pipe s).fds (w.pipe s).var := by
    refine Enlarges.gain (Enlarges.gain h.plumbed.adds (closed false) (Fds.entry_free _ _)) ?_
      (Fds.entry_free _ _)
    rw [Function.update_of_ne (by simp), closed]
  have var (e : PipeEnd) (other : e.stream ≠ s) : (w.pipe s).var e = w.var e := by
    have ne (writes : Bool) : e ≠ ⟨s, writes⟩ :=
      fun same => other (congrArg PipeEnd.stream same)
    simp only [Plumbing.pipe, Fds.pipe]
    rw [Function.update_of_ne (ne true), Function.update_of_ne (ne false)]
  have entry {fd : Nat} (taken : w.fds.entry fd ≠ none) :
      (w.pipe s).fds.entry fd = w.fds.entry fd := by
    have ne : fd ≠ first := by
      rintro rfl
      exact taken (Fds.entry_free _ _)
    have same : opened.entry fd = w.fds.entry fd := Fds.entry_set_of_ne ne
    have ne' : fd ≠ second := by
      rintro rfl
      exact taken (same.symm.trans (Fds.entry_free _ _))
    exact (Fds.entry_set_of_ne ne').trans same
  have stream (e : PipeEnd) (mem : .prepare e ∈ done) : e.stream ≠ s := by
    obtain ⟨fd, held, -⟩ := h.prepared e mem
    rintro rfl
    rw [closed e.writes] at held
    contradiction
  have distinct : (ends ++ (Setup.pipe s).opens).Nodup := by
    refine h.nodup.append (by simp [Setup.opens]) fun e mem opened => ?_
    rw [h.opens, mem_opens] at mem
    simp only [Setup.opens, List.mem_cons, List.not_mem_nil, or_false] at opened
    rcases opened with rfl | rfl <;> exact fresh mem
  refine h.frame ⟨adds, fun e => ?_, h.plumbed.child⟩ distinct
    (fun e mem => ?_) (fun s' mem => ?_)
    nofun rfl rfl
  · by_cases same : e.stream = s
    · obtain ⟨_, writes⟩ := e
      obtain rfl : _ = s := same
      cases writes <;> simp [Plumbing.pipe, Setup.opens]
    · rw [var e same, h.plumbed.ends e, List.mem_append]
      refine (or_iff_left ?_).symm
      rintro (_ | ⟨_, _ | ⟨_, ⟨⟩⟩⟩) <;> exact same rfl
  · obtain ⟨fd, held, high, entered⟩ := h.prepared e mem
    refine ⟨fd, (var e (stream e mem)).trans held, high, ?_⟩
    rw [entry (by rw [entered]; exact Option.some_ne_none _), entered]
  · exact var _ (stream _ (h.dups s' mem))

/-- What `prepare_pipe_end` changes. -/
theorem Plumbed.prepare (h : Plumbed base ends w) (run : w.prepare e = some v) :
    Plumbed base ends v ∧ v.Prepared e ∧ v.actions = w.actions ∧
      ∀ e', e' ≠ e → v.var e' = w.var e' ∧ (w.Prepared e' → v.Prepared e') := by
  simp only [Plumbing.prepare, Option.bind_eq_bind, Option.bind_eq_some_iff] at run
  obtain ⟨fd, held, ⟨n, fds⟩, prepared, run⟩ := run
  cases run
  obtain ⟨cloexec, entry⟩ := h.adds.own e fd held
  -- In either case the end has a number above the standard streams, and no other end is touched.
  have moved : Enlarges (base.map .inl) .inr fds (Function.update w.var e (some n)) ∧
      Stream.stderr.number < n ∧ fds.entry n = some ⟨.inr e, true⟩ ∧
      ∀ m, m ≠ fd → w.fds.entry m ≠ none → fds.entry m = w.fds.entry m := by
    unfold preparePipeEnd at prepared
    split at prepared
    · simp only [Fds.dupCloexec, entry, Option.map_some, Option.bind_eq_bind, Option.bind_some,
        Option.pure_def, Option.some.injEq, Prod.mk.injEq] at prepared
      obtain ⟨rfl, rfl⟩ := prepared
      have vacant := w.fds.entry_free (Stream.stderr.number + 1)
      have ne : w.fds.free (Stream.stderr.number + 1) ≠ fd := by
        intro same
        rw [same, entry] at vacant
        contradiction
      refine ⟨h.adds.move held vacant, w.fds.le_free _, ?_, fun m other taken => ?_⟩
      · rw [Fds.entry_close_of_ne ne, Fds.entry_set_self]
      · rw [Fds.entry_close_of_ne other, Fds.entry_set_of_ne]
        rintro rfl
        exact taken vacant
    · simp only [Fds.setCloexec, entry, Option.map_some, Option.bind_eq_bind, Option.bind_some,
        Option.pure_def, Option.some.injEq, Prod.mk.injEq] at prepared
      obtain ⟨rfl, rfl⟩ := prepared
      have same : Function.update w.var e (some fd) = w.var := by
        rw [← held, Function.update_eq_self]
      rw [same]
      exact ⟨h.adds.flag held, by omega, Fds.entry_set_self,
        fun m other _ => Fds.entry_set_of_ne other⟩
  obtain ⟨adds, high, entered, others⟩ := moved
  refine ⟨⟨adds, fun e' => ?_, h.child⟩,
    ⟨n, Function.update_self _ _ _, high, entered⟩, rfl,
    fun e' ne => ⟨Function.update_of_ne ne _ _, ?_⟩⟩
  · by_cases same : e' = e
    · subst same
      simp [← h.ends e', held]
    · simp only [Function.update_of_ne same, h.ends e']
  · rintro ⟨m, held', high', entered'⟩
    refine ⟨m, (Function.update_of_ne ne _ _).trans held', high', ?_⟩
    have apart : m ≠ fd := by
      rintro rfl
      exact ne (h.adds.distinct e' e m held' held)
    rw [others m apart (by rw [entered']; exact Option.some_ne_none _), entered']

theorem Built.prepare (h : Built base done ends w) (follows : (Setup.prepare e).follows done)
    (run : w.prepare e = some v) :
    Built base (done ++ [.prepare e]) (ends ++ (Setup.prepare e).opens) v := by
  obtain ⟨plumbed, prepared, actions, others⟩ := h.plumbed.prepare run
  simp only [Setup.follows, Bool.and_eq_true, List.all_eq_true] at follows
  refine h.frame (by simpa [Setup.opens] using plumbed) (by simpa [Setup.opens] using h.nodup)
    (fun e' mem => ?_) (fun s mem => ?_)
    (fun e' same => ?_) actions rfl
  · by_cases same : e' = e
    · exact same ▸ prepared
    · exact (others e' same).2 (h.prepared e' mem)
  · exact (others _ (by simpa using follows.2 _ mem)).1
  · cases same
    exact prepared

theorem Built.setup (h : Built base done ends w) (follows : step.follows done)
    (run : w.setup step = some v) : Built base (done ++ [step]) (ends ++ step.opens) v := by
  have idle (step : Setup) (same : w = v) (opens : step.opens = []) (quiet : step.dup? = none)
      (own : ∀ e, step ≠ .prepare e) : Built base (done ++ [step]) (ends ++ step.opens) v := by
    subst same
    refine h.frame (by simpa [opens] using h.plumbed) (by simpa [opens] using h.nodup) h.prepared
      (fun _ _ => rfl)
      (fun e same => absurd same (own e)) rfl quiet
  cases step with
  | pipe s =>
    cases run
    exact h.pipe follows
  | prepare e => exact h.prepare follows run
  | fileActionsInit =>
    cases run
    have none_ : done.filterMap Setup.dup? = [] := by
      rw [List.filterMap_eq_nil_iff]
      intro step mem
      simp only [Setup.follows, List.all_eq_true] at follows
      have := follows step mem
      cases step <;> first | rfl | contradiction
    refine ⟨⟨by simpa [Setup.opens] using h.plumbed.adds,
      by simpa [Setup.opens] using h.plumbed.ends,
      h.plumbed.child⟩, by simpa [Setup.opens] using h.nodup, by simp [h.opens],
      fun e mem => h.prepared e (by simpa using mem),
        fun s mem => ?_, by simp [none_, Setup.dup?]⟩
    exact List.mem_append_left _ (h.dups s (by simpa using mem))
  | adddup2 s =>
    simp only [Plumbing.setup, Plumbing.adddup2, Option.bind_eq_bind,
      Option.bind_eq_some_iff] at run
    obtain ⟨fd, held, run⟩ := run
    cases run
    refine ⟨⟨h.plumbed.adds, by simpa [Setup.opens] using h.plumbed.ends, h.plumbed.child⟩,
      by simpa [Setup.opens] using h.nodup, by simp [h.opens],
      fun e mem => h.prepared e (by simpa using mem), fun s' mem => ?_, ?_⟩
    · rcases List.mem_append.mp mem with before | now
      · exact List.mem_append_left _ (h.dups s' before)
      · cases List.mem_singleton.mp now
        exact List.mem_append_left _ (by simpa [Setup.follows] using follows)
    · simp [List.filterMap_append, Setup.dup?, h.actions, held]
  | _ => exact idle _ (Option.some.inj run) rfl rfl fun _ => Setup.noConfusion

theorem Built.permits (h : Built base done ends w) (follows : step.follows done) :
    w.Permits (.setup step) := by
  cases step with
  | prepare e =>
    simp only [Setup.follows, Bool.and_eq_true, List.contains_iff_mem] at follows
    refine h.plumbed.refers ?_
    rw [h.opens, mem_opens]
    exact follows.1
  | adddup2 s =>
    obtain ⟨fd, held, high, -⟩ := h.prepared _ (by simpa [Setup.follows] using follows)
    have low : s.number ≤ Stream.stderr.number := by cases s <;> decide
    exact ⟨fd, held, by omega⟩
  | _ => trivial

theorem Plumbed.mono {ends' : List PipeEnd} (h : Plumbed base ends w)
    (same : ∀ e, e ∈ ends ↔ e ∈ ends') :
    Plumbed base ends' w :=
  ⟨h.adds, fun e => (h.ends e).trans (same e), h.child⟩

/-- Everything is set up, so the child that is started is wired. -/
theorem Built.spawn {hasMemlimit : Bool} (h : Built base (setupSteps hasMemlimit) ends w)
    (run : w.spawn equal = some v) : Plumbed base ends v := by
  simp only [Plumbing.spawn, Option.bind_eq_bind, Option.bind_eq_some_iff] at run
  obtain ⟨fds, dups, run⟩ := run
  cases run
  refine ⟨h.plumbed.adds, h.plumbed.ends, ?_⟩
  rintro _ ⟨⟩
  have all (e : PipeEnd) : .prepare e ∈ setupSteps hasMemlimit := by
    obtain ⟨_ | _ | _, _ | _⟩ := e <;> cases hasMemlimit <;> decide
  have actions : w.actions = [Stream.stdin, .stdout, .stderr].map fun s =>
      ((w.var s.childEnd).getD 0, s.number) := by
    rw [h.actions]
    cases hasMemlimit <;> rfl
  have source (s : Stream) : ∃ fd, w.var s.childEnd = some fd ∧ Stream.stderr.number < fd ∧
      w.fds.entry fd = some ⟨.inr s.childEnd, true⟩ := h.prepared _ (all _)
  have mem (s : Stream) : ((w.var s.childEnd).getD 0, s.number) ∈ w.actions := by
    rw [actions]
    exact List.mem_map_of_mem (by cases s <;> simp)
  have targets : w.actions.map Prod.snd = [0, 1, 2] := by
    rw [actions]
    rfl
  have apart : ∀ a ∈ w.actions, ∀ b ∈ w.actions, a.1 ≠ b.2 := by
    intro a ha b hb
    rw [actions] at ha hb
    obtain ⟨s, -, rfl⟩ := List.mem_map.mp ha
    obtain ⟨s', -, rfl⟩ := List.mem_map.mp hb
    obtain ⟨fd, held, high, -⟩ := source s
    have low : s'.number ≤ Stream.stderr.number := by cases s' <;> decide
    simp only [held, Option.getD_some]
    omega
  obtain ⟨wired, others⟩ := Fds.entry_dup2s dups apart (by rw [targets]; decide)
  refine ⟨fun s => ?_, fun fd unnamed => ?_⟩
  · obtain ⟨d, entry, dup⟩ := wired _ (mem s)
    obtain ⟨fd, held, -, prepared⟩ := source s
    simp only [held, Option.getD_some] at entry
    rw [prepared, Option.some.injEq] at entry
    subst entry
    rw [Fds.entry_exec, dup]
    rfl
  · have untouched : fds.entry fd = w.fds.entry fd := by
      apply others
      rw [targets]
      simp only [List.mem_cons, List.not_mem_nil, or_false, not_or]
      exact ⟨unnamed .stdin, unnamed .stdout, unnamed .stderr⟩
    rw [Fds.entry_exec, untouched, Fds.entry_map, Fds.entry_exec]
    by_cases held : ∃ e, w.var e = some fd
    · -- an end of a pipe is closed when the program is executed
      obtain ⟨e, held⟩ := held
      obtain ⟨fd', held', -, prepared⟩ := h.prepared e (all e)
      obtain rfl : fd = fd' := Option.some.inj (held.symm.trans held')
      have new := h.plumbed.adds.new e fd held
      rw [Fds.entry_map, Option.map_eq_none_iff] at new
      rw [prepared, new]
      rfl
    · rw [h.plumbed.adds.others fd fun e same => held ⟨e, same⟩, Fds.entry_map]
      cases base.entry fd with
      | none => rfl
      | some d => cases d with | mk file cloexec => cases cloexec <;> rfl

end Setup

section Calls

/-- What is said of the call that is made next. -/
abbrev Plumbing.Allows (base : Fds α) (w : Plumbing α) (q : Syscall) : Prop :=
  w.Permits q ∧ ∀ c ∈ w.child, Wired base c

abbrev Plumbs (equal : Fds (OpenFile α) → Nat → Option (Fds (OpenFile α))) (base : Fds α)
    (p : Sub β) (w : Plumbing α) (Q : β → Plumbing α → Prop) : Prop :=
  (plumbing equal).Correct False (Plumbing.Allows base) p w Q

variable {Q : β → Plumbing α → Prop} {q : Syscall}

theorem stable_plumbing (A : Plumbing α → Prop) : (plumbing equal).Stable A :=
  fun _ _ _ event => event.elim

theorem plumbs_pure {value : β} (post : Q value w) : Plumbs equal base (pure value) w Q :=
  correct_of_stable (stable_plumbing (Q value)) post value fun _ h => h

theorem plumbs_syscall {f : SysResp q → Sub β} (allowed : w.Allows base q)
    (rest : ∀ r v, plumbingAnswers equal w q r v → Plumbs equal base (f r) v Q) :
    Plumbs equal base (syscall q >>= f) w Q := by
  refine correct_perform (A := (w = ·)) (stable_plumbing _) rfl ?_
  rintro _ rfl
  exact ⟨allowed, False.elim, rest⟩

theorem plumbs_bind {γ : Type} {p : Sub γ} {f : γ → Sub β} {R : γ → Plumbing α → Prop}
    (first : Plumbs equal base p w R)
    (rest : ∀ value v, R value v → Plumbs equal base (f value) v Q) :
    Plumbs equal base (p >>= f) w Q :=
  (correct_bind f Q).mpr (first.post rest)

/-- Calls that have nothing to do with descriptors, or that only read or write. -/
def Syscall.idle : Syscall → Bool
  | .setup _ | .spawn | .close _ => false
  | _ => true

theorem plumbs_idle {f : SysResp q → Sub β} (idle : q.idle) (allowed : w.Allows base q)
    (rest : ∀ r, Plumbs equal base (f r) w Q) : Plumbs equal base (syscall q >>= f) w Q := by
  refine plumbs_syscall allowed fun r v answered => ?_
  have same : v = w := by
    cases q <;> first | exact answered | simp [Syscall.idle] at idle
  exact same ▸ rest r

/-- The last call of a process. -/
theorem plumbs_last {Q : SysResp q → Plumbing α → Prop} (idle : q.idle)
    (allowed : w.Allows base q)
    (post : ∀ r, Q r w) : Plumbs equal base (syscall q) w Q :=
  plumbs_idle (f := pure) idle allowed fun r => plumbs_pure (post r)

/-- The descriptors are as they were, whatever is returned. -/
abbrev Undisturbed (equal : Fds (OpenFile α) → Nat → Option (Fds (OpenFile α)))
    (base : Fds α) (p : Sub β)
    (w : Plumbing α) : Prop :=
  Plumbs equal base p w fun _ v => v = w

theorem undisturbed_iterate {σ : Type} {body : σ → Sub (σ ⊕ β)}
    (step : ∀ s, Undisturbed equal base (body s) w)
    (s : σ) : Undisturbed equal base (Process.iterate body s) w := by
  refine correct_iterate (fun _ _ v => v = w) (n := 0) rfl ?_ fun _ => stable_plumbing _
  rintro n s _ rfl
  refine (step s).post ?_
  rintro (s' | value) _ rfl
  · exact ⟨0, False.elim, rfl⟩
  · rfl

theorem Undisturbed.then {γ : Type} {p : Sub γ} {f : γ → Sub β}
    (first : Undisturbed equal base p w)
    (rest : ∀ value, Plumbs equal base (f value) w Q) : Plumbs equal base (p >>= f) w Q :=
  plumbs_bind first fun value _ same => same ▸ rest value

theorem Plumbed.allows (h : Plumbed base ends w) {q : Syscall} (permits : w.Permits q) :
    w.Allows base q := ⟨permits, h.child⟩

theorem undisturbed_watchdogArm (h : Plumbed base ends w) (usable : Bool) :
    Undisturbed equal base (watchdogArm usable) w := by
  unfold watchdogArm
  iterate 4 refine plumbs_idle rfl (h.allows trivial) fun _ => ?_
  cases usable with
  | true =>
    refine plumbs_idle rfl (h.allows trivial) fun _ => ?_
    exact plumbs_last rfl (h.allows trivial) fun _ => rfl
  | false => exact plumbs_last rfl (h.allows trivial) fun _ => rfl

theorem undisturbed_watchdogDisarm (h : Plumbed base ends w) :
    Undisturbed equal base watchdogDisarm w := by
  unfold watchdogDisarm
  iterate 3 refine plumbs_idle rfl (h.allows trivial) fun _ => ?_
  exact plumbs_last rfl (h.allows trivial) fun _ => rfl

theorem undisturbed_reapStep (h : Plumbed base ends w) (s : Unit) :
    Undisturbed equal base (reapStep s) w := by
  refine plumbs_idle rfl (h.allows trivial) fun waited => ?_
  cases waited with
  | interrupted => exact plumbs_idle rfl (h.allows trivial) fun _ => plumbs_pure rfl
  | _ => exact plumbs_pure rfl

theorem undisturbed_watchdogCheck (h : Plumbed base ends w) :
    Undisturbed equal base watchdogCheck w := by
  refine plumbs_idle rfl (h.allows trivial) fun late => ?_
  cases late with
  | true =>
    refine plumbs_idle rfl (h.allows trivial) fun _ => ?_
    exact (undisturbed_iterate (undisturbed_reapStep h) ()).then fun _ => plumbs_pure rfl
  | false => exact plumbs_pure rfl

theorem undisturbed_writeStep (h : Plumbed base ends w) (here : ⟨.stdin, true⟩ ∈ ends)
    (gone : ⟨.stdin, false⟩ ∉ ends) (rest : Str) :
    Undisturbed equal base (writeStep rest) w := by
  unfold writeStep
  split
  · exact plumbs_pure rfl
  refine plumbs_idle rfl (h.allows trivial) fun late => ?_
  cases late with
  | true => exact plumbs_pure rfl
  | false =>
    refine plumbs_idle rfl (h.allows ⟨h.refers here, h.not_open gone⟩) fun written => ?_
    cases written with
    | interrupted => exact plumbs_idle rfl (h.allows trivial) fun _ => plumbs_pure rfl
    | _ => exact plumbs_pure rfl

theorem undisturbed_readAllFd (h : Plumbed base ends w) {s : Stream}
    (here : ⟨s, false⟩ ∈ ends)
    (gone : ⟨s, true⟩ ∉ ends) (size : Nat) : Undisturbed equal base (readAllFd s size) w := by
  unfold readAllFd
  split
  · exact plumbs_pure rfl
  refine undisturbed_iterate (fun used => ?_) []
  refine plumbs_idle rfl (h.allows ⟨h.refers here, h.not_open gone⟩) fun result => ?_
  cases result with
  | interrupted => exact plumbs_idle rfl (h.allows trivial) fun _ => plumbs_pure rfl
  | _ => exact plumbs_pure rfl

theorem undisturbed_waitStep (h : Plumbed base ends w) (s : Unit) :
    Undisturbed equal base (waitStep s) w := by
  refine plumbs_idle rfl (h.allows trivial) fun waited => ?_
  cases waited with
  | interrupted =>
    refine plumbs_idle rfl (h.allows trivial) fun late => ?_
    cases late with
    | true => exact (undisturbed_watchdogCheck h).then fun _ => plumbs_pure rfl
    | false => exact plumbs_pure rfl
  | _ => exact plumbs_pure rfl

theorem plumbs_close {f : Unit → Sub β} {e : PipeEnd} (h : Plumbed base ends w)
    (open_ : e ∈ ends)
    (rest : ∀ v, Plumbed base (ends.filter (· ≠ e)) v → Plumbs equal base (f ()) v Q) :
    Plumbs equal base (syscall (.close e) >>= f) w Q := by
  refine plumbs_syscall (h.allows (h.refers open_)) ?_
  rintro _ _ rfl
  exact rest _ (h.close open_)

end Calls

section Plumbs

/-- At `err_cleanup`, the ends that are still open are known, each once. -/
def EndsKnown (base : Fds α) (ending : Ending) (w : Plumbing α) : Prop :=
  ending.pipes.Nodup ∧ Plumbed base ending.pipes w

theorem plumbs_checked {late : Ending} {rest : Sub Ending} {check : Sub Bool}
    (checks : Undisturbed equal base check w) (leaves : EndsKnown base late w)
    (otherwise : Plumbs equal base rest w (EndsKnown base)) :
    Plumbs equal base (checked check late rest) w (EndsKnown base) := by
  refine checks.then fun expired => ?_
  cases expired with
  | true => exact plumbs_pure leaves
  | false => exact otherwise

theorem plumbs_waitForChild (h : Plumbed base [] w) (stdout stderr : Str) :
    Plumbs equal base (waitForChild stdout stderr) w (EndsKnown base) := by
  refine (undisturbed_iterate (undisturbed_waitStep h) ()).then fun status => ?_
  cases status with
  | none => exact plumbs_pure ⟨List.nodup_nil, h⟩
  | some status =>
    refine plumbs_checked ?_ ⟨List.nodup_nil, h⟩ (plumbs_pure ⟨List.nodup_nil, h⟩)
    exact plumbs_last rfl (h.allows trivial) fun _ => rfl

theorem plumbs_readStderr (h : Plumbed base [⟨.stderr, false⟩] w) (job : Job) (stdout : Str) :
    Plumbs equal base (readStderr job stdout) w (EndsKnown base) := by
  refine (undisturbed_readAllFd h (by decide) (by decide) job.stderrSize).then fun stderr => ?_
  refine plumbs_close h (by decide) fun v closed => ?_
  exact plumbs_checked (undisturbed_watchdogCheck closed) ⟨List.nodup_nil, closed⟩
    (plumbs_waitForChild closed stdout stderr)

theorem plumbs_readStdout
    (h : Plumbed base [⟨.stdout, false⟩, ⟨.stderr, false⟩] w) (job : Job) :
    Plumbs equal base (readStdout job) w (EndsKnown base) := by
  refine (undisturbed_readAllFd h (by decide) (by decide) job.stdoutSize).then fun stdout => ?_
  refine plumbs_close h (by decide) fun v closed => ?_
  exact plumbs_checked (undisturbed_watchdogCheck closed) ⟨List.nodup_singleton _, closed⟩
    (plumbs_readStderr closed job stdout)

/-- All the ends, in the order in which they are opened. -/
def pipeEnds : List PipeEnd :=
  [⟨.stdin, false⟩, ⟨.stdin, true⟩, ⟨.stdout, false⟩, ⟨.stdout, true⟩,
    ⟨.stderr, false⟩,
    ⟨.stderr, true⟩]

theorem plumbs_writeStdin (h : Plumbed base pipeEnds w) (job : Job) :
    Plumbs equal base (writeStdin job) w (EndsKnown base) := by
  refine plumbs_close h (by decide) fun v₁ closed => ?_
  refine plumbs_close closed (by decide) fun v₂ closed => ?_
  refine plumbs_close closed (by decide) fun v₃ closed => ?_
  refine (undisturbed_iterate (undisturbed_writeStep closed (by decide) (by decide)) job.stdin).then
    fun _ => ?_
  refine plumbs_close closed (by decide) fun v₄ closed => ?_
  exact plumbs_checked (undisturbed_watchdogCheck closed) ⟨by decide, closed⟩
    (plumbs_readStdout closed job)

theorem plumbs_runSetup {steps done : List Setup} (h : Built base done ends w)
    (ordered : Setup.ordered done steps) :
    Plumbs equal base (runSetup steps ends) w fun result v =>
      (result.1 = true → Built base (done ++ steps) result.2 v) ∧
        result.2.Nodup ∧ Plumbed base result.2 v := by
  induction steps generalizing done ends w with
  | nil => exact plumbs_pure ⟨fun _ => by rwa [List.append_nil], h.nodup, h.plumbed⟩
  | cons step rest ih =>
    simp only [Setup.ordered, Bool.and_eq_true] at ordered
    refine plumbs_syscall (h.plumbed.allows (h.permits ordered.1)) fun ok v answered => ?_
    cases ok with
    | true =>
      have next := ih (h.setup ordered.1 answered) ordered.2
      rw [List.append_assoc] at next
      exact next
    | false =>
      obtain rfl : v = w := answered
      exact plumbs_pure ⟨nofun, h.nodup, h.plumbed⟩

theorem plumbs_execBody (job : Job) :
    Plumbs equal base (execBody job) (.start base) (EndsKnown base) := by
  refine plumbs_bind (plumbs_runSetup (built_start base) (ordered_setupSteps _)) ?_
  rintro ⟨ready, pipes⟩ v ⟨built, nodup, plumbed⟩
  cases ready with
  | true =>
    have built : Built base (setupSteps job.hasMemlimit) pipes v := built rfl
    refine plumbs_syscall (plumbed.allows trivial) fun spawned u answered => ?_
    cases spawned with
    | true =>
      have plumbed := built.spawn answered
      have all : Plumbed base pipeEnds u := by
        refine plumbed.mono fun e => ?_
        rw [built.opens]
        cases job.hasMemlimit <;> rfl
      exact plumbs_checked (undisturbed_watchdogCheck plumbed) ⟨nodup, plumbed⟩
        (plumbs_writeStdin all job)
    | false =>
      obtain rfl : u = v := answered
      exact plumbs_pure ⟨nodup, plumbed⟩
  | false => exact plumbs_pure ⟨nodup, plumbed⟩

theorem plumbs_closeAll {pipes : List PipeEnd} (nodup : pipes.Nodup) (h : Plumbed base pipes w) :
    Plumbs equal base (closeAll pipes) w fun _ => Plumbed base [] := by
  induction pipes generalizing w with
  | nil => exact plumbs_pure h
  | cons e rest ih =>
    rw [List.nodup_cons] at nodup
    refine plumbs_close h List.mem_cons_self fun v closed => ih nodup.2 (closed.mono fun e' => ?_)
    simp only [List.mem_filter, List.mem_cons, decide_eq_true_eq]
    constructor
    · rintro ⟨rfl | mem, ne⟩
      · contradiction
      · exact mem
    · intro mem
      refine ⟨.inr mem, ?_⟩
      rintro rfl
      exact nodup.1 mem

theorem plumbs_errCleanup {ending : Ending} (h : EndsKnown base ending w) :
    Plumbs equal base (errCleanup ending) w fun _ => Plumbed base [] := by
  obtain ⟨nodup, plumbed⟩ := h
  refine (undisturbed_watchdogDisarm plumbed).then fun _ => ?_
  have closing : Plumbs equal base (closeAll ending.pipes >>= fun _ => pure ending) w
      fun _ => Plumbed base [] :=
    plumbs_bind (plumbs_closeAll nodup plumbed) fun _ _ closed => plumbs_pure closed
  split
  · exact plumbs_idle rfl (plumbed.allows trivial) fun _ => closing
  · exact closing

/-- Whichever calls fail, and whichever of its standard streams the daemon lacks:
each call is made on the end that it is meant for, the child is wired from the start
on, and in the end the daemon has the descriptors it had before, and no other. -/
theorem plumbed_throughout (equal : Fds (OpenFile α) → Nat → Option (Fds (OpenFile α)))
    (usable : Bool) (job : Job) (base : Fds α) :
    (∀ q rest v, (plumbing equal).Reaches (execWithStdio usable job) (.start base)
      (.call q rest) v → v.Permits q ∧ ∀ c ∈ v.child, Wired base c) ∧
    ∀ ending v, (plumbing equal).Reaches (execWithStdio usable job) (.start base)
      (.done ending) v → v.fds = base.map .inl ∧ ∀ c ∈ v.child, Wired base c := by
  have plumbs : Plumbs equal base (execWithStdio usable job) (.start base)
      fun _ => Plumbed base [] := by
    unfold execWithStdio
    split
    · exact plumbs_pure (plumbed_start base)
    · refine (undisturbed_watchdogArm (plumbed_start base) usable).then fun _ => ?_
      exact plumbs_bind (plumbs_execBody job) fun ending v leaves => plumbs_errCleanup leaves
  exact ⟨fun q rest v reach => plumbs.permitted reach,
    fun ending v reach => ⟨(plumbs.result reach).fds_eq, (plumbs.result reach).child⟩⟩

end Plumbs

end Tumgrd
