import Mathlib.Data.List.Nodup
import Mathlib.Data.Nat.Find
import Mathlib.Logic.Function.Basic

/-! Descriptor tables: the numbers by which a process knows its open files. -/
namespace Unix

structure Descriptor (F : Type) where
  file : F
  cloexec : Bool

/-- All but finitely many numbers are free. -/
@[ext] structure Fds (F : Type) where
  entry : Nat → Option (Descriptor F)
  bounded : ∃ bound, ∀ fd, bound ≤ fd → entry fd = none

namespace Fds

variable {F G : Type} (t : Fds F)

theorem exists_free (low : Nat) : ∃ fd, low ≤ fd ∧ t.entry fd = none := by
  obtain ⟨bound, free⟩ := t.bounded
  exact ⟨max low bound, le_max_left _ _, free _ (le_max_right _ _)⟩

instance (low : Nat) : DecidablePred fun fd => low ≤ fd ∧ t.entry fd = none := fun _ =>
  inferInstanceAs (Decidable (_ ∧ _))

/-- The lowest free number from `low` on. -/
def free (low : Nat) : Nat := Nat.find (t.exists_free low)

theorem le_free (low : Nat) : low ≤ t.free low := (Nat.find_spec (t.exists_free low)).1

theorem entry_free (low : Nat) : t.entry (t.free low) = none :=
  (Nat.find_spec (t.exists_free low)).2

def set (fd : Nat) (d : Descriptor F) : Fds F where
  entry := Function.update t.entry fd (some d)
  bounded := by
    obtain ⟨bound, free⟩ := t.bounded
    refine ⟨max bound (fd + 1), fun n hn => ?_⟩
    rw [Function.update_of_ne (by omega)]
    exact free n (by omega)

def close (fd : Nat) : Fds F where
  entry := Function.update t.entry fd none
  bounded := by
    obtain ⟨bound, free⟩ := t.bounded
    refine ⟨bound, fun n hn => ?_⟩
    by_cases same : n = fd
    · rw [same, Function.update_self]
    · rw [Function.update_of_ne same]
      exact free n hn

def map (f : F → G) : Fds G where
  entry fd := (t.entry fd).map fun d => ⟨f d.file, d.cloexec⟩
  bounded := by
    obtain ⟨bound, free⟩ := t.bounded
    exact ⟨bound, fun n hn => by simp [free n hn]⟩

/-- `pipe`. -/
def pipe (reading writing : F) : (Nat × Nat) × Fds F :=
  let first := t.free 0
  let opened := t.set first ⟨reading, false⟩
  let second := opened.free 0
  ((first, second), opened.set second ⟨writing, false⟩)

/-- `fcntl` with `F_DUPFD_CLOEXEC`. -/
def dupCloexec (fd low : Nat) : Option (Nat × Fds F) :=
  (t.entry fd).map fun d => (t.free low, t.set (t.free low) ⟨d.file, true⟩)

/-- `fcntl` with `F_SETFD`, and `FD_CLOEXEC` in its flags. -/
def setCloexec (fd : Nat) : Option (Fds F) :=
  (t.entry fd).map fun d => t.set fd ⟨d.file, true⟩

/-- `dup2` as an action of `posix_spawn`. Implementations differ in what becomes
of two equal numbers. -/
def dup2 (equal : Fds F → Nat → Option (Fds F)) (source target : Nat) : Option (Fds F) :=
  if source = target then equal t source
  else (t.entry source).map fun d => t.set target ⟨d.file, false⟩

def dup2s (equal : Fds F → Nat → Option (Fds F)) :
    List (Nat × Nat) → Fds F → Option (Fds F)
  | [], t => some t
  | (source, target) :: rest, t => (t.dup2 equal source target).bind (dup2s equal rest)

/-- What is left of a table when a program is executed. -/
def exec : Fds F where
  entry fd := (t.entry fd).filter fun d => !d.cloexec
  bounded := by
    obtain ⟨bound, free⟩ := t.bounded
    exact ⟨bound, fun n hn => by simp [free n hn]⟩

variable {t} {fd n : Nat} {d : Descriptor F}

@[simp] theorem entry_set_self : (t.set fd d).entry fd = some d := Function.update_self _ _ _

theorem entry_set_of_ne (h : n ≠ fd) : (t.set fd d).entry n = t.entry n :=
  Function.update_of_ne h _ _

@[simp] theorem entry_close_self : (t.close fd).entry fd = none := Function.update_self _ _ _

theorem entry_close_of_ne (h : n ≠ fd) : (t.close fd).entry n = t.entry n :=
  Function.update_of_ne h _ _

@[simp] theorem entry_map (f : F → G) :
    (t.map f).entry fd = (t.entry fd).map fun d => ⟨f d.file, d.cloexec⟩ := rfl

@[simp] theorem entry_exec : t.exec.entry fd = (t.entry fd).filter fun d => !d.cloexec := rfl

theorem close_set (h : n ≠ fd) : (t.set n d).close fd = (t.close fd).set n d := by
  ext1
  exact (Function.update_comm h _ _ _)

/-- Actions whose sources are no targets do what they say, in any order. -/
theorem entry_dup2s {equal : Fds F → Nat → Option (Fds F)} {actions : List (Nat × Nat)}
    {u : Fds F} (run : dup2s equal actions t = some u)
    (apart : ∀ a ∈ actions, ∀ b ∈ actions, a.1 ≠ b.2)
    (distinct : (actions.map Prod.snd).Nodup) :
    (∀ a ∈ actions, ∃ d, t.entry a.1 = some d ∧ u.entry a.2 = some ⟨d.file, false⟩) ∧
      ∀ n, n ∉ actions.map Prod.snd → u.entry n = t.entry n := by
  induction actions generalizing t with
  | nil =>
    cases run
    exact ⟨nofun, fun _ _ => rfl⟩
  | cons action rest ih =>
    obtain ⟨source, target⟩ := action
    obtain ⟨t', dup, run⟩ := Option.bind_eq_some_iff.mp run
    have ne : source ≠ target := apart _ List.mem_cons_self _ List.mem_cons_self
    rw [dup2, if_neg ne] at dup
    obtain ⟨d, opened, rfl⟩ := Option.map_eq_some_iff.mp dup
    rw [List.map_cons, List.nodup_cons] at distinct
    obtain ⟨done, others⟩ := ih run
      (fun a ha b hb =>
        apart a (List.mem_cons_of_mem _ ha) b (List.mem_cons_of_mem _ hb)) distinct.2
    refine ⟨List.forall_mem_cons.mpr ⟨⟨d, opened, ?_⟩, fun a ha => ?_⟩, fun n hn => ?_⟩
    · rw [others target distinct.1, entry_set_self]
    · obtain ⟨d', opened', dup'⟩ := done a ha
      have ne' : a.1 ≠ target := apart a (List.mem_cons_of_mem _ ha) _ List.mem_cons_self
      rw [entry_set_of_ne ne'] at opened'
      exact ⟨d', opened', dup'⟩
    · rw [List.map_cons, List.mem_cons, not_or] at hn
      rw [others n hn.2, entry_set_of_ne hn.1]

end Fds

/-- A table with descriptors added to it: `var` says which number each of them has. -/
structure Enlarges {F H : Type} (base : Fds F) (file : H → F) (t : Fds F)
    (var : H → Option Nat) :
    Prop where
  own : ∀ h fd, var h = some fd → ∃ cloexec, t.entry fd = some ⟨file h, cloexec⟩
  new : ∀ h fd, var h = some fd → base.entry fd = none
  distinct : ∀ h h' fd, var h = some fd → var h' = some fd → h = h'
  others : ∀ fd, (∀ h, var h ≠ some fd) → t.entry fd = base.entry fd

namespace Enlarges

variable {F H : Type} {base t : Fds F} {file : H → F} {var : H → Option Nat} {h : H} {fd : Nat}
  {cloexec : Bool}

theorem refl (base : Fds F) (file : H → F) : Enlarges base file base fun _ => none :=
  ⟨nofun, nofun, nofun, fun _ _ => rfl⟩

/-- When all of them are closed, the table is as it was. -/
theorem eq (adds : Enlarges base file t var) (closed : ∀ h, var h = none) : t = base := by
  ext1
  funext fd
  apply adds.others
  intro h held
  rw [closed] at held
  contradiction

theorem free (adds : Enlarges base file t var) (vacant : t.entry fd = none) (h : H) :
    var h ≠ some fd := by
  intro held
  obtain ⟨_, entry⟩ := adds.own h fd held
  rw [vacant] at entry
  contradiction

theorem flag (adds : Enlarges base file t var) (held : var h = some fd) :
    Enlarges base file (t.set fd ⟨file h, cloexec⟩) var := by
  refine ⟨fun h' n assigned => ?_, adds.new, adds.distinct, fun n unheld => ?_⟩
  · by_cases same : n = fd
    · subst same
      rw [adds.distinct h' h n assigned held]
      exact ⟨cloexec, Fds.entry_set_self⟩
    · rw [Fds.entry_set_of_ne same]
      exact adds.own h' n assigned
  · have ne : n ≠ fd := by
      rintro rfl
      exact unheld h held
    rw [Fds.entry_set_of_ne ne]
    exact adds.others n unheld

variable [DecidableEq H]

theorem gain (adds : Enlarges base file t var) (closed : var h = none)
    (vacant : t.entry fd = none) :
    Enlarges base file (t.set fd ⟨file h, cloexec⟩) (Function.update var h (some fd)) := by
  have fresh := adds.free vacant
  have held {h' : H} {n : Nat} (assigned : Function.update var h (some fd) h' = some n) :
      h' = h ∧ n = fd ∨ h' ≠ h ∧ var h' = some n ∧ n ≠ fd := by
    by_cases same : h' = h
    · subst same
      rw [Function.update_self, Option.some.injEq] at assigned
      exact .inl ⟨rfl, assigned.symm⟩
    · rw [Function.update_of_ne same] at assigned
      exact .inr ⟨same, assigned, fun eq => fresh h' (eq ▸ assigned)⟩
  refine ⟨fun h' n assigned => ?_, fun h' n assigned => ?_, fun h' h'' n first second => ?_,
    fun n unheld => ?_⟩
  · rcases held assigned with ⟨rfl, rfl⟩ | ⟨-, before, ne⟩
    · exact ⟨cloexec, Fds.entry_set_self⟩
    · rw [Fds.entry_set_of_ne ne]
      exact adds.own h' n before
  · rcases held assigned with ⟨rfl, rfl⟩ | ⟨-, before, -⟩
    · rw [← adds.others n fresh, vacant]
    · exact adds.new h' n before
  · rcases held first with ⟨rfl, rfl⟩ | ⟨-, before, ne⟩ <;>
      rcases held second with ⟨rfl, same⟩ | ⟨-, before', ne'⟩
    · rfl
    · contradiction
    · contradiction
    · exact adds.distinct h' h'' n before before'
  · have ne : n ≠ fd := by
      rintro rfl
      exact unheld h (Function.update_self _ _ _)
    rw [Fds.entry_set_of_ne ne]
    refine adds.others n fun h' before => ?_
    by_cases same : h' = h
    · subst same
      rw [closed] at before
      contradiction
    · exact unheld h' ((Function.update_of_ne same _ _).trans before)

theorem lose (adds : Enlarges base file t var) (held : var h = some fd) :
    Enlarges base file (t.close fd) (Function.update var h none) := by
  have kept {h' : H} {n : Nat} (assigned : Function.update var h none h' = some n) :
      var h' = some n ∧ n ≠ fd := by
    by_cases same : h' = h
    · subst same
      rw [Function.update_self] at assigned
      contradiction
    · rw [Function.update_of_ne same] at assigned
      exact ⟨assigned, fun eq => same (adds.distinct h' h n assigned (eq ▸ held))⟩
  refine ⟨fun h' n assigned => ?_, fun h' n assigned => adds.new h' n (kept assigned).1,
    fun h' h'' n first second => adds.distinct h' h'' n (kept first).1 (kept second).1,
    fun n unheld => ?_⟩
  · rw [Fds.entry_close_of_ne (kept assigned).2]
    exact adds.own h' n (kept assigned).1
  · by_cases same : n = fd
    · subst same
      rw [Fds.entry_close_self, adds.new h n held]
    · rw [Fds.entry_close_of_ne same]
      refine adds.others n fun h' before => ?_
      by_cases same' : h' = h
      · subst same'
        rw [held, Option.some.injEq] at before
        exact same before.symm
      · exact unheld h' ((Function.update_of_ne same' _ _).trans before)

/-- A descriptor gets another number. -/
theorem move {n : Nat} (adds : Enlarges base file t var) (held : var h = some fd)
    (vacant : t.entry n = none) :
    Enlarges base file ((t.set n ⟨file h, cloexec⟩).close fd)
        (Function.update var h (some n)) := by
  have ne : n ≠ fd := by
    rintro rfl
    exact adds.free vacant h held
  have vacant' : (t.close fd).entry n = none := (Fds.entry_close_of_ne ne).trans vacant
  have moved : Enlarges base file ((t.close fd).set n ⟨file h, cloexec⟩) _ :=
    (adds.lose held).gain (Function.update_self h none var) vacant'
  rw [Function.update_idem] at moved
  rw [Fds.close_set ne]
  exact moved

end Enlarges
end Unix
