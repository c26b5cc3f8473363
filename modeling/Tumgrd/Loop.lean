import Tumgrd.Options
import Tumgrd.Skip

/-! The event loop: two timers, the methods of the clients and the events of the
network, one at a time. Times are milliseconds of the clock of `uloop`. -/
namespace Tumgrd

open Effect Program Semantics Service

/-- What `uci_lookup_ptr` finds at `network.wan.device`. -/
inductive UciOption where
  | string (device : Str)
  | list (devices : List Str)

/-- There is no answer where the lookup fails. -/
def checkWanInterface (lookup : Option (Option UciOption)) (ifname : Str) : Option Bool := do
  match ← lookup with
  | some (.string device) => pure (device = ifname)
  | some (.list devices) => pure (devices.contains ifname)
  | none => pure false

structure NetEvent where
  action : Option Str
  ifname : Option Str

/-- Whether `net_event_cb` reconciles. -/
def NetEvent.reconciles (lookup : Option (Option UciOption)) (e : NetEvent) : Bool :=
  match e.action, e.ifname with
  | some action, some ifname =>
      action = "ifup".toList && checkWanInterface lookup ifname = some true
  | _, _ => false

inductive Timer where
  | startup
  | periodic
  deriving DecidableEq

def Timer.op : Timer → Op
  | .startup => .startup
  | .periodic => .periodic

def Op.timer? : Op → Option Timer
  | .startup => some .startup
  | .periodic => some .periodic
  | .register _ | .deregister _ | .refresh _ | .status | .ifup => none

/-- The methods of the ubus object. -/
def Op.isMethod : Op → Bool
  | .register _ | .deregister _ | .refresh _ | .status => true
  | .periodic | .ifup | .startup => false

/-- `TUMGRD_STARTUP_RECONCILE_DELAY_MS`. -/
def startupDelay : Nat := 3000

/-- The deadlines of the timers that are armed. -/
structure Timers where
  startup : Option Nat
  periodic : Option Nat

def Timers.disarm (t : Timers) : Timer → Timers
  | .startup => { t with startup := none }
  | .periodic => { t with periodic := none }

/-- The timers are in the order of their deadlines; of two with one deadline, the
one that was armed first comes first. -/
def Timers.next (t : Timers) : Option (Timer × Nat) :=
  match t.startup, t.periodic with
  | some s, some p => some (if s ≤ p then (.startup, s) else (.periodic, p))
  | some s, none => some (.startup, s)
  | none, some p => some (.periodic, p)
  | none, none => none

def Timers.due (t : Timers) (clock : Nat) : Option Timer := do
  let (timer, deadline) ← t.next
  guard (deadline ≤ clock)
  pure timer

/-- The callback of a timer begins or ends. -/
structure Mark where
  timer : Timer
  begins : Bool
  time : Nat

/-- A process since it came to `uloop_run`, with the marks newest first. Its
object is `published`, or the bus has refused it. -/
structure Loop where
  options : Options
  published : Bool
  born : Nat
  clock : Nat
  timers : Timers
  marks : List Mark
  service : State Req Resp World Task

/-- The command line and the log level are accepted. -/
def Options.Accepted (o : Options) : Prop :=
  (∃ bits positional opts, parseArgs bits positional opts configInit = .ok o) ∧
    (parseLogLevel o.logLevel).isSome = true

namespace Loop

/-- `tumgrd_ubus_init` arms one timer after the other. Where `ubus_add_object`
fails with a positive code it returns before that, and `main` goes on to
`uloop_run` all the same. -/
def boot (options : Options) (published : Bool) (clock later : Nat) (w : World) : Loop where
  options
  published
  born := clock
  clock := clock + later
  timers :=
    if published then
      ⟨some (clock + startupDelay), some (clock + later + options.interval * 1000)⟩
    else ⟨none, none⟩
  marks := []
  service := .idle w

variable (l : Loop)

def pause : Nat := l.options.interval * 1000

def begin (op : Op) (w : World) : Loop :=
  let t : Task := ⟨l.options.config, op⟩
  { l with service := .busy t w w t.prog }

/-- `uloop` takes the timer off before it calls it. -/
def fire (timer : Timer) (w : World) : Loop :=
  { l.begin timer.op w with
    timers := l.timers.disarm timer
    marks := ⟨timer, true, l.clock⟩ :: l.marks }

/-- `periodic_reconcile_timer_cb` arms its timer again when the pass is over. -/
def finish (op : Op) (w : World) : Loop :=
  match op.timer? with
  | none => { l with service := .idle w }
  | some .startup =>
    { l with service := .idle w, marks := ⟨.startup, false, l.clock⟩ :: l.marks }
  | some .periodic => { l with
      service := .idle w
      timers := { l.timers with periodic := some (l.clock + l.pause) }
      marks := ⟨.periodic, false, l.clock⟩ :: l.marks }

variable (S : Semantics Req Resp World) (clients : World → Op → Prop)

/-- Methods and events come only to a process on the bus. A process ends between
two requests or when `uloop_end` is called; the next one may have another command
line. -/
inductive Step : Loop → Loop → Prop
  | tick {l : Loop} {clock : Nat} : l.clock ≤ clock → Step l { l with clock }
  | fire {l : Loop} {w : World} {timer : Timer} : l.service = .idle w →
      l.timers.due l.clock = some timer → Step l (l.fire timer w)
  | method {l : Loop} {w : World} {op : Op} : l.service = .idle w → l.published = true →
      op.isMethod = true → clients w op → Step l (l.begin op w)
  | event {l : Loop} {w : World} {e : NetEvent} {lookup : Option (Option UciOption)} :
      l.service = .idle w → l.published = true → e.reconciles lookup = true →
        Step l (l.begin .ifup w)
  | call {l : Loop} {t : Task} {w₀ w : World} {q : Req} {rest : Resp q → Prog Unit}
      {r : Resp q} :
      l.service = .busy t w₀ w (.call q rest) → S.allowed w q r →
        Step l { l with service := .busy t w₀ (S.after w q r) (rest r) }
  | finish {l : Loop} {t : Task} {w₀ w : World} : l.service = .busy t w₀ w (.done ()) →
      Step l (l.finish t.op w)
  | boot {l : Loop} {options : Options} {published : Bool} {clock later : Nat} :
      options.Accepted → Step l (.boot options published clock later l.service.world.restart)

inductive Reachable : Loop → Prop
  | boot {options : Options} {published : Bool} {clock later : Nat} {w : World} :
      options.Accepted → w.Fresh → Reachable (.boot options published clock later w)
  | step {l l' : Loop} : Reachable l → Step S clients l l' → Reachable l'

end Loop

section Timers

variable {t : Timers} {clock d : Nat}

theorem Timers.due_startup (h : t.due clock = some .startup) :
    ∃ s, t.startup = some s ∧ s ≤ clock ∧ ∀ p, t.periodic = some p → s ≤ p := by
  simp only [due, Option.bind_eq_bind, Option.bind_eq_some_iff, Option.guard_eq_some',
    Option.pure_def, Option.some.injEq] at h
  obtain ⟨⟨-, s⟩, next, -, passed, rfl⟩ := h
  unfold Timers.next at next
  cases startup : t.startup <;> cases periodic : t.periodic <;>
    simp only [startup, periodic] at next
  · contradiction
  · simp at next
  · exact ⟨s, by simpa using next, passed, nofun⟩
  · split at next
    · simp only [Option.some.injEq, Prod.mk.injEq, true_and] at next
      subst next
      refine ⟨_, rfl, passed, ?_⟩
      rintro _ ⟨⟩
      assumption
    · simp at next

theorem Timers.due_periodic (h : t.due clock = some .periodic) :
    ∃ p, t.periodic = some p ∧ p ≤ clock ∧ ∀ s, t.startup = some s → p < s := by
  simp only [due, Option.bind_eq_bind, Option.bind_eq_some_iff, Option.guard_eq_some',
    Option.pure_def, Option.some.injEq] at h
  obtain ⟨⟨-, p⟩, next, -, passed, rfl⟩ := h
  unfold Timers.next at next
  cases startup : t.startup <;> cases periodic : t.periodic <;>
    simp only [startup, periodic] at next
  · contradiction
  · exact ⟨p, by simpa using next, passed, nofun⟩
  · simp at next
  · split at next
    · simp at next
    · simp only [Option.some.injEq, Prod.mk.injEq, true_and] at next
      subst next
      refine ⟨_, rfl, passed, ?_⟩
      rintro _ ⟨⟩
      omega

/-- A timer that is armed is due in the end. -/
theorem Timers.due_of_armed (armed : t.periodic = some d) (passed : d ≤ clock) :
    (t.due clock).isSome = true := by
  unfold due Timers.next
  cases startup : t.startup with
  | none => simp [armed, passed]
  | some s =>
    simp only [armed]
    split
    · simp [show s ≤ clock by omega]
    · simp [passed]

end Timers

/-- The marks of one process: the startup reconcile is first, no pass begins
before the last one has ended, and between two periodic ones there is a pause. -/
inductive Spaced (born pause : Nat) : List Mark → Prop
  | nil : Spaced born pause []
  | startup {time : Nat} : born + startupDelay ≤ time →
    Spaced born pause [⟨.startup, true, time⟩]
  | periodic {time : Nat} {marks : List Mark} :
    Spaced born pause marks → born + pause ≤ time →
      (∀ m ∈ marks.head?, m.begins = false) →
        (∃ done, ⟨.startup, false, done⟩ ∈ marks) →
      (∀ m ∈ marks, m.timer = .periodic → m.time + pause ≤ time) →
      Spaced born pause (⟨.periodic, true, time⟩ :: marks)
  | ended {timer : Timer} {begun time : Nat} {marks : List Mark} :
      Spaced born pause (⟨timer, true, begun⟩ :: marks) → begun ≤ time →
      Spaced born pause (⟨timer, false, time⟩ :: ⟨timer, true, begun⟩ :: marks)

section Spaced

variable {born pause time now : Nat} {marks newer older : List Mark}

theorem Spaced.startup_first (spaced : Spaced born pause marks)
    (cut : marks = newer ++ ⟨.startup, true, time⟩ :: older) :
    older = [] ∧ born + startupDelay ≤ time := by
  induction spaced generalizing newer with
  | nil => simp at cut
  | startup late =>
    cases newer with
    | nil =>
      obtain ⟨⟨⟩, rfl⟩ := List.cons.inj cut
      exact ⟨rfl, late⟩
    | cons m newer => simp at cut
  | periodic _ _ _ _ _ ih | ended _ _ ih =>
    cases newer with
    | nil => simp at cut
    | cons m newer => exact ih (List.cons.inj cut).2

theorem Spaced.periodic_after (spaced : Spaced born pause marks)
    (cut : marks = newer ++ ⟨.periodic, true, time⟩ :: older) :
    born + pause ≤ time ∧ (∀ m ∈ older.head?, m.begins = false) ∧
      (∃ done, ⟨.startup, false, done⟩ ∈ older) ∧
      ∀ m ∈ older, m.timer = .periodic → m.time + pause ≤ time := by
  induction spaced generalizing newer with
  | nil => simp at cut
  | startup =>
    cases newer with
    | nil => simp at cut
    | cons m newer => simp at cut
  | periodic _ late closed done apart ih =>
    cases newer with
    | nil =>
      obtain ⟨⟨⟩, rfl⟩ := List.cons.inj cut
      exact ⟨late, closed, done, apart⟩
    | cons m newer => exact ih (List.cons.inj cut).2
  | ended _ _ ih =>
    cases newer with
    | nil => simp at cut
    | cons m newer => exact ih (List.cons.inj cut).2

def Mark.isPass (m : Mark) : Bool := m.timer = .periodic && m.begins

/-- Every pass has used up a pause. -/
theorem Spaced.passes (spaced : Spaced born pause marks) (later : born ≤ now)
    (past : ∀ m ∈ marks, m.timer = .periodic → m.time ≤ now) :
    born + marks.countP Mark.isPass * pause ≤ now := by
  induction spaced generalizing now with
  | nil => simpa
  | startup => simpa [Mark.isPass]
  | @periodic time marks _ late _ _ apart ih =>
    have earlier : ∀ m ∈ marks, m.timer = .periodic → m.time ≤ time - pause := by
      intro m mem periodic
      have := apart m mem periodic
      omega
    have before := ih (by omega) earlier
    have reached : time ≤ now := past _ List.mem_cons_self rfl
    have one : (⟨.periodic, true, time⟩ :: marks : List Mark).countP Mark.isPass =
        marks.countP Mark.isPass + 1 := by simp [Mark.isPass]
    rw [one, Nat.succ_mul]
    omega
  | ended _ _ ih =>
    rw [List.countP_cons_of_neg (by simp [Mark.isPass])]
    exact ih later fun m mem => past m (List.mem_cons_of_mem _ mem)

end Spaced

namespace Loop

variable {S : Semantics Req Resp World} {clients : World → Op → Prop} {l l' : Loop} {w : World}

/-- The timer whose callback is running. -/
def running (l : Loop) : Option Timer :=
  match l.service with
  | .idle _ => none
  | .busy t _ _ _ => t.op.timer?

structure Paced (l : Loop) : Prop where
  accepted : l.options.Accepted
  born : l.born ≤ l.clock
  past : ∀ m ∈ l.marks, m.time ≤ l.clock
  startup : ∀ s, l.timers.startup = some s → s = l.born + startupDelay ∧ l.marks = []
  fired : l.published = true → l.timers.startup = none → l.running = some .startup ∨
    ∃ done, ⟨.startup, false, done⟩ ∈ l.marks
  spaced : Spaced l.born l.pause l.marks
  current : ∀ timer, l.running = some timer →
    ∃ begun marks, l.marks = ⟨timer, true, begun⟩ :: marks
  resting : l.running = none → ∀ m ∈ l.marks.head?, m.begins = false
  periodic : ∀ p, l.timers.periodic = some p → l.born + l.pause ≤ p ∧
    p ≤ l.clock + l.pause ∧
    ∀ m ∈ l.marks, m.timer = .periodic → m.time + l.pause ≤ p
  armed : l.published = true → l.timers.periodic = none → l.running = some .periodic
  refused : l.published = false → l.timers = ⟨none, none⟩ ∧ l.marks = [] ∧
    ∃ w, l.service = .idle w

theorem pause_legal (accepted : l.options.Accepted) :
    10000 ≤ l.pause ∧ l.pause ≤ 3600000 := by
  obtain ⟨⟨bits, positional, opts, parsed⟩, -⟩ := accepted
  have legal := (legal_of_parseArgs parsed legal_configInit).interval
  unfold pause
  omega

theorem paced_boot {options : Options} {published : Bool} {clock later : Nat}
    (accepted : options.Accepted) : (boot options published clock later w).Paced where
  accepted := accepted
  born := Nat.le_add_right _ _
  past := nofun
  startup := by
    intro s armed
    cases published with
    | true => exact ⟨(Option.some.inj armed).symm, rfl⟩
    | false => contradiction
  fired := by
    rintro rfl off
    contradiction
  spaced := .nil
  current := nofun
  resting := fun _ => nofun
  periodic := by
    intro p armed
    cases published with
    | true =>
      cases Option.some.inj armed
      refine ⟨?_, ?_, nofun⟩ <;> simp only [boot, pause] <;> omega
    | false => contradiction
  armed := by
    rintro rfl off
    contradiction
  refused := by
    rintro rfl
    exact ⟨rfl, rfl, w, rfl⟩

theorem Paced.tick (paced : l.Paced) {clock : Nat} (later : l.clock ≤ clock) :
    Paced { l with clock } :=
  { paced with
    born := paced.born.trans later
    past := fun m mem => (paced.past m mem).trans later
    periodic := by
      intro p armed
      obtain ⟨born, bound, spaced⟩ := paced.periodic p armed
      exact ⟨born, bound.trans (Nat.add_le_add_right later _), spaced⟩ }

/-- What is served, or has a deadline, is a process on the bus. -/
theorem Paced.published_of_busy (paced : l.Paced) {t : Task} {w₀ : World} {p : Prog Unit}
    (busy : l.service = .busy t w₀ w p) : l.published = true := by
  cases refused : l.published with
  | true => rfl
  | false =>
    obtain ⟨-, -, v, idle⟩ := paced.refused refused
    rw [busy] at idle
    contradiction

theorem Paced.published_of_due (paced : l.Paced) {timer : Timer}
    (due : l.timers.due l.clock = some timer) : l.published = true := by
  cases refused : l.published with
  | true => rfl
  | false =>
    rw [(paced.refused refused).1] at due
    contradiction

theorem still_published (published : l.published = true) {P : Prop} :
    l.published = false → P :=
  fun refused => Bool.noConfusion (published.symm.trans refused)

/-- A task without a timer leaves the timers and the marks alone. -/
theorem Paced.serve (paced : l.Paced) {service : State Req Resp World Task}
    (published : l.published = true) (same : running { l with service } = l.running) :
    Paced { l with service } :=
  { paced with
    fired := fun served off => same ▸ paced.fired served off
    current := fun timer running => paced.current timer (same ▸ running)
    resting := fun none => paced.resting (same ▸ none)
    armed := fun served off => same ▸ paced.armed served off
    refused := still_published published }

/-- A mark that is made now. -/
theorem Paced.marked (paced : l.Paced) {m : Mark} (now : m.time = l.clock) :
    ∀ m' ∈ m :: l.marks, m'.time ≤ l.clock := by
  rintro m' (_ | ⟨_, mem⟩)
  · exact now.le
  · exact paced.past m' mem

theorem Paced.fire_startup (paced : l.Paced) (idle : l.service = .idle w)
    (due : l.timers.due l.clock = some .startup) : (l.fire .startup w).Paced := by
  obtain ⟨s, armed, passed, -⟩ := Timers.due_startup due
  obtain ⟨rfl, fresh⟩ := paced.startup s armed
  have published := paced.published_of_due due
  exact {
    accepted := paced.accepted
    born := paced.born
    past := paced.marked rfl
    startup := nofun
    fired := fun _ _ => .inl rfl
    spaced := by simpa only [Loop.fire, fresh] using .startup passed
    current := by
      rintro timer ⟨⟩
      exact ⟨_, _, rfl⟩
    resting := nofun
    periodic := by
      intro p armed
      obtain ⟨born, bound, -⟩ := paced.periodic p armed
      refine ⟨born, bound, ?_⟩
      rintro m mem periodic
      simp only [Loop.fire, fresh, List.mem_singleton] at mem
      subst mem
      contradiction
    armed := by
      intro _ off
      have other := paced.armed published off
      simp [running, idle] at other
    refused := still_published published }

/-- The startup timer is the first by seven seconds. -/
theorem Paced.fired_of_periodic (paced : l.Paced) (due : l.timers.due l.clock = some .periodic) :
    l.timers.startup = none := by
  obtain ⟨p, armed, -, first⟩ := Timers.due_periodic due
  have late := (paced.periodic p armed).1
  have long := (pause_legal paced.accepted).1
  cases startup : l.timers.startup with
  | none => rfl
  | some s =>
    have before := first s startup
    rw [(paced.startup s startup).1, startupDelay] at before
    omega

theorem Paced.fire_periodic (paced : l.Paced) (idle : l.service = .idle w)
    (due : l.timers.due l.clock = some .periodic) : (l.fire .periodic w).Paced := by
  have rests : l.running = none := by simp [running, idle]
  have fired := paced.fired_of_periodic due
  obtain ⟨p, armed, passed, -⟩ := Timers.due_periodic due
  obtain ⟨born, -, spaced⟩ := paced.periodic p armed
  have published := paced.published_of_due due
  have done := (paced.fired published fired).resolve_left (by simp [rests])
  exact {
    accepted := paced.accepted
    born := paced.born
    past := paced.marked rfl
    startup := fun s armed => absurd (fired.symm.trans armed) (by simp)
    fired := fun _ _ => .inr (done.imp fun _ => List.mem_cons_of_mem _)
    spaced := .periodic paced.spaced (born.trans passed) (paced.resting rests) done
      fun m mem periodic => (spaced m mem periodic).trans passed
    current := by
      rintro timer ⟨⟩
      exact ⟨_, _, rfl⟩
    resting := nofun
    periodic := nofun
    armed := fun _ _ => rfl
    refused := still_published published }

section Finish

variable {t : Task} {w₀ : World} {p : Prog Unit} {timer : Timer}

/-- The callback that was running has ended. -/
theorem Paced.ended (paced : l.Paced) (ours : l.running = some timer) :
    Spaced l.born l.pause (⟨timer, false, l.clock⟩ :: l.marks) := by
  obtain ⟨begun, marks, same⟩ := paced.current _ ours
  have passed := paced.past ⟨timer, true, begun⟩ (by simp [same])
  rw [same]
  exact .ended (same ▸ paced.spaced) passed

theorem Paced.fired_of_running (paced : l.Paced) (ours : l.running = some timer) :
    l.timers.startup = none := by
  obtain ⟨begun, marks, same⟩ := paced.current _ ours
  cases armed : l.timers.startup with
  | none => rfl
  | some s => simp [(paced.startup s armed).2] at same

theorem Paced.finish (paced : l.Paced) (busy : l.service = .busy t w₀ w p) :
    (l.finish t.op w).Paced := by
  have ours : l.running = t.op.timer? := by simp [running, busy]
  have published := paced.published_of_busy busy
  unfold Loop.finish
  cases kind : t.op.timer? with
  | none => exact paced.serve published (ours.trans kind).symm
  | some timer =>
    replace ours := ours.trans kind
    clear kind
    have fired := paced.fired_of_running ours
    have started : ∀ s, l.timers.startup = some s → False := by simp [fired]
    cases timer with
    | startup =>
      exact {
        accepted := paced.accepted
        born := paced.born
        past := paced.marked rfl
        startup := fun s armed => (started s armed).elim
        fired := fun _ _ => .inr ⟨_, List.mem_cons_self⟩
        spaced := paced.ended ours
        current := nofun
        resting := by
          rintro - m ⟨⟩
          rfl
        periodic := by
          intro p armed
          obtain ⟨born, bound, spaced⟩ := paced.periodic p armed
          refine ⟨born, bound, ?_⟩
          rintro m (_ | ⟨_, mem⟩) periodic
          · contradiction
          · exact spaced m mem periodic
        armed := fun _ off => absurd (ours.symm.trans (paced.armed published off)) (by simp)
        refused := still_published published }
    | periodic =>
      have done := (paced.fired published fired).resolve_left (by simp [ours])
      exact {
        accepted := paced.accepted
        born := paced.born
        past := paced.marked rfl
        startup := fun s armed => (started s armed).elim
        fired := fun _ _ => .inr (done.imp fun _ => List.mem_cons_of_mem _)
        spaced := paced.ended ours
        current := nofun
        resting := by
          rintro - m ⟨⟩
          rfl
        periodic := by
          rintro p ⟨⟩
          refine ⟨Nat.add_le_add_right paced.born _, le_rfl, ?_⟩
          exact fun m mem _ => Nat.add_le_add_right (paced.marked rfl m mem) _
        armed := nofun
        refused := still_published published }

end Finish

theorem Paced.step (paced : l.Paced) (step : Step S clients l l') : l'.Paced := by
  cases step with
  | tick later => exact paced.tick later
  | @fire _ timer idle due =>
    cases timer with
    | startup => exact paced.fire_startup idle due
    | periodic => exact paced.fire_periodic idle due
  | @method _ op idle published method =>
    refine paced.serve published ?_
    cases op with
    | periodic => contradiction
    | startup => contradiction
    | _ => simp [running, idle, Op.timer?]
  | event idle published =>
    refine paced.serve published ?_
    simp [running, idle, Op.timer?]
  | call busy =>
    refine paced.serve (paced.published_of_busy busy) ?_
    simp [running, busy]
  | finish busy => exact paced.finish busy
  | boot accepted => exact paced_boot accepted

theorem Reachable.paced (reach : Reachable S clients l) : l.Paced := by
  induction reach with
  | boot accepted => exact paced_boot accepted
  | step _ step ih => exact ih.step step

/-- The passes of a process, whatever clients and networks do: the startup
reconcile comes first and once, no earlier than its delay; a periodic one comes
when the last pass has ended, a whole interval after the periodic one before it;
and an idle loop has a timer that is due within an interval. A process that the
bus has refused does nothing at all. -/
theorem timers_paced (reach : Reachable S clients l) :
    (∀ newer time older, l.marks = newer ++ ⟨.startup, true, time⟩ :: older →
      older = [] ∧ l.born + startupDelay ≤ time) ∧
    (∀ newer time older, l.marks = newer ++ ⟨.periodic, true, time⟩ :: older →
      l.born + l.pause ≤ time ∧ (∀ m ∈ older.head?, m.begins = false) ∧
        (∃ done, ⟨.startup, false, done⟩ ∈ older) ∧
        ∀ m ∈ older, m.timer = .periodic → m.time + l.pause ≤ time) ∧
    l.born + l.marks.countP Mark.isPass * l.pause ≤ l.clock ∧
    (∀ w, l.published = true → l.service = .idle w →
      ∃ wait ≤ l.pause, (l.timers.due (l.clock + wait)).isSome = true) ∧
    (l.published = false → l.marks = [] ∧ ∃ w, l.service = .idle w) := by
  have paced := reach.paced
  refine ⟨fun _ _ _ => paced.spaced.startup_first, fun _ _ _ => paced.spaced.periodic_after,
    paced.spaced.passes paced.born fun m mem _ => paced.past m mem, fun w published idle => ?_,
    fun refused => (paced.refused refused).2⟩
  cases armed : l.timers.periodic with
  | none =>
    have ours := paced.armed published armed
    simp [running, idle] at ours
  | some p => exact ⟨l.pause, le_rfl, Timers.due_of_armed armed (paced.periodic p armed).2.1⟩

section Refinement

/-- What the loop admits: the options were accepted, the clients ask for what
they ask for, and no periodic reconcile comes before the startup one is through. -/
def Admits (clients : World → Op → Prop) (w : World) (t : Task) : Prop :=
  Started w t ∧ (w.booting = true → t.op ≠ .periodic) ∧
    (t.op.isMethod = true → clients w t.op)

/-- On the bus, until the startup reconcile is through, its timer is armed or it
is running. -/
def Booting (S : Semantics Req Resp World) (l : Loop) : Prop :=
  l.published = true → match l.service with
  | .idle w => w.booting = true → l.timers.startup ≠ none
  | .busy t _ w rest => t.op = .startup ∧
        S.Safe (fun _ _ => True) rest w (fun _ v => v.booting = false) ∨
      t.op ≠ .startup ∧ (w.booting = true → l.timers.startup ≠ none)

theorem booting_after {q : Req} {r : Resp q} (h : (w.after q r).booting = true) :
    w.booting = true := by
  cases q with
  | report what =>
    cases what with
    | startupDone => contradiction
    | _ => exact h
  | _ => exact h

@[simp] theorem finish_service (op : Op) : (l.finish op w).service = .idle w := by
  unfold finish
  split <;> rfl

@[simp] theorem finish_published (op : Op) : (l.finish op w).published = l.published := by
  unfold finish
  split <;> rfl

@[simp] theorem finish_startup (op : Op) :
    (l.finish op w).timers.startup = l.timers.startup := by
  unfold finish
  split <;> rfl

/-- Whatever is answered, the startup reconcile ends with its report. -/
theorem safe_startupReconcile (after : S.after = World.after) (cfg : Config) :
    S.Safe (fun _ _ => True) (startupReconcile cfg) w fun _ v => v.booting = false := by
  have any : S.Safe (fun _ _ => True) (reconcileAll cfg true) w fun _ _ => True :=
    (safe_iff_runs _).mpr ⟨fun _ _ _ _ => trivial, fun _ _ _ => trivial⟩
  unfold startupReconcile
  rw [safe_bind]
  refine any.post fun _ v _ => ?_
  rw [report, perform, safe_perform, after]
  exact ⟨trivial, fun _ _ => rfl⟩

theorem started_of_accepted (accepted : l.options.Accepted) (op : Op) :
    Started w ⟨l.options.config, op⟩ := by
  obtain ⟨⟨bits, positional, opts, parsed⟩, -⟩ := accepted
  exact ⟨bits, positional, opts, _, parsed, rfl⟩

theorem Booting.begin {timers : Timers} {marks : List Mark} {op : Op}
    (other : op ≠ .startup) (pending : w.booting = true → timers.startup ≠ none) :
    Booting S { l.begin op w with timers, marks } :=
  fun _ => .inr ⟨other, pending⟩

theorem booting_boot {options : Options} {published : Bool} {clock later : Nat} :
    (boot options published clock later w).Booting S := by
  rintro rfl _ off
  contradiction

theorem Booting.step (after : S.after = World.after) (booting : l.Booting S)
    (step : Step S clients l l') : l'.Booting S := by
  cases step with
  | tick => exact booting
  | @fire w timer idle due =>
    intro published
    have pending := booting published
    cases timer with
    | startup => exact .inl ⟨rfl, safe_startupReconcile after _⟩
    | periodic =>
      simp only [idle] at pending
      exact Booting.begin (l := l) (S := S) (fun same => by contradiction) pending published
  | @method w op idle published method =>
    have pending := booting published
    simp only [idle] at pending
    refine .begin (l := l) ?_ pending
    rintro rfl
    contradiction
  | event idle published =>
    have pending := booting published
    simp only [idle] at pending
    exact .begin (l := l) (fun same => by contradiction) pending
  | call busy allowed =>
    intro published
    have pending := booting published
    simp only [busy] at pending ⊢
    rcases pending with ⟨ours, -, safe⟩ | ⟨other, pending⟩
    · exact .inl ⟨ours, safe _ allowed⟩
    · exact .inr ⟨other, fun still => pending (booting_after (after ▸ still))⟩
  | @finish t w₀ w busy =>
    intro published
    rw [finish_published] at published
    have pending := booting published
    simp only [busy] at pending
    simp only [finish_service, finish_startup]
    intro still
    rcases pending with ⟨-, ended⟩ | ⟨-, pending⟩
    · rw [ended] at still
      contradiction
    · exact pending still
  | boot accepted => exact booting_boot

theorem Reachable.booting (after : S.after = World.after) (reach : Reachable S clients l) :
    l.Booting S := by
  induction reach with
  | boot => exact booting_boot
  | step reach step ih => exact ih.step after step

/-- Every step of the loop is one of the service, or none. -/
theorem refines_step (paced : l.Paced) (booting : l.Booting S)
    (reach : (daemon S (Admits clients)).Reachable World.Fresh l.service)
    (step : Step S clients l l') :
    (daemon S (Admits clients)).Reachable World.Fresh l'.service := by
  have started := fun op w => started_of_accepted (w := w) paced.accepted op
  cases step with
  | tick => exact reach
  | @fire w timer idle due =>
    rw [idle] at reach
    refine reach.begun ⟨started _ _, fun still => ?_, fun method => ?_⟩
    · cases timer with
      | startup => exact nofun
      | periodic =>
        simp only [Booting, idle] at booting
        exact absurd (paced.fired_of_periodic due) (booting (paced.published_of_due due) still)
    · cases timer <;> contradiction
  | @method w op idle _ method asked =>
    rw [idle] at reach
    refine reach.begun ⟨started _ _, fun _ => ?_, fun _ => asked⟩
    rintro rfl
    contradiction
  | event idle =>
    rw [idle] at reach
    exact reach.begun ⟨started _ _, fun _ => nofun, nofun⟩
  | call busy allowed =>
    rw [busy] at reach
    exact .step reach (.call allowed)
  | finish busy =>
    rw [busy] at reach
    rw [finish_service]
    exact .step reach .finish
  | boot accepted =>
    cases service : l.service with
    | idle w =>
      rw [service] at reach
      exact .step reach .restart
    | busy t w₀ w rest =>
      rw [service] at reach
      exact .step reach .crash

theorem refines (after : S.after = World.after) (reach : Reachable S clients l) :
    (daemon S (Admits clients)).Reachable World.Fresh l.service := by
  induction reach with
  | boot accepted fresh => exact .start fresh
  | step reach step ih => exact refines_step reach.paced (reach.booting after) ih step

end Refinement

end Loop

theorem admitted_mono {S : Semantics Req Resp World} {admits admits' : World → Task → Prop}
    {start : World → Prop} {s : State Req Resp World Task}
    (more : ∀ w t, admits w t → admits' w t)
    (reach : (daemon S admits).Reachable start s) : (daemon S admits').Reachable start s := by
  induction reach with
  | start begins => exact .start begins
  | step _ step ih =>
    cases step with
    | begin admitted => exact ih.begun (more _ _ admitted)
    | call allowed => exact .step ih (.call allowed)
    | finish => exact .step ih .finish
    | crash => exact .step ih .crash
    | restart => exact .step ih .restart

/-- Clients that force their refreshes until the startup reconcile is through. -/
def Patient (w : World) (op : Op) : Prop :=
  w.booting = true → ∀ args, op = .refresh args → args.force = true

abbrev distinctSem : Semantics Req Resp World := (sem False).within fun w => Distinct w.table

/-- The timers see to it that the startup reconcile comes before any periodic
one, so a node is skipped only where that is justified, as long as clients are
patient. -/
theorem skips_justified {l : Loop} (reach : l.Reachable distinctSem Patient) :
    ∀ t w₀ w n rest, l.service = .busy t w₀ w (.call (.report (.skipped n)) rest) →
      Justified w n := by
  intro t w₀ w n rest busy
  have served : distinctDaemon.Reachable World.Fresh l.service := by
    refine admitted_mono ?_ (Loop.refines rfl reach)
    rintro w t ⟨-, unforced, patient⟩ booting
    refine ⟨unforced booting, fun args op => ?_⟩
    exact patient (by simp [op, Op.isMethod]) booting args op
  rw [busy] at served
  exact (sound_contract.permitted served).2 n rfl

section Sample

open Loop

def sampleOptions : Options :=
  { configInit with enableXor := true, useClientIp := false, defaultLifetime := 3600 }

theorem accepted_sampleOptions : sampleOptions.Accepted :=
  ⟨⟨64, false, [.enableXor, .noClientIp, .lifetime "3600".toList], rfl⟩, by decide⟩

/-- A minute after its start the process skips the node that it registered and
has applied at its startup reconcile. -/
def sampleLoop : Loop where
  options := sampleOptions
  published := true
  born := 0
  clock := 60000
  timers := ⟨none, none⟩
  marks := [⟨.periodic, true, 60000⟩, ⟨.startup, false, 3000⟩, ⟨.startup, true, 3000⟩]
  service := .busy (sampleTask .periodic) sampleBooted sampleSkip.2 sampleSkip.1

section Steps

variable {S : Semantics Req Resp World} {clients : World → Op → Prop} {l : Loop} {t : Task}
  {w₀ w w' : World} {p p' : Prog Unit}

theorem Loop.Reachable.runs (reach : l.Reachable S clients) (busy : l.service = .busy t w₀ w p)
    (runs : S.Runs p w p' w') : Reachable S clients { l with service := .busy t w₀ w' p' } := by
  induction runs with
  | refl => exact busy ▸ reach
  | step _ allowed ih => exact .step ih (.call rfl allowed)

/-- A task that is under way is run to its end. -/
theorem Loop.Reachable.through (reach : l.Reachable S clients) (busy : l.service = .busy t w₀ w p)
    (runs : S.Runs p w p' w') (ended : p'.result? = some ()) :
    Reachable S clients (l.finish t.op w') := by
  have done : Step S clients _ _ := .finish (l := { l with service := .busy t w₀ w' p' })
    (congrArg (State.busy t w₀ w') (Program.eq_done ended))
  have same : Loop.finish { l with service := .busy t w₀ w' p' } t.op w' = l.finish t.op w' := by
    unfold Loop.finish
    cases t.op.timer? with
    | none => rfl
    | some timer => cases timer <;> rfl
  exact same ▸ (reach.runs busy runs).step done

end Steps

theorem reachable_sampleLoop : sampleLoop.Reachable distinctSem Patient := by
  have booted : Reachable distinctSem Patient (boot sampleOptions true 0 0 .first) :=
    .boot accepted_sampleOptions ⟨rfl, rfl⟩
  have registering : Reachable distinctSem Patient
      ((boot sampleOptions true 0 0 .first).begin sampleRegister.op .first) :=
    booted.step (.method rfl rfl rfl fun _ _ => nofun)
  have registered :
    Reachable distinctSem Patient ⟨sampleOptions, true, 0, 0, ⟨some 3000, some 60000⟩, [],
      .idle sampleStored⟩ := by
    unfold sampleStored
    exact registering.through (t := sampleRegister) rfl ((sample _).runs_within (by decide +kernel))
      (by decide +kernel)
  have waited :
    Reachable distinctSem Patient ⟨sampleOptions, true, 0, 3000, ⟨some 3000, some 60000⟩, [],
      .idle sampleStored⟩ := registered.step (.tick (Nat.zero_le _))
  have starting : Reachable distinctSem Patient (Loop.fire _ .startup sampleStored) :=
    waited.step (.fire rfl rfl)
  have started :
    Reachable distinctSem Patient ⟨sampleOptions, true, 0, 3000, ⟨none, some 60000⟩,
      [⟨.startup, false, 3000⟩, ⟨.startup, true, 3000⟩], .idle sampleBooted⟩ := by
    unfold sampleBooted
    exact starting.through (t := sampleTask .startup) rfl
      ((sample _).runs_within (by decide +kernel)) (by decide +kernel)
  have rested :
    Reachable distinctSem Patient ⟨sampleOptions, true, 0, 60000, ⟨none, some 60000⟩,
      [⟨.startup, false, 3000⟩, ⟨.startup, true, 3000⟩], .idle sampleBooted⟩ :=
    started.step (.tick (by decide))
  have passing : Reachable distinctSem Patient (Loop.fire _ .periodic sampleBooted) :=
    rested.step (.fire rfl rfl)
  unfold sampleLoop sampleSkip
  exact passing.runs (t := sampleTask .periodic) rfl ((sample _).runs_within (by decide +kernel))

theorem skips_justified_sample : Justified sampleSkip.2 (sampleNode 1700000100 1700000000) := by
  obtain ⟨rest, next⟩ := Program.eq_call (p := sampleSkip.1)
    (q := .report (.skipped (sampleNode 1700000100 1700000000))) (by decide +kernel)
  exact skips_justified reachable_sampleLoop _ _ _ _ _ (congrArg (State.busy _ _ _) next)

theorem timers_paced_sample : sampleLoop.born + sampleLoop.pause ≤ 60000 ∧
    ∃ done, (⟨.startup, false, done⟩ : Mark) ∈ sampleLoop.marks.tail := by
  obtain ⟨-, periodic, -⟩ := Loop.timers_paced reachable_sampleLoop
  obtain ⟨late, -, done, -⟩ := periodic [] 60000 _ rfl
  exact ⟨late, done⟩

end Sample

end Tumgrd
