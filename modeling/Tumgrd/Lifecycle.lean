import Mathlib.Data.Finset.Lattice.Lemmas
import Mathlib.Data.List.DropRight
import Tumgrd.Effect.Custody
import Tumgrd.Loop

/-! How the daemon starts and what it gives back: `main.c`, the opening of its
database and of its ubus object. Log lines are left out, and `tumgrd_db_init_schema`
is one call. -/
namespace Tumgrd

open Effect Custody

/-- The part of `struct tumgrd_ctx` that says what is to be given back. -/
structure Ctx where
  conn : Option Nat
  ubus : Option Nat
  netEventRegistered : Bool
  ubusObjAdded : Bool

def Ctx.zero : Ctx := ⟨none, none, false, false⟩

inductive Made where
  | created
  | exists
  | failed

/-- A connection may be there although the database could not be opened. -/
inductive Opened where
  | ok (conn : Nat)
  | failed (conn : Option Nat)

inductive LifeCall where
  | uloopInit
  | setIpdetectFwmark (mark : Int)
  | signals
  | installWatchdog
  | mkdir (path : Str)
  | sqliteOpen (path : Str)
  | busyTimeout (conn : Nat) (ms : Nat)
  | pragma (conn : Nat) (text : Str)
  | initSchema (conn : Nat)
  | sqliteClose (conn : Nat)
  | ubusConnect (socketPath : Option Str)
  | ubusAddUloop (ubus : Nat)
  | registerEvents (ubus : Nat)
  | addObject (ubus : Nat)
  | setTimer (t : Timer) (ms : Nat)
  | cancelTimer (t : Timer)
  | uloopRun (ctx : Ctx)
  | unregisterEvents (ubus : Nat)
  | removeObject (ubus : Nat)
  | ubusFree (ubus : Nat)
  | uloopDone

@[reducible] def LifeResp : LifeCall → Type
  | .uloopInit | .initSchema _ | .registerEvents _ | .addObject _ => Int
  | .mkdir _ => Made
  | .sqliteOpen _ => Opened
  | .pragma _ _ => Str
  | .ubusConnect _ => Option Nat
  | .setIpdetectFwmark _ | .signals | .installWatchdog | .busyTimeout _ _ | .sqliteClose _
  | .ubusAddUloop _ | .setTimer _ _ | .cancelTimer _ | .uloopRun _ | .unregisterEvents _
  | .removeObject _ | .ubusFree _ | .uloopDone => Unit

abbrev Life := Process LifeCall LifeResp

def lifeCall (q : LifeCall) : Life (LifeResp q) := Process.perform q

def orNothing (condition : Bool) (p : Life Unit) : Life Unit := if condition then p else pure ()

/-! The directory of the database. -/

/-- The fronts of a path that end in front of a slash. -/
def slashFronts (front : Str) : Str → List Str
  | [] => []
  | c :: rest => if c = '/' then front :: slashFronts (front ++ [c]) rest
      else slashFronts (front ++ [c]) rest

def mkdirAll : List Str → Life Bool
  | [] => pure true
  | path :: rest => do
      match ← lifeCall (.mkdir path) with
      | .created | .exists => mkdirAll rest
      | .failed => pure false

/-- `PATH_MAX`. -/
def pathMax : Nat := 4096

/-- What `_mkdir_p` makes, one after the other. The first character begins no front. -/
def mkdirPaths (dir : Str) : List Str :=
  let tmp := if dir.getLast? = some '/' then dir.dropLast else dir
  slashFronts (tmp.take 1) (tmp.drop 1) ++ [tmp]

def mkdirP (dir : Str) : Life Bool :=
  if dir = [] ∨ pathMax ≤ dir.length then pure false else mkdirAll (mkdirPaths dir)

/-- The path in front of its last slash. -/
def parentDir (path : Str) : Str := (path.rdropWhile (· ≠ '/')).dropLast

def ensureParentDir (path : Str) : Life Bool :=
  if path = [] ∨ pathMax ≤ path.length then pure false
  else if '/' ∉ path ∨ parentDir path = [] then pure true
  else mkdirP (parentDir path)

/-! The database. -/

/-- `db->path`, with 256 bytes. -/
def databasePath (path : Str) : Str :=
  (if path = [] then configInit.dbPath else path).take 255

/-- `tumgrd_db_open`. -/
def dbOpen (path : Str) : Life (Option Nat) := do
  if ← ensureParentDir (databasePath path) then do
    match ← lifeCall (.sqliteOpen (databasePath path)) with
    | .failed none => pure none
    | .failed (some conn) => do
        lifeCall (.sqliteClose conn)
        pure none
    | .ok conn => do
        lifeCall (.busyTimeout conn 3000)
        let mode ← lifeCall (.pragma conn "PRAGMA journal_mode=WAL;".toList)
        let synchronous := if mode.take 15 = "wal".toList then "PRAGMA synchronous=NORMAL;"
          else "PRAGMA synchronous=FULL;"
        let _ ← lifeCall (.pragma conn synchronous.toList)
        let _ ← lifeCall (.pragma conn "PRAGMA cache_size=-2000;".toList)
        pure (some conn)
  else pure none

/-- `tumgrd_db_close`. -/
def dbClose (ctx : Ctx) : Life Unit :=
  match ctx.conn with
  | none => pure ()
  | some conn => lifeCall (.sqliteClose conn)

/-! The ubus object. -/

/-- `tumgrd_ubus_cleanup`. -/
def ubusCleanup (ctx : Ctx) : Life Ctx :=
  match ctx.ubus with
  | none => pure ctx
  | some ubus => do
      orNothing ctx.netEventRegistered (lifeCall (.unregisterEvents ubus))
      orNothing ctx.ubusObjAdded (lifeCall (.removeObject ubus))
      lifeCall (.cancelTimer .startup)
      lifeCall (.cancelTimer .periodic)
      lifeCall (.ubusFree ubus)
      pure { ctx with ubus := none, netEventRegistered := false, ubusObjAdded := false }

/-- `tumgrd_ubus_init`. -/
def ubusInit (o : Options) (ctx : Ctx) : Life (Int × Ctx) := do
  match ← lifeCall (.ubusConnect o.socketPath) with
  | none => pure (-1, { ctx with ubus := none })
  | some ubus => do
      lifeCall (.ubusAddUloop ubus)
      let err ← lifeCall (.registerEvents ubus)
      let ctx :=
        { ctx with ubus := some ubus, netEventRegistered := err = 0, ubusObjAdded := false }
      let err ← lifeCall (.addObject ubus)
      if err ≠ 0 then do
        let ctx ← ubusCleanup ctx
        pure (err, ctx)
      else do
        lifeCall (.setTimer .startup startupDelay)
        lifeCall (.setTimer .periodic (o.interval * 1000))
        pure (0, { ctx with ubusObjAdded := true })

/-! The process. -/

/-- Everything behind `err_cleanup` of `main`. -/
def leave (ctx : Ctx) (dbOpened : Bool) : Life Unit := do
  let ctx ← ubusCleanup ctx
  lifeCall (.cancelTimer .startup)
  lifeCall (.cancelTimer .periodic)
  orNothing dbOpened (dbClose ctx)
  lifeCall .uloopDone

/-- `main` from `tumgrd_db_open` on, with the context it leaves behind. -/
def serve (o : Options) : Life (Bool × Ctx × Bool) := do
  match ← dbOpen o.dbPath with
  | none => pure (false, .zero, false)
  | some conn => do
      let ctx := { Ctx.zero with conn := some conn }
      if (← lifeCall (.initSchema conn)) < 0 then pure (false, ctx, true)
      else do
        let (err, ctx) ← ubusInit o ctx
        if err < 0 then pure (false, ctx, true)
        else do
          lifeCall (.uloopRun ctx)
          pure (true, ctx, true)

/-- `main`, which returns 0 or not. -/
def main (bits : Nat) (positional : Bool) (opts : List Switch) : Life Bool :=
  match parseArgs bits positional opts configInit with
  | .help => pure true
  | .failed => do
      leave .zero false
      pure false
  | .ok o => do
      if parseLogLevel o.logLevel = none then do
        leave .zero false
        pure false
      else if (← lifeCall .uloopInit) < 0 then do
        leave .zero false
        pure false
      else do
        lifeCall (.setIpdetectFwmark o.fwmark)
        lifeCall .signals
        lifeCall .installWatchdog
        let (ok, ctx, dbOpened) ← serve o
        leave ctx dbOpened
        pure ok

/-! What is held. -/

inductive LifeHandle where
  | conn (id : Nat)
  | ubus (id : Nat)
  | events (ubus : Nat)
  | object (ubus : Nat)
  deriving DecidableEq

/-- What hangs on the connection to ubus. -/
def Ctx.busHandles (ctx : Ctx) : Finset LifeHandle :=
  match ctx.ubus with
  | none => ∅
  | some u => insert (.ubus u) ((if ctx.netEventRegistered then {.events u} else ∅) ∪
      if ctx.ubusObjAdded then {.object u} else ∅)

def Ctx.dbHandles (ctx : Ctx) : Finset LifeHandle :=
  match ctx.conn with
  | none => ∅
  | some conn => {.conn conn}

/-- What a context has to give back. -/
def Ctx.handles (ctx : Ctx) : Finset LifeHandle := ctx.busHandles ∪ ctx.dbHandles

def lifeCustody : Custody LifeCall LifeResp LifeHandle where
  uses
    | .busyTimeout conn _ | .pragma conn _ | .initSchema conn => {.conn conn}
    | .ubusAddUloop ubus | .registerEvents ubus | .addObject ubus | .unregisterEvents ubus
    | .removeObject ubus => {.ubus ubus}
    | .uloopRun ctx => ctx.handles
    | _ => ∅
  frees
    | .sqliteClose conn => some (.conn conn)
    | .ubusFree ubus => some (.ubus ubus)
    | .unregisterEvents ubus => some (.events ubus)
    | .removeObject ubus => some (.object ubus)
    | _ => none
  gives
    | .sqliteOpen _, .ok conn | .sqliteOpen _, .failed (some conn) => some (.conn conn)
    | .ubusConnect _, ubus => ubus.map .ubus
    | .registerEvents ubus, err => if err = 0 then some (.events ubus) else none
    | .addObject ubus, err => if err = 0 then some (.object ubus) else none
    | _, _ => none

/-- The timers that are armed, with their delays, and what has been done. -/
structure Progress where
  timers : Timers
  looping : Bool
  joined : Bool
  armed : List Timer
  migrated : Bool
  added : Option Int
  ran : Bool
  ended : Nat

def Progress.zero : Progress := ⟨⟨none, none⟩, false, false, [], false, none, false, 0⟩

def Timers.arm (t : Timers) (ms : Nat) : Timer → Timers
  | .startup => { t with startup := some ms }
  | .periodic => { t with periodic := some ms }

def Timers.deadline (t : Timers) : Timer → Option Nat
  | .startup => t.startup
  | .periodic => t.periodic

/-- Between a `uloop_init` that succeeded and `uloop_done`. -/
def Progress.Looping (w : Progress) : Prop := w.looping = true ∧ w.ended = 0

/-- While the loop runs the timers change. -/
def lifeAnswers (w : Progress) : (q : LifeCall) → LifeResp q → Progress → Prop
  | .uloopInit, rc, w' => w' = { w with looping := 0 ≤ rc }
  | .initSchema _, rc, w' => w' = { w with migrated := 0 ≤ rc }
  | .addObject _, err, w' => w' = { w with added := some err }
  | .ubusAddUloop _, _, w' => w' = { w with joined := true }
  | .setTimer t ms, _, w' => w' = { w with timers := w.timers.arm ms t, armed := t :: w.armed }
  | .cancelTimer t, _, w' => w' = { w with timers := w.timers.disarm t }
  | .uloopRun _, _, w' => ∃ timers, w' = { w with timers, ran := true }
  | .uloopDone, _, w' => w' = { w with ended := w.ended + 1 }
  | _, _, w' => w' = w

/-- The object is there, and both timers are as a loop starts with them. -/
def Published (interval : Nat) (ctx : Ctx) (w : Progress) : Prop :=
  w.added = some 0 ∧ ctx.ubus.isSome = true ∧ ctx.ubusObjAdded = true ∧
    w.timers = ⟨some startupDelay, some (interval * 1000)⟩

/-- `ubus_add_object` has failed with a positive code, and nothing is left that
could wake the loop. -/
def Unpublished (ctx : Ctx) (w : Progress) : Prop :=
  (∃ code : Int, 0 < code ∧ w.added = some code) ∧ ctx.ubus = none ∧
    w.timers = ⟨none, none⟩

/-- The bus and the timers join, once, a loop that is there, and it runs on a
database with its schema. Only what has no effect is asked of it otherwise: to
cancel a timer that is off, and to be done where it has not begun. -/
def lifePermits (o : Options) (w : Progress) : LifeCall → Prop
  | .uloopInit => w.looping = false ∧ w.ended = 0
  | .ubusAddUloop _ => w.Looping ∧ w.joined = false
  | .setTimer t _ => w.Looping ∧ w.timers.deadline t = none ∧ t ∉ w.armed
  | .uloopRun ctx => w.Looping ∧ ctx.conn.isSome = true ∧ w.migrated = true ∧
    w.ran = false ∧
      (Published o.interval ctx w ∨ Unpublished ctx w)
  | .uloopDone => w.ended = 0 ∧ w.timers = ⟨none, none⟩
  | _ => True

abbrev LifeTends {α : Type} (o : Options) (p : Life α) (w : Holding Progress LifeHandle)
    (Q : α → Holding Progress LifeHandle → Prop) : Prop :=
  lifeCustody.Tends lifeAnswers (lifePermits o) p w Q

section Giving

variable {α : Type} {o : Options} {live : Finset LifeHandle} {w : Progress}
  {Q : α → Holding Progress LifeHandle → Prop}

/-- A call that the rest of the process does not depend on. -/
theorem tends_plain {q : LifeCall} {f : LifeResp q → Life α}
    (uses : lifeCustody.uses q ⊆ live) (frees : lifeCustody.frees q = none)
    (gives : ∀ r, lifeCustody.gives q r = none) (permitted : lifePermits o w q)
    (same : ∀ r v, lifeAnswers w q r v ↔ v = w) (r : LifeResp q)
    (rest : ∀ r, LifeTends o (f r) ⟨w, live⟩ Q) :
    LifeTends o (lifeCall q >>= f) ⟨w, live⟩ Q := by
  refine tends_use uses frees gives permitted ⟨r, w, (same r w).mpr rfl⟩ fun r v given => ?_
  rw [(same r v).mp given]
  exact rest r

/-- Directories are made or not; nothing else changes. -/
theorem tends_mkdirAll (paths : List Str) :
    LifeTends o (mkdirAll paths) ⟨w, live⟩ fun _ v => v = ⟨w, live⟩ := by
  induction paths with
  | nil => exact tends_pure rfl
  | cons path rest ih =>
    unfold mkdirAll
    refine tends_plain (Finset.empty_subset _) rfl (fun _ => rfl) trivial
      (fun _ _ => Iff.rfl) .failed ?_
    rintro (_ | _ | _)
    · exact ih
    · exact ih
    · exact tends_pure rfl

theorem tends_ensureParentDir (path : Str) :
    LifeTends o (ensureParentDir path) ⟨w, live⟩ fun _ v => v = ⟨w, live⟩ := by
  unfold ensureParentDir
  split
  · exact tends_pure rfl
  split
  · exact tends_pure rfl
  unfold mkdirP
  split
  · exact tends_pure rfl
  · exact tends_mkdirAll _

/-- What is given with the code 0 alone. -/
theorem code_of_none {err : Int} {h : LifeHandle}
    (gives : (if err = 0 then some h else none) = none) : err ≠ 0 := by
  rintro rfl
  contradiction

theorem code_of_some {err : Int} {h h' : LifeHandle}
    (gives : (if err = 0 then some h else none) = some h') : err = 0 ∧ h = h' := by
  split at gives
  · rename_i zero
    exact ⟨zero, Option.some.inj gives⟩
  · contradiction

/-- A call that only takes something back. -/
theorem tends_release {q : LifeCall} {h : LifeHandle} {f : LifeResp q → Life α}
    (uses : lifeCustody.uses q ⊆ live) (frees : lifeCustody.frees q = some h)
    (gives : ∀ r, lifeCustody.gives q r = none) (fresh : h ∉ live)
    (permitted : lifePermits o w q)
    (same : ∀ r v, lifeAnswers w q r v ↔ v = w) (r : LifeResp q)
    (rest : ∀ r, LifeTends o (f r) ⟨w, live⟩ Q) :
    LifeTends o (lifeCall q >>= f) ⟨w, insert h live⟩ Q := by
  refine tends_free (uses.trans (Finset.subset_insert h live)) frees gives
    (Finset.mem_insert_self h live) permitted ⟨r, w, (same r w).mpr rfl⟩ fun r v given => ?_
  rw [(same r v).mp given, Finset.erase_insert fresh]
  exact rest r

theorem tends_cancelTimer {t : Timer} {f : Unit → Life α}
    (rest : LifeTends o (f ()) ⟨{ w with timers := w.timers.disarm t }, live⟩ Q) :
    LifeTends o (lifeCall (.cancelTimer t) >>= f) ⟨w, live⟩ Q := by
  refine tends_use (Finset.empty_subset _) rfl (fun _ => rfl) trivial ⟨(), _, rfl⟩ ?_
  rintro ⟨⟩ v rfl
  exact rest

/-- What may be held is given back if it is. -/
theorem tends_orNothing {condition : Bool} {h : LifeHandle} {p : Life Unit} {f : Unit → Life α}
    (fresh : condition = true → h ∉ live)
    (release : h ∉ live → LifeTends o (f ()) ⟨w, live⟩ Q →
      LifeTends o (p >>= f) ⟨w, insert h live⟩ Q)
    (rest : LifeTends o (f ()) ⟨w, live⟩ Q) :
    LifeTends o (orNothing condition p >>= f)
      ⟨w, (if condition then {h} else ∅) ∪ live⟩ Q := by
  cases condition with
  | true => exact release (fresh rfl) rest
  | false =>
    simp only [Bool.false_eq_true, if_false, Finset.empty_union]
    exact rest

end Giving

section Cleanup

variable {o : Options} {base live : Finset LifeHandle} {w : Progress} {ctx : Ctx}

/-- The context holds its part of what is held. -/
structure Ctx.Holds (ctx : Ctx) (base live : Finset LifeHandle) : Prop where
  live : live = base ∪ ctx.busHandles
  apart : Disjoint base ctx.busHandles

/-- The timers are off, unless there was nothing to clean up. -/
def Ctx.quieted (ctx : Ctx) (w : Progress) : Progress :=
  match ctx.ubus with
  | none => w
  | some _ => { w with timers := ⟨none, none⟩ }

theorem tends_ubusCleanup (holds : ctx.Holds base live) :
    LifeTends o (ubusCleanup ctx) ⟨w, live⟩ fun ctx' v =>
      v = ⟨ctx.quieted w, base⟩ ∧ ctx'.ubus = none ∧ ctx'.conn = ctx.conn := by
  obtain ⟨rfl, apart⟩ := holds
  obtain ⟨conn, _ | u, registered, added⟩ := ctx
  · exact tends_pure ⟨by simp [Ctx.busHandles, Ctx.quieted], rfl, rfl⟩
  simp only [Ctx.busHandles, Finset.disjoint_insert_right, Finset.disjoint_union_right] at apart
  obtain ⟨bus, apart⟩ := apart
  have events : registered = true → .events u ∉ base := by
    rintro rfl
    exact Finset.disjoint_singleton_right.mp apart.1
  have object : added = true → .object u ∉ base := by
    rintro rfl
    exact Finset.disjoint_singleton_right.mp apart.2
  have order : base ∪ Ctx.busHandles ⟨conn, some u, registered, added⟩ =
      (if registered then {.events u} else ∅) ∪
        ((if added then {.object u} else ∅) ∪ insert (.ubus u) base) := by
    ext h
    simp [Ctx.busHandles]
    tauto
  rw [order]
  unfold ubusCleanup
  refine tends_orNothing (fun on => ?_) (fun fresh rest => ?_) ?_
  · have new := events on
    cases added <;> simp [new]
  · exact tends_release (by simp [lifeCustody]) rfl (fun _ => rfl) fresh trivial
      (fun _ _ => Iff.rfl) () fun _ => rest
  refine tends_orNothing (fun on => ?_) (fun fresh rest => ?_) ?_
  · simp [object on]
  · exact tends_release (by simp [lifeCustody]) rfl (fun _ => rfl) fresh trivial
      (fun _ _ => Iff.rfl) () fun _ => rest
  refine tends_cancelTimer (tends_cancelTimer ?_)
  refine tends_release (Finset.empty_subset _) rfl (fun _ => rfl) bus trivial
    (fun _ _ => Iff.rfl) () fun _ => ?_
  exact tends_pure ⟨rfl, rfl, rfl⟩

end Cleanup

section Starting

variable {o : Options} {base live : Finset LifeHandle} {w : Progress} {ctx : Ctx}

/-- An open database that was not there, or none. -/
def Opens (live : Finset LifeHandle) : Option Nat → Finset LifeHandle → Prop
  | none, live' => live' = live
  | some conn, live' => LifeHandle.conn conn ∉ live ∧ live' = insert (.conn conn) live

theorem tends_dbOpen (path : Str) :
    LifeTends o (dbOpen path) ⟨w, live⟩
      fun conn v => v.world = w ∧ Opens live conn v.live := by
  unfold dbOpen
  refine tends_bind (tends_ensureParentDir _) ?_
  rintro made _ rfl
  cases made with
  | false => exact tends_pure ⟨rfl, rfl⟩
  | true =>
    refine tends_give (Finset.empty_subset _) rfl trivial ⟨.failed none, _, rfl, rfl⟩ ?_ ?_
    · rintro (conn | _ | conn) v rfl gives
      · contradiction
      · exact tends_pure ⟨rfl, rfl⟩
      · contradiction
    · rintro (conn | _ | conn) v h rfl gives fresh
      · obtain rfl := Option.some.inj gives
        have held : {LifeHandle.conn conn} ⊆ insert (LifeHandle.conn conn) live := by simp
        refine tends_plain held rfl (fun _ => rfl) trivial (fun _ _ => Iff.rfl) () fun _ => ?_
        refine tends_plain held rfl (fun _ => rfl) trivial (fun _ _ => Iff.rfl) [] fun _ => ?_
        refine tends_plain held rfl (fun _ => rfl) trivial (fun _ _ => Iff.rfl) [] fun _ => ?_
        refine tends_plain held rfl (fun _ => rfl) trivial (fun _ _ => Iff.rfl) [] fun _ => ?_
        exact tends_pure ⟨rfl, fresh, rfl⟩
      · contradiction
      · obtain rfl := Option.some.inj gives
        refine tends_release (Finset.empty_subset _) rfl (fun _ => rfl) fresh trivial
          (fun _ _ => Iff.rfl) () fun _ => ?_
        exact tends_pure ⟨rfl, rfl⟩

/-- What `tumgrd_ubus_init` leaves. -/
def Initialised (o : Options) (w : Progress) (live : Finset LifeHandle) (ctx : Ctx)
    (result : Int × Ctx) (v : Holding Progress LifeHandle) : Prop :=
  result.2.conn = ctx.conn ∧ result.2.Holds live v.live ∧ v.world.looping = w.looping ∧
    v.world.migrated = w.migrated ∧ v.world.ran = w.ran ∧ v.world.ended = w.ended ∧
    (result.1 = 0 ∧ Published o.interval result.2 v.world ∨
      0 < result.1 ∧ Unpublished result.2 v.world ∨ result.1 < 0)

theorem holds_none {conn : Option Nat} {registered added : Bool} :
    Ctx.Holds ⟨conn, none, registered, added⟩ live live :=
  ⟨by simp [Ctx.busHandles], by simp [Ctx.busHandles]⟩

theorem Ctx.Holds.ubus {u : Nat} (holds : ctx.Holds base live) (connected : ctx.ubus = some u) :
    {LifeHandle.ubus u} ⊆ live := by
  rw [holds.live, Finset.singleton_subset_iff, Finset.mem_union]
  right
  simp [Ctx.busHandles, connected]

/-- The object is added to what hangs on the connection. -/
theorem Ctx.Holds.add {conn : Option Nat} {u : Nat} {registered : Bool}
    (holds : Ctx.Holds ⟨conn, some u, registered, false⟩ base live)
    (fresh : .object u ∉ live) :
    Ctx.Holds ⟨conn, some u, registered, true⟩ base (insert (.object u) live) := by
  obtain ⟨rfl, apart⟩ := holds
  have bus : Ctx.busHandles ⟨conn, some u, registered, true⟩ =
      insert (.object u) (Ctx.busHandles ⟨conn, some u, registered, false⟩) := by
    ext h
    simp [Ctx.busHandles]
    tauto
  rw [Finset.mem_union, not_or] at fresh
  refine ⟨by rw [bus, Finset.union_insert], ?_⟩
  rw [bus, Finset.disjoint_insert_right]
  exact ⟨fresh.1, apart⟩

theorem tends_addObject {conn : Option Nat} {u : Nat} {registered : Bool}
    (looping : w.Looping) (quiet : w.timers = ⟨none, none⟩) (unarmed : w.armed = [])
    (holds : Ctx.Holds ⟨conn, some u, registered, false⟩ base live) :
    LifeTends o (do
      let err ← lifeCall (.addObject u)
      if err ≠ 0 then do
        let ctx ← ubusCleanup ⟨conn, some u, registered, false⟩
        pure (err, ctx)
      else do
        lifeCall (.setTimer .startup startupDelay)
        lifeCall (.setTimer .periodic (o.interval * 1000))
        pure (0, ⟨conn, some u, registered, true⟩)) ⟨w, live⟩
      (Initialised o w base ⟨conn, none, false, false⟩) := by
  have armed : ∀ {t ms v} {f : Unit → Life (Int × Ctx)} {live : Finset LifeHandle},
      v.Looping → v.timers.deadline t = none → t ∉ v.armed →
      LifeTends o (f ()) ⟨{ v with timers := v.timers.arm ms t, armed := t :: v.armed }, live⟩
        (Initialised o w base ⟨conn, none, false, false⟩) →
      LifeTends o (lifeCall (.setTimer t ms) >>= f) ⟨v, live⟩
        (Initialised o w base ⟨conn, none, false, false⟩) := by
    intro t ms v f live looping off first rest
    refine tends_use (Finset.empty_subset _) rfl
      (fun _ => rfl) ⟨looping, off, first⟩ ⟨(), _, rfl⟩ ?_
    rintro ⟨⟩ v rfl
    exact rest
  refine tends_give (holds.ubus rfl) rfl trivial ⟨1, _, rfl, rfl⟩ ?_ ?_
  · rintro err v rfl gives
    have wrong : err ≠ 0 := code_of_none gives
    rw [if_pos wrong]
    refine tends_bind (tends_ubusCleanup holds) ?_
    rintro ctx v ⟨rfl, unbound, kept⟩
    refine tends_pure ⟨kept, ?_, rfl, rfl, rfl, rfl, ?_⟩
    · exact ⟨by simp [Ctx.busHandles, unbound], by simp [Ctx.busHandles, unbound]⟩
    · rcases lt_or_gt_of_ne wrong with negative | positive
      · exact .inr (.inr negative)
      · exact .inr (.inl ⟨positive, ⟨err, positive, rfl⟩, unbound, rfl⟩)
  · rintro err v h rfl gives fresh
    obtain ⟨rfl, rfl⟩ : err = 0 ∧ LifeHandle.object u = h := code_of_some gives
    refine armed looping (by rw [quiet]; rfl) (by simp [unarmed])
      (armed looping (by rw [quiet]; rfl) (by simp [unarmed]) (tends_pure ?_))
    refine ⟨rfl, holds.add fresh, rfl, rfl, rfl, rfl, .inl ⟨rfl, rfl, rfl, rfl, ?_⟩⟩
    simp [quiet, Timers.arm]

theorem tends_ubusInit (conn : Option Nat) (looping : w.Looping)
    (quiet : w.timers = ⟨none, none⟩) (alone : w.joined = false) (unarmed : w.armed = []) :
    LifeTends o (ubusInit o ⟨conn, none, false, false⟩) ⟨w, live⟩
      (Initialised o w live ⟨conn, none, false, false⟩) := by
  unfold ubusInit
  refine tends_give (Finset.empty_subset _) rfl trivial ⟨none, _, rfl, rfl⟩ ?_ ?_
  · rintro (_ | u) v rfl gives
    · exact tends_pure ⟨rfl, holds_none, rfl, rfl, rfl, rfl,
        .inr (.inr (show (-1 : Int) < 0 by decide))⟩
    · contradiction
  rintro (_ | u) v h rfl gives fresh
  · contradiction
  obtain rfl : LifeHandle.ubus u = h := Option.some.inj gives
  have held : {LifeHandle.ubus u} ⊆ insert (LifeHandle.ubus u) live := by simp
  refine tends_use held rfl (fun _ => rfl) ⟨looping, alone⟩ ⟨(), _, rfl⟩ ?_
  rintro ⟨⟩ v rfl
  refine tends_give held rfl trivial ⟨1, _, rfl, rfl⟩ ?_ ?_
  · rintro err v rfl gives
    have wrong : err ≠ 0 := code_of_none gives
    simp only [wrong, decide_false]
    refine tends_addObject looping quiet unarmed ⟨?_, ?_⟩
    · simp [Ctx.busHandles]
    · simpa [Ctx.busHandles] using fresh
  · rintro err v h rfl gives new
    obtain ⟨rfl, rfl⟩ : err = 0 ∧ LifeHandle.events u = h := code_of_some gives
    refine tends_addObject looping quiet unarmed ⟨?_, ?_⟩
    · ext h
      simp [Ctx.busHandles]
      tauto
    · simp only [Finset.mem_insert, reduceCtorEq, false_or] at new
      simp [Ctx.busHandles, fresh, new]

/-- What a process that leaves has to give back. -/
def Owed (base : Finset LifeHandle) (ctx : Ctx) (dbOpened : Bool)
    (live : Finset LifeHandle) : Prop :=
  match dbOpened with
  | true => ∃ conn, ctx.conn = some conn ∧ .conn conn ∉ base ∧
    ctx.Holds (insert (.conn conn) base) live
  | false => ctx = .zero ∧ live = base

theorem tends_leave {dbOpened : Bool} (owed : Owed base ctx dbOpened live) (unended : w.ended = 0) :
    LifeTends o (leave ctx dbOpened) ⟨w, live⟩ fun _ v =>
      v = ⟨{ w with timers := ⟨none, none⟩, ended := 1 }, base⟩ := by
  have done : ∀ {v : Progress}, v.ended = 0 → v.timers = ⟨none, none⟩ →
      LifeTends o (lifeCall .uloopDone) ⟨v, base⟩
        fun _ v' => v' = ⟨{ v with ended := 1 }, base⟩ := by
    intro v first quiet
    show LifeTends o (lifeCall .uloopDone >>= pure) _ _
    refine tends_use (Finset.empty_subset _) rfl
      (fun _ => rfl) ⟨first, quiet⟩ ⟨(), _, rfl⟩ ?_
    rintro ⟨⟩ v rfl
    exact tends_pure (by simp [first])
  unfold leave
  cases dbOpened with
  | false =>
    obtain ⟨rfl, rfl⟩ := owed
    refine tends_bind (tends_ubusCleanup holds_none) ?_
    rintro ctx v ⟨rfl, -, -⟩
    exact tends_cancelTimer (tends_cancelTimer (done unended rfl))
  | true =>
    obtain ⟨conn, opened, fresh, holds⟩ := owed
    refine tends_bind (tends_ubusCleanup holds) ?_
    rintro ctx' v ⟨rfl, -, kept⟩
    have close : dbClose ctx' = lifeCall (.sqliteClose conn) := by simp [dbClose, kept, opened]
    refine tends_cancelTimer (tends_cancelTimer ?_)
    simp only [orNothing, if_true, close]
    refine tends_release (Finset.empty_subset _) rfl (fun _ => rfl) fresh trivial
      (fun _ _ => Iff.rfl) () fun _ => ?_
    cases bound : ctx.ubus with
    | none =>
      simp only [Ctx.quieted, bound]
      exact done unended rfl
    | some u =>
      simp only [Ctx.quieted, bound]
      exact done unended rfl

theorem tends_serve (looping : w.Looping) (quiet : w.timers = ⟨none, none⟩)
    (alone : w.joined = false) (unarmed : w.armed = []) (unrun : w.ran = false) :
    LifeTends o (serve o) ⟨w, base⟩ fun result v => Owed base result.2.1 result.2.2 v.live ∧
      v.world.ran = result.1 ∧ v.world.ended = w.ended := by
  unfold serve
  refine tends_bind (tends_dbOpen _) ?_
  rintro (_ | conn) ⟨v, kept⟩ ⟨rfl, connected⟩
  · exact tends_pure ⟨⟨rfl, connected⟩, unrun, rfl⟩
  obtain ⟨fresh, rfl⟩ := connected
  refine tends_use (by simp [lifeCustody]) rfl (fun _ => rfl) trivial ⟨0, _, rfl⟩ ?_
  rintro rc v rfl
  split
  · exact tends_pure ⟨⟨conn, rfl, fresh, holds_none⟩, unrun, rfl⟩
  rename_i migrated
  have init : LifeTends o (ubusInit o ⟨some conn, none, false, false⟩)
      ⟨{ v with migrated := 0 ≤ rc }, insert (.conn conn) base⟩ _ :=
    tends_ubusInit (some conn) looping quiet alone unarmed
  refine tends_bind init ?_
  rintro ⟨err, ctx⟩ u ⟨opened, holds, begun, schema, ran, ended, outcome⟩
  dsimp only at opened holds outcome begun schema ran ended ⊢
  split
  · exact tends_pure ⟨⟨conn, opened, fresh, holds⟩, ran.trans unrun, ended⟩
  rename_i succeeded
  have held : ctx.handles ⊆ u.live := by
    rw [holds.live]
    simp only [Ctx.handles, Ctx.dbHandles, opened]
    intro h
    simp
    tauto
  have ready : lifePermits o u.world (.uloopRun ctx) := by
    refine ⟨⟨begun.trans looping.1, ended.trans looping.2⟩, by simp [opened],
      schema.trans (by simpa using migrated), ran.trans unrun, ?_⟩
    rcases outcome with ⟨-, published⟩ | ⟨-, unpublished⟩ | failed
    · exact .inl published
    · exact .inr unpublished
    · exact absurd failed succeeded
  refine tends_use held rfl (fun _ => rfl) ready ⟨(), _, u.world.timers, rfl⟩ ?_
  rintro ⟨⟩ v' ⟨timers, rfl⟩
  exact tends_pure ⟨⟨conn, opened, fresh, holds⟩, rfl, ended⟩

/-- The result of `main`, and what it leaves. -/
def Exited (parsed : Parsed) (live : Finset LifeHandle) (ok : Bool)
    (v : Holding Progress LifeHandle) : Prop :=
  v.live = live ∧ v.world.timers = ⟨none, none⟩ ∧
    (parsed = .help → ok = true ∧ v.world.ended = 0) ∧
    (parsed ≠ .help → ok = v.world.ran ∧ v.world.ended = 1)

theorem tends_main (bits : Nat) (positional : Bool) (opts : List Switch) :
    ∃ o, (∀ o', parseArgs bits positional opts configInit = .ok o' → o' = o) ∧
      LifeTends o (main bits positional opts) ⟨.zero, live⟩
        (Exited (parseArgs bits positional opts configInit) live) := by
  unfold main
  have failed : ∀ {o parsed}, parsed ≠ .help →
      ∀ looping, LifeTends o (do leave .zero false; pure false)
        ⟨{ Progress.zero with looping }, live⟩ (Exited parsed live) := by
    intro o parsed asked looping
    refine tends_bind (tends_leave ⟨rfl, rfl⟩ rfl) ?_
    rintro ⟨⟩ _ rfl
    exact tends_pure ⟨rfl, rfl, fun help => absurd help asked, fun _ => ⟨rfl, rfl⟩⟩
  cases parseArgs bits positional opts configInit with
  | help => exact ⟨configInit, nofun, tends_pure ⟨rfl, rfl, fun _ => ⟨rfl, rfl⟩,
    fun other => absurd rfl other⟩⟩
  | failed => exact ⟨configInit, nofun, failed (by simp) false⟩
  | ok o =>
    refine ⟨o, fun _ same => (Parsed.ok.inj same).symm, ?_⟩
    dsimp only
    split
    · exact failed (by simp) false
    refine tends_use (Finset.empty_subset _) rfl (fun _ => rfl) ⟨rfl, rfl⟩ ⟨0, _, rfl⟩ ?_
    rintro rc v rfl
    split
    · exact failed (by simp) _
    rename_i begun
    have looping : Progress.Looping { Progress.zero with looping := 0 ≤ rc } :=
      ⟨decide_eq_true (Int.not_lt.mp begun), rfl⟩
    refine tends_plain (Finset.empty_subset _) rfl (fun _ => rfl) trivial (fun _ _ => Iff.rfl) () ?_
    rintro ⟨⟩
    refine tends_plain (Finset.empty_subset _) rfl (fun _ => rfl) trivial (fun _ _ => Iff.rfl) () ?_
    rintro ⟨⟩
    refine tends_plain (Finset.empty_subset _) rfl (fun _ => rfl) trivial (fun _ _ => Iff.rfl) () ?_
    rintro ⟨⟩
    refine tends_bind (tends_serve looping rfl rfl rfl rfl) ?_
    rintro ⟨ok, ctx, dbOpened⟩ v ⟨owed, ran, ended⟩
    refine tends_bind (tends_leave owed ended) ?_
    rintro ⟨⟩ _ rfl
    exact tends_pure ⟨rfl, rfl, nofun, fun _ => ⟨ran.symm, rfl⟩⟩

/-- Whatever fails: each resource is given back exactly once, nothing is used that
is not held, the bus and the timers join the loop only between its beginning and
its end, the loop is entered at most once, on a migrated database, with the
object and both timers or with neither, and the exit status is 0 if and only if
the loop has run or help was asked for. -/
theorem lifecycle (bits : Nat) (positional : Bool) (opts : List Switch) (live : Finset LifeHandle) :
    (∀ q rest v, (lifeCustody.surroundings lifeAnswers).Reaches (main bits positional opts)
      ⟨.zero, live⟩ (.call q rest) v → lifeCustody.Allows v.live q ∧
        ∀ o, parseArgs bits positional opts configInit = .ok o → lifePermits o v.world q) ∧
    ∀ ok v, (lifeCustody.surroundings lifeAnswers).Reaches (main bits positional opts)
      ⟨.zero, live⟩ (.done ok) v →
        Exited (parseArgs bits positional opts configInit) live ok v := by
  obtain ⟨o, unique, tends⟩ := @tends_main live bits positional opts
  refine ⟨fun q rest v reach => ?_, fun ok v reach => tends.result reach⟩
  obtain ⟨allowed, permitted⟩ := tends.permitted reach
  refine ⟨allowed, ?_⟩
  intro o' parsed
  rw [unique o' parsed]
  exact permitted

end Starting

end Tumgrd
