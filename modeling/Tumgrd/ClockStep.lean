import Tumgrd.Registration
import Tumgrd.Scenario

/-! The two clock readings behind a rotation: a row is loaded at one, and its
lifetime is tested at a later one, which is where a step of the clock shows. -/
namespace Tumgrd

open Effect Semantics

/-- The statement of `tumgrd_db_begin_rotation` in a call. -/
abbrev beginAt (k : Key) (key : Buf 129) (now : Int) : Req :=
  .sql (.update k (setRotation key rotationPendingRemote now) .zero)

section Due

variable {sqlMayFail : Prop} {cfg : Config} {force : Bool} {n : Node} {w : World}

/-- A rotation that is begun for a healthy node is due at the clock reading of
its call. -/
def Timely (cfg : Config) (v : World) (q : Req) : Prop :=
  ∀ k key now, q = beginAt k key now → ∀ n, v.running = some n → n.damaged = false →
    ∀ c, v.callTrace.getLast? = some ⟨.time, c⟩ → n.overdue c ∧ n.rotates cfg = true

theorem timely_of_quiet {q : Req} (quiet : q.quiet = true) : Timely cfg w q := by
  rintro k key now rfl
  contradiction

theorem timely_of_report (what : Report) : Timely cfg w (.report what) := by
  rintro k key now ⟨⟩

theorem timely_of_serves {now : Int} {q : Req} (inCall : InCall n now w)
    (serves : q.Serves n (n.damaged = true ∨ n.overdue now ∧ n.rotates cfg = true)) :
    Timely cfg w q := by
  rintro k key written rfl m running healthy c reading
  cases inCall.running m running
  have clock : c = now := by
    have same := reading.symm.trans inCall.reading
    simpa using same
  cases serves with
  | quiet quiet => contradiction
  | update kept =>
    by_contra due
    rw [← clock] at kept
    have none := kept (not_or.mpr ⟨by simp [healthy], due⟩)
    contradiction

theorem timely_call (n : Node) (w : World) :
    (sem sqlMayFail).Safe (Timely cfg) (reconcileOne cfg n force) w fun _ _ => True := by
  unfold reconcileOne
  simp only [safe_bind, safe_report, safe_time]
  refine ⟨timely_of_report _, timely_of_quiet rfl, fun now => ?_⟩
  have emits :
    Program.Emits (Req.Serves n (n.damaged = true ∨ n.overdue now ∧ n.rotates cfg = true))
      (fun _ => True) (afterClock cfg n force now) :=
    (emits_afterClock .inl fun due rotates => .inr ⟨due, rotates⟩).post fun _ _ => trivial
  have safe := (safe_of_emits (S := sem sqlMayFail) emits).invariant (inCall_read w n force now)
    fun v q r inCall serves _ => inCall.after serves r
  rw [← safe_bind]
  exact safe.mono (fun v q h => timely_of_serves h.2 h.1) fun _ _ _ => trivial

theorem timely_nodes (nodes : List Node) (w : World) :
    (sem sqlMayFail).Safe (Timely cfg) (reconcileNodes cfg force nodes) w fun _ _ => True := by
  induction nodes generalizing w with
  | nil => trivial
  | cons n rest ih =>
    simp only [reconcileNodes, safe_bind]
    refine (timely_call n w).post fun _ v _ => (ih v).post fun _ _ _ => trivial

theorem timely_all (w : World) :
    (sem sqlMayFail).Safe (Timely cfg) (reconcileAll cfg force) w fun _ _ => True := by
  simp only [reconcileAll, safe_bind]
  refine safe_dbListNodes (fun _ _ => timely_of_quiet) ?_ fun _ _ _ => trivial
  intro nodes v _ _ _ _
  simp only [safe_bind]
  exact (timely_nodes nodes v).post fun _ _ _ => trivial

end Due

section Begin

variable {sqlMayFail : Prop} {cfg : Config} {force : Bool} {n : Node} {now : Int}

theorem checkExpiry_of_overdue {l : Locals} (resting : l.node.rotationState = rotationNone)
    (due : l.node.overdue now) :
    checkExpiry cfg now l = beginRotation cfg now { l with force := true, expired := true } := by
  obtain ⟨sane, positive, applied, passed⟩ := due
  unfold checkExpiry
  rw [if_neg (by rw [resting]; decide), if_neg (by rw [resting]; decide), if_neg (not_lt.mpr sane),
    if_neg (fun seeds => applied seeds.2), if_pos ⟨positive, passed⟩]

theorem beginRotation_begins {l : Locals} (rotates : l.node.rotates cfg = true) (key : HexKey)
    (w : World) : ∃ rest, (sem sqlMayFail).Runs (beginRotation cfg now l) w
      (.call (beginAt l.node.key key.buf now) rest) (w.after .randomKey (some key)) := by
  unfold beginRotation
  rw [if_pos rotates]
  exact ⟨_, Runs.head _ (r := some key) trivial (.refl _ _)⟩

theorem healthy_of_resting (resting : n.rotationState = rotationNone) : n.damaged = false := by
  simp [Node.damaged, Node.stateInvalid, Node.keyMismatch, resting]

/-- A call for an overdue node comes to begin a rotation. -/
theorem call_begins (resting : n.rotationState = rotationNone) (due : n.overdue now)
    (rotates : n.rotates cfg = true) (key : HexKey) (w : World) :
    ∃ rest, (sem sqlMayFail).Runs (reconcileOne cfg n force) w
      (.call (beginAt n.key key.buf now) rest)
      ((w.read n force now).after .randomKey (some key)) := by
  have begins :
    ∃ rest, (sem sqlMayFail).Runs (beginRotation cfg now ⟨n, true, true, .empty, false⟩)
      (w.read n force now) (.call (beginAt n.key key.buf now) rest) _ :=
    beginRotation_begins rotates key (w.read n force now)
  obtain ⟨rest, begins⟩ := begins
  rw [← checkExpiry_of_overdue (l := ⟨n, force, false, .empty, false⟩) resting due] at begins
  have decides : ∃ rest, (sem sqlMayFail).Runs
      (decideApply cfg now ⟨n, force, false, .empty, false⟩) (w.read n force now)
      (.call (beginAt n.key key.buf now) rest)
      ((w.read n force now).after .randomKey (some key)) := by
    rw [decideApply_of_healthy (healthy_of_resting resting)]
    exact ⟨_, begins.bind⟩
  obtain ⟨rest, decides⟩ := decides
  exact ⟨_, runs_of_afterClock (Runs.bind _ (Runs.bind _ decides))⟩

end Begin

section Steps

variable {cfg : Config} {r : Row} {load now lifetime : Int}

/-- A row that is alone in its database, as it is loaded. -/
theorem list_loads {sqlMayFail : Prop} (applied : 0 ≤ r.lastAppliedAt) (load : Int) :
    (sem sqlMayFail).Runs dbListNodes (.ofRow r) (.done (some [r.toNode load]))
      (((World.ofRow r).after (.sql .list) (.ok [r] 0)).after .time load) := by
  have reads : ∀ w, (sem sqlMayFail).Runs (rowToNode r) w (.done (r.toNode load))
      (w.after .time load) := by
    intro w
    unfold rowToNode
    rw [if_neg (not_lt.mpr applied)]
    exact Runs.head _ (r := load) trivial (.refl _ _)
  have listed : allowed sqlMayFail (.ofRow r) (.sql .list) (.ok [r] 0) :=
    .inl ⟨[r], rfl, .refl _, List.pairwise_singleton _ _⟩
  refine Runs.head _ listed ?_
  have nodes : (sem sqlMayFail).Runs ([r].mapM rowToNode)
      ((World.ofRow r).after (.sql .list) (.ok [r] 0)) (.done [r.toNode load])
      (((World.ofRow r).after (.sql .list) (.ok [r] 0)).after .time load) := by
    rw [List.mapM_cons]
    exact Runs.seq _ (reads _) (.refl _ _)
  exact Runs.seq (f := fun nodes => pure (some nodes)) _ nodes (.refl _ _)

/-- The row's time lay too far ahead when it was loaded, and counts as expired
for that; at the reading of its call it does not lie too far ahead any more. -/
structure Misread (cfg : Config) (r : Row) (load now lifetime : Int) : Prop where
  clamped : 0 ≤ r.lastAppliedAt ∧ load + 86400 < r.lastAppliedAt
  near : r.lastAppliedAt ≤ now + 86400
  unexpired : now - r.lastAppliedAt < lifetime
  legal : LegalLifetime lifetime
  reached : lifetime ≤ now - 1
  sane : minSaneTime ≤ now
  keyed : cfg.enableXor = true ∧ (columnText r.xorKey).text ≠ []

theorem keyed_iff_rotates :
    (r.toNode load).rotates cfg = true ↔ cfg.enableXor = true ∧
        (columnText r.xorKey).text ≠ [] := by
  simp only [Node.rotates, Bool.and_eq_true, decide_eq_true_eq]
  rfl

theorem misread_of_overdue (stored : r.lifetime = some lifetime) (positive : 0 < lifetime)
    (due : (r.toNode load).overdue now) (rotates : (r.toNode load).rotates cfg = true)
    (near : r.lastAppliedAt ≤ now + 86400) (unexpired : now - r.lastAppliedAt < lifetime) :
    Misread cfg r load now lifetime := by
  obtain ⟨sane, timed, applied, passed⟩ := due
  simp only [Row.toNode, stored, Option.getD_some, clampLifetime] at timed passed
  simp only [Row.toNode, clampAppliedAt] at applied passed
  have legal : LegalLifetime lifetime := by
    by_contra illegal
    simp only [LegalLifetime] at illegal
    rw [if_pos (by omega)] at timed
    omega
  rw [if_neg (by simp only [LegalLifetime] at legal; omega)] at passed
  have clamped : 0 ≤ r.lastAppliedAt ∧ load + 86400 < r.lastAppliedAt := by
    split at passed
    · omega
    · split at passed <;> omega
  rw [if_neg (by omega), if_pos clamped.2] at passed
  exact ⟨clamped, near, unexpired, legal, passed, sane, keyed_iff_rotates.mp rotates⟩

theorem Misread.overdue (stored : r.lifetime = some lifetime) (positive : 0 < lifetime)
    (h : Misread cfg r load now lifetime) : (r.toNode load).overdue now := by
  have timed : (r.toNode load).lifetime = lifetime := by
    simp only [Row.toNode, stored, Option.getD_some]
    exact clampLifetime_of_legal h.legal
  have applied : (r.toNode load).lastAppliedAt = 1 := by
    simp only [Row.toNode, clampAppliedAt]
    rw [if_neg (not_lt.mpr h.clamped.1), if_pos h.clamped.2]
  refine ⟨h.sane, ?_, ?_, ?_⟩
  · rw [timed]
    exact positive
  · rw [applied]
    decide
  · rw [timed, applied]
    exact h.reached

/-- After a misreading a rotation of the only row is begun. -/
theorem misread_begins (key : HexKey) (resting : r.rotationState = rotationNone)
    (stored : r.lifetime = some lifetime) (positive : 0 < lifetime)
    (h : Misread cfg r load now lifetime) :
    ∃ v rest, (sem True).Runs (reconcileAll cfg false) (.ofRow r)
        (.call (beginAt r.key key.buf now) rest) v ∧
      v.running = some (r.toNode load) ∧ (World.ofRow r).Did v ⟨.time, load⟩ ∧
      v.callTrace.getLast? = some ⟨.time, now⟩ := by
  let u := ((World.ofRow r).after (.sql .list) (.ok [r] 0)).after .time load
  have begins : ∃ rest, (sem True).Runs (reconcileOne cfg (r.toNode load) false) u
      (.call (beginAt r.key key.buf now) rest)
      ((u.read (r.toNode load) false now).after .randomKey (some key)) :=
    call_begins (n := r.toNode load) resting (h.overdue stored positive)
      (keyed_iff_rotates.mpr h.keyed) key u
  obtain ⟨rest, begins⟩ := begins
  have nodes : ∃ rest, (sem True).Runs (reconcileNodes cfg false [r.toNode load]) u
      (.call (beginAt r.key key.buf now) rest)
      ((u.read (r.toNode load) false now).after .randomKey (some key)) := ⟨_, begins.bind⟩
  obtain ⟨rest, nodes⟩ := nodes
  refine ⟨_, _, Runs.seq _ (list_loads h.clamped.1 load) nodes.bind, rfl, ?_, rfl⟩
  have did : (World.ofRow r).Did u ⟨.time, load⟩ :=
    World.did_of_suffix (List.suffix_cons _ _) (List.suffix_refl _)
  refine did.later ?_
  exact (List.suffix_cons _ _).trans ((List.suffix_cons _ _).trans (List.suffix_cons _ _))

/-- No reconcile that loads the row at `load`, and calls for it at `now`, begins
its rotation before the time. -/
def NeverEarly (cfg : Config) (r : Row) (load now lifetime : Int) : Prop :=
  ∀ force w v (rest : SqlReply → Prog Int) key written, w.table.find? r.key = some r →
    (sem True).Runs (reconcileAll cfg force) w (.call (beginAt r.key key written) rest) v →
    v.running = some (r.toNode load) → w.Did v ⟨.time, load⟩ →
    v.callTrace.getLast? = some ⟨.time, now⟩ →
    lifetime ≤ now - r.lastAppliedAt ∨ now + 86400 < r.lastAppliedAt

/-- A key is replaced early only after a misreading, and after any. -/
theorem rotation_timely_iff (resting : r.rotationState = rotationNone)
    (stored : r.lifetime = some lifetime) (positive : 0 < lifetime) :
    NeverEarly cfg r load now lifetime ↔ ¬Misread cfg r load now lifetime := by
  constructor
  · intro timely misread
    obtain ⟨v, rest, begins, running, did, reading⟩ :=
      misread_begins (sample 0).key resting stored positive misread
    have early := timely _ _ _ _ _ _ (World.find_ofRow r) begins running did reading
    exact early.elim (not_le.mpr misread.unexpired) (not_lt.mpr misread.near)
  · intro notMisread force w v rest key written _ runs running _ reading
    have safe : (sem True).Safe (Timely cfg) (reconcileAll cfg force) w fun _ _ => True :=
      timely_all w
    have timely := (safe.runs runs).1
    obtain ⟨due, rotates⟩ := timely _ _ _ rfl _ running (healthy_of_resting resting) _ reading
    by_contra early
    rw [not_or, not_le, not_lt] at early
    exact notMisread (misread_of_overdue stored positive due rotates early.2 early.1)

end Steps

section Samples

theorem sample_misread : Misread ⟨true, false, 3600⟩ sampleRow 1000 1700001000 3600 where
  clamped := by decide
  near := by decide
  unexpired := by decide
  legal := .inr (by decide)
  reached := by decide
  sane := by decide
  keyed := ⟨rfl, by decide +kernel⟩

/-- The row is loaded while the clock stands in 1970; then the clock is set, and
a key that has been in use for a thousand seconds is replaced. -/
theorem rotation_early : ∃ w v key written, ∃ rest : SqlReply → Prog Int,
    w.table.find? sampleRow.key = some sampleRow ∧
      (sem True).Runs (reconcileAll ⟨true, false, 3600⟩ false) w
        (.call (beginAt sampleRow.key key written) rest) v ∧
      v.running = some (sampleRow.toNode 1000) ∧ w.Did v ⟨.time, (1000 : Int)⟩ ∧
      v.callTrace.getLast? = some ⟨.time, (1700001000 : Int)⟩ ∧
      ¬(3600 ≤ 1700001000 - sampleRow.lastAppliedAt ∨
          1700001000 + 86400 < sampleRow.lastAppliedAt) := by
  obtain ⟨v, rest, begins, running, did, reading⟩ :=
    misread_begins (sample 0).key rfl rfl (by decide) sample_misread
  refine ⟨.ofRow sampleRow, v, (sample 0).key.buf, 1700001000, rest, World.find_ofRow _, begins,
    running, did, reading, ?_⟩
  decide

theorem rotation_timely_sample :
    NeverEarly ⟨true, false, 3600⟩ sampleRow 1700000000 1700001000 3600 := by
  refine (rotation_timely_iff rfl rfl (by decide)).mpr ?_
  rintro ⟨⟨-, future⟩, -⟩
  exact absurd future (by decide)

end Samples

end Tumgrd
