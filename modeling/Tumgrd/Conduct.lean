import Tumgrd.Call

/-! Every call of `tumgrd_reconcile_one` issues what `Issued` describes and ends
as `Outcome` says, whatever its surroundings answer. The proof follows the
stages of the function. -/
namespace Tumgrd

open Effect Semantics

variable {sqlMayFail : Prop} {P : World → Req → Prop} {c : Call} {now : Int} {n : Node}
  {found : Buf 64} {w : World} {l : Locals}

@[simp] theorem safe_andThen {W : Type} {S : Semantics Req Resp W} {P : W → Req → Prop} {w : W}
    {p : Prog Flow} {f : Locals → Prog Flow} {Q : Flow → W → Prop} :
    S.Safe P (andThen p f) w Q ↔ S.Safe P p w fun flow w' =>
      match flow with
      | .next l => S.Safe P (f l) w' Q
      | .skip l => Q (.skip l) w'
      | .fail l err => Q (.fail l err) w' := by
  unfold andThen
  rw [safe_bind]
  have same : ∀ (R R' : Flow → W → Prop), (∀ flow w', R flow w' ↔ R' flow w') →
      (S.Safe P p w R ↔ S.Safe P p w R') :=
    fun R R' h => ⟨fun safe => safe.post fun flow w' => (h flow w').mp,
      fun safe => safe.post fun flow w' => (h flow w').mpr⟩
  refine same _ _ fun flow w' => ?_
  cases flow <;> rfl

section Linked

variable {f : Bool} {r : Row}

/-- A node and a row that are both rotating, or both not, are faithful. -/
theorem Linked.isFaithful (h : Linked f n r)
    (agree : n.rotationState ≠ rotationNone ∨ r.rotationState = rotationNone) :
    f = true ∧ Mirrors n r := by
  cases h with
  | faithful mirrors => exact ⟨rfl, mirrors⟩
  | stale hn hr => exact (agree.elim (absurd hn) hr).elim

/-- Only the rotation fields matter. -/
theorem Linked.congr {m : Node} {s : Row} (h : Linked f n r)
    (node : m.xorKey = n.xorKey ∧ m.rotationState = n.rotationState ∧
      m.xorKeyPending = n.xorKeyPending)
    (row : s.xorKey = r.xorKey ∧ s.rotationState = r.rotationState ∧
      s.xorKeyPending = r.xorKeyPending) : Linked f m s := by
  cases h with
  | faithful mirrors =>
    refine .faithful ⟨?_, ?_, ?_⟩
    · rw [row.1, node.1, mirrors.xorKey]
    · rw [row.2.1, node.2.1, mirrors.rotationState]
    · rw [row.2.2, node.2.2, mirrors.xorKeyPending]
  | stale hn hr => exact .stale (node.2.1.trans hn) (row.2.1 ▸ hr)

theorem Linked.runtime {ip : Buf 64} {status : Buf 32} {t : Int} (h : Linked f n r) :
    Linked f n (r.update (setRuntime ip status t) .any) :=
  h.congr ⟨rfl, rfl, rfl⟩ ⟨rfl, rfl, rfl⟩

theorem Linked.rotated {key : HexKey} {guard : Guard} {t : Int} (h : Linked f n r)
    (agree : n.rotationState ≠ rotationNone ∨ r.rotationState = rotationNone)
    (holds : guard.holds r.rotationState = true) :
    Linked f (n.rotateTo key) (r.update (setRotation key.buf rotationPendingRemote t) guard) := by
  obtain ⟨rfl, -⟩ := h.isFaithful agree
  rw [update_holds holds]
  exact .faithful ⟨rfl, rfl, rfl⟩

theorem Linked.cleared (h : Linked f n r) (rotating : n.rotationState ≠ rotationNone) :
    Linked f n.clearRotation (r.update setCleared .any) := by
  obtain ⟨rfl, mirrors⟩ := h.isFaithful (.inl rotating)
  exact .faithful ⟨mirrors.xorKey, rfl, rfl⟩

theorem Linked.promoted (h : Linked f n r) (pending : n.rotationState = rotationPendingRemote) :
    Guard.pending.holds r.rotationState = true ∧
      Linked f { n with rotationState := rotationPendingLocalRecovery }
        (r.update (setRotationState rotationPendingLocalRecovery) .pending) := by
  obtain ⟨rfl, mirrors⟩ := h.isFaithful (.inl (by simp [pending]))
  have holds : Guard.pending.holds r.rotationState = true := by
    simp [Guard.holds, mirrors.rotationState, pending]
  rw [update_holds holds]
  exact ⟨holds, .faithful ⟨mirrors.xorKey, rfl, mirrors.xorKeyPending⟩⟩

theorem Linked.completed {t : Int} (h : Linked f n r)
    (rotating : n.rotationState ≠ rotationNone) :
    Guard.nonzero.holds r.rotationState = true ∧
      Linked f n.clearRotation (r.update (setCompleted t) .nonzero) := by
  obtain ⟨rfl, mirrors⟩ := h.isFaithful (.inl rotating)
  have holds : Guard.nonzero.holds r.rotationState = true := by
    simpa [Guard.holds, mirrors.rotationState] using rotating
  rw [update_holds holds]
  exact ⟨holds, .faithful ⟨mirrors.xorKey, rfl, rfl⟩⟩

end Linked

theorem Row.Follows.update {r r₀ : Row} (h : r.Follows r₀) {set : Assign} {guard : Guard}
    (hset : set.lastAppliedAt = none) : (r.update set guard).Follows r₀ := by
  unfold Row.update
  split
  · exact h.assign hset
  · exact h

namespace During

theorem key_eq (h : During c now n found w) : n.key = c.key := by
  rw [h.kept]
  rfl

theorem clientPort (h : During c now n found w) : n.clientPort = c.node.clientPort := by
  rw [h.kept]

/-- A request that does not touch the table leaves a call where it is. -/
theorem after (h : During c now n found w) {q : Req} {r : Resp q} (call : q.isCall = false)
    (mark : q.mark? = none) (table : (w.after q r).table = w.table)
    (own : ∀ cmd, Event.command? ⟨q, r⟩ = some cmd → cmd.issue.node.key = c.key) :
    During c now n found (w.after q r) where
  others := by rw [table]; exact h.others
  row := by rw [table]; exact h.row
  running := (World.running_after w r mark).trans h.running
  clock := by simp [World.callTrace_after w r call, List.getLast?_cons, h.clock]
  own := by
    intro cmd hcmd
    rw [World.callCommands_after w r call, List.mem_append, Option.mem_toList] at hcmd
    exact hcmd.elim (own cmd) (h.own cmd)
  earlier := by
    rw [World.commands_after, World.callCommands_after w r call, h.earlier, List.append_assoc]
  kept := h.kept
  fresh := by
    rw [World.callTrace_after w r call]
    exact h.fresh.imp_right fun ⟨key, hmem, hkey⟩ =>
      ⟨key, List.mem_cons_of_mem _ hmem, hkey⟩
  detected := by
    rw [World.callTrace_after w r call]
    exact h.detected.imp_right fun ⟨url, version, hmem⟩ =>
      ⟨url, version, List.mem_cons_of_mem _ hmem⟩

theorem keeps (h : During c now n found w) {w' : World} (keeps : w.Keeps w') :
    During c now n found w' where
  others := by rw [keeps.table]; exact h.others
  row := by rw [keeps.table]; exact h.row
  running := keeps.running.trans h.running
  clock := by
    obtain ⟨new, hnew⟩ := keeps.callTrace
    rw [← hnew, List.getLast?_append, h.clock]
    rfl
  own := by rw [keeps.callCommands]; exact h.own
  earlier := by rw [keeps.commands, keeps.callCommands]; exact h.earlier
  kept := h.kept
  fresh :=
    h.fresh.imp_right fun ⟨key, hmem, hkey⟩ => ⟨key, keeps.callTrace.subset hmem, hkey⟩
  detected := h.detected.imp_right fun ⟨url, version, hmem⟩ =>
    ⟨url, version, keeps.callTrace.subset hmem⟩

theorem quiet (h : During c now n found w) {q : Req} (quiet : q.quiet = true) (r : Resp q) :
    During c now n found (w.after q r) :=
  h.keeps (World.keeps_after quiet r)

theorem exec (h : During c now n found w) (issue : Issue) (hn : issue.node = n) (call : Invocation)
    (result : ExecResult) : During c now n found (w.after (.exec issue call) result) := by
  refine h.after rfl rfl rfl ?_
  rintro cmd hcmd
  simp only [Event.command?, Option.some.injEq] at hcmd
  rw [← hcmd, hn, h.key_eq]

theorem failed (h : During c now n found w) (s : Stmt) :
    During c now n found (w.after (.sql s) .error) :=
  h.keeps (World.keeps_after_error s)

/-- A statement of the call on its own row. -/
theorem updated (h : During c now n found w) {set : Assign} {guard : Guard}
    {changes : Nat} {m : Node}
    (hset : set.lastAppliedAt = none)
    (linked : ∀ r, w.table.find? c.key = some r → Linked c.faithful n r →
      Linked c.faithful m (r.update set guard))
    (kept : m = { c.node with
      xorKey := m.xorKey
      rotationState := m.rotationState
      xorKeyPending := m.xorKeyPending })
    (fresh : m.xorKey = n.xorKey ∧
        (n.rotationState = rotationNone → m.rotationState = rotationNone) ∨
      ∃ key, ⟨.randomKey, some key⟩ ∈ w.callTrace ∧ m.xorKey = key.buf) :
    During c now m found (w.after (.sql (.update c.key set guard)) (.ok [] changes)) where
  others := by
    intro k hk
    rw [World.table_after_ok, find?_update_of_ne hk]
    exact h.others k hk
  row := by
    obtain ⟨r, hr, hlinked, hfollows⟩ := h.row
    exact ⟨_, find?_update hr, linked r hr hlinked, hfollows.update hset⟩
  running := (World.running_after w _ rfl).trans h.running
  clock := by simp [World.callTrace_after, List.getLast?_cons, h.clock]
  own := by simpa using h.own
  earlier := by simpa using h.earlier
  kept := kept
  fresh := by
    rw [World.callTrace_after _ _ rfl]
    rcases fresh with ⟨same, rests⟩ | ⟨key, hmem, hkey⟩
    · rw [same]
      refine h.fresh.imp (fun ⟨kept, resting⟩ => ⟨kept, fun rest => rests (resting rest)⟩)
        fun ⟨key, hmem, hkey⟩ => ⟨key, List.mem_cons_of_mem _ hmem, hkey⟩
    · exact .inr ⟨key, List.mem_cons_of_mem _ hmem, hkey⟩
  detected := by
    rw [World.callTrace_after _ _ rfl]
    exact h.detected.imp_right fun ⟨url, version, hmem⟩ =>
      ⟨url, version, List.mem_cons_of_mem _ hmem⟩

/-- The answer of a successful detection is the address of the call. -/
theorem detects (h : During c now n found w) {url ipVersion : Str} {ip : Buf 64} :
    During c now n ip (w.after (.detect url ipVersion) ⟨true, ip⟩) :=
  { h.quiet (q := .detect url ipVersion) rfl ⟨true, ip⟩ with
    detected := .inr ⟨url, ipVersion, by simp⟩ }

end During

section Decide

/-- A repair block: it passes a healthy node on, and replaces or clears a
damaged rotation. -/
theorem safe_repairRotation {damage : Node → Bool} {Q : Flow → World → Prop}
    (entry : During c now c.node .empty w) (same : w.table = c.table) (hl : l.node = c.node)
    (hdamage : damage c.node = true → c.node.damaged = true)
    (pass : damage c.node = false → Q (.next l) w)
    (replaced : ∀ key w', c.node.damaged = true → c.node.rotates c.cfg = true →
      During c now (c.node.rotateTo key) .empty w' → w'.callCommands = w.callCommands →
      Q (.next { l with node := c.node.rotateTo key }) w')
    (cleared : ∀ w', c.node.damaged = true → c.node.rotates c.cfg = false →
      During c now c.node.clearRotation .empty w' → w'.callCommands = w.callCommands →
      Q (.next { l with node := c.node.clearRotation }) w')
    (failed : ∀ w', During c now c.node .empty w' → Q (.fail l (-1)) w') :
    (sem sqlMayFail).Safe (Issued sqlMayFail c) (repairRotation c.cfg now damage l) w Q := by
  unfold repairRotation
  rw [hl]
  split
  · exact pass (by simpa using ‹¬damage c.node = true›)
  have damaged : c.node.damaged = true := hdamage (by simpa using ‹¬¬damage c.node = true›)
  have rotating : c.node.rotationState ≠ rotationNone := by
    intro h
    simp [Node.damaged, Node.stateInvalid, Node.keyMismatch, h] at damaged
  obtain ⟨r, hr, -, -⟩ := entry.row
  have hkey : c.node.key = c.key := rfl
  split
  · rename_i rotates
    simp only [safe_bind, safe_randomKey]
    refine ⟨.quiet rfl, fun key => ?_⟩
    have entry' := entry.quiet (q := .randomKey) rfl key
    cases key with
    | none => exact failed _ entry'
    | some key =>
      simp only [safe_bind, hkey]
      refine safe_dbUpdateOne hr (.replace damaged rotates same) (fun _ => ?_) (fun h => ?_)
        fun _ => ?_
      · refine replaced key _ damaged rotates (entry'.updated rfl ?_ ?_ ?_) (by simp)
        · exact fun r _ hlinked => hlinked.rotated (.inl rotating) rfl
        · rfl
        · exact .inr ⟨key, by simp, rfl⟩
      · contradiction
      · exact failed _ (entry'.failed _)
  · rename_i rotates
    have rotates : c.node.rotates c.cfg = false := by simpa using rotates
    simp only [safe_bind, dbClearRotation, hkey]
    refine safe_dbUpdateOne hr (.clear damaged rotates same) (fun _ => ?_) (fun h => ?_)
      fun _ => ?_
    · refine cleared _ damaged rotates (entry.updated rfl ?_ rfl (.inl ⟨rfl, fun _ => rfl⟩))
        (by simp)
      exact fun r _ hlinked => hlinked.cleared rotating
    · contradiction
    · exact failed _ (entry.failed _)

/-- The state in which the expiry check is reached, and the one it leaves. -/
structure Deciding (c : Call) (now : Int) (w₀ : World) (l : Locals) (w : World) : Prop where
  decided : Decided c now l.node l.force l.expired w.table
  during : During c now l.node .empty w
  commands : w.callCommands = w₀.callCommands
  detectedIp : l.detectedIp = .empty

theorem overdue_of_not_seeds {now : Int} (sane : ¬now < minSaneTime)
    (seeds : ¬(n.lifetime > 0 ∧ n.lastAppliedAt = 0))
    (late : n.lifetime > 0 ∧ now - n.lastAppliedAt ≥ n.lifetime) : n.overdue now :=
  ⟨Int.not_lt.mp sane, late.1, fun h => seeds ⟨late.1, h⟩, late.2⟩

theorem not_seeds {now : Int} (seeds : ¬(n.lifetime > 0 ∧ n.lastAppliedAt = 0)) :
    ¬n.seeds now :=
  fun h => seeds h.2

theorem not_overdue {now : Int}
    (late : ¬(n.lifetime > 0 ∧ now - n.lastAppliedAt ≥ n.lifetime)) :
    ¬n.overdue now :=
  fun h => late ⟨h.2.1, h.2.2.2⟩

/-- Before the clock is sane nothing expires. -/
theorem not_expired {now : Int} (early : now < minSaneTime) : ¬n.seeds now ∧ ¬n.overdue now :=
  ⟨fun h => Int.not_le.mpr early h.1, fun h => Int.not_le.mpr early h.1⟩

theorem Node.rotationState_of_valid (valid : n.stateInvalid = false)
    (notRecovery : n.rotationState ≠ rotationPendingLocalRecovery)
    (notPending : n.rotationState ≠ rotationPendingRemote) : n.rotationState = rotationNone := by
  simp only [Node.stateInvalid, Bool.or_eq_false_iff, decide_eq_false_iff_not] at valid
  obtain ⟨low, high⟩ := valid
  rw [Int32.lt_iff_toInt_lt] at low
  rw [gt_iff_lt, Int32.lt_iff_toInt_lt] at high
  simp only [ne_eq, ← Int32.toInt_inj] at notRecovery notPending ⊢
  simp at *
  omega

/-- A healthy node is resumed, seeded, expired, or left as it is. -/
theorem safe_checkExpiry_kept {Q : Flow → World → Prop} (entry : During c now c.node .empty w)
    (same : w.table = c.table) (healthy : c.node.damaged = false)
    (next : ∀ l w', Deciding c now w l w' → Q (.next l) w')
    (failed : ∀ l found w', During c now l.node found w' → Q (.fail l (-1)) w') :
    (sem sqlMayFail).Safe (Issued sqlMayFail c)
      (checkExpiry c.cfg now ⟨c.node, c.force, false, .empty, false⟩) w Q := by
  unfold checkExpiry
  simp only
  split
  · rename_i recovery
    have rotating : c.node.rotationState ≠ rotationNone := by simp [recovery]
    exact next _ w ⟨same ▸ .resumed healthy rotating, entry, rfl, rfl⟩
  split
  · rename_i pending
    have rotating : c.node.rotationState ≠ rotationNone := by simp [pending]
    exact next _ w ⟨same ▸ .resumed healthy rotating, entry, rfl, rfl⟩
  rename_i notRecovery notPending
  have resting : c.node.rotationState = rotationNone := by
    have valid : c.node.stateInvalid = false := by
      simp only [Node.damaged, Bool.or_eq_false_iff] at healthy
      exact healthy.1
    exact Node.rotationState_of_valid valid notRecovery notPending
  split
  · rename_i early
    have unexpired := not_expired (n := c.node) early
    exact next _ w ⟨same ▸ .unexpired healthy resting unexpired.1 unexpired.2,
      entry, rfl, rfl⟩
  rename_i sane
  split
  · rename_i seeds
    have seeds : c.node.seeds now := ⟨Int.not_lt.mp sane, seeds⟩
    exact next _ w ⟨same ▸ .seeded healthy resting seeds, entry, rfl, rfl⟩
  rename_i seeds
  split
  · rename_i late
    have overdue := overdue_of_not_seeds sane seeds late
    unfold beginRotation
    simp only
    split
    · rename_i rotates
      obtain ⟨r, hr, -, -⟩ := entry.row
      have hkey : c.node.key = c.key := rfl
      simp only [safe_bind, safe_randomKey]
      refine ⟨.quiet rfl, fun key => ?_⟩
      have entry' := entry.quiet (q := .randomKey) rfl key
      cases key with
      | none => exact failed _ _ _ entry'
      | some key =>
        simp only [safe_bind, hkey, dbBeginRotation]
        refine safe_dbUpdateOne hr (.begin healthy resting overdue rotates same)
          (fun holds => ?_) (fun refused => ?_) fun _ => ?_
        · refine next _ _ ⟨.begun key _ healthy resting overdue rotates,
            entry'.updated rfl ?_ rfl (.inr ⟨key, by simp, rfl⟩), by simp, rfl⟩
          intro s hs hlinked
          cases hr.symm.trans hs
          exact hlinked.rotated (.inr (by simpa [Guard.holds] using holds)) holds
        · refine failed _ _ _ (entry'.updated rfl ?_ entry'.kept (.inl ⟨rfl, id⟩))
          intro s hs hlinked
          cases hr.symm.trans hs
          simpa [Row.update, refused] using hlinked
        · exact failed _ _ _ (entry'.failed _)
    · rename_i rotates
      refine next _ w ⟨same ▸ .unkeyed healthy resting overdue ?_, entry, rfl, rfl⟩
      simpa using rotates
  · rename_i late
    exact next _ w
      ⟨same ▸ .unexpired healthy resting (not_seeds seeds) (not_overdue late), entry,
      rfl, rfl⟩

/-- A replaced rotation is resumed like any other. -/
theorem safe_checkExpiry_replaced {key : HexKey} {Q : Flow → World → Prop}
    (damaged : c.node.damaged = true) (rotates : c.node.rotates c.cfg = true)
    (during : During c now (c.node.rotateTo key) .empty w)
    (next : ∀ l w', Deciding c now w l w' → Q (.next l) w') :
    (sem sqlMayFail).Safe (Issued sqlMayFail c)
      (checkExpiry c.cfg now ⟨c.node.rotateTo key, c.force, false, .empty, false⟩) w Q :=
  next _ w ⟨.replaced key _ damaged rotates, during, rfl, rfl⟩

/-- A cleared node is checked like one that never rotated, but gets no key. -/
theorem safe_checkExpiry_cleared {Q : Flow → World → Prop}
    (damaged : c.node.damaged = true) (rotates : c.node.rotates c.cfg = false)
    (during : During c now c.node.clearRotation .empty w)
    (next : ∀ l w', Deciding c now w l w' → Q (.next l) w') :
    (sem sqlMayFail).Safe (Issued sqlMayFail c)
      (checkExpiry c.cfg now ⟨c.node.clearRotation, c.force, false, .empty, false⟩) w Q := by
  have fresh : c.node.seeds now ∨ c.node.overdue now →
      Q (.next ⟨c.node.clearRotation, true, true, .empty, false⟩) w := by
    intro expires
    have decided : Decided c now _ _ _ _ :=
      .cleared true w.table damaged rotates (by simpa using expires)
    rw [Bool.or_true] at decided
    exact next _ w ⟨decided, during, rfl, rfl⟩
  have stays : ¬c.node.seeds now → ¬c.node.overdue now →
      Q (.next ⟨c.node.clearRotation, c.force, false, .empty, false⟩) w := by
    intro seeds overdue
    have decided : Decided c now _ _ _ _ :=
      .cleared false w.table damaged rotates (by simpa using ⟨seeds, overdue⟩)
    rw [Bool.or_false] at decided
    exact next _ w ⟨decided, during, rfl, rfl⟩
  unfold checkExpiry
  simp only
  split
  · rename_i recovery
    simp [Node.clearRotation] at recovery
  split
  · rename_i pending
    simp [Node.clearRotation] at pending
  split
  · rename_i early
    exact stays (not_expired early).1 (not_expired early).2
  rename_i sane
  split
  · exact fresh (.inl ⟨Int.not_lt.mp sane, ‹_›⟩)
  rename_i seeds
  split
  · rename_i late
    have keyless : ∀ l : Locals, l.node = c.node.clearRotation →
        beginRotation c.cfg now l = pure (.next l) := by
      intro l hl
      unfold beginRotation
      have same : c.node.clearRotation.rotates c.cfg = c.node.rotates c.cfg := rfl
      rw [hl, same, if_neg (by simp [rotates])]
    rw [keyless _ rfl]
    exact fresh (.inr (overdue_of_not_seeds sane seeds late))
  · rename_i late
    exact stays (not_seeds seeds) (not_overdue late)

/-- What is left of `decideApply`'s results. -/
def Settled (c : Call) (now : Int) : Flow → World → Prop
  | .next l, w => Ready c now l w ∧ needApply l = true
  | .skip l, w => Ready c now l w ∧ needApply l = false
  | .fail l err, w => err ≠ 0 ∧ ∃ found, During c now l.node found w

theorem safe_detectAndTest {w₀ : World} (idle : w₀.callCommands = [])
    (deciding : Deciding c now w₀ l w) :
    (sem sqlMayFail).Safe (Issued sqlMayFail c) (andThen (detectIp l) skipUnchanged) w
      (Settled c now) := by
  rw [safe_andThen, detectIp, safe_bind, safe_detect]
  refine ⟨.quiet rfl, fun found hfound => ?_⟩
  obtain ⟨ok, ip⟩ := found
  cases ok with
  | false =>
    have entry := deciding.during.quiet
      (q := .detect (pickIpCheckUrl l.node) l.node.ipVersion.text) rfl ⟨false, ip⟩
    exact ⟨by decide, _, entry⟩
  | true =>
    have ready : Ready c now { l with detectedIp := ip }
        (w.after (.detect (pickIpCheckUrl l.node) l.node.ipVersion.text) ⟨true, ip⟩) :=
      ⟨deciding.decided, deciding.during.detects, by simp [deciding.commands, idle], hfound rfl⟩
    simp only [if_true, safe_pure, skipUnchanged]
    split
    · exact ⟨ready, ‹_›⟩
    · exact ⟨ready, (Bool.not_eq_true _).mp ‹_›⟩

theorem keyMismatch_rotateTo (n : Node) (key : HexKey) : (n.rotateTo key).keyMismatch = false := by
  simp [Node.keyMismatch, Node.rotateTo, key.text_buf_ne_nil]

theorem keyMismatch_clearRotation (n : Node) : n.clearRotation.keyMismatch = false := by
  simp [Node.keyMismatch, Node.clearRotation]

theorem repairRotation_healthy {damage : Node → Bool} (h : damage l.node = false) :
    repairRotation c.cfg now damage l = pure (.next l) := by
  simp [repairRotation, h]

theorem safe_decideApply (entry : During c now c.node .empty w) (same : w.table = c.table)
    (idle : w.callCommands = []) :
    (sem sqlMayFail).Safe (Issued sqlMayFail c)
      (decideApply c.cfg now ⟨c.node, c.force, false, .empty, false⟩) w (Settled c now) := by
  have onward : ∀ l w', Deciding c now w l w' → (sem sqlMayFail).Safe (Issued sqlMayFail c)
      (andThen (detectIp l) skipUnchanged) w' (Settled c now) :=
    fun l w' deciding => safe_detectAndTest idle deciding
  have stuck : ∀ (l : Locals) (found : Buf 64) (w' : World), During c now l.node found w' →
      Settled c now (.fail l (-1)) w' :=
    fun l found w' during => ⟨by decide, found, during⟩
  have resumed : ∀ key w', c.node.damaged = true → c.node.rotates c.cfg = true →
      During c now (c.node.rotateTo key) .empty w' → w'.callCommands = w.callCommands →
      (sem sqlMayFail).Safe (Issued sqlMayFail c)
        (andThen (checkExpiry c.cfg now ⟨c.node.rotateTo key, c.force, false, .empty, false⟩)
          fun l => andThen (detectIp l) skipUnchanged) w' (Settled c now) := by
    intro key w' damaged rotates during hcmds
    rw [safe_andThen]
    refine safe_checkExpiry_replaced damaged rotates during fun l w'' deciding => ?_
    exact onward l w'' { deciding with commands := deciding.commands.trans hcmds }
  have reset : ∀ w', c.node.damaged = true → c.node.rotates c.cfg = false →
      During c now c.node.clearRotation .empty w' → w'.callCommands = w.callCommands →
      (sem sqlMayFail).Safe (Issued sqlMayFail c)
        (andThen (checkExpiry c.cfg now ⟨c.node.clearRotation, c.force, false, .empty, false⟩)
          fun l => andThen (detectIp l) skipUnchanged) w' (Settled c now) := by
    intro w' damaged rotates during hcmds
    rw [safe_andThen]
    refine safe_checkExpiry_cleared damaged rotates during fun l w'' deciding => ?_
    exact onward l w'' { deciding with commands := deciding.commands.trans hcmds }
  rw [decideApply, safe_andThen]
  refine safe_repairRotation entry same rfl (by simp +contextual [Node.damaged]) (fun valid => ?_)
    (fun key w' damaged rotates during hcmds => ?_) (fun w' damaged rotates during hcmds => ?_)
    fun w' during => stuck _ _ w' during
  · simp only
    rw [safe_andThen]
    refine safe_repairRotation entry same rfl (by simp +contextual [Node.damaged])
      (fun matching => ?_) resumed reset fun w' during => stuck _ _ w' during
    simp only
    rw [safe_andThen]
    refine safe_checkExpiry_kept entry same ?_ onward stuck
    simp [Node.damaged, valid, matching]
  · simp only
    rw [repairRotation_healthy (keyMismatch_rotateTo c.node key)]
    exact resumed key w' damaged rotates during hcmds
  · simp only
    rw [repairRotation_healthy (keyMismatch_clearRotation c.node)]
    exact reset w' damaged rotates during hcmds

end Decide

section Apply

variable {ip : Buf 64} {Q : Int → World → Prop} {R : Flow → World → Prop}

theorem Pushed.congr {cmds : List Command} {m : Node} {ip : Str} (h : Pushed cmds n ip)
    (key : n.key = m.key) (clientPort : n.clientPort = m.clientPort)
    (xorKey : n.xorKey = m.xorKey) :
    Pushed cmds m ip := by
  obtain ⟨cmd, rest, hcmds, hcmd⟩ := h
  exact ⟨cmd, rest, hcmds, ⟨hcmd.tool, hcmd.key.trans key, hcmd.clientPort.trans clientPort,
    hcmd.xorKey.trans xorKey, hcmd.ip, hcmd.built, hcmd.acknowledged⟩⟩

theorem Installed.congr {cmds : List Command} {m : Node} {ip : Str} (h : Installed cmds n ip)
    (key : n.key = m.key) (clientPort : n.clientPort = m.clientPort)
    (xorKey : n.xorKey = m.xorKey) :
    Installed cmds m ip := by
  obtain ⟨add, del, rest, hcmds, hadd, hdel, hpushed⟩ := h
  exact ⟨add, del, rest, hcmds,
    ⟨hadd.tool, hadd.key.trans key, hadd.clientPort.trans clientPort,
    hadd.xorKey.trans xorKey, hadd.built, hadd.succeeded⟩, hdel,
      hpushed.congr key clientPort xorKey⟩

/-- One server-add script, whose acknowledgement is looked for. -/
theorem safe_pushScript {script : Str} (during : During c now n found w)
    (builds : Issue.Builds ⟨.serverAdd, n, ip.text⟩ (tuctlCall n script))
    (pushed : ∀ w', During c now n found w' → Pushed w'.callCommands n ip.text → Q 0 w')
    (refused : ∀ w', During c now n found w' → Q (-1) w') :
    (sem sqlMayFail).Safe (Issued sqlMayFail c)
      (runTuctlScript ⟨.serverAdd, n, ip.text⟩ script serverUpdated) w Q := by
  refine safe_runTuctlScript (fun _ _ => .quiet rfl)
    (fun w' keeps => .exec (during.keeps keeps) builds)
      fun w₁ result w₂ keeps₁ _ keeps₂ => ?_
  have during₂ := ((during.keeps keeps₁).exec ⟨.serverAdd, n, ip.text⟩ rfl
    (tuctlCall n script) result).keeps keeps₂
  split
  · rename_i acknowledged
    refine pushed w₂ during₂ ?_
    rw [keeps₂.callCommands, World.callCommands_after _ _ rfl]
    exact ⟨_, _, rfl, ⟨rfl, rfl, rfl, rfl, rfl, builds, acknowledged⟩⟩
  · exact refused w₂ during₂

theorem safe_serverAdd (during : During c now n found w) (detected : ip.text ≠ [])
    (pushed : ∀ w', During c now n found w' → Pushed w'.callCommands n ip.text → Q 0 w')
    (failed : ∀ w', During c now n found w' → Q (-1) w') :
    (sem sqlMayFail).Safe (Issued sqlMayFail c) (serverAdd n c.cfg ip.text) w Q := by
  have quiet : ∀ {w : World} {line}, During c now n found w →
      During c now n found (w.after (.log line) ()) :=
    fun during => during.quiet (q := .log _) rfl ()
  have detectedAttempt : ∀ w', During c now n found w' →
    (sem sqlMayFail).Safe (Issued sqlMayFail c)
      (serverAddDetected n ip.text) w' Q := by
    intro w' during
    simp only [serverAddDetected, logTrimmed, safe_bind, safe_log]
    exact ⟨.quiet rfl,
      safe_pushScript (quiet during) (builds_serverAdd (.inr rfl)) pushed failed⟩
  unfold serverAdd
  rw [if_neg detected]
  split
  · simp only [logTrimmed, safe_bind, safe_log]
    refine ⟨.quiet rfl, safe_pushScript (quiet during) (builds_serverAdd (.inl rfl))
      (fun w' during' hpushed => ?_) fun w' during' => ?_⟩
    · exact pushed w' during' hpushed
    · rw [if_neg (by decide)]
      simp only [safe_bind, safe_readTimedOut]
      have during'' := during'.quiet (q := .timedOut) rfl w'.timedOut
      refine ⟨.quiet rfl, ?_⟩
      split
      · simp only [safe_bind, safe_log, safe_pure]
        exact ⟨.quiet rfl, failed _ (quiet during'')⟩
      · simp only [safe_bind, safe_log]
        exact ⟨.quiet rfl, detectedAttempt _ (quiet during'')⟩
  · exact detectedAttempt w during

theorem safe_applyServer (ready : Ready c now l w) (needed : needApply l = true)
    (next : ∀ l w', Applying c now l w' → Pushed w'.callCommands l.node l.detectedIp.text →
      R (.next l) w')
    (failed : ∀ l err found w', err ≠ 0 → During c now l.node found w' →
      R (.fail l err) w') :
    (sem sqlMayFail).Safe (Issued sqlMayFail c) (applyServer c.cfg l) w R := by
  simp only [applyServer, safe_bind]
  refine safe_serverAdd ready.during ready.detected (fun w' during hpushed => ?_)
    fun w' during => failed _ _ _ _ (by decide) during
  rw [if_neg (by decide)]
  split
  · rename_i pending
    simp only [safe_bind, dbUpdateRotationState]
    rw [if_neg (by simp)]
    obtain ⟨r, hr, hlinked, -⟩ := during.row
    obtain ⟨holds, hpromoted⟩ := hlinked.promoted pending
    rw [during.key_eq]
    refine safe_dbUpdateOne hr (.promote during pending hpushed) (fun _ => ?_)
      (fun refused => ?_) fun _ => failed _ _ _ _ (by decide) (during.failed _)
    · refine next _ _ ⟨during.updated rfl ?_ ?_
        (.inl ⟨rfl, fun resting => by simp [resting] at pending⟩), ⟨_, _, ready.decided,
        .inr ⟨pending, rfl⟩⟩, rfl, ready.detected, needed⟩ ?_
      · intro s hs hlinked'
        cases hr.symm.trans hs
        exact hpromoted
      · have kept := during.kept
        rw [kept]
      · rw [World.callCommands_after _ _ rfl]
        exact hpushed.congr rfl rfl rfl
    · rw [holds] at refused
      contradiction
  · rename_i settled
    exact next _ _ ⟨during, ⟨_, _, ready.decided, .inl ⟨rfl, settled⟩⟩, rfl,
      ready.detected,
      needed⟩ hpushed

theorem safe_resetLocalClient (during : During c now n found w) {ip : Str}
    (hpushed : Pushed w.callCommands n ip)
    (next : ∀ w', During c now n found w' → Installed w'.callCommands n ip → Q 0 w')
    (failed : ∀ rc w', rc < 0 → During c now n found w' → Q rc w') :
    (sem sqlMayFail).Safe (Issued sqlMayFail c) (resetLocalClient n) w Q := by
  simp only [resetLocalClient, clientDel, clientAdd, safe_bind]
  refine safe_runKtuctl (fun _ _ => .quiet rfl)
    (fun w' keeps => .exec (during.keeps keeps) rfl) fun w₁ del w₂ keeps₁ _ _ keeps₂ => ?_
  have during₂ := ((during.keeps keeps₁).exec ⟨.clientDel, n, []⟩ rfl
    ⟨clientDelArgv n, none, none⟩ del).keeps keeps₂
  rw [safe_readTimedOut]
  have during₃ := during₂.quiet (q := .timedOut) rfl w₂.timedOut
  refine ⟨.quiet rfl, ?_⟩
  split
  · exact failed _ _ (by decide) during₃
  refine safe_runKtuctl (fun _ _ => .quiet rfl)
    (fun w' keeps => .exec (during₃.keeps keeps) rfl)
      fun w₄ add w₅ keeps₄ hrc _ keeps₅ => ?_
  have during₅ := ((during₃.keeps keeps₄).exec ⟨.clientAdd, n, []⟩ rfl
    ⟨clientAddArgv n, none, none⟩ add).keeps keeps₅
  by_cases succeeded : add.rc = 0
  · rw [succeeded]
    refine next w₅ during₅ ?_
    rw [keeps₅.callCommands, World.callCommands_after _ _ rfl, keeps₄.callCommands,
      World.callCommands_after _ _ rfl, keeps₂.callCommands, World.callCommands_after _ _ rfl,
      keeps₁.callCommands]
    exact ⟨_, _, _, rfl, ⟨rfl, rfl, rfl, rfl, rfl, succeeded⟩, rfl, hpushed⟩
  · exact failed _ w₅ (by omega) during₅

theorem safe_applyLocal (applying : Applying c now l w)
    (hpushed : Pushed w.callCommands l.node l.detectedIp.text)
    (next : ∀ w', Applying c now l w' → Installed w'.callCommands l.node l.detectedIp.text →
      R (.next l) w')
    (failed : ∀ l err found w', err ≠ 0 → During c now l.node found w' →
      R (.fail l err) w') :
    (sem sqlMayFail).Safe (Issued sqlMayFail c) (applyLocal l) w R := by
  simp only [applyLocal, safe_bind]
  refine safe_resetLocalClient applying.during hpushed (fun w' during installed => ?_)
    fun rc w' negative during => ?_
  · exact next w' { applying with during } installed
  · rw [if_pos negative]
    exact failed _ _ _ _ (by omega) during

/-- The row the call left at its key, with the runtime columns just written. -/
def Marked (c : Call) (n : Node) (ip : Buf 64) (status : Buf 32) (w : World) : Prop :=
  ∃ r, w.table.find? c.key = some r ∧ Linked c.faithful n r ∧ r.Follows c.row ∧
    r.currentIp = bindTextOrNull ip ∧ r.status = some status

theorem safe_markRuntime (during : During c now n found w) {status : Buf 32}
    (named : status.text ≠ [])
    (marked : ∀ w', During c now n found w' → w'.callCommands = w.callCommands →
      Marked c n ip status w' → Q 0 w')
    (failed : ∀ w', sqlMayFail → During c now n found w' → Q (-1) w') :
    (sem sqlMayFail).Safe (Issued sqlMayFail c) (markRuntime n ip status) w Q := by
  simp only [markRuntime, safe_bind, safe_time, during.key_eq]
  refine ⟨.quiet rfl, fun t => ?_⟩
  have during' := during.quiet (q := .time) rfl t
  refine safe_dbUpdateRuntime (.runtime named) (fun changes => ?_) fun may =>
    failed _ may (during'.failed _)
  refine marked _ (during'.updated rfl (fun r _ hlinked => hlinked.runtime) during.kept
    (.inl ⟨rfl, id⟩))
    (by simp) ?_
  obtain ⟨r, hr, hlinked, hfollows⟩ := during.row
  exact ⟨_, find?_update hr, hlinked.runtime, hfollows.update rfl, rfl, rfl⟩

theorem safe_markActive (applying : Applying c now l w)
    (installed : Installed w.callCommands l.node l.detectedIp.text)
    (next : ∀ w', Applying c now l w' → Installed w'.callCommands l.node l.detectedIp.text →
      Marked c l.node l.detectedIp statusActive w' → R (.next l) w')
    (failed : ∀ l err found w', err ≠ 0 → During c now l.node found w' →
      R (.fail l err) w') :
    (sem sqlMayFail).Safe (Issued sqlMayFail c) (markActive l) w R := by
  simp only [markActive, safe_bind]
  refine safe_markRuntime applying.during (by decide) (fun w' during hcmds marked => ?_)
    fun w' _ during => failed _ _ _ _ (by decide) during
  exact next w' { applying with during } (hcmds ▸ installed) marked

/-- On a healthy node, a call that does not expire it has decided nothing. -/
theorem Decided.of_unexpired {m : Node} {force : Bool} {t : Table}
    (h : Decided c now m force false t) (healthy : c.node.damaged = false) :
    m = c.node ∧ force = c.force ∧ t = c.table ∧ c.node.rotationState = rotationNone ∧
      ¬c.node.seeds now ∧ ¬c.node.overdue now := by
  cases h with
  | unexpired _ resting seeds overdue => exact ⟨rfl, rfl, rfl, resting, seeds, overdue⟩
  | cleared _ _ damaged => simp [healthy] at damaged

theorem Decided.unexpired_of_unforced {m : Node} {force expired : Bool} {t : Table}
    (h : Decided c now m force expired t) (unforced : force = false) : expired = false := by
  cases h with
  | unexpired => rfl
  | cleared => exact (Bool.or_eq_false_iff.mp unforced).2
  | _ => contradiction

theorem Decided.expired_of_rotating {m : Node} {force expired : Bool} {t : Table}
    (h : Decided c now m force expired t) (rotating : m.rotationState ≠ rotationNone) :
    expired = true := by
  cases h with
  | unexpired _ resting => exact absurd resting rotating
  | cleared => exact absurd rfl rotating
  | _ => rfl

theorem Decided.pending_of_resting {m : Node} {force expired : Bool} {t : Table}
    (h : Decided c now m force expired t) (resting : m.rotationState = rotationNone) :
    m.xorKeyPending = .empty ∨
      c.node.rotationState = rotationNone ∧ m.xorKeyPending = c.node.xorKeyPending := by
  cases h with
  | resumed _ rotating => exact absurd resting rotating
  | begun => simp [Node.rotateTo] at resting
  | replaced => simp [Node.rotateTo] at resting
  | cleared => exact .inl rfl
  | _ => exact .inr ⟨‹_›, rfl⟩

theorem Applying.expired_of_rotating (h : Applying c now l w)
    (rotating : l.node.rotationState ≠ rotationNone) : l.expired = true := by
  obtain ⟨m, t, decided, ⟨hm, -⟩ | ⟨pending, -⟩⟩ := h.origin
  · exact decided.expired_of_rotating (hm ▸ rotating)
  · exact decided.expired_of_rotating (by simp [pending])

theorem Applying.pending_of_resting (h : Applying c now l w)
    (resting : l.node.rotationState = rotationNone) :
    l.node.xorKeyPending = .empty ∨
      c.node.rotationState = rotationNone ∧ l.node.xorKeyPending = c.node.xorKeyPending := by
  obtain ⟨m, t, decided, ⟨hm, -⟩ | ⟨-, hm⟩⟩ := h.origin
  · rw [hm] at resting ⊢
    exact decided.pending_of_resting resting
  · simp [hm] at resting

theorem Applying.origin_xorKey (h : Applying c now l w) :
    ∃ m t, Decided c now m l.force l.expired t ∧ l.node.xorKey = m.xorKey := by
  obtain ⟨m, t, decided, ⟨hm, -⟩ | ⟨-, hm⟩⟩ := h.origin
  · exact ⟨m, t, decided, by rw [hm]⟩
  · exact ⟨m, t, decided, by rw [hm]⟩

theorem Applying.detection (h : Applying c now l w) :
    ∃ url ipVersion, ⟨.detect url ipVersion, ⟨true, l.detectedIp⟩⟩ ∈ w.callTrace :=
  h.during.detected.resolve_left fun empty => h.detected (empty ▸ rfl)

theorem Ready.detection (h : Ready c now l w) :
    ∃ url ipVersion, ⟨.detect url ipVersion, ⟨true, l.detectedIp⟩⟩ ∈ w.callTrace :=
  h.during.detected.resolve_left fun empty => h.detected (empty ▸ rfl)

theorem bindTextOrNull_of_ne {k : Nat} {b : Buf k} (h : b.text ≠ []) :
    bindTextOrNull b = some b := by
  simp [bindTextOrNull, h]

/-- The last statement of a successful call, if it has one to make. -/
theorem safe_recordApplied (applying : Applying c now l w)
    (installed : Installed w.callCommands l.node l.detectedIp.text)
    (marked : Marked c l.node l.detectedIp statusActive w)
    (next : ∀ l w', Completed c now l w' → R (.next l) w')
    (failed : ∀ l err found w', err ≠ 0 → During c now l.node found w' →
      R (.fail l err) w') :
    (sem sqlMayFail).Safe (Issued sqlMayFail c) (recordApplied now l) w R := by
  have during := applying.during
  obtain ⟨r, hr, hlinked, hfollows, hip, hstatus⟩ := marked
  rw [bindTextOrNull_of_ne applying.detected] at hip
  have hport : r.clientPort = c.node.clientPort := by
    rw [hfollows]
    exact c.clientPort
  have happlied : r.lastAppliedAt = c.row.lastAppliedAt := by rw [hfollows]
  obtain ⟨url, version, hfound⟩ := applying.detection
  unfold recordApplied
  rw [during.key_eq]
  simp only [applying.succeeded, and_true]
  split
  · rename_i rotating
    obtain ⟨holds, hcompleted⟩ := hlinked.completed
      (t := if now ≥ minSaneTime then now else 0) rotating
    simp only [safe_bind, dbCompleteRotation]
    refine safe_dbUpdateOne hr (.complete applying installed rotating) (fun _ => ?_)
      (fun refused => ?_) fun _ => failed _ _ _ _ (by decide) (during.failed _)
    · refine next _ _ ⟨fun k hk => ?_, applying.origin_xorKey,
        by simp [List.getLast?_cons, during.clock], ⟨url, version, by simp [hfound]⟩,
        applying.needed, by simpa using during.own, by simpa using during.earlier, ?_,
        ?_, rfl, .inl rfl, _, find?_update hr,
        hcompleted.congr ⟨rfl, rfl, rfl⟩ ⟨rfl, rfl, rfl⟩, ?_⟩
      · rw [World.table_after_ok, find?_update_of_ne hk]
        exact during.others k hk
      · rw [World.callCommands_after _ _ rfl]
        exact installed.congr rfl rfl rfl
      · rw [during.kept]
        rfl
      · rw [update_holds holds]
        refine ⟨hport, hstatus, hip, fun unexpired => ?_, fun _ sane => ?_⟩
        · rw [applying.expired_of_rotating rotating] at unexpired
          contradiction
        · simp only [Row.assign, setCompleted, Option.getD_some]
          exact if_pos sane
    · rw [holds] at refused
      contradiction
  rename_i resting
  have resting : l.node.rotationState = rotationNone := by simpa using resting
  have hpending := applying.pending_of_resting resting
  split
  · rename_i expired
    simp only [safe_bind, dbUpdateApplied]
    refine safe_dbUpdateOne hr (.applied applying resting expired) (fun _ => ?_)
      (fun refused => ?_) fun _ => failed _ _ _ _ (by decide) (during.failed _)
    · refine next _ _ ⟨fun k hk => ?_, applying.origin_xorKey,
        by simp [List.getLast?_cons, during.clock], ⟨url, version, by simp [hfound]⟩,
        applying.needed, by simpa using during.own, by simpa using during.earlier, ?_,
        ?_, resting, hpending, _, find?_update hr,
          hlinked.congr ⟨rfl, rfl, rfl⟩ ⟨rfl, rfl, rfl⟩, hport, hstatus,
        hip, fun unexpired => ?_, fun _ _ => rfl⟩
      · rw [World.table_after_ok, find?_update_of_ne hk]
        exact during.others k hk
      · rw [World.callCommands_after _ _ rfl]
        exact installed.congr rfl rfl rfl
      · rw [during.kept]
      · rw [expired] at unexpired
        contradiction
    · contradiction
  · rename_i unexpired
    exact next l w ⟨during.others, applying.origin_xorKey, during.clock,
      ⟨url, version, hfound⟩,
      applying.needed, during.own, during.earlier, installed,
      by rw [during.kept], resting, hpending, r, hr, hlinked, hport, hstatus, hip,
        fun _ => happlied,
      fun expired => absurd expired unexpired⟩

end Apply

section Whole

/-- What is left of the results of the two halves together. -/
def Finishing (c : Call) (now : Int) : Flow → World → Prop
  | .next l, w => Completed c now l w
  | .skip l, w => Ready c now l w ∧ needApply l = false
  | .fail l err, w => err ≠ 0 ∧ ∃ found, During c now l.node found w

theorem safe_applyNode (ready : Ready c now l w) (needed : needApply l = true) :
    (sem sqlMayFail).Safe (Issued sqlMayFail c) (applyNode c.cfg now l) w (Finishing c now) := by
  have failed : ∀ (l : Locals) (err : Int) (found : Buf 64) (w' : World), err ≠ 0 →
      During c now l.node found w' → Finishing c now (.fail l err) w' :=
    fun l err found w' nonzero during => ⟨nonzero, found, during⟩
  simp only [applyNode, safe_andThen]
  refine safe_applyServer ready needed (fun l w₁ applying₁ hpushed => ?_) failed
  refine safe_applyLocal applying₁ hpushed (fun w₂ applying₂ installed₂ => ?_) failed
  refine safe_markActive applying₂ installed₂
    (fun w₃ applying₃ installed₃ marked => ?_) failed
  exact safe_recordApplied applying₃ installed₃ marked
    (fun l w₄ completed => completed) failed

theorem Completed.key (h : Completed c now l w) : l.node.key = c.key := by
  rw [h.kept]
  rfl

theorem Completed.clientPort (h : Completed c now l w) :
    l.node.clientPort = c.node.clientPort := by
  rw [h.kept]

theorem Completed.report (h : Completed c now l w) {what : Report} (call : what.isCall = false) :
    Completed c now l (w.after (.report what) ()) where
  others := h.others
  origin := h.origin
  clock := by simp [call, List.getLast?_cons, h.clock]
  found := by
    obtain ⟨url, version, hfound⟩ := h.found
    exact ⟨url, version, by simp [call, hfound]⟩
  needed := h.needed
  own := by simpa [call] using h.own
  earlier := by simpa [call] using h.earlier
  commands := by simpa [call] using h.commands
  kept := h.kept
  rotationState := h.rotationState
  xorKeyPending := h.xorKeyPending
  row := h.row

theorem Outcome.report {result : Int × Node} (h : Outcome sqlMayFail c now result w)
    {what : Report} (call : what.isCall = false) :
    Outcome sqlMayFail c now result (w.after (.report what) ()) := by
  cases h with
  | skipped ready unneeded table commands callCommands callTrace =>
    refine .skipped ready unneeded table commands (by simpa [call] using callCommands) ?_
    rw [World.callTrace_after (q := .report what) _ _ call]
    exact callTrace.trans (List.suffix_cons _ _)
  | applied completed => exact .applied (completed.report call)
  | failed nonzero key others own earlier stored linked status =>
    exact .failed nonzero key others (by simpa [call] using own)
      (by simpa [call] using earlier) stored
      linked status

theorem safe_returned {err : Int} {Q : Int × Node → World → Prop}
    (outcome : Outcome sqlMayFail c now (err, n) w)
    (post : ∀ w', Outcome sqlMayFail c now (err, n) w' → Q (err, n) w') :
    (sem sqlMayFail).Safe (Issued sqlMayFail c)
      (do report (.returned n err); pure (err, n)) w Q := by
  simp only [safe_bind, safe_report, safe_pure]
  exact ⟨.returned outcome, post _ (outcome.report rfl)⟩

theorem safe_finishReconcile {flow : Flow} (finishing : Finishing c now flow w) :
    (sem sqlMayFail).Safe (Issued sqlMayFail c) (finishReconcile flow) w
      (Outcome sqlMayFail c now) := by
  cases flow with
  | next l => exact safe_returned (.applied finishing) fun _ outcome => outcome
  | skip l =>
    obtain ⟨ready, unneeded⟩ := finishing
    simp only [finishReconcile]
    rw [safe_bind, safe_report]
    refine ⟨.skipped ready unneeded, ?_⟩
    have outcome : Outcome sqlMayFail c now (0, l.node) w :=
      .skipped ready unneeded rfl rfl rfl (List.suffix_refl _)
    exact safe_returned (outcome.report rfl) fun _ outcome => outcome
  | fail l err =>
    obtain ⟨nonzero, found, during⟩ := finishing
    simp only [finishReconcile]
    rw [safe_bind]
    refine safe_markRuntime during (by decide) (fun w' during' _ marked => ?_)
      fun w' may during' => ?_
    · obtain ⟨r, hr, hlinked, -, -, hstatus⟩ := marked
      exact safe_returned (.failed nonzero during'.key_eq during'.others during'.own
        during'.earlier hr hlinked (.inl hstatus)) fun _ outcome => outcome
    · obtain ⟨r, hr, hlinked, -⟩ := during'.row
      exact safe_returned (.failed nonzero during'.key_eq during'.others during'.own
        during'.earlier hr hlinked (.inr may)) fun _ outcome => outcome

theorem During.entry (entry : w.table = c.table) (earlier : w.commands = c.commands) (now : Int) :
    During c now c.node .empty
      ((w.after (.report (.called c.node c.force)) ()).after .time now) := by
  refine ⟨fun k _ => ?_, ⟨c.row, ?_, c.linked, .refl _⟩,
    by simp, by simp, by simp, by simp [earlier],
    rfl, .inl ⟨rfl, id⟩, .inl rfl⟩
  · simp [entry]
  · simp only [World.table_after_time, World.table_after_report, entry]
    exact c.stored

/-- A call of `tumgrd_reconcile_one` from its entry to its return. -/
theorem safe_reconcileOne (entry : w.table = c.table) (earlier : w.commands = c.commands) :
    (sem sqlMayFail).Safe (Issued sqlMayFail c) (reconcileOne c.cfg c.node c.force) w
      fun result w' => ∃ now, Outcome sqlMayFail c now result w' := by
  simp only [reconcileOne, safe_bind, safe_report, safe_time]
  refine ⟨.called entry, .quiet rfl, fun now => ?_⟩
  have during := During.entry entry earlier now
  have finish : ∀ flow v, Finishing c now flow v → (sem sqlMayFail).Safe (Issued sqlMayFail c)
      (finishReconcile flow) v fun result v' => ∃ now, Outcome sqlMayFail c now result v' :=
    fun flow v finishing =>
      (safe_finishReconcile finishing).post fun result v' outcome => ⟨now, outcome⟩
  rw [safe_andThen]
  refine (safe_decideApply during (by simp [entry]) (by simp)).post fun flow v settled => ?_
  cases flow with
  | next l => exact (safe_applyNode settled.1 settled.2).post finish
  | skip l => exact finish _ v settled
  | fail l err => exact finish _ v settled

/-- Every finished call for a stored row has an outcome. -/
theorem outcome_of_runs {cfg : Config} {force : Bool} {load : Int} {r : Row} {w' : World}
    {result : Int × Node} (stored : w.table.find? r.key = some r)
    (runs : (sem sqlMayFail).Runs (reconcileOne cfg (r.toNode load) force) w (.done result) w') :
    ∃ now, Outcome sqlMayFail (r.call cfg force load w stored) now result w' :=
  (safe_reconcileOne (c := r.call cfg force load w stored) rfl rfl).runs runs

theorem Issued.bootingAfter {q : Req} (h : Issued sqlMayFail c w q) (booting : Bool) :
    World.bootingAfter booting q = booting := by
  cases h with
  | quiet quiet =>
    cases q with
    | report what => contradiction
    | _ => rfl
  | _ => rfl

/-- The same, with what a call leaves alone. -/
theorem safe_call (entry : w.table = c.table) (earlier : w.commands = c.commands) :
    (sem sqlMayFail).Safe (fun v q => Issued sqlMayFail c v q ∧ w.trace <:+ v.trace)
      (reconcileOne c.cfg c.node c.force) w fun result v =>
        (∃ now, Outcome sqlMayFail c now result v) ∧ w.trace <:+ v.trace ∧
          v.booting = w.booting := by
  refine ((safe_reconcileOne entry earlier).invariant
    (I := fun v => w.trace <:+ v.trace ∧ v.booting = w.booting)
    ⟨List.suffix_refl _, rfl⟩ ?_).mono
      (fun v q h => ⟨h.1, h.2.1⟩) fun result v h => h
  intro v q r ⟨htrace, hbooting⟩ issued _
  exact ⟨htrace.trans (List.suffix_cons _ _), (issued.bootingAfter v.booting).trans hbooting⟩

/-- The oldest event of a call that returned 0 is its reading of the clock. -/
theorem Outcome.clock {result : Int × Node} (h : Outcome sqlMayFail c now result w)
    (succeeded : result.1 = 0) : w.callTrace.getLast? = some ⟨.time, now⟩ := by
  cases h with
  | skipped ready _ _ _ _ callTrace =>
    obtain ⟨new, hnew⟩ := callTrace
    rw [← hnew, List.getLast?_append, ready.during.clock]
    rfl
  | applied completed => exact completed.clock
  | failed nonzero => contradiction

theorem Outcome.others {result : Int × Node} (h : Outcome sqlMayFail c now result w) :
    ∀ k, k ≠ c.key → w.table.find? k = c.table.find? k := by
  cases h with
  | skipped ready _ table =>
    rw [table]
    exact ready.during.others
  | applied completed => exact completed.others
  | failed _ _ others => exact others

end Whole

end Tumgrd
