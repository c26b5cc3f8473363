import Tumgrd.Conduct

/-! The rotation columns of a consistent row agree: no rotation and no pending
key, or a pending key that is also the present one. -/
namespace Tumgrd

open Effect Semantics

def Row.Consistent (r : Row) : Prop :=
  r.rotationState = rotationNone ∧ columnText r.xorKeyPending = .empty ∨
    (r.rotationState = rotationPendingRemote ∨
      r.rotationState = rotationPendingLocalRecovery) ∧
      columnText r.xorKeyPending ≠ .empty ∧ columnText r.xorKeyPending = columnText r.xorKey

def Consistent (t : Table) : Prop := ∀ k r, t.find? k = some r → r.Consistent

variable {t : Table} {k : Key} {n : Node} {r : Row} {sqlMayFail : Prop} {c : Call} {w : World}

theorem Consistent.empty : Consistent Keyed.empty := by
  intro k r h
  simp at h

theorem Row.Consistent.pending_of_resting (h : r.Consistent)
    (resting : r.rotationState = rotationNone) : columnText r.xorKeyPending = .empty := by
  rcases h with ⟨-, pending⟩ | ⟨rotating | rotating, -⟩
  · exact pending
  · simp [resting] at rotating
  · simp [resting] at rotating

theorem Row.Consistent.pending_eq (h : r.Consistent) (rotating : r.rotationState ≠ rotationNone) :
    columnText r.xorKeyPending = columnText r.xorKey := by
  rcases h with ⟨resting, -⟩ | ⟨-, -, same⟩
  · exact absurd resting rotating
  · exact same

/-- The repair blocks have nothing to do for a node read from a consistent row. -/
theorem Row.Consistent.healthy (h : r.Consistent) {faithful : Bool} (linked : Linked faithful n r) :
    n.damaged = false := by
  have resting : n.rotationState = rotationNone → n.damaged = false := by
    intro resting
    simp [Node.damaged, Node.stateInvalid, Node.keyMismatch, resting]
  cases linked with
  | stale hn hr => exact resting hn
  | faithful mirrors =>
    rcases h with ⟨state, -⟩ | ⟨state, pending, same⟩
    · exact resting (mirrors.rotationState ▸ state)
    · have valid : n.stateInvalid = false := by
        rw [mirrors.rotationState] at state
        rcases state with state | state <;> simp [Node.stateInvalid, state]
      have hpending : n.xorKeyPending.text ≠ [] := by
        rw [← mirrors.xorKeyPending]
        exact fun h => pending (Buf.text_eq_nil_iff.mp h)
      have hsame : n.xorKey = n.xorKeyPending := by
        rw [← mirrors.xorKey, ← mirrors.xorKeyPending, same]
      have matching : n.keyMismatch = false := by simp [Node.keyMismatch, hpending, hsame]
      simp [Node.damaged, valid, matching]

section Statements

variable {set : Assign} {guard : Guard}

theorem Consistent.update (h : Consistent t)
    (row : ∀ r, t.find? k = some r → guard.holds r.rotationState = true →
      (r.assign set).Consistent) :
    Consistent ((Stmt.update k set guard).effect t) := by
  intro k' r' hr'
  by_cases hk : k' = k
  · subst hk
    cases hr : t.find? k' with
    | none =>
      simp [Stmt.effect, hr] at hr'
    | some r =>
      rw [find?_update hr, Option.some.injEq] at hr'
      rw [← hr']
      unfold Row.update
      split
      · exact row r hr ‹_›
      · exact h k' r hr
  · rw [find?_update_of_ne hk] at hr'
    exact h k' r' hr'

theorem Row.Consistent.runtime (h : r.Consistent) {ip : Buf 64} {status : Buf 32} {now : Int} :
    (r.assign (setRuntime ip status now)).Consistent := h

theorem Row.Consistent.applied (h : r.Consistent) {now : Int} :
    (r.assign (setApplied now)).Consistent := h

theorem Row.Consistent.rotation {key : HexKey} {now : Int} :
    (r.assign (setRotation key.buf rotationPendingRemote now)).Consistent :=
  .inr ⟨.inl rfl, key.buf_ne_empty, rfl⟩

theorem Row.Consistent.completed {now : Int} : (r.assign (setCompleted now)).Consistent :=
  .inl ⟨rfl, rfl⟩

theorem Row.Consistent.promoted (h : r.Consistent)
    (pending : Guard.pending.holds r.rotationState = true) :
    (r.assign (setRotationState rotationPendingLocalRecovery)).Consistent := by
  rcases h with ⟨state, -⟩ | ⟨-, keys⟩
  · simp [Guard.holds, state] at pending
  · exact .inr ⟨.inr rfl, keys⟩

theorem Consistent.erase (h : Consistent t) : Consistent (t.erase k) := by
  intro k' r hr
  by_cases hk : k' = k
  · subst hk
    simp at hr
  · rw [Keyed.find?_erase_of_ne hk] at hr
    exact h k' r hr

/-- The upsert of a node without a rotation, or of one read from its row. -/
theorem Consistent.upsert (h : Consistent t) {setLifetime : Bool}
    (node : n.rotationState = rotationNone ∧ n.xorKeyPending = .empty ∨
      ∃ r, t.find? n.key = some r) : Consistent ((Stmt.upsert n setLifetime).effect t) := by
  simp only [Stmt.effect]
  cases hput : t.put? Row.merge Row.key_merge Row.slot_merge (Row.ofNode n setLifetime) with
  | none => exact h
  | some t' =>
    intro k r hr
    rw [Option.getD_some] at hr
    by_cases hk : k = (Row.ofNode n setLifetime).key
    · rw [hk, Keyed.find?_put_self hput, Option.some.injEq] at hr
      cases hold : t.find? (Row.ofNode n setLifetime).key with
      | none =>
        rw [hold] at hr
        rcases node with ⟨state, pending⟩ | ⟨r', hr'⟩
        · rw [← hr]
          exact .inl ⟨state, by simp [Row.ofNode, pending]⟩
        · rw [Row.key_ofNode, hr'] at hold
          contradiction
      | some old =>
        rw [hold] at hr
        rw [← hr]
        rcases h _ _ hold with ⟨state, pending⟩ | ⟨state, pending, same⟩
        · exact .inl ⟨state, pending⟩
        · refine .inr ⟨state, pending, ?_⟩
          have rotating : old.rotationState ≠ rotationNone := by
            rcases state with state | state <;> simp [state]
          simp only [Option.elim_some, Row.merge, if_pos rotating]
          exact same
    · rw [Keyed.find?_put_of_ne hput hk] at hr
      exact h k r hr

end Statements

/-- No statement of a call on a healthy node breaks the rotation columns of a row. -/
theorem Issued.consistent {q : Req} {r : Resp q} (h : Issued sqlMayFail c w q)
    (healthy : c.node.damaged = false) (consistent : Consistent w.table) :
    Consistent (w.after q r).table := by
  have keep : ∀ {set guard} {reply : SqlReply}, (∀ r : Row, r.Consistent →
      guard.holds r.rotationState = true → (r.assign set).Consistent) →
      Consistent (w.after (.sql (.update c.key set guard)) reply).table := by
    intro set guard reply preserve
    cases reply with
    | error => exact consistent
    | ok rows changes =>
      exact consistent.update fun r hr holds => preserve r (consistent _ r hr) holds
  have damage : c.node.damaged = true → Consistent (w.after q r).table := by
    intro damaged
    rw [healthy] at damaged
    contradiction
  cases h with
  | quiet quiet =>
    rw [(World.keeps_after quiet r).table]
    exact consistent
  | replace damaged => exact damage damaged
  | clear damaged => exact damage damaged
  | begin => exact keep fun _ _ _ => Row.Consistent.rotation
  | promote => exact keep fun _ hr holds => hr.promoted holds
  | runtime => exact keep fun _ hr _ => hr.runtime
  | complete => exact keep fun _ _ _ => Row.Consistent.completed
  | applied => exact keep fun _ hr _ => hr.applied
  | _ => exact consistent

/-- A call on a consistent table repairs nothing and keeps it consistent. -/
theorem safe_consistent_call (entry : w.table = c.table) (earlier : w.commands = c.commands)
    (consistent : Consistent w.table) :
    (sem sqlMayFail).Safe (fun v q => (Issued sqlMayFail c v q ∧ w.trace <:+ v.trace) ∧
        Consistent v.table)
      (reconcileOne c.cfg c.node c.force) w fun result v =>
        ((∃ now, Outcome sqlMayFail c now result v) ∧ w.trace <:+ v.trace ∧
          v.booting = w.booting) ∧ Consistent v.table := by
  have healthy : c.node.damaged = false :=
    (consistent c.key c.row (entry ▸ c.stored)).healthy c.linked
  refine (safe_call entry earlier).invariant consistent ?_
  exact fun v q r keep issued _ => issued.1.consistent healthy keep

end Tumgrd
