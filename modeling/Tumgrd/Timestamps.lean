import Tumgrd.Rows
import Tumgrd.Scenario

/-! The times stored as `last_applied_at`: zero, or a reading of a clock that
had been set. -/
namespace Tumgrd

open Effect Service

variable {sqlMayFail : Prop} {admits : World → Task → Prop} {c : Call} {w : World}

def Believable (t : Int) : Prop := t = 0 ∨ minSaneTime ≤ t

theorem trusted_of_reading (now : Int) : Believable (if now ≥ minSaneTime then now else 0) := by
  split
  · exact .inr ‹_›
  · exact .inl rfl

theorem Decided.sane {now : Int} {m : Node} {force expired : Bool} {t : Table}
    (h : Decided c now m force expired t) (resting : m.rotationState = rotationNone)
    (due : expired = true) : minSaneTime ≤ now := by
  cases h with
  | unexpired => contradiction
  | resumed _ rotating => exact absurd resting rotating
  | seeded _ _ seeds => exact seeds.1
  | unkeyed _ _ overdue _ => exact overdue.1
  | begun key t => simp [Node.rotateTo] at resting
  | replaced key t => simp [Node.rotateTo] at resting
  | cleared _ _ _ _ cause =>
    rcases cause.mp due with seeds | overdue
    · exact seeds.1
    · exact overdue.1

/-- Where the `expired` flag is all that is left to record, the flag was raised
behind the test of the clock: a resumed rotation has ended in the branch before. -/
theorem Applying.sane {now : Int} {l : Locals} (h : Applying c now l w)
    (resting : l.node.rotationState = rotationNone) (expired : l.expired = true) :
    minSaneTime ≤ now := by
  obtain ⟨m, t, decided, ⟨same, -⟩ | ⟨-, promoted⟩⟩ := h.origin
  · exact decided.sane (same ▸ resting) expired
  · simp [promoted] at resting

section Statements

variable {set : Assign} {guard : Guard}

theorem Updates.trusted (h : Updates sqlMayFail c w set guard) {t : Int}
    (writes : set.lastAppliedAt = some t) : Believable t := by
  cases h with
  | complete =>
    cases writes
    exact trusted_of_reading _
  | applied applying resting expired =>
    cases writes
    exact .inr (applying.sane resting expired)
  | _ => contradiction

theorem Updates.sane {now : Int} (h : Updates sqlMayFail c w (setApplied now) guard) :
    minSaneTime ≤ now := by
  generalize hset : setApplied now = set at h
  cases h with
  | applied applying resting expired =>
    cases hset
    exact applying.sane resting expired
  | _ => simp [setApplied, setRotation, setRotationState, setRuntime, setCompleted] at hset

theorem Row.trusted_assign {r : Row} (h : Believable r.lastAppliedAt)
    (writes : ∀ t, set.lastAppliedAt = some t → Believable t) :
    Believable (r.assign set).lastAppliedAt := by
  unfold Row.assign
  cases hset : set.lastAppliedAt with
  | none => exact h
  | some t => exact writes t hset

/-- A registration that finds no row at the key of its node starts the timer by
the clock, or not at all. -/
theorem Registers.trusted {cfg : Config} {args : RegisterArgs} {reg : Registration} {w₀ : World}
    {n : Node} {s : Bool} (h : Registers cfg args reg w₀ w n s) (check : args.check = some reg)
    (absent : w₀.table.find? n.key = none) : Believable n.lastAppliedAt := by
  cases h with
  | updated found loaded finish =>
    rw [key_of_updated check found loaded finish, found] at absent
    contradiction
  | created _ _ _ _ finish drafts =>
    rw [(finished_of_finish finish).lastAppliedAt]
    cases drafts <;> exact trusted_of_reading _

theorem trusted_rows : RowInvariant sqlMayFail fun r => Believable r.lastAppliedAt where
  update := fun _ _ _ _ _ _ _ _ _ updates _ trusted =>
    Row.trusted_assign trusted fun _ => updates.trusted
  upsert := by
    intro t w₀ w args reg n s createdAt lastUpdated _ check keeps registers rows
    unfold Table.written
    cases stored : w.table.find? (n.withDefaults createdAt lastUpdated).key with
    | none => exact registers.trusted check (keeps.table ▸ stored)
    | some old => exact rows old (Keyed.find?_eq_some.mp stored).1

end Statements

/-- In every run from an empty table every stored `last_applied_at` is zero or
late enough to be believed, and so is every value a statement writes into it;
`tumgrd_db_update_applied` is called behind a clock reading that is. -/
theorem timestamps_trusted {s : State Req Resp World Task}
    (reach : (daemon (sem True) admits).Reachable World.Fresh s) :
    (∀ r ∈ s.world.table.rows, Believable r.lastAppliedAt) ∧
      ∀ t w₀ w stmt rest, s = .busy t w₀ w (.call (.sql stmt) rest) →
        (∀ k set guard, stmt = .update k set guard →
          ∀ t, set.lastAppliedAt = some t → Believable t) ∧
        (∀ k now guard, stmt = .update k (setApplied now) guard → minSaneTime ≤ now) ∧
        ∀ n setLifetime, stmt = .upsert n setLifetime → w.table.find? n.key = none →
          Believable n.lastAppliedAt := by
  have contract := trusted_rows.contract admits
  refine ⟨(contract.invariant reach).2, ?_⟩
  rintro t w₀ w stmt rest rfl
  have writes := (contract.permitted reach).writes
  refine ⟨?_, ?_, ?_⟩
  · rintro k set guard rfl applied hset
    rcases writes with writes | quiet
    · cases writes with
      | update _ _ updates => exact updates.trusted hset
    · contradiction
  · rintro k now guard rfl
    rcases writes with writes | quiet
    · cases writes with
      | update _ _ updates => exact updates.sane
    · contradiction
  · rintro n setLifetime rfl absent
    rcases writes with writes | quiet
    · cases writes with
      | upsert _ check keeps registers => exact registers.trusted check (keeps.table ▸ absent)
    · contradiction

theorem timestamps_trusted_expiry :
    (∀ r ∈ (sampleExpiry 21).2.table.rows, Believable r.lastAppliedAt) ∧
        Believable 1700003600 := by
  obtain ⟨⟨rest, next⟩, -⟩ := sampleExpiry_completes
  have reach : (daemon (sem True) fun _ _ => True).Reachable World.Fresh _ :=
    reachable_sampleExpiry True (fun _ _ => trivial) 21
  rw [next] at reach
  have ⟨rows, calls⟩ := timestamps_trusted reach
  obtain ⟨updates, -⟩ := calls _ _ _ _ _ rfl
  exact ⟨rows, updates _ _ _ rfl _ rfl⟩

end Tumgrd
