import Tumgrd.Daemon

/-! Invariants of single rows: what every statement of the daemon preserves of a
row, and every registration gives it, holds of all rows in all runs. -/
namespace Tumgrd

open Effect Service

variable {sqlMayFail : Prop} {admits : World → Task → Prop} {t : Task} {w₀ w : World}

/-- The row that is stored for `n`: a new one, or the one at its key with the
columns of `n`. -/
def Table.written (t : Table) (n : Node) (setLifetime : Bool) : Row :=
  (t.find? n.key).elim (Row.ofNode n setLifetime) fun old => old.merge (Row.ofNode n setLifetime)

theorem Table.written_of_absent {t : Table} {n : Node} {createdAt lastUpdated : Int} {s : Bool}
    (h : t.find? n.key = none) : t.written (n.withDefaults createdAt lastUpdated) s =
      Row.ofNode (n.withDefaults createdAt lastUpdated) s := by
  exact congrArg (Option.elim · _ _) h

theorem Table.written_of_found {t : Table} {n : Node} {r : Row} {createdAt lastUpdated : Int}
    {s : Bool} (h : t.find? n.key = some r) : t.written (n.withDefaults createdAt lastUpdated) s =
      r.merge (Row.ofNode (n.withDefaults createdAt lastUpdated) s) := by
  exact congrArg (Option.elim · _ _) h

theorem find?_upsert {t : Table} {k : Key} {n : Node} {s : Bool} {r : Row}
    (after : ((Stmt.upsert n s).effect t).find? k = some r) :
    t.find? k = some r ∨ r = t.written n s := by
  simp only [Stmt.effect] at after
  cases hput : t.put? Row.merge Row.key_merge Row.slot_merge (Row.ofNode n s) with
  | none =>
    rw [hput, Option.getD_none] at after
    exact .inl after
  | some t' =>
    rw [hput, Option.getD_some] at after
    by_cases hk : k = (Row.ofNode n s).key
    · subst hk
      rw [Keyed.find?_put_self hput, Option.some.injEq] at after
      exact .inr after.symm
    · rw [Keyed.find?_put_of_ne hput hk] at after
      exact .inl after

theorem find?_update_cases {t : Table} {k k' : Key} {set : Assign} {guard : Guard} {r : Row}
    (after : ((Stmt.update k' set guard).effect t).find? k = some r) :
    t.find? k = some r ∨ k = k' ∧ ∃ old, t.find? k' = some old ∧
      guard.holds old.rotationState = true ∧ r = old.assign set := by
  by_cases hk : k = k'
  · subst hk
    cases before : t.find? k with
    | none => simp [Stmt.effect, before] at after
    | some old =>
      rw [find?_update before, Option.some.injEq] at after
      subst after
      unfold Row.update
      split
      · exact .inr ⟨rfl, old, rfl, ‹_›, rfl⟩
      · exact .inl rfl
  · rw [find?_update_of_ne hk] at after
    exact .inl after

/-- The `UPDATE`s of a call on a healthy node. -/
inductive Updates (sqlMayFail : Prop) (c : Call) (w : World) : Assign → Guard → Prop
  | begin {key : HexKey} {now : Int} : c.node.overdue now →
      Updates sqlMayFail c w (setRotation key.buf rotationPendingRemote now) .zero
  | promote : Updates sqlMayFail c w (setRotationState rotationPendingLocalRecovery) .pending
  | runtime {ip : Buf 64} {status : Buf 32} {now : Int} : status.text ≠ [] →
      Updates sqlMayFail c w (setRuntime ip status now) .any
  | complete {now : Int} :
      Updates sqlMayFail c w (setCompleted (if now ≥ minSaneTime then now else 0)) .nonzero
  | applied {now : Int} {l : Locals} :
    Applying c now l w → l.node.rotationState = rotationNone →
      l.expired = true → Updates sqlMayFail c w (setApplied now) .any

/-- The statements that write to the table, with the row each of them is for. -/
inductive Writes (sqlMayFail : Prop) (t : Task) (w₀ w : World) : Stmt → Prop
  | update {c : Call} {set : Assign} {guard : Guard} : Entered t w₀ w c →
      c.node.damaged = false → Updates sqlMayFail c w set guard →
      Writes sqlMayFail t w₀ w (.update c.key set guard)
  | upsert {args : RegisterArgs} {reg : Registration} {n : Node} {s : Bool}
      {createdAt lastUpdated : Int} : t.op = .register args → args.check = some reg →
      w₀.Keeps w → Registers t.cfg args reg w₀ w n s →
      Writes sqlMayFail t w₀ w (.upsert (n.withDefaults createdAt lastUpdated) s)
  | delete (k : Key) : Writes sqlMayFail t w₀ w (.delete k)

/-- What a task may issue is no statement that writes, or one of these. -/
theorem Permits.writes {s : Stmt} (h : Permits sqlMayFail t w₀ w (.sql s)) :
    Writes sqlMayFail t w₀ w s ∨ Req.quiet (.sql s) = true := by
  cases h with
  | quiet quiet => exact .inr quiet
  | upsert op check keeps registers => exact .inl (.upsert op check keeps registers)
  | delete => exact .inl (.delete _)
  | call entered healthy issued =>
    cases issued with
    | quiet quiet => exact .inr quiet
    | replace damaged => simp [healthy] at damaged
    | clear damaged => simp [healthy] at damaged
    | begin _ _ due => exact .inl (.update entered healthy (.begin due))
    | promote => exact .inl (.update entered healthy .promote)
    | runtime named => exact .inl (.update entered healthy (.runtime named))
    | complete => exact .inl (.update entered healthy .complete)
    | applied applying resting expired =>
      exact .inl (.update entered healthy (.applied applying resting expired))

/-- A property of rows that every statement preserves. -/
structure RowInvariant (sqlMayFail : Prop) (I : Row → Prop) : Prop where
  update : ∀ t w₀ w c set guard old, Entered t w₀ w c → c.node.damaged = false →
    Updates sqlMayFail c w set guard → w.table.find? c.key = some old → I old →
      I (old.assign set)
  upsert : ∀ (t : Task) w₀ w args reg n s createdAt lastUpdated, t.op = .register args →
    args.check = some reg → w₀.Keeps w → Registers t.cfg args reg w₀ w n s →
    (∀ r ∈ w.table.rows, I r) → I (w.table.written (n.withDefaults createdAt lastUpdated) s)

theorem RowInvariant.permits {I : Row → Prop} (inv : RowInvariant sqlMayFail I) {q : Req}
    {reply : Resp q} (h : Permits sqlMayFail t w₀ w q) (rows : ∀ r ∈ w.table.rows, I r) :
    ∀ r ∈ (w.after q reply).table.rows, I r := by
  have same : (w.after q reply).table = w.table →
      ∀ r ∈ (w.after q reply).table.rows, I r := by
    intro table
    rw [table]
    exact rows
  cases q with
  | sql s =>
    cases reply with
    | error => exact same rfl
    | ok replied changes =>
      rcases h.writes with writes | quiet
      · intro r' hr'
        rw [World.table_after_ok] at hr'
        cases writes with
        | update entered healthy updates =>
          rcases find?_update_cases (Keyed.mem_rows.mp hr') with kept | ⟨-, old, stored, -, rfl⟩
          · exact rows r' (Keyed.mem_rows.mpr kept)
          · have hold := (Keyed.find?_eq_some.mp stored).1
            exact inv.update _ _ _ _ _ _ _ entered healthy updates stored (rows old hold)
        | upsert op check keeps registers =>
          rcases find?_upsert (Keyed.mem_rows.mp hr') with kept | rfl
          · exact rows r' (Keyed.mem_rows.mpr kept)
          · exact inv.upsert _ _ _ _ _ _ _ _ _ op check keeps registers rows
        | delete k =>
          simp only [Stmt.effect, Keyed.mem_erase] at hr'
          exact rows r' hr'.1
      · exact same (World.keeps_after quiet _).table
  | _ => exact same rfl

/-- It holds of all rows in all runs from an empty table. -/
theorem RowInvariant.contract {I : Row → Prop} (inv : RowInvariant True I)
    (admits : World → Task → Prop) :
    (daemon (sem True) admits).Contract World.Fresh
      (fun w => Consistent w.table ∧ ∀ r ∈ w.table.rows, I r) (fun _ => True) (Permits True)
      fun _ _ _ => True where
  start := fun w fresh => ⟨⟨fresh.consistent, by simp [fresh.1, Keyed.empty]⟩, trivial⟩
  task := fun _ _ _ keep _ => safe_task keep.1
  call := fun _ _ _ _ _ _ _ _ keep permits _ =>
    ⟨permits.consistent keep.1, inv.permits permits keep.2⟩
  finish := fun _ _ _ _ _ _ keep _ => ⟨keep, trivial⟩
  crash := fun _ keep => ⟨keep, trivial⟩

end Tumgrd
