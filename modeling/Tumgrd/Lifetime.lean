import Tumgrd.Recovery
import Tumgrd.Rotation

/-! How old a key can get: what a call that returned 0 leaves in the row's
`last_applied_at`, and what may change that column. -/
namespace Tumgrd

open Effect Semantics Service

/-- The lifetime as `row_to_node` reads it. -/
def Row.span (r : Row) : Int := clampLifetime (r.lifetime.getD 0)

section Clock

variable {load now t : Int} {n : Node}

theorem clampAppliedAt_eq (load t : Int) :
    t < 0 ∧ clampAppliedAt load t = 0 ∨
      0 ≤ t ∧ load + 86400 < t ∧ clampAppliedAt load t = 1 ∨
      0 ≤ t ∧ t ≤ load + 86400 ∧ clampAppliedAt load t = t := by
  unfold clampAppliedAt
  split
  · exact .inl ⟨‹_›, rfl⟩
  split
  · exact .inr (.inl ⟨by omega, by omega, rfl⟩)
  · exact .inr (.inr ⟨by omega, by omega, rfl⟩)

/-- What seeds the timer had no time yet. -/
theorem le_zero_of_clamp (h : clampAppliedAt load t = 0) : t ≤ 0 := by
  rcases clampAppliedAt_eq load t with ⟨low, -⟩ | ⟨-, -, clamped⟩ | ⟨-, -, clamped⟩
  · omega
  · omega
  · omega

/-- A key that is overdue in memory is overdue in its row, or was read from a
row with a time far ahead. -/
theorem late_of_clamp (positive : 0 < t) {span : Int}
    (late : span ≤ now - clampAppliedAt load t) : span ≤ now - t ∨ load + 86400 < t := by
  rcases clampAppliedAt_eq load t with ⟨low, -⟩ | ⟨-, ahead, -⟩ | ⟨-, -, clamped⟩
  · omega
  · exact .inr ahead
  · rw [clamped] at late
    exact .inl late

/-- A key that is neither to be seeded nor overdue in memory is young in its row. -/
theorem young_of_clamp (load_sane : -86400 ≤ load) {span : Int}
    (seeded : clampAppliedAt load t ≠ 0) (young : now - clampAppliedAt load t < span) :
    now - t < span := by
  rcases clampAppliedAt_eq load t with
    ⟨-, clamped⟩ | ⟨-, ahead, clamped⟩ | ⟨-, -, clamped⟩
  · exact absurd clamped seeded
  · rw [clamped] at young
    omega
  · rw [clamped] at young
    exact young

theorem young_of_unexpired (sane : minSaneTime ≤ now) (limited : 0 < n.lifetime)
    (seeds : ¬n.seeds now) (overdue : ¬n.overdue now) :
    n.lastAppliedAt ≠ 0 ∧ now - n.lastAppliedAt < n.lifetime := by
  have seeded : n.lastAppliedAt ≠ 0 := fun zero => seeds ⟨sane, limited, zero⟩
  refine ⟨seeded, ?_⟩
  by_contra late
  exact overdue ⟨sane, limited, seeded, by omega⟩

end Clock

section Returns

variable {cfg : Config} {force : Bool} {load now : Int} {r : Row} {w w' : World}
  {result : Int × Node} {sqlMayFail : Prop}

/-- A call that returned 0 leaves a time within the lifetime. -/
theorem Outcome.young {stored : w.table.find? r.key = some r}
    (h : Outcome sqlMayFail (r.call cfg force load w stored) now result w')
    (succeeded : result.1 = 0) (consistent : r.Consistent) (load_sane : -86400 ≤ load)
    (limited : 0 < r.span) (sane : minSaneTime ≤ now) :
    ∃ r', w'.table.find? r.key = some r' ∧ now - r'.lastAppliedAt < r.span := by
  have healthy : (r.toNode load).damaged = false :=
    consistent.healthy (.faithful ⟨rfl, rfl, rfl⟩)
  have kept : ∀ t, ¬(r.toNode load).seeds now → ¬(r.toNode load).overdue now →
      t = r.lastAppliedAt → now - t < r.span := by
    rintro t seeds overdue rfl
    obtain ⟨seeded, young⟩ := young_of_unexpired (n := r.toNode load) sane limited seeds overdue
    exact young_of_clamp load_sane seeded young
  cases h with
  | skipped ready unneeded table =>
    have decided := ready.decided
    rw [needApply, Bool.or_eq_false_iff, Bool.or_eq_false_iff] at unneeded
    rw [decided.unexpired_of_unforced unneeded.1.1] at decided
    obtain ⟨-, -, same, -, seeds, overdue⟩ := decided.of_unexpired healthy
    rw [table, same]
    exact ⟨r, stored, kept _ seeds overdue rfl⟩
  | @applied l _ completed =>
    obtain ⟨r', hr', -, -, -, -, unexpired, expired⟩ := completed.row
    refine ⟨r', hr', ?_⟩
    obtain ⟨m, t, decided, -⟩ := completed.origin
    cases h : l.expired with
    | false =>
      rw [h] at decided
      obtain ⟨-, -, -, -, seeds, overdue⟩ := decided.of_unexpired healthy
      exact kept _ seeds overdue (unexpired h)
    | true =>
      rw [expired h sane]
      omega
  | failed nonzero => contradiction

end Returns

section Renewals

variable {t : Task} {w₀ w : World} {c : Call} {now : Int} {l : Locals} {n : Node} {k : Key}
  {r r' : Row}

/-- A register that stores no new node. -/
def Task.Updates (w₀ : World) (t : Task) : Prop :=
  ∀ args reg, t.op = .register args → args.check = some reg →
    w₀.table.find? reg.key ≠ none

/-- At `now` the key of the row is too old, or its time lies too far ahead of the
clock reading at which the row was loaded as `n`, since the task began in `w₀`. -/
def Row.Lapsed (w₀ w : World) (now : Int) (n : Node) (r : Row) : Prop :=
  0 < r.span ∧ 0 < r.lastAppliedAt ∧ (r.span ≤ now - r.lastAppliedAt ∨
    ∃ load recent, w.trace = recent ++ w₀.trace ∧ ⟨.time, load⟩ ∈ recent ∧
      n.lastAppliedAt = clampAppliedAt load r.lastAppliedAt ∧ load + 86400 < r.lastAppliedAt)

/-- Why `last_applied_at` may change during the call for `n`, from `r` to `r'`. -/
inductive Renewed (cfg : Config) (w₀ w : World) (now : Int) (n : Node) (r r' : Row) : Prop
  | seeded : r.lastAppliedAt ≤ 0 → Renewed cfg w₀ w now n r r'
  | unkeyed : r.Lapsed w₀ w now n → n.rotates cfg = false → Renewed cfg w₀ w now n r r'
  | replaced (key : HexKey) : r.Lapsed w₀ w now n → r.rotationState ≠ rotationNone →
      r'.rotationState = rotationNone → n.rotationState = rotationNone →
      ⟨.randomKey, some key⟩ ∈ w.callTrace → columnText r'.xorKey = key.buf →
      Renewed cfg w₀ w now n r r'
  | resumed : r.rotationState ≠ rotationNone → r'.rotationState = rotationNone →
      n.rotationState ≠ rotationNone → Renewed cfg w₀ w now n r r'

theorem Entered.timed (h : Entered t w₀ w c) (updates : t.Updates w₀) :
    Timed w₀ w c.node c.row := by
  cases h with
  | loaded _ _ loaded => exact loaded.timed
  | updated _ _ _ _ _ _ _ timed => exact timed
  | created op check _ _ _ absent => exact absurd absent (updates _ _ op check)

theorem Entered.cfg (h : Entered t w₀ w c) : c.cfg = t.cfg := by
  cases h with
  | loaded cfg => exact cfg
  | updated _ _ cfg => exact cfg
  | created _ _ cfg => exact cfg

theorem Timed.lapsed (h : Timed w₀ w n r) (overdue : n.overdue now) :
    r.lastAppliedAt ≤ 0 ∨ r.Lapsed w₀ w now n := by
  obtain ⟨load, applied, lifetime, reading⟩ := h
  obtain ⟨-, limited, -, late⟩ := overdue
  rw [lifetime] at limited late
  rw [applied] at late
  by_cases positive : 0 < r.lastAppliedAt
  · refine .inr ⟨limited, positive, ?_⟩
    rcases late_of_clamp positive late with late | ahead
    · exact .inl late
    · obtain ⟨recent, hrecent, hmem⟩ := reading.resolve_left (by omega)
      exact .inr ⟨load, recent, hrecent, hmem, applied, ahead⟩
  · exact .inl (by omega)

theorem Timed.seeded (h : Timed w₀ w n r) (seeds : n.seeds now) : r.lastAppliedAt ≤ 0 := by
  obtain ⟨load, applied, -⟩ := h
  exact le_zero_of_clamp (applied.symm.trans seeds.2.2)

/-- The row a call finds at its key still has the times it was entered with. -/
theorem Timed.follows (h : Timed w₀ w n r) (follows : r'.Follows r) : Timed w₀ w n r' := by
  rw [follows]
  exact h

theorem Applying.stored (h : Applying c now l w) (before : w.table.find? c.key = some r) :
    Linked c.faithful l.node r ∧ r.Follows c.row := by
  obtain ⟨s, hs, linked, follows⟩ := h.during.row
  cases before.symm.trans hs
  exact ⟨linked, follows⟩

/-- Without a rotation to complete, the call seeds the timer or has no keys to make. -/
theorem Applying.renews (h : Applying c now l w) (healthy : c.node.damaged = false)
    (resting : l.node.rotationState = rotationNone) (expired : l.expired = true) :
    c.node.seeds now ∨ c.node.overdue now ∧ c.node.rotates c.cfg = false := by
  obtain ⟨m, t, decided, ⟨hm, -⟩ | ⟨-, hm⟩⟩ := h.origin
  swap
  · simp [hm] at resting
  rw [hm] at resting
  generalize l.force = f at decided
  generalize l.expired = e at decided expired
  cases decided with
  | unexpired => contradiction
  | resumed _ rotating => exact absurd resting rotating
  | seeded _ _ seeds => exact .inl seeds
  | unkeyed _ _ overdue keyless => exact .inr ⟨overdue, keyless⟩
  | begun => simp [Node.rotateTo] at resting
  | replaced _ _ damaged => simp [healthy] at damaged
  | cleared _ _ damaged => simp [healthy] at damaged

/-- A rotation that this call began was due, and has a key of this call. -/
theorem Applying.begun (h : Applying c now l w) (healthy : c.node.damaged = false)
    (rotating : l.node.rotationState ≠ rotationNone)
    (rested : c.node.rotationState = rotationNone) :
    c.node.overdue now ∧
      ∃ key : HexKey, ⟨.randomKey, some key⟩ ∈ w.callTrace ∧ l.node.xorKey = key.buf := by
  refine ⟨?_, h.during.fresh.resolve_left fun kept => rotating (kept.2 rested)⟩
  obtain ⟨m, t, decided, origin⟩ := h.origin
  have rotating : m.rotationState ≠ rotationNone := by
    rcases origin with ⟨hm, -⟩ | ⟨pending, -⟩
    · exact hm ▸ rotating
    · simp [pending]
  generalize l.force = f at decided
  generalize l.expired = e at decided
  cases decided with
  | resumed _ rotating => exact absurd rested rotating
  | begun _ _ _ _ overdue => exact overdue
  | replaced _ _ damaged => simp [healthy] at damaged
  | cleared => exact absurd rfl rotating
  | _ => exact absurd rested rotating

/-- A statement that changes the time belongs to a call for the row. -/
theorem RowStep.renewed (h : RowStep t w₀ w k r r') (updates : t.Updates w₀)
    (before : w.table.find? k = some r) (changed : r'.lastAppliedAt ≠ r.lastAppliedAt) :
    ∃ n now, w.running = some n ∧ n.key = k ∧ w.callTrace.getLast? = some ⟨.time, now⟩ ∧
      Renewed t.cfg w₀ w now n r r' := by
  cases h with
  | @applied c now l entered key healthy applying resting expired =>
    subst key
    obtain ⟨-, follows⟩ := applying.stored before
    have timed := (entered.timed updates).follows follows
    refine ⟨c.node, now, applying.during.running, rfl, applying.during.clock, ?_⟩
    rcases applying.renews healthy resting expired with seeds | ⟨overdue, keyless⟩
    · exact .seeded (timed.seeded seeds)
    · rw [entered.cfg] at keyless
      exact (timed.lapsed overdue).elim .seeded fun lapsed => .unkeyed lapsed keyless
  | @completed c now l entered key healthy applying installed rotating =>
    subst key
    obtain ⟨linked, follows⟩ := applying.stored before
    have timed := (entered.timed updates).follows follows
    obtain ⟨-, mirrors⟩ := linked.isFaithful (.inl rotating)
    have rotates : r.rotationState ≠ rotationNone := mirrors.rotationState ▸ rotating
    refine ⟨c.node, now, applying.during.running, rfl, applying.during.clock, ?_⟩
    by_cases rested : c.node.rotationState = rotationNone
    · obtain ⟨overdue, key, drawn, fresh⟩ := applying.begun healthy rotating rested
      refine (timed.lapsed overdue).elim .seeded fun lapsed =>
        .replaced key lapsed rotates rfl rested drawn ?_
      rw [← fresh, ← mirrors.xorKey]
      rfl
    · exact .resumed rotates rfl rested
  | _ => exact absurd rfl changed

end Renewals

/-- The key lifetime bound. A call for a stored row with consistent rotation
columns, loaded at a clock reading that is not before 1969-12-31, leaves a time
within the lifetime when it returns 0. And in runs of calls and of registers
that update, with statements and tools that may fail, the time changes only
when it was not set, when the key was too old, or when a rotation completes. -/
theorem key_lifetime_bound :
    (∀ (cfg : Config) (r : Row) (load : Int) (force : Bool) (w w' : World) (n : Node),
      w.table.find? r.key = some r → r.Consistent → 0 < r.span → -86400 ≤ load →
      (sem True).Runs (reconcileOne cfg (r.toNode load) force) w (.done (0, n)) w' →
      ∃ now, w'.callTrace.getLast? = some ⟨.time, now⟩ ∧ (minSaneTime ≤ now →
        ∃ r', w'.table.find? r.key = some r' ∧ now - r'.lastAppliedAt < r.span)) ∧
    ∀ s s', (daemon (sem True) fun w t => t.Updates w).Reachable
        (fun w => Consistent w.table) s →
      (daemon (sem True) fun w t => t.Updates w).Step s s' → ∀ k r r',
      s.world.table.find? k = some r → s'.world.table.find? k = some r' →
      r'.lastAppliedAt ≠ r.lastAppliedAt →
      ∃ t w₀ w p n now, s = .busy t w₀ w p ∧ w.running = some n ∧ n.key = k ∧
        w.callTrace.getLast? = some ⟨.time, now⟩ ∧ Renewed t.cfg w₀ w now n r r' := by
  constructor
  · intro cfg r load force w w' n stored consistent limited load_sane runs
    obtain ⟨now, outcome⟩ := outcome_of_runs stored runs
    exact ⟨now, outcome.clock rfl, fun sane =>
      outcome.young rfl consistent load_sane limited sane⟩
  · intro s s' reach step k r r' before after changed
    have contract : (daemon (sem True) fun w t => t.Updates w).Contract _ _ _ (Permits True) _ :=
      daemon_contract _
    cases step with
    | @call t w₀ w q rest reply allowed =>
      have updates : t.Updates w₀ := (contract.reachable reach).1
      have moves := (contract.permitted reach).rowStep before after
      obtain ⟨n, now, running, key, clock, renewed⟩ := moves.renewed updates before changed
      exact ⟨t, w₀, w, _, n, now, rfl, running, key, clock, renewed⟩
    | _ =>
      cases before.symm.trans after
      contradiction

/-- A lifetime that `register` would have refused. -/
def sampleShort : Row := { sampleRow with lifetime := some 30 }

/-- A row without a time, in a lifetime as long as the epoch. -/
def sampleUnset : Row := { sampleRow with lifetime := some 1700000200, lastAppliedAt := 0 }

/-- A call on the first row, and one on the second that was loaded with the clock
before 1969-12-31, skip the node although its stored lifetime is over. -/
theorem lifetime_bound_fails :
    (sampleShort.Consistent ∧ sampleShort.lifetime = some 30 ∧
      (sem True).Runs (reconcileOne keyless (sampleShort.toNode 1700000200) false)
        (.ofRow sampleShort) (.done (0, sampleShort.toNode 1700000200))
        ((sample 1700000200).calling keyless sampleShort 1700000200 false).2 ∧
      ((sample 1700000200).calling keyless sampleShort 1700000200 false).2.table.find?
        sampleShort.key = some sampleShort ∧
      ¬(1700000200 - sampleShort.lastAppliedAt < 30)) ∧
    (sampleUnset.Consistent ∧ sampleUnset.lifetime = some 1700000200 ∧
      (sem True).Runs (reconcileOne keyless (sampleUnset.toNode (-86401)) false)
        (.ofRow sampleUnset) (.done (0, sampleUnset.toNode (-86401)))
        ((sample 1700000200).calling keyless sampleUnset (-86401) false).2 ∧
      ((sample 1700000200).calling keyless sampleUnset (-86401) false).2.table.find?
        sampleUnset.key = some sampleUnset ∧
      ¬(1700000200 - sampleUnset.lastAppliedAt < 1700000200)) := by
  refine ⟨⟨.inl ⟨rfl, rfl⟩, rfl, Scenario.calling_runs (by decide +kernel),
    by decide +kernel,
    by decide⟩, .inl ⟨rfl, rfl⟩, rfl, Scenario.calling_runs (by decide +kernel),
    by decide +kernel, by decide⟩

/-- A young key is left alone, and an hour later it is replaced. -/
theorem key_lifetime_bound_sample :
    (∃ now,
      ((sample 1700000200).calling keyless sampleRow 1700000200 false).2.callTrace.getLast? =
        some ⟨.time, now⟩ ∧
          (minSaneTime ≤ now → ∃ r', ((sample 1700000200).calling keyless
        sampleRow 1700000200 false).2.table.find? sampleRow.key = some r' ∧
        now - r'.lastAppliedAt < sampleRow.span)) ∧
    ∃ r r' n now, (sampleExpiry 21).2.table.find? sampleKey = some r ∧
      r.lastAppliedAt = 1700000000 ∧ (sampleExpiry 21).2.running = some n ∧
      Renewed (sampleTask .periodic).cfg sampleStored (sampleExpiry 21).2 now n r r' := by
  have runs : (sem True).Runs (reconcileOne keyless (sampleRow.toNode 1700000200) false)
      (.ofRow sampleRow) (.done (0, sampleRow.toNode 1700000200))
      ((sample 1700000200).calling keyless sampleRow 1700000200 false).2 :=
    Scenario.calling_runs (by decide +kernel)
  refine ⟨key_lifetime_bound.1 _ _ _ _ _ _ _ (World.find_ofRow _)
    (.inl ⟨rfl, rfl⟩) (by decide)
    (by decide) runs, ?_⟩
  have consistent : Consistent sampleStored.table :=
    fresh_contract.invariant (reachable_sampleStored True fun _ _ => trivial)
  have updates : ∀ w, (sampleTask .periodic).Updates w := by
    intro w args reg op
    contradiction
  have begun : (daemon (sem True) fun w t => t.Updates w).Reachable
      (fun w => Consistent w.table) (.idle sampleStored) := .start consistent
  have reach := sampleExpiry_reachable begun (updates _) 21
  obtain ⟨⟨rest, next⟩, replied, r, r', before, state, after, state'⟩ :=
    sampleExpiry_completes
  obtain ⟨-, time⟩ := Prod.mk.inj state
  obtain ⟨-, time'⟩ := Prod.mk.inj state'
  rw [next] at reach
  obtain ⟨t, w₀, w, p, n, now, same, running, -, -, renewed⟩ :=
    key_lifetime_bound.2 _ _ reach (.call replied) sampleKey r r' before after (by omega)
  cases same
  exact ⟨r, r', n, now, before, time, running, renewed⟩

end Tumgrd
