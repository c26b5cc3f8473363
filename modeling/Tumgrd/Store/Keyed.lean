import Mathlib.Data.List.Nodup

/-! A relation with a primary key and one further unique constraint. Both are
part of the type, so a table that breaks one cannot be built, and a row is
determined by its key. -/

/-- Rows in storage order, with distinct keys and distinct slots. -/
structure Keyed {α κ σ : Type} (key : α → κ) (slot : α → σ) where
  rows : List α
  keys : (rows.map key).Nodup
  slots : (rows.map slot).Nodup

namespace Keyed

variable {α κ σ : Type} {key : α → κ} {slot : α → σ}

@[ext] theorem ext {t u : Keyed key slot} (h : t.rows = u.rows) : t = u := by
  cases t
  cases u
  cases h
  rfl

def empty : Keyed key slot := ⟨[], List.nodup_nil, List.nodup_nil⟩

theorem key_injOn (t : Keyed key slot) {r s : α} (hr : r ∈ t.rows) (hs : s ∈ t.rows)
    (h : key r = key s) : r = s :=
  List.inj_on_of_nodup_map t.keys hr hs h

theorem slot_injOn (t : Keyed key slot) {r s : α} (hr : r ∈ t.rows) (hs : s ∈ t.rows)
    (h : slot r = slot s) : r = s :=
  List.inj_on_of_nodup_map t.slots hr hs h

section Find

variable [DecidableEq κ]

def find? (t : Keyed key slot) (k : κ) : Option α :=
  t.rows.find? fun r => key r = k

@[simp] theorem find?_empty (k : κ) : (empty : Keyed key slot).find? k = none := rfl

theorem find?_eq_some {t : Keyed key slot} {k : κ} {r : α} :
    t.find? k = some r ↔ r ∈ t.rows ∧ key r = k := by
  constructor
  · intro h
    exact ⟨List.mem_of_find?_eq_some h, by simpa using List.find?_some h⟩
  · rintro ⟨hr, rfl⟩
    cases h : t.find? (key r) with
    | none =>
      have := List.find?_eq_none.mp h r hr
      simp at this
    | some s =>
      have hs : s ∈ t.rows := List.mem_of_find?_eq_some h
      have hkey : key s = key r := by simpa using List.find?_some h
      rw [t.key_injOn hs hr hkey]

theorem find?_eq_none {t : Keyed key slot} {k : κ} :
    t.find? k = none ↔ ∀ r ∈ t.rows, key r ≠ k := by
  simp [find?, List.find?_eq_none]

theorem mem_rows {t : Keyed key slot} {r : α} : r ∈ t.rows ↔ t.find? (key r) = some r := by
  simp [find?_eq_some]

/-- Reading a row at its key after every row went through `f`, which may look
at the row but keeps its key. -/
theorem find?_map {rows : List α} {f : α → α} (hf : ∀ r, key (f r) = key r) (k : κ) :
    ((rows.map f).find? fun r => key r = k) = (rows.find? fun r => key r = k).map f := by
  induction rows with
  | nil => rfl
  | cons r rows ih =>
    simp only [List.map_cons, List.find?_cons, hf]
    by_cases h : key r = k
    · simp [h]
    · simpa [h] using ih

/-- A relation is given by its keys, in storage order, and the row at each of them. -/
theorem rows_eq_map {t u : Keyed key slot} {f : α → α} (keys : t.rows.map key = u.rows.map key)
    (stored : ∀ r ∈ u.rows, t.find? (key r) = some (f r)) : t.rows = u.rows.map f := by
  calc t.rows
      = t.rows.filterMap fun r => t.find? (key r) := by
        rw [List.filterMap_congr fun r hr => mem_rows.mp hr, List.filterMap_some]
    _ = (t.rows.map key).filterMap t.find? := by
        rw [List.filterMap_map]
        rfl
    _ = u.rows.filterMap fun r => t.find? (key r) := by
        rw [keys, List.filterMap_map]
        rfl
    _ = u.rows.map f := by rw [List.filterMap_congr stored, List.filterMap_eq_map']

end Find

section Update

variable [DecidableEq κ]

/-- Rewrite the row at `k`, if there is one, by a function that keeps its key
and its slot. -/
def updateAt (t : Keyed key slot) (k : κ) (f : α → α) (hkey : ∀ r, key (f r) = key r)
    (hslot : ∀ r, slot (f r) = slot r) : Keyed key slot where
  rows := t.rows.map fun r => if key r = k then f r else r
  keys := by
    have same : (t.rows.map fun r => if key r = k then f r else r).map key = t.rows.map key := by
      simp only [List.map_map, Function.comp_def, apply_ite key, hkey, ite_self]
    rw [same]
    exact t.keys
  slots := by
    have same : (t.rows.map fun r => if key r = k then f r else r).map slot = t.rows.map slot := by
      simp only [List.map_map, Function.comp_def, apply_ite slot, hslot, ite_self]
    rw [same]
    exact t.slots

variable {t : Keyed key slot} {k : κ} {f : α → α} {hkey : ∀ r, key (f r) = key r}
  {hslot : ∀ r, slot (f r) = slot r}

theorem find?_updateAt (k' : κ) :
    (t.updateAt k f hkey hslot).find? k' =
      (t.find? k').map fun r => if key r = k then f r else r := by
  refine find?_map (fun r => ?_) k'
  split
  · exact hkey r
  · rfl

@[simp] theorem find?_updateAt_self :
    (t.updateAt k f hkey hslot).find? k = (t.find? k).map f := by
  rw [find?_updateAt]
  cases h : t.find? k with
  | none => rfl
  | some r => simp [(find?_eq_some.mp h).2]

theorem find?_updateAt_of_ne {k' : κ} (h : k' ≠ k) :
    (t.updateAt k f hkey hslot).find? k' = t.find? k' := by
  rw [find?_updateAt]
  cases hr : t.find? k' with
  | none => rfl
  | some r => simp [(find?_eq_some.mp hr).2, h]

/-- An update that leaves the row it finds alone leaves the relation alone. -/
theorem updateAt_eq_self (h : ∀ r, t.find? k = some r → f r = r) :
    t.updateAt k f hkey hslot = t := by
  ext1
  refine (List.map_congr_left fun r hr => ?_).trans (List.map_id t.rows)
  change (if key r = k then f r else r) = r
  split
  · exact h r (find?_eq_some.mpr ⟨hr, ‹_›⟩)
  · rfl

/-- How many rows at `k` satisfy `p`: none or one. -/
def countAt (t : Keyed key slot) (k : κ) (p : α → Bool) : Nat :=
  t.rows.countP fun r => key r = k && p r

theorem countAt_eq (p : α → Bool) :
    t.countAt k p = ((t.find? k).elim 0 fun r => if p r then 1 else 0) := by
  obtain ⟨rows, keys, slots⟩ := t
  simp only [countAt, find?]
  clear slots
  induction rows with
  | nil => rfl
  | cons r rows ih =>
    rw [List.map_cons, List.nodup_cons] at keys
    simp only [List.countP_cons, List.find?_cons]
    by_cases h : key r = k
    · have none_left : (rows.countP fun s => key s = k && p s) = 0 := by
        rw [List.countP_eq_zero]
        intro s hs hks
        simp only [Bool.and_eq_true, decide_eq_true_eq] at hks
        exact keys.1 (h ▸ hks.1 ▸ List.mem_map_of_mem hs)
      simp [h, none_left]
    · simpa [h] using ih keys.2

end Update

section Erase

variable [DecidableEq κ] {t : Keyed key slot} {k : κ}

def erase (t : Keyed key slot) (k : κ) : Keyed key slot where
  rows := t.rows.filter fun r => key r ≠ k
  keys := t.keys.sublist (List.filter_sublist.map key)
  slots := t.slots.sublist (List.filter_sublist.map slot)

theorem mem_erase {r : α} : r ∈ (t.erase k).rows ↔ r ∈ t.rows ∧ key r ≠ k := by
  simp [erase]

@[simp] theorem find?_erase_self : (t.erase k).find? k = none := by
  rw [find?_eq_none]
  intro r hr
  exact (mem_erase.mp hr).2

theorem find?_erase_of_ne {k' : κ} (h : k' ≠ k) : (t.erase k).find? k' = t.find? k' := by
  ext r
  rw [find?_eq_some, find?_eq_some, mem_erase]
  constructor
  · rintro ⟨⟨hr, -⟩, hk⟩
    exact ⟨hr, hk⟩
  · rintro ⟨hr, rfl⟩
    exact ⟨⟨hr, h⟩, rfl⟩

end Erase

section Put

variable [DecidableEq κ]

/-- A row other than the one at `new`'s key already holds `new`'s slot. -/
def Taken (t : Keyed key slot) (new : α) : Prop :=
  ∃ r ∈ t.rows, key r ≠ key new ∧ slot r = slot new

instance [DecidableEq σ] (t : Keyed key slot) (new : α) : Decidable (t.Taken new) :=
  inferInstanceAs (Decidable (∃ r ∈ t.rows, _))

private theorem slots_merged {merge : α → α → α} {t : Keyed key slot} {new : α}
    (free : ¬t.Taken new)
    (hslot : ∀ old new, key old = key new → slot (merge old new) = slot new) :
    ((t.rows.map fun r => if key r = key new then merge r new else r).map slot).Nodup := by
  rw [List.map_map]
  refine List.Nodup.map_on ?_ (t.keys.of_map key)
  intro r hr s hs h
  simp only [Function.comp_apply] at h
  have others : ∀ r ∈ t.rows, key r ≠ key new → slot r ≠ slot new :=
    fun r hr hk hsl => free ⟨r, hr, hk, hsl⟩
  by_cases hrk : key r = key new <;> by_cases hsk : key s = key new
  · exact t.key_injOn hr hs (hrk.trans hsk.symm)
  · rw [if_pos hrk, if_neg hsk, hslot r new hrk] at h
    exact absurd h.symm (others s hs hsk)
  · rw [if_neg hrk, if_pos hsk, hslot s new hsk] at h
    exact absurd h (others r hr hrk)
  · rw [if_neg hrk, if_neg hsk] at h
    exact t.slot_injOn hr hs h

variable [DecidableEq σ]

/-- `INSERT ... ON CONFLICT (key) DO UPDATE`: merge into the row at the key, or
append. Refused when the slot belongs to another row. -/
def put? (t : Keyed key slot) (merge : α → α → α)
    (hkey : ∀ old new, key (merge old new) = key old)
    (hslot : ∀ old new, key old = key new → slot (merge old new) = slot new) (new : α) :
    Option (Keyed key slot) :=
  if taken : t.Taken new then none
  else if fresh : t.find? (key new) = none then
    some {
      rows := t.rows ++ [new]
      keys := by
        rw [List.map_append, List.nodup_append]
        refine ⟨t.keys, List.nodup_singleton _, ?_⟩
        intro a ha b hb hab
        obtain ⟨r, hr, rfl⟩ := List.mem_map.mp ha
        rw [List.map_singleton, List.mem_singleton] at hb
        exact find?_eq_none.mp fresh r hr (hab.trans hb)
      slots := by
        rw [List.map_append, List.nodup_append]
        refine ⟨t.slots, List.nodup_singleton _, ?_⟩
        intro a ha b hb hab
        obtain ⟨r, hr, rfl⟩ := List.mem_map.mp ha
        rw [List.map_singleton, List.mem_singleton] at hb
        exact taken ⟨r, hr, find?_eq_none.mp fresh r hr, hab.trans hb⟩ }
  else
    some {
      rows := t.rows.map fun r => if key r = key new then merge r new else r
      keys := by
        have same : (t.rows.map fun r => if key r = key new then merge r new else r).map key =
            t.rows.map key := by
          simp only [List.map_map, Function.comp_def, apply_ite key, hkey, ite_self]
        rw [same]
        exact t.keys
      slots := slots_merged taken hslot }

variable {merge : α → α → α} {hkey : ∀ old new, key (merge old new) = key old}
  {hslot : ∀ old new, key old = key new → slot (merge old new) = slot new}
  {t t' : Keyed key slot} {new : α}

theorem put?_eq_none : t.put? merge hkey hslot new = none ↔ t.Taken new := by
  unfold put?
  split
  · simpa
  · split <;> simpa

theorem find?_put_of_ne (h : t.put? merge hkey hslot new = some t') {k : κ} (hk : k ≠ key new) :
    t'.find? k = t.find? k := by
  unfold put? at h
  split at h
  · contradiction
  split at h
  · cases h
    have : key new ≠ k := fun e => hk e.symm
    simp only [find?, List.find?_append]
    simp [this]
  · cases h
    refine (find?_map (f := fun r => if key r = key new then merge r new else r)
      (fun r => ?_) k).trans ?_
    · split
      · exact hkey _ _
      · rfl
    · change (t.find? k).map _ = t.find? k
      cases hr : t.find? k with
      | none => rfl
      | some r => simp [(find?_eq_some.mp hr).2, hk]

theorem find?_put_self (h : t.put? merge hkey hslot new = some t') :
    t'.find? (key new) = some (((t.find? (key new)).elim new fun old => merge old new)) := by
  unfold put? at h
  split at h
  · contradiction
  split at h
  · rename_i fresh
    cases h
    have absent : (t.rows.find? fun r => key r = key new) = none := fresh
    simp [find?, List.find?_append, absent]
  · rename_i present
    cases h
    refine (find?_map (f := fun r => if key r = key new then merge r new else r)
      (fun r => ?_) (key new)).trans ?_
    · split
      · exact hkey _ _
      · rfl
    · change (t.find? (key new)).map _ = _
      cases hr : t.find? (key new) with
      | none => exact absurd hr present
      | some r => simp [(find?_eq_some.mp hr).2]

end Put

end Keyed
