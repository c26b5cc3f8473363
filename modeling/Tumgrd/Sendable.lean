import Tumgrd.Commands
import Tumgrd.Merge

/-! What every stored row can be sent as: a name and a key that are one word
each, whatever the handlers wrote before. -/
namespace Tumgrd

open Lex Effect Service

variable {sqlMayFail : Prop} {c : Call} {w : World}

/-- The texts of a row that a script is made of have no blank and no line break. -/
structure Row.Sendable (r : Row) : Prop where
  uid : isSafeId r.uid.text = true
  xorKey : (columnText r.xorKey).text ≠ [] → isSafeId (columnText r.xorKey).text = true

theorem isSafeId_of_check {args : RegisterArgs} {reg : Registration} (h : args.check = some reg) :
    isSafeId reg.key.uid = true := by
  simp only [RegisterArgs.check, Option.bind_eq_bind, Option.bind_eq_some_iff,
    Option.guard_eq_some', Option.pure_def, Option.some.injEq] at h
  obtain ⟨uid, -, _, -, _, -, _, -, _, -, _, safe, _, -, _, -, _, -, rfl⟩ := h
  exact safe

theorem Row.Sendable.update {r : Row} (h : r.Sendable) {set : Assign} {guard : Guard}
    (updates : Updates sqlMayFail c w set guard) : (r.assign set).Sendable := by
  cases updates with
  | @begin key => exact { h with xorKey := fun _ => isSafeId_hexKey key }
  | _ => exact { h with }

theorem Row.Sendable.merge {r excluded : Row} (h : r.Sendable) (h' : excluded.Sendable) :
    (r.merge excluded).Sendable where
  uid := h.uid
  xorKey := by
    unfold Row.merge
    dsimp only
    split
    · exact h.xorKey
    · exact h'.xorKey

/-- The node that a registration stores has a checked name, and a key that was
checked, generated or stored before. -/
theorem Registers.sendable {cfg : Config} {args : RegisterArgs} {reg : Registration} {w₀ : World}
    {n : Node} {s : Bool} (h : Registers cfg args reg w₀ w n s) (check : args.check = some reg)
    (rows : ∀ r ∈ w₀.table.rows, r.Sendable) (createdAt lastUpdated : Int) :
    (Row.ofNode (n.withDefaults createdAt lastUpdated) s).Sendable := by
  have uid := isSafeId_copy (n := 128) (isSafeId_of_check check) (by decide)
  have sendable : ∀ base : Node, base.uid = .copy reg.key.uid →
      (base.xorKey.text ≠ [] → isSafeId base.xorKey.text = true) →
        args.finish reg base = some n →
      (Row.ofNode (n.withDefaults createdAt lastUpdated) s).Sendable := by
    intro base named keyed finish
    obtain ⟨rfl, accepts⟩ := finish_eq finish
    refine ⟨?_, ?_⟩
    · show isSafeId base.uid.text = true
      rw [named]
      exact uid
    · simp only [Row.ofNode, Node.withDefaults, columnText_bind, RegisterArgs.complete]
      cases given : args.xor with
      | none => exact keyed
      | some text => exact fun _ => isSafeId_copy (accepts.xor text given).1 (by decide)
  cases h with
  | @updated r _ _ found loaded finish =>
    obtain ⟨load, rfl, -⟩ := loaded
    exact sendable _ rfl (rows r (Keyed.find?_eq_some.mp found).1).xorKey finish
  | created _ _ _ _ finish drafts =>
    cases drafts with
    | plain => exact sendable _ rfl (fun nonempty => absurd rfl nonempty) finish
    | @keyed _ key => exact sendable _ rfl (fun _ => isSafeId_hexKey key) finish

theorem sendable_rows : RowInvariant sqlMayFail Row.Sendable where
  update := fun _ _ _ _ _ _ _ _ _ updates _ sendable => sendable.update updates
  upsert := by
    intro t w₀ w args reg n s createdAt lastUpdated _ check keeps registers rows
    have own := registers.sendable check (keeps.table ▸ rows) createdAt lastUpdated
    unfold Table.written
    cases stored : w.table.find? (n.withDefaults createdAt lastUpdated).key with
    | none => exact own
    | some old => exact (rows old (Keyed.find?_eq_some.mp stored).1).merge own

end Tumgrd
