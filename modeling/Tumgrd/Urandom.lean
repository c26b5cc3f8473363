import Mathlib.Data.Fintype.EquivFin
import Mathlib.Tactic.IntervalCases
import Tumgrd.Effect.Custody
import Tumgrd.Lex.Numeral
import Tumgrd.Text

/-! `generate_random_hex_key`, call by call. -/
namespace Tumgrd

open Effect Custody Surroundings

inductive Entropy where
  | eof
  | interrupted
  | failed
  | data (first : UInt8) (more : List UInt8)

inductive KeyCall where
  | openUrandom
  | readUrandom (fd : Nat) (room : Nat)
  | closeUrandom (fd : Nat)

@[reducible] def KeyResp : KeyCall → Type
  | .openUrandom => Option Nat
  | .readUrandom _ _ => Entropy
  | .closeUrandom _ => Unit

abbrev KeyGen := Process KeyCall KeyResp

def keyCall (q : KeyCall) : KeyGen (KeyResp q) := Process.perform q

def readUrandomStep (fd keyBytes : Nat) (bytes : List UInt8) :
    KeyGen (List UInt8 ⊕ Option (List UInt8)) := do
  if bytes.length < keyBytes then
    match ← keyCall (.readUrandom fd (keyBytes - bytes.length)) with
    | .interrupted => pure (.inl bytes)
    | .eof | .failed => pure (.inr none)
    | .data first more => pure (.inl (bytes ++ first :: more))
  else pure (.inr (some bytes))

/-- `%02x`. -/
def hexByte (byte : UInt8) : Str :=
  [Nat.digitChar (byte.toNat / 16), Nat.digitChar (byte.toNat % 16)]

def hexText (bytes : List UInt8) : Str := bytes.flatMap hexByte

def generateRandomHexKey (outSize keyBytes : Nat) : KeyGen (Option Str) := do
  if outSize < keyBytes * 2 + 1 then pure none
  else if keyBytes < 16 ∨ 64 < keyBytes then pure none
  else
    match ← keyCall .openUrandom with
    | none => pure none
    | some fd => do
        let bytes ← Process.iterate (readUrandomStep fd keyBytes) []
        keyCall (.closeUrandom fd)
        pure (bytes.map hexText)

def keyCustody : Custody KeyCall KeyResp Nat where
  uses
    | .readUrandom fd _ => {fd}
    | _ => ∅
  frees
    | .closeUrandom fd => some fd
    | _ => none
  gives
    | .openUrandom, fd => fd
    | _, _ => none

/-- The bytes that were read, and how many interruptions are still to come. -/
structure Pool where
  interrupts : Nat
  delivered : List UInt8

def keyAnswers (w : Pool) : (q : KeyCall) → KeyResp q → Pool → Prop
  | .readUrandom _ _, .interrupted, w' => w = { w' with interrupts := w'.interrupts + 1 }
  | .readUrandom _ room, .data first more, w' => (first :: more).length ≤ room ∧
      w' = { w with delivered := w.delivered ++ first :: more }
  | _, _, w' => w' = w

abbrev keyWorld : Surroundings KeyCall KeyResp (Holding Pool Nat) :=
  keyCustody.surroundings keyAnswers

section Hex

variable {d : Nat} {c : Char}

def isLowerHex (c : Char) : Bool := c.isDigit || ('a' ≤ c && c ≤ 'f')

theorem isLowerHex_digitChar (small : d < 16) : isLowerHex d.digitChar = true := by
  interval_cases d <;> decide

theorem exists_digitChar (h : isLowerHex c = true) : ∃ d < 16, Nat.digitChar d = c := by
  have range : 48 ≤ c.toNat ∧ c.toNat ≤ 57 ∨ 97 ≤ c.toNat ∧ c.toNat ≤ 102 := by
    simp only [isLowerHex, Char.isDigit, Bool.or_eq_true, Bool.and_eq_true, decide_eq_true_eq] at h
    rcases h with ⟨low, high⟩ | ⟨low, high⟩
    · exact .inl ⟨low, high⟩
    · exact .inr ⟨low, high⟩
  rw [← Char.ofNat_toNat c]
  generalize c.toNat = n at range
  by_cases small : n ≤ 57
  · refine ⟨n - 48, by omega, ?_⟩
    have : 48 ≤ n := by omega
    interval_cases n <;> decide
  · refine ⟨n - 87, by omega, ?_⟩
    have low : 97 ≤ n := by omega
    have high : n ≤ 102 := by omega
    interval_cases n <;> decide

theorem length_hexText (bytes : List UInt8) : (hexText bytes).length = 2 * bytes.length := by
  induction bytes with
  | nil => rfl
  | cons byte rest ih =>
    simp only [hexText, List.flatMap_cons, List.length_append, List.length_cons] at ih ⊢
    rw [ih]
    simp only [hexByte, List.length_cons, List.length_nil]
    omega

theorem isLowerHex_hexText (bytes : List UInt8) : (hexText bytes).all isLowerHex = true := by
  rw [hexText, List.all_flatMap, List.all_eq_true]
  intro byte _
  have small : byte.toNat < 256 := byte.toNat_lt
  simp [hexByte, isLowerHex_digitChar (show byte.toNat / 16 < 16 by omega),
    isLowerHex_digitChar (show byte.toNat % 16 < 16 by omega)]

/-- Every text of digits is that of some bytes. -/
theorem exists_bytes (n : Nat) (text : Str) (length : text.length = 2 * n)
    (digits : text.all isLowerHex = true) :
    ∃ bytes, bytes.length = n ∧ hexText bytes = text := by
  induction n generalizing text with
  | zero => exact ⟨[], rfl, (List.length_eq_zero_iff.mp length).symm⟩
  | succ n ih =>
    match text with
    | [] => simp at length
    | [_] =>
      simp only [List.length_cons, List.length_nil] at length
      omega
    | a :: b :: rest =>
      simp only [List.all_cons, Bool.and_eq_true] at digits
      obtain ⟨high, highSmall, rfl⟩ := exists_digitChar digits.1
      obtain ⟨low, lowSmall, rfl⟩ := exists_digitChar digits.2.1
      obtain ⟨bytes, count, rfl⟩ :=
        ih rest (by simp only [List.length_cons] at length; omega) digits.2.2
      refine ⟨UInt8.ofNat (16 * high + low) :: bytes, by simp [count], ?_⟩
      have value : (UInt8.ofNat (16 * high + low)).toNat = 16 * high + low := by
        rw [UInt8.toNat_ofNat']
        omega
      simp only [hexText, List.flatMap_cons, hexByte, value, List.cons_append, List.nil_append]
      rw [show (16 * high + low) / 16 = high by omega, show (16 * high + low) % 16 = low by omega]

end Hex

section Generation

variable {live : Finset Nat} {w : Pool} {fd outSize keyBytes : Nat}

abbrev KeyTends {α : Type} (p : KeyGen α) (w : Holding Pool Nat)
    (Q : α → Holding Pool Nat → Prop) : Prop :=
  keyCustody.Tends keyAnswers (fun _ _ => True) p w Q

/-- Short reads and interruptions go on until all bytes are there. -/
theorem tends_readUrandom (held : fd ∈ live) :
    KeyTends (Process.iterate (readUrandomStep fd keyBytes) []) ⟨w, live⟩ fun result v =>
      v.live = live ∧ ∀ bytes, result = some bytes →
        bytes.length = keyBytes ∧ v.world.delivered = w.delivered ++ bytes := by
  refine tends_iterate (fun bytes v => keyBytes - bytes.length + v.interrupts)
    (fun bytes v => v.live = live ∧ bytes.length ≤ keyBytes ∧
      v.world.delivered = w.delivered ++ bytes)
    ⟨rfl, Nat.zero_le _, by simp⟩ ?_
  rintro bytes ⟨v, kept⟩ ⟨rfl, fits, delivered⟩
  unfold readUrandomStep
  split
  · rename_i more
    refine tends_use (Finset.singleton_subset_iff.mpr held) rfl (fun _ => rfl) trivial
      ⟨.eof, _, rfl⟩ ?_
    rintro (_ | _ | _ | ⟨first, rest⟩) u given
    · obtain rfl := given
      exact tends_pure ⟨rfl, nofun⟩
    · obtain rfl := given
      exact tends_pure ⟨by simp, rfl, fits, delivered⟩
    · obtain rfl := given
      exact tends_pure ⟨rfl, nofun⟩
    · obtain ⟨room, rfl⟩ := given
      simp only [List.length_cons] at room
      refine tends_pure ⟨?_, rfl, ?_, ?_⟩
      · simp only [List.length_append, List.length_cons]
        omega
      · simp only [List.length_append, List.length_cons]
        omega
      · rw [← List.append_assoc]
        exact congrArg (· ++ first :: rest) delivered
  · rename_i all
    refine tends_pure ⟨rfl, ?_⟩
    rintro _ ⟨⟩
    exact ⟨by omega, delivered⟩

/-- A key is the text of the bytes that were read for it. -/
def Generated (keyBytes : Nat) (w : Pool) (key : Option Str) (v : Pool) : Prop :=
  ∀ text, key = some text → ∃ bytes, bytes.length = keyBytes ∧
    v.delivered = w.delivered ++ bytes ∧ text = hexText bytes

theorem tends_generateRandomHexKey (outSize keyBytes : Nat) :
    KeyTends (generateRandomHexKey outSize keyBytes) ⟨w, live⟩ fun key v =>
      v.live = live ∧ Generated keyBytes w key v.world := by
  unfold generateRandomHexKey
  split
  · exact tends_pure ⟨rfl, nofun⟩
  split
  · exact tends_pure ⟨rfl, nofun⟩
  refine tends_give (Finset.empty_subset _) rfl trivial ⟨none, _, rfl, rfl⟩ ?_ ?_
  · rintro (_ | fd) v rfl gives
    · exact tends_pure ⟨rfl, nofun⟩
    · contradiction
  rintro (_ | fd) v h rfl gives fresh
  · contradiction
  obtain rfl := Option.some.inj gives
  refine tends_bind (tends_readUrandom (Finset.mem_insert_self _ _)) ?_
  rintro bytes ⟨u, kept⟩ ⟨rfl, whole⟩
  refine tends_free (Finset.empty_subset _) rfl (fun _ => rfl) (Finset.mem_insert_self _ _) trivial
    ⟨(), _, rfl⟩ ?_
  rintro ⟨⟩ _ rfl
  refine tends_pure ⟨Finset.erase_insert fresh, ?_⟩
  intro text made
  obtain ⟨bytes, rfl, rfl⟩ := Option.map_eq_some_iff.mp made
  obtain ⟨count, delivered⟩ := whole bytes rfl
  exact ⟨bytes, count, delivered, rfl⟩

theorem exists_hexKey {bytes : List UInt8} (count : bytes.length = 64) :
    ∃ k : HexKey, k.text = hexText bytes :=
  ⟨⟨hexText bytes, by rw [length_hexText, count], isLowerHex_hexText bytes⟩, rfl⟩

/-- The call the daemon makes may give any key, or none. -/
theorem reaches_key (w : Holding Pool Nat) (k : Option HexKey) :
    ∃ v, keyWorld.Reaches (generateRandomHexKey 129 64) w (.done (k.map HexKey.text)) v := by
  cases k with
  | none =>
    have refused : keyWorld.answers w .openUrandom none w := ⟨rfl, nofun, rfl⟩
    exact ⟨w, .move (.refl _ _) (.call refused)⟩
  | some key =>
    obtain ⟨bytes, count, same⟩ := exists_bytes 64 key.text key.digits key.hex
    obtain ⟨first, more, rfl⟩ := List.exists_cons_of_length_pos (show 0 < bytes.length by omega)
    obtain ⟨fd, fresh⟩ := Infinite.exists_notMem_finset w.live
    let held : Holding Pool Nat := ⟨w.world, insert fd w.live⟩
    let full : Holding Pool Nat :=
      ⟨{ w.world with delivered := w.world.delivered ++ first :: more }, insert fd w.live⟩
    let finish : Option (List UInt8) → KeyGen (Option Str) := fun bytes =>
      .call (.closeUrandom fd) fun _ => .done (bytes.map hexText)
    have opens : keyWorld.answers w .openUrandom (some fd) held := by
      refine ⟨rfl, ?_, rfl⟩
      rintro _ ⟨⟩
      exact fresh
    -- one read gives all the bytes
    have reads : keyWorld.answers held (.readUrandom fd 64) (.data first more) full :=
      ⟨⟨count.le, rfl⟩, nofun, rfl⟩
    have closes :
        keyWorld.answers full (.closeUrandom fd) () ⟨full.world, full.live.erase fd⟩ :=
      ⟨rfl, nofun, rfl⟩
    have opened : keyWorld.Reaches (generateRandomHexKey 129 64) w
        (.loop (readUrandomStep fd 64) [] finish) held := .move (.refl _ _) (.call opens)
    have read : keyWorld.Reaches (generateRandomHexKey 129 64) w
        (.loop (readUrandomStep fd 64) (first :: more) finish) full :=
      .move (.move opened .loop) (.call reads)
    have whole : readUrandomStep fd 64 (first :: more) = pure (.inr (some (first :: more))) :=
      if_neg (by omega)
    have looped : keyWorld.Reaches (generateRandomHexKey 129 64) w
        (finish (some (first :: more))) full := by
      have last := read.move .loop
      rw [whole] at last
      exact last
    rw [Option.map_some, ← same]
    exact ⟨_, .move looped (.call closes)⟩

/-- With the sizes the daemon uses, the function comes to an end with its file
closed, and what it may return is a failure or any key, made of bytes that were
read for it. -/
theorem key_refined (w : Holding Pool Nat) :
    keyWorld.Terminates (generateRandomHexKey 129 64) w ∧
    (∀ q rest v, keyWorld.Reaches (generateRandomHexKey 129 64) w (.call q rest) v →
      keyCustody.Allows v.live q) ∧
    (∀ result v, keyWorld.Reaches (generateRandomHexKey 129 64) w (.done result) v →
      v.live = w.live ∧ ∃ k : Option HexKey, result = k.map HexKey.text ∧
        ∀ key, k = some key → ∃ bytes, bytes.length = 64 ∧
          v.world.delivered = w.world.delivered ++ bytes ∧ key.text = hexText bytes) ∧
    ∀ k : Option HexKey,
      ∃ v, keyWorld.Reaches (generateRandomHexKey 129 64) w (.done (k.map HexKey.text)) v := by
  have tends : KeyTends (generateRandomHexKey 129 64) w fun key v =>
      v.live = w.live ∧ Generated 64 w.world key v.world := tends_generateRandomHexKey 129 64
  refine ⟨tends.terminates, fun _ _ _ reach => (tends.permitted reach).1,
    fun result v reach => ?_,
    reaches_key w⟩
  obtain ⟨kept, generated⟩ := tends.result reach
  refine ⟨kept, ?_⟩
  cases result with
  | none => exact ⟨none, rfl, nofun⟩
  | some text =>
    obtain ⟨bytes, count, delivered, rfl⟩ := generated text rfl
    obtain ⟨key, same⟩ := exists_hexKey count
    refine ⟨some key, by simp [same], ?_⟩
    rintro _ ⟨⟩
    exact ⟨bytes, count, delivered, same⟩

end Generation

end Tumgrd
