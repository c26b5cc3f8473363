import Tumgrd.Lex.Numeral
import Tumgrd.Rows
import Tumgrd.Scenario

/-! `parse_args` of `main.c` and the parsers of numbers in `helper.c`. The words
of the command line arrive as `getopt_long` hands them out. A `long` has as many
bits as the platform gives it. -/
namespace Tumgrd

open Effect Service

variable {bits : Nat} {input : Str}

/-- An `unsigned long` of which a negative numeral takes the complement. -/
def parseU32 (bits : Nat) (input : Str) : Option Nat := do
  let number ← Lex.scan isSpace 0 input
  guard (number.rest = [])
  guard (number.value < 2 ^ bits)
  let value := if number.negative then (2 ^ bits - number.value) % 2 ^ bits else number.value
  guard (value ≤ 4294967295)
  pure value

def parseInterval (bits : Nat) (input : Str) : Option Nat := do
  let interval ← parseU32 bits input
  guard (¬(interval < 10 ∨ interval > 3600))
  pure interval

def parseLifetime (input : Str) : Option Int := do
  let number ← Lex.scan isSpace 0 input
  guard (number.rest = [])
  let value : Int := if number.negative then -number.value else number.value
  guard (-(2 ^ 63) ≤ value ∧ value < 2 ^ 63)
  guard (¬(value ≠ 0 ∧ value < lifetimeMin))
  guard (¬value > lifetimeMax)
  pure value

/-- The mark is a decimal `long`, which saturates. -/
def parseFwmark (bits : Nat) (input : Str) : Option Int := do
  let number ← Lex.scan isSpace 10 input
  guard (number.rest = [])
  let value : Int := if number.negative then max (-number.value) (-(2 ^ (bits - 1)))
    else min number.value (2 ^ (bits - 1) - 1)
  guard (¬(value < 0 ∨ value > 255))
  pure value

/-- `struct tumgrd_config`. -/
structure Options where
  dbPath : Str
  socketPath : Option Str
  logLevel : Str
  interval : Nat
  enableXor : Bool
  useClientIp : Bool
  fwmark : Int
  defaultLifetime : Int

def Options.config (o : Options) : Config := ⟨o.enableXor, o.useClientIp, o.defaultLifetime⟩

/-- `config_init`. -/
def configInit : Options where
  dbPath := "/lib/tumgrd/tumgrd.db".toList
  socketPath := none
  logLevel := "info".toList
  interval := 60
  enableXor := false
  useClientIp := true
  fwmark := 2
  defaultLifetime := 0

/-- An option with its argument. -/
inductive Switch where
  | database (path : Str)
  | interval (input : Str)
  | socket (path : Str)
  | logLevel (level : Str)
  | enableXor
  | disableXor
  | fwmark (input : Str)
  | useClientIp
  | noClientIp
  | lifetime (input : Str)
  | help
  | unknown

inductive Parsed where
  | ok (o : Options)
  | help
  | failed

/-- One turn of the loop. -/
def Switch.store (bits : Nat) (o : Options) : Switch → Parsed
  | .database path => .ok { o with dbPath := path }
  | .interval input => (parseInterval bits input).elim .failed fun v => .ok { o with interval := v }
  | .socket path => .ok { o with socketPath := some path }
  | .logLevel level => .ok { o with logLevel := level }
  | .enableXor => .ok { o with enableXor := true }
  | .disableXor => .ok { o with enableXor := false }
  | .fwmark input => (parseFwmark bits input).elim .failed fun v => .ok { o with fwmark := v }
  | .useClientIp => .ok { o with useClientIp := true }
  | .noClientIp => .ok { o with useClientIp := false }
  | .lifetime input =>
    (parseLifetime input).elim .failed fun v => .ok { o with defaultLifetime := v }
  | .help => .help
  | .unknown => .failed

/-- `getopt_long` puts what is no option behind the options. -/
def parseArgs (bits : Nat) (positional : Bool) : List Switch → Options → Parsed
  | [], o => if positional then .failed else .ok o
  | opt :: rest, o =>
      match opt.store bits o with
      | .ok o => parseArgs bits positional rest o
      | stopped => stopped

/-- The levels count as in `log.h`. -/
def parseLogLevel (s : Str) : Option Nat :=
  if streqcase s "error".toList then some 0
  else if streqcase s "warn".toList then some 1
  else if streqcase s "info".toList then some 2
  else if streqcase s "debug".toList then some 3
  else if streqcase s "trace".toList then some 4
  else none

section Numbers

/-- The blanks of C are no part of a numeral. -/
theorem blanks_isSpace : Lex.Blanks isSpace := by
  intro c blank
  have small : c = ' ' ∨ '\t' ≤ c ∧ c ≤ '\r' := by simpa [isSpace] using blank
  have code : c.toNat ≤ 32 := by
    rcases small with rfl | ⟨-, high⟩
    · decide
    · have bound : '\r'.toNat = 13 := rfl
      have : c.toNat ≤ '\r'.toNat := high
      omega
  have above : ∀ d : Char, 32 < d.toNat → c ≠ d := by
    rintro d big rfl
    omega
  refine ⟨above '-' (by decide), above '+' (by decide), ?_⟩
  have low : ∀ d : Char, 32 < d.toNat → ¬d ≤ c := by
    intro d big le
    have : d.toNat ≤ c.toNat := le
    omega
  have none : Lex.digitValue c = none := by
    unfold Lex.digitValue
    rw [if_neg fun h => low _ (by decide) h.1, if_neg fun h => low _ (by decide) h.1,
      if_neg fun h => low _ (by decide) h.1]
  simp [Lex.isDigitOf, none]

theorem scan_isSpace {negative : Bool} {value : Nat} :
    Lex.scan isSpace 0 input = some ⟨negative, value, []⟩ ↔
      Lex.IsNumeral isSpace input negative value :=
  Lex.scan_whole blanks_isSpace

/-- A negative number stands for its complement. -/
theorem parseU32_iff {value : Nat} : parseU32 bits input = some value ↔
    value ≤ 4294967295 ∧ ∃ negative m, Lex.IsNumeral isSpace input negative m ∧
      m < 2 ^ bits ∧
      value = if negative then (2 ^ bits - m) % 2 ^ bits else m := by
  simp only [parseU32, Option.bind_eq_bind, Option.bind_eq_some_iff, Option.guard_eq_some',
    Option.pure_def, Option.some.injEq]
  constructor
  · rintro ⟨⟨negative, m, rest⟩, scanned, -, whole, -, fits, -, small, rfl⟩
    obtain rfl : rest = [] := whole
    exact ⟨small, negative, m, scan_isSpace.mp scanned, fits, rfl⟩
  · rintro ⟨small, negative, m, numeral, fits, rfl⟩
    exact ⟨_, scan_isSpace.mpr numeral, (), rfl, (), fits, (), small, rfl⟩

/-- An interval is written as itself or, with a minus, as its complement. -/
theorem parseInterval_iff {value : Nat} (wide : 32 ≤ bits) :
    parseInterval bits input = some value ↔ (10 ≤ value ∧ value ≤ 3600) ∧
      (Lex.IsNumeral isSpace input false value ∨
        Lex.IsNumeral isSpace input true (2 ^ bits - value)) := by
  have large : 4294967296 ≤ 2 ^ bits := Nat.pow_le_pow_right (n := 2) (by decide) wide
  simp only [parseInterval, Option.bind_eq_bind, Option.bind_eq_some_iff, Option.guard_eq_some',
    Option.pure_def, Option.some.injEq, parseU32_iff]
  constructor
  · rintro ⟨v, ⟨-, negative, m, numeral, fits, same⟩, -, range, rfl⟩
    refine ⟨by omega, ?_⟩
    cases negative with
    | false => exact .inl (same ▸ numeral)
    | true =>
      rw [if_pos rfl] at same
      have positive : 0 < m := by
        by_contra zero
        obtain rfl : m = 0 := by omega
        rw [Nat.sub_zero, Nat.mod_self] at same
        omega
      rw [Nat.mod_eq_of_lt (by omega)] at same
      have complement : 2 ^ bits - v = m := by omega
      exact .inr (complement ▸ numeral)
  · rintro ⟨range, numeral | numeral⟩
    · exact ⟨value, ⟨by omega, false, value, numeral, by omega, rfl⟩, (), by omega, rfl⟩
    · refine ⟨value, ⟨by omega, true, _, numeral, by omega, ?_⟩, (), by omega, rfl⟩
      rw [if_pos rfl, Nat.sub_sub_self (by omega), Nat.mod_eq_of_lt (by omega)]

theorem parseLifetime_iff {value : Int} : parseLifetime input = some value ↔
    LegalLifetime value ∧ ∃ negative m, Lex.IsNumeral isSpace input negative m ∧
      value = if negative then -(m : Int) else m := by
  simp only [parseLifetime, Option.bind_eq_bind, Option.bind_eq_some_iff, Option.guard_eq_some',
    Option.pure_def, Option.some.injEq, LegalLifetime, lifetimeMin, lifetimeMax]
  constructor
  · rintro ⟨⟨negative, m, rest⟩, scanned, -, whole, -, -, -, low, -, high, rfl⟩
    obtain rfl : rest = [] := whole
    exact ⟨by omega, negative, m, scan_isSpace.mp scanned, rfl⟩
  · rintro ⟨legal, negative, m, numeral, same⟩
    refine ⟨_, scan_isSpace.mpr numeral, (), rfl, (), ?_, (), ?_, (), ?_, same.symm⟩ <;>
      simp only [← same] <;> omega

/-- Exactly what the two options take: blanks, a sign and a C literal, in range.
With a minus the interval is the complement of the literal, and a lifetime is 0. -/
theorem numbers_accepted (wide : 32 ≤ bits) (input : Str) :
    (∀ v, parseInterval bits input = some v ↔ (10 ≤ v ∧ v ≤ 3600) ∧
      (Lex.IsNumeral isSpace input false v ∨ Lex.IsNumeral isSpace input true (2 ^ bits - v))) ∧
    ∀ v, parseLifetime input = some v ↔ LegalLifetime v ∧
      (0 ≤ v ∧ Lex.IsNumeral isSpace input false v.toNat ∨
        v = 0 ∧ Lex.IsNumeral isSpace input true 0) := by
  refine ⟨fun v => parseInterval_iff wide, fun v => ?_⟩
  rw [parseLifetime_iff]
  refine and_congr_right fun legal => ⟨?_, ?_⟩
  · rintro ⟨negative, m, numeral, same⟩
    cases negative with
    | false =>
      simp only [Bool.false_eq_true, if_false] at same
      obtain rfl : m = v.toNat := by omega
      exact .inl ⟨by omega, numeral⟩
    | true =>
      simp only [if_true] at same
      simp only [LegalLifetime, lifetimeMin] at legal
      obtain rfl : m = 0 := by omega
      exact .inr ⟨by omega, numeral⟩
  · rintro (⟨positive, numeral⟩ | ⟨zero, numeral⟩)
    · exact ⟨false, _, numeral, by simp only [Bool.false_eq_true, if_false]; omega⟩
    · exact ⟨true, 0, numeral, by simp [zero]⟩

/-- The complement of 60 is an interval of a minute. -/
theorem numbers_accepted_complement :
    Lex.IsNumeral isSpace "-18446744073709551556".toList false 60 ∨
      Lex.IsNumeral isSpace "-18446744073709551556".toList true (2 ^ 64 - 60) := by
  have accepted : parseInterval 64 "-18446744073709551556".toList = some 60 := by decide
  have wide : 32 ≤ 64 := by decide
  exact (((numbers_accepted wide _).1 60).mp accepted).2

theorem parseFwmark_range {value : Int} (h : parseFwmark bits input = some value) :
    0 ≤ value ∧ value ≤ 255 := by
  simp only [parseFwmark, Option.bind_eq_bind, Option.bind_eq_some_iff, Option.guard_eq_some',
    Option.pure_def, Option.some.injEq] at h
  obtain ⟨number, -, -, -, -, range, rfl⟩ := h
  omega

end Numbers

section Arguments

variable {positional : Bool} {opts : List Switch} {o o' : Options}

/-- The ranges that the help text promises. -/
structure Options.Legal (o : Options) : Prop where
  interval : 10 ≤ o.interval ∧ o.interval ≤ 3600
  fwmark : 0 ≤ o.fwmark ∧ o.fwmark ≤ 255
  lifetime : LegalLifetime o.defaultLifetime

theorem legal_configInit : configInit.Legal := ⟨by decide, by decide, .inl rfl⟩

theorem Switch.legal_store {opt : Switch} (stored : opt.store bits o = .ok o') (legal : o.Legal) :
    o'.Legal := by
  have parsed : ∀ {α : Type} {value : Option α} {set : α → Options},
      value.elim .failed (fun v => .ok (set v)) = Parsed.ok o' → ∃ v, value = some v ∧
          set v = o' := by
    intro α value set same
    cases value with
    | none => contradiction
    | some v => exact ⟨v, rfl, Parsed.ok.inj same⟩
  cases opt with
  | interval input =>
    obtain ⟨v, accepted, rfl⟩ := parsed stored
    simp only [parseInterval, Option.bind_eq_bind, Option.bind_eq_some_iff, Option.guard_eq_some',
      Option.pure_def, Option.some.injEq] at accepted
    obtain ⟨u, -, -, range, rfl⟩ := accepted
    exact { legal with interval := by simp only; omega }
  | fwmark input =>
    obtain ⟨v, accepted, rfl⟩ := parsed stored
    exact { legal with fwmark := parseFwmark_range accepted }
  | lifetime input =>
    obtain ⟨v, accepted, rfl⟩ := parsed stored
    exact { legal with lifetime := (parseLifetime_iff.mp accepted).1 }
  | help => contradiction
  | unknown => contradiction
  | _ =>
    cases stored
    exact { legal with }

/-- What `parse_args` accepts keeps to the ranges. -/
theorem legal_of_parseArgs (accepted : parseArgs bits positional opts o = .ok o')
    (legal : o.Legal) :
    o'.Legal := by
  induction opts generalizing o with
  | nil =>
    unfold parseArgs at accepted
    split at accepted
    · contradiction
    · cases accepted
      exact legal
  | cons opt rest ih =>
    unfold parseArgs at accepted
    split at accepted
    · rename_i stored
      exact ih accepted (opt.legal_store stored legal)
    · rename_i stopped
      exact absurd accepted (stopped _)

end Arguments

section Lifetimes

variable {t : Task} {w₀ w : World} {n : Node} {s : Bool} {args : RegisterArgs}
  {reg : Registration}

/-- The task of a daemon that was started with some command line. -/
def Started (_ : World) (t : Task) : Prop :=
  ∃ bits positional opts o, parseArgs bits positional opts configInit = .ok o ∧ t.cfg = o.config

theorem Started.lifetime (started : Started w t) : LegalLifetime t.cfg.defaultLifetime := by
  obtain ⟨bits, positional, opts, o, accepted, cfg⟩ := started
  rw [cfg]
  exact (legal_of_parseArgs accepted legal_configInit).lifetime

/-- A registration stores a legal lifetime, or keeps the one that is there. -/
theorem Registers.lifetime (h : Registers t.cfg args reg w₀ w n s)
    (started : Started w₀ t) : s = true → LegalLifetime n.lifetime := by
  intro set
  cases h with
  | updated found loaded finish =>
    refine (finished_of_finish finish).lifetimeSet fun absent => ?_
    simp [absent] at set
  | created absent key state pending finish drafts =>
    have finished := finished_of_finish finish
    by_cases given : args.lifetime = none
    · rw [finished.lifetimeKept given]
      cases drafts <;> exact started.lifetime
    · exact finished.lifetimeSet given

theorem lifetime_written {createdAt lastUpdated : Int} (set : s = true → LegalLifetime n.lifetime)
    (rows : ∀ r ∈ w.table.rows, LegalLifetime (r.lifetime.getD 0)) :
    LegalLifetime ((w.table.written (n.withDefaults createdAt lastUpdated) s).lifetime.getD 0) := by
  have bound : LegalLifetime
      ((Row.ofNode (n.withDefaults createdAt lastUpdated) s).lifetime.getD 0) := by
    cases s with
    | true => exact set rfl
    | false => exact .inl rfl
  cases found : w.table.find? n.key with
  | none =>
    rw [Table.written_of_absent found]
    exact bound
  | some r =>
    rw [Table.written_of_found found]
    cases s with
    | true => exact set rfl
    | false => exact rows r (Keyed.find?_eq_some.mp found).1

theorem lifetimes_after {q : Req} {reply : Resp q} (permits : Permits True t w₀ w q)
    (started : Started w₀ t) (rows : ∀ r ∈ w.table.rows, LegalLifetime (r.lifetime.getD 0)) :
    ∀ r ∈ (w.after q reply).table.rows, LegalLifetime (r.lifetime.getD 0) := by
  cases q with
  | sql s =>
    cases reply with
    | error => exact rows
    | ok replied changes =>
      intro r mem
      rw [World.table_after_ok] at mem
      rcases permits.writes with writes | quiet
      · cases writes with
        | update =>
          rcases find?_update_cases (Keyed.mem_rows.mp mem) with kept | ⟨-, old, stored, -, rfl⟩
          · exact rows r (Keyed.mem_rows.mpr kept)
          · exact rows old (Keyed.find?_eq_some.mp stored).1
        | upsert op check keeps registers =>
          rcases find?_upsert (Keyed.mem_rows.mp mem) with kept | rfl
          · exact rows r (Keyed.mem_rows.mpr kept)
          · exact lifetime_written (registers.lifetime started) rows
        | delete k =>
          simp only [Stmt.effect, Keyed.mem_erase] at mem
          exact rows r mem.1
      · have same := (World.keeps_after (w := w) quiet (.ok replied changes)).table
        rw [World.table_after_ok] at same
        exact rows r (same ▸ mem)
  | _ => exact rows

theorem lifetimes_contract : (daemon (sem True) Started).Contract World.Fresh
    (fun w => Consistent w.table ∧ ∀ r ∈ w.table.rows, LegalLifetime (r.lifetime.getD 0))
    (fun _ => True) (Permits True) fun _ _ _ => True where
  start := fun w fresh => ⟨⟨fresh.consistent, by simp [fresh.1, Keyed.empty]⟩, trivial⟩
  task := fun _ _ _ keep _ => safe_task keep.1
  call := fun _ _ _ _ _ started _ _ keep permits _ =>
    ⟨permits.consistent keep.1, lifetimes_after permits started keep.2⟩
  finish := fun _ _ _ _ _ _ keep _ => ⟨keep, trivial⟩
  crash := fun _ keep => ⟨keep, trivial⟩

/-- Whatever the command lines of the daemon were: the lifetimes it has stored
are legal, so none is clamped when a row is read back. -/
theorem stored_lifetimes_legal {s : State Req Resp World Task}
    (reach : (daemon (sem True) Started).Reachable World.Fresh s) :
    ∀ r ∈ s.world.table.rows, LegalLifetime (r.lifetime.getD 0) ∧
      ∀ now, (r.toNode now).lifetime = r.lifetime.getD 0 := by
  intro r mem
  have legal := (lifetimes_contract.invariant reach).2 r mem
  exact ⟨legal, fun _ => clampLifetime_of_legal legal⟩

theorem stored_lifetimes_legal_sample : ∃ r ∈ sampleStored.table.rows,
    LegalLifetime (r.lifetime.getD 0) ∧ (r.toNode 0).lifetime = 3600 := by
  have accepted : parseArgs 64 false [.enableXor, .noClientIp, .lifetime "3600".toList] configInit =
      .ok { configInit with enableXor := true, useClientIp := false, defaultLifetime := 3600 } :=
        rfl
  have reach : (daemon (sem True) Started).Reachable World.Fresh (.idle sampleStored) := by
    unfold sampleStored
    exact (sample _).reachable_idle (.start ⟨rfl, rfl⟩) ⟨64, false, _, _, accepted, rfl⟩
      (by decide +kernel)
  obtain ⟨r, mem, lifetime⟩ : ∃ r ∈ sampleStored.table.rows, r.lifetime = some 3600 := by
    decide +kernel
  obtain ⟨legal, read⟩ := stored_lifetimes_legal reach r mem
  exact ⟨r, mem, legal, by rw [read, lifetime]; rfl⟩

end Lifetimes

end Tumgrd
