import Tumgrd.Footprint
import Tumgrd.Handlers

/-! The runs of `register`: what a request that is refused leaves behind, and
the stages of one that is stored. -/
namespace Tumgrd

open Effect Semantics

section Clock

@[simp] def Event.reading? : Event → Option Int
  | ⟨.time, now⟩ => some now
  | _ => none

/-- The clock readings so far, newest first. -/
def World.clock (w : World) : List Int := w.trace.filterMap Event.reading?

/-- `t` is the first clock reading between `w` and `v`. -/
def World.Reads (w v : World) (t : Int) : Prop := ∃ later, v.clock = later ++ t :: w.clock

variable {w v : World} {t t' : Int}

theorem World.clock_after (w : World) (q : Req) (r : Resp q) :
    (w.after q r).clock = (Event.reading? ⟨q, r⟩).toList ++ w.clock := by
  unfold clock
  rw [World.trace_after, List.filterMap_cons]
  cases Event.reading? ⟨q, r⟩ <;> rfl

theorem World.clock_suffix (later : w.trace <:+ v.trace) : w.clock <:+ v.clock := by
  exact later.filterMap _

theorem World.Reads.later {v' : World} (h : w.Reads v t) (later : v.trace <:+ v'.trace) :
    w.Reads v' t := by
  obtain ⟨recent, hrecent⟩ := h
  obtain ⟨new, hnew⟩ := World.clock_suffix later
  refine ⟨new ++ recent, ?_⟩
  rw [← hnew, hrecent, List.append_assoc]

theorem World.Reads.unique (h : w.Reads v t) (h' : w.Reads v t') : t = t' := by
  obtain ⟨later, hlater⟩ := h
  obtain ⟨later', hlater'⟩ := h'
  have same : (later ++ [t]) ++ w.clock = (later' ++ [t']) ++ w.clock := by
    simp only [List.append_assoc, List.singleton_append]
    rw [← hlater, hlater']
  have last := List.append_inj_right' (List.append_cancel_right same) rfl
  exact (List.cons.inj last).1

/-- `e` happened between `w` and `v`. -/
def World.Did (w v : World) (e : Event) : Prop :=
  ∃ recent, v.trace = recent ++ w.trace ∧ e ∈ recent

theorem World.Did.later {v' : World} {e : Event} (h : w.Did v e) (later : v.trace <:+ v'.trace) :
    w.Did v' e := by
  obtain ⟨recent, hrecent, happened⟩ := h
  obtain ⟨new, hnew⟩ := later
  refine ⟨new ++ recent, ?_, List.mem_append_right _ happened⟩
  rw [← hnew, hrecent, List.append_assoc]

theorem World.did_of_suffix {u : World} {e : Event} (before : w.trace <:+ u.trace)
    (after : e :: u.trace <:+ v.trace) : w.Did v e := by
  obtain ⟨earlier, hearlier⟩ := before
  obtain ⟨later, hlater⟩ := after
  refine ⟨later ++ e :: earlier, ?_, List.mem_append_right _ List.mem_cons_self⟩
  rw [← hlater, ← hearlier]
  simp

/-- What happened since a later world happened since an earlier one. -/
theorem World.Did.earlier {u : World} {e : Event} (h : u.Did v e) (before : w.trace <:+ u.trace) :
    w.Did v e := by
  obtain ⟨recent, hrecent, happened⟩ := h
  obtain ⟨earlier, hearlier⟩ := before
  refine ⟨recent ++ earlier, ?_, List.mem_append_left _ happened⟩
  rw [hrecent, ← hearlier, List.append_assoc]

end Clock

section Stages

variable {sqlMayFail : Prop} {cfg : Config} {args : RegisterArgs} {reg : Registration}
  {w v : World} {k : Key} {n : Node}

/-- What a lookup finds, and the clock reading it makes. -/
inductive Looked (w : World) (k : Key) : Lookup → World → Prop
  | failed {v : World} : Looked w k .failed v
  | absent {v : World} : w.table.find? k = none → v.clock = w.clock → Looked w k .absent v
  | found {v : World} {r : Row} {load : Int} : w.table.find? k = some r →
      r.lastAppliedAt < 0 ∧ v.clock = w.clock ∨ v.clock = load :: w.clock →
      Looked w k (.found (r.toNode load)) v

theorem looked_of_runs {lookup : Lookup}
    (runs : (sem sqlMayFail).Runs (dbGetNode k) w (.done lookup) v) :
    w.Keeps v ∧ Looked w k lookup v := by
  have safe : (sem sqlMayFail).Safe (fun _ _ => True) (dbGetNode k) w
      fun lookup v => w.Keeps v ∧ Looked w k lookup v := by
    simp only [dbGetNode, safe_bind, safe_sql, Stmt.Replies, true_and]
    refine ⟨?_, fun _ => ⟨World.keeps_after_error _, .failed⟩⟩
    rintro reply rfl
    have keeps := World.keeps_after (w := w) (q := .sql (.select k)) rfl
    cases hfind : w.table.find? k with
    | none => exact ⟨keeps _, .absent hfind (World.clock_after _ _ _)⟩
    | some r =>
      simp only [Option.toList_some, safe_bind, safe_pure, rowToNode]
      split
      · rename_i negative
        exact ⟨keeps _, .found hfind (.inl ⟨negative, World.clock_after _ _ _⟩)⟩
      · simp only [safe_bind, safe_time, safe_pure, true_and]
        intro now
        refine ⟨(keeps _).trans (World.keeps_after (q := .time) rfl now),
          .found hfind (.inr ?_)⟩
        rw [World.clock_after, World.clock_after]
        rfl
  exact safe.result runs

/-- A time that is set stays, one that is not is read from the clock. -/
def World.Stamps (w v : World) (t now : Int) : Prop :=
  now = t ∨ t = 0 ∧ w.Did v ⟨.time, now⟩

/-- The times an upsert stores: those of the node, or clock readings. -/
structure Stamped (w v : World) (n : Node) (createdAt lastUpdated : Int) : Prop where
  createdAt : w.Stamps v n.createdAt createdAt
  lastUpdated : w.Stamps v n.lastUpdated lastUpdated

theorem World.Stamps.within {u u' : World} {t now : Int} (h : u.Stamps u' t now)
    (before : w.trace <:+ u.trace) (after : u'.trace <:+ v.trace) : w.Stamps v t now := by
  exact h.imp_right fun ⟨zero, read⟩ => ⟨zero, (read.later after).earlier before⟩

theorem Stamped.within {u u' : World} {createdAt lastUpdated : Int}
    (h : Stamped u u' n createdAt lastUpdated) (before : w.trace <:+ u.trace)
    (after : u'.trace <:+ v.trace) : Stamped w v n createdAt lastUpdated :=
  ⟨h.createdAt.within before after, h.lastUpdated.within before after⟩

/-- The statement that stores `n`. -/
abbrev upsertOf (n : Node) (createdAt lastUpdated : Int) (setLifetime : Bool) : Req :=
  .sql (.upsert (n.withDefaults createdAt lastUpdated) setLifetime)

/-- The table with the row of `n` put in. -/
def Table.upsert? (t : Table) (n : Node) (createdAt lastUpdated : Int) (setLifetime : Bool) :
    Option Table :=
  t.put? Row.merge Row.key_merge Row.slot_merge
    (Row.ofNode (n.withDefaults createdAt lastUpdated) setLifetime)

theorem stamp_of_runs {t now : Int} (runs : (sem sqlMayFail).Runs (timeIfZero t) w (.done now) v) :
    w.Keeps v ∧ w.Stamps v t now := by
  unfold timeIfZero at runs
  split at runs
  · rename_i zero
    obtain ⟨-, rfl⟩ := runs_perform runs
    refine ⟨World.keeps_after (q := .time) rfl now, .inr ⟨zero, ?_⟩⟩
    exact ⟨[_], rfl, List.mem_singleton_self _⟩
  · obtain ⟨rfl, rfl⟩ := runs_pure runs
    exact ⟨.refl _, .inl rfl⟩

theorem upserted_of_runs {rc : Int} {setLifetime : Bool}
    (runs : (sem sqlMayFail).Runs (dbUpsertNode n setLifetime) w (.done rc) v) :
    rc ≠ 0 ∧ w.Keeps v ∨
      ∃ u createdAt lastUpdated t changes, rc = 0 ∧ w.Keeps u ∧
        Stamped w u n createdAt lastUpdated ∧
        Table.upsert? u.table n createdAt lastUpdated setLifetime = some t ∧
        v = u.after (upsertOf n createdAt lastUpdated setLifetime) (.ok [] changes) := by
  obtain ⟨createdAt, u₁, first, runs⟩ := runs_bind runs
  obtain ⟨lastUpdated, u, second, runs⟩ := runs_bind runs
  obtain ⟨reply, v', statement, runs⟩ := runs_bind runs
  obtain ⟨keeps₁, created⟩ := stamp_of_runs first
  obtain ⟨keeps₂, updated⟩ := stamp_of_runs second
  obtain ⟨replied, rfl⟩ := runs_perform statement
  have keeps := keeps₁.trans keeps₂
  cases reply with
  | error =>
    obtain ⟨rfl, rfl⟩ := runs_pure runs
    exact .inl ⟨by decide, keeps.trans (World.keeps_after_error _)⟩
  | ok rows changes =>
    obtain ⟨rfl, rfl⟩ := runs_pure runs
    rcases replied with replied | ⟨-, failed⟩
    · simp only [Stmt.Replies] at replied
      split at replied
      · contradiction
      · rename_i free
        obtain ⟨rfl, rfl⟩ := SqlReply.ok.inj replied
        obtain ⟨t, ht⟩ := Option.ne_none_iff_exists'.mp
          (mt Keyed.put?_eq_none.mp free : u.table.put? Row.merge Row.key_merge Row.slot_merge
            (Row.ofNode (n.withDefaults createdAt lastUpdated) setLifetime) ≠ none)
        refine .inr ⟨u, createdAt, lastUpdated, t, 1, rfl, keeps, ⟨?_, ?_⟩, ht, rfl⟩
        · exact created.within (List.suffix_refl _) keeps₂.trace
        · exact updated.within keeps₁.trace (List.suffix_refl _)
    · contradiction

/-- The node a registration starts from, with the fields that it always sets. -/
inductive Drafted (cfg : Config) (reg : Registration) (w v : World) : Action → Node → Prop
  | updated {r : Row} {load : Int} : w.table.find? reg.key = some r →
      r.lastAppliedAt < 0 ∨ w.Reads v load →
        Drafted cfg reg w v .updated (reg.fill (r.toNode load))
  | plain {load : Int} : w.table.find? reg.key = none → cfg.enableXor = false →
      w.Reads v load → Drafted cfg reg w v .created (reg.fill (.fresh cfg load))
  | keyed {load : Int} {key : HexKey} : w.table.find? reg.key = none → cfg.enableXor = true →
      w.Reads v load → w.Did v ⟨.randomKey, some key⟩ →
      Drafted cfg reg w v .created { reg.fill (.fresh cfg load) with xorKey := key.buf }

theorem Drafted.later {v' : World} {action : Action} (h : Drafted cfg reg w v action n)
    (later : v.trace <:+ v'.trace) : Drafted cfg reg w v' action n := by
  cases h with
  | updated found reading => exact .updated found (reading.imp_right fun reads => reads.later later)
  | plain absent off reads => exact .plain absent off (reads.later later)
  | keyed absent on reads generated =>
    exact .keyed absent on (reads.later later) (generated.later later)

/-- The reply to a registration that was stored. -/
def registerReply (action : Action) (err : Int) (n : Node) : Fields :=
  textField "status" (if err = 0 then "ok" else "stored_but_apply_failed").toList ++
    textField "action" action.text ++ [("applied".toList, .u8 (err = 0))] ++ nodeBrief n

/-- The stages of a registration that is stored: the draft, the node with all
attributes, the upsert, the call. -/
structure Registering (sqlMayFail : Prop) (cfg : Config) (args : RegisterArgs) (w : World)
    (reg : Registration) (action : Action) (base n : Node) (createdAt lastUpdated : Int)
    (u u' : World) (err : Int) (v : World) : Prop where
  check : args.check = some reg
  keeps : w.Keeps u
  drafted : Drafted cfg reg w u action base
  finish : args.finish reg base = some n
  stamped : Stamped w u n createdAt lastUpdated
  stored : Table.upsert? u.table n createdAt lastUpdated
    (action = .created || args.lifetime.isSome) = some u'.table
  statement : ∃ changes, u' = u.after
    (upsertOf n createdAt lastUpdated (action = .created || args.lifetime.isSome)) (.ok [] changes)
  called : ∃ m v', (sem sqlMayFail).Runs (reconcileOne cfg n true) u' (.done (err, m)) v' ∧
    v'.Keeps v

/-- A request is refused, and nothing happened, or it went through all stages. -/
inductive RegisterRun (sqlMayFail : Prop) (cfg : Config) (args : RegisterArgs) (w : World) :
    UbusReply → World → Prop
  | refused {reply : UbusReply} {v : World} : w.Keeps v → (∀ fields, reply ≠ .ok fields) →
      RegisterRun sqlMayFail cfg args w reply v
  | stored {reg : Registration} {action : Action} {base n final : Node}
      {createdAt lastUpdated err : Int} {u u' v : World} :
      Registering sqlMayFail cfg args w reg action base n createdAt lastUpdated u u' err v →
      (∃ p, (sem sqlMayFail).Runs (handleRegister cfg args) w p u' ∧
        (sem sqlMayFail).Runs p u' (.done (.ok (registerReply action err final))) v) →
      RegisterRun sqlMayFail cfg args w (.ok (registerReply action err final)) v

theorem registerRun_of_finish {action : Action} {base : Node} {u : World} {reply : UbusReply}
    (check : args.check = some reg) (keeps : w.Keeps u) (drafted : Drafted cfg reg w u action base)
    (leads : ∀ p v', (sem sqlMayFail).Runs (finishRegister cfg args reg action base) u p v' →
      (sem sqlMayFail).Runs (handleRegister cfg args) w p v')
    (runs : (sem sqlMayFail).Runs (finishRegister cfg args reg action base) u (.done reply) v) :
    RegisterRun sqlMayFail cfg args w reply v := by
  unfold finishRegister at runs leads
  cases finish : args.finish reg base with
  | none =>
    rw [finish] at runs
    obtain ⟨rfl, rfl⟩ := runs_pure runs
    exact .refused keeps (by simp)
  | some n =>
    rw [finish] at runs leads
    obtain ⟨rc, u', upsert, runs⟩ := runs_bind runs
    rcases upserted_of_runs upsert with
      ⟨failed, keeps'⟩ |
      ⟨u'', createdAt, lastUpdated, t, changes, rfl, keeps', stamped, put, rfl⟩
    · rw [if_pos failed] at runs
      obtain ⟨rfl, rfl⟩ := runs_pure runs
      exact .refused (keeps.trans keeps') (by simp)
    · have stored := leads _ _ (upsert.bind _)
      have replies := runs
      rw [if_neg (by decide)] at runs
      obtain ⟨⟨err, m⟩, v', call, runs⟩ := runs_bind runs
      obtain ⟨lookup, v'', get, runs⟩ := runs_bind runs
      obtain ⟨rfl, rfl⟩ := runs_pure runs
      have table : (u''.after (upsertOf n createdAt lastUpdated
          (action = .created || args.lifetime.isSome)) (.ok [] changes)).table = t := by
        unfold Table.upsert? at put
        rw [World.table_after_ok, Stmt.effect, put, Option.getD_some]
      exact .stored ⟨check, keeps.trans keeps', drafted.later keeps'.trace, finish,
        stamped.within keeps.trace (List.suffix_refl _),
        table ▸ put, ⟨changes, rfl⟩, m, v', call, (looked_of_runs get).1⟩
          ⟨_, stored, replies⟩

theorem registerRun_of_runs {reply : UbusReply}
    (runs : (sem sqlMayFail).Runs (handleRegister cfg args) w (.done reply) v) :
    RegisterRun sqlMayFail cfg args w reply v := by
  unfold handleRegister at runs
  cases check : args.check with
  | none =>
    rw [check] at runs
    obtain ⟨rfl, rfl⟩ := runs_pure runs
    exact .refused (.refl _) (by simp)
  | some reg =>
    rw [check] at runs
    obtain ⟨start, u, base, runs⟩ := runs_bind runs
    have drafting := base
    -- the stages so far, in front of the last one
    have leads : ∀ {action : Action} {m n : Node} {u' : World}, start = some (action, m) →
        (sem sqlMayFail).Runs (registerXor cfg action (reg.fill m)) u (.done (some n)) u' →
        ∀ p v', (sem sqlMayFail).Runs (finishRegister cfg args reg action n) u' p v' →
          (sem sqlMayFail).Runs (handleRegister cfg args) w p v' := by
      rintro action m n u' rfl key p v' rest
      unfold handleRegister
      rw [check]
      exact drafting.seq _ (key.seq _ rest)
    unfold registerBase at base
    obtain ⟨lookup, u₁, get, base⟩ := runs_bind base
    obtain ⟨keeps, looked⟩ := looked_of_runs get
    cases looked with
    | failed =>
      obtain ⟨rfl, rfl⟩ := runs_pure base
      obtain ⟨rfl, rfl⟩ := runs_pure runs
      exact .refused keeps (by simp)
    | found found reading =>
      obtain ⟨rfl, rfl⟩ := runs_pure base
      obtain ⟨xor, u₂, key, runs⟩ := runs_bind runs
      have drawn := key
      obtain ⟨rfl, rfl⟩ := runs_pure key
      refine registerRun_of_finish check keeps (.updated found ?_) (leads rfl drawn) runs
      exact reading.imp And.left fun clock => ⟨[], clock⟩
    | absent absent clock =>
      obtain ⟨now, u₂, reading, base⟩ := runs_bind base
      obtain ⟨-, rfl⟩ := runs_perform reading
      obtain ⟨rfl, rfl⟩ := runs_pure base
      have keeps' := keeps.trans (World.keeps_after (q := .time) rfl now)
      have reads : w.Reads (u₁.after .time now) now := by
        refine ⟨[], ?_⟩
        rw [World.clock_after, clock]
        rfl
      obtain ⟨xor, u₃, key, runs⟩ := runs_bind runs
      have drawn := key
      unfold registerXor at key
      cases on : cfg.enableXor with
      | false =>
        rw [on] at key
        obtain ⟨rfl, rfl⟩ := runs_pure key
        exact registerRun_of_finish check keeps' (.plain absent on reads) (leads rfl drawn) runs
      | true =>
        rw [on] at key
        obtain ⟨generated, u₄, random, key⟩ := runs_bind key
        obtain ⟨-, rfl⟩ := runs_perform random
        have keeps'' := keeps'.trans (World.keeps_after (q := .randomKey) rfl generated)
        cases generated with
        | none =>
          obtain ⟨rfl, rfl⟩ := runs_pure key
          obtain ⟨rfl, rfl⟩ := runs_pure runs
          exact .refused keeps'' (by simp)
        | some generated =>
          obtain ⟨rfl, rfl⟩ := runs_pure key
          refine registerRun_of_finish check keeps'' (.keyed absent on ?_ ?_) (leads rfl drawn) runs
          · exact reads.later (List.suffix_cons _ _)
          · exact World.did_of_suffix keeps'.trace (List.suffix_refl _)

end Stages

end Tumgrd
