import Mathlib.Data.Option.Basic
import Tumgrd.Ubus
import Tumgrd.Consistent

/-! Proof rules for the methods: what a handler leads up to each call of
`tumgrd_reconcile_one` with. -/
namespace Tumgrd

open Effect Semantics

variable {sqlMayFail : Prop} {P : World → Req → Prop} {w : World} {cfg : Config}

section Registration

variable {args : RegisterArgs} {reg : Registration} {n m : Node}

/-- The primary key of the row a registration writes. -/
def Registration.storedKey (reg : Registration) : Key :=
  ⟨(Buf.copy reg.key.serverHost : Buf 256).text, reg.key.serverPort,
    (Buf.copy reg.key.uid : Buf 128).text, reg.ipVersion.text⟩

theorem RegisterArgs.ipVersion_of_check (h : args.check = some reg) :
    reg.key.ipVersion = reg.ipVersion.text := by
  simp only [RegisterArgs.check, Option.bind_eq_bind, Option.bind_eq_some_iff, Option.pure_def,
    Option.some.injEq] at h
  obtain ⟨_, -, _, -, _, -, _, -, _, -, _, -, _, -, _, -, _, -, rfl⟩ := h
  rfl

/-- A lifetime that `register` accepts. -/
def LegalLifetime (lifetime : Int) : Prop :=
  lifetime = 0 ∨ lifetimeMin ≤ lifetime ∧ lifetime ≤ lifetimeMax

theorem clampLifetime_of_legal {lifetime : Int} (h : LegalLifetime lifetime) :
    clampLifetime lifetime = lifetime := by
  unfold clampLifetime
  rw [if_neg]
  rintro ⟨nonzero, low | high⟩
  · exact h.elim nonzero fun h => Int.not_le.mpr low h.1
  · exact h.elim nonzero fun h => Int.not_le.mpr high h.2

/-- What the optional attributes leave of the node they are applied to. -/
structure Finished (args : RegisterArgs) (reg : Registration) (n m : Node) : Prop where
  key : m.key = { n.key with ipVersion := reg.ipVersion.text }
  rotationState : m.rotationState = n.rotationState
  xorKeyPending : m.xorKeyPending = n.xorKeyPending
  lastAppliedAt : m.lastAppliedAt = n.lastAppliedAt
  xorKey : n.rotationState ≠ rotationNone → m.xorKey = n.xorKey
  lifetimeKept : args.lifetime = none → m.lifetime = n.lifetime
  lifetimeSet : args.lifetime ≠ none → LegalLifetime m.lifetime

theorem finished_of_finish (h : args.finish reg n = some m) : Finished args reg n m := by
  simp only [RegisterArgs.finish, Option.bind_eq_bind, Option.bind_eq_some_iff] at h
  obtain ⟨a, hxor, hlifetime⟩ := h
  have first : a.key = { n.key with ipVersion := reg.ipVersion.text } ∧
      a.rotationState = n.rotationState ∧ a.xorKeyPending = n.xorKeyPending ∧
      a.lastAppliedAt = n.lastAppliedAt ∧ a.lifetime = n.lifetime ∧
      (n.rotationState ≠ rotationNone → a.xorKey = n.xorKey) := by
    unfold RegisterArgs.overrideXor at hxor
    split at hxor
    · cases hxor
      exact ⟨rfl, rfl, rfl, rfl, rfl, fun _ => rfl⟩
    · simp only [Option.bind_eq_bind, Option.bind_eq_some_iff, Option.guard_eq_some',
        Option.pure_def, Option.some.injEq] at hxor
      obtain ⟨-, -, -, resting, rfl⟩ := hxor
      exact ⟨rfl, rfl, rfl, rfl, rfl, fun rotating => absurd resting rotating⟩
  obtain ⟨hkey, hstate, hpending, happlied, hsame, hkept⟩ := first
  unfold RegisterArgs.overrideLifetime at hlifetime
  split at hlifetime
  · rename_i absent
    cases hlifetime
    exact ⟨hkey, hstate, hpending, happlied, hkept, fun _ => hsame,
      fun set => absurd absent set⟩
  · rename_i value present
    simp only [Option.bind_eq_bind, Option.bind_eq_some_iff, Option.guard_eq_some',
      Option.pure_def, Option.some.injEq] at hlifetime
    obtain ⟨-, low, -, high, rfl⟩ := hlifetime
    refine ⟨hkey, hstate, hpending, happlied, hkept, fun absent => ?_, fun _ => ?_⟩
    · rw [present] at absent
      contradiction
    · simp only [LegalLifetime, lifetimeMin, lifetimeMax] at *
      omega

/-- The node a registration starts from when it found none. -/
inductive Registration.Drafts (cfg : Config) (reg : Registration) : Node → Prop
  | plain {load : Int} : cfg.enableXor = false → Drafts cfg reg (reg.fill (.fresh cfg load))
  | keyed {load : Int} {key : HexKey} : cfg.enableXor = true →
      Drafts cfg reg { reg.fill (.fresh cfg load) with xorKey := key.buf }

/-- The node that a registration stores and applies, and its `set_lifetime`. -/
inductive Registers (cfg : Config) (args : RegisterArgs) (reg : Registration) (w₀ w : World) :
    Node → Bool → Prop
  | updated {r : Row} {old n : Node} : w₀.table.find? reg.key = some r → Loaded w₀ w r old →
      args.finish reg (reg.fill old) = some n →
        Registers cfg args reg w₀ w n args.lifetime.isSome
  | created {base n : Node} : w₀.table.find? reg.key = none →
      { base.key with ipVersion := reg.ipVersion.text } = reg.storedKey →
      base.rotationState = rotationNone → base.xorKeyPending = .empty →
      args.finish reg base = some n → reg.Drafts cfg base → Registers cfg args reg w₀ w n true

end Registration

section Register

variable {args : RegisterArgs} {reg : Registration} {w₀ : World} {n : Node} {s : Bool}

/-- The times in memory are those of the row, as they were read since `w₀`. -/
def Timed (w₀ w : World) (n : Node) (r : Row) : Prop :=
  ∃ load, n.lastAppliedAt = clampAppliedAt load r.lastAppliedAt ∧
    n.lifetime = clampLifetime (r.lifetime.getD 0) ∧
    (r.lastAppliedAt < 0 ∨ ∃ recent, w.trace = recent ++ w₀.trace ∧
      ⟨.time, load⟩ ∈ recent)

theorem Loaded.timed {r : Row} (h : Loaded w₀ w r n) : Timed w₀ w n r := by
  obtain ⟨load, rfl, reading⟩ := h
  exact ⟨load, rfl, rfl, reading⟩

theorem Timed.later {r : Row} {w' : World} (h : Timed w₀ w n r) (later : w.trace <:+ w'.trace) :
    Timed w₀ w' n r := by
  obtain ⟨load, happlied, hlifetime, negative | ⟨recent, hrecent, hmem⟩⟩ := h
  · exact ⟨load, happlied, hlifetime, .inl negative⟩
  · obtain ⟨new, hnew⟩ := later
    refine ⟨load, happlied, hlifetime,
      .inr ⟨new ++ recent, ?_, List.mem_append_right _ hmem⟩⟩
    rw [← hnew, hrecent, List.append_assoc]

/-- The call a registration leads to: for the node it stored, on the row it wrote. -/
structure Registered (cfg : Config) (reg : Registration) (w₀ w : World) (c : Call) : Prop where
  cfg : c.cfg = cfg
  force : c.force = true
  table : w.table = c.table
  consistent : Consistent w.table
  commands : w.commands = c.commands
  earlier : c.commands = w₀.commands
  booting : w.booting = w₀.booting
  trace : w₀.trace <:+ w.trace
  others : ∀ k, k ≠ c.key → c.table.find? k = w₀.table.find? k
  origin : reg.key = c.key ∧ w₀.table.find? reg.key ≠ none ∧ c.faithful = true ∧
      Timed w₀ w c.node c.row ∨
    w₀.table.find? reg.key = none ∧ reg.storedKey = c.key ∧
      (w₀.table.find? c.key = none → c.faithful = true)

theorem Registers.later {w' : World} (h : Registers cfg args reg w₀ w n s)
    (later : w.trace <:+ w'.trace) : Registers cfg args reg w₀ w' n s := by
  cases h with
  | updated found loaded finish => exact .updated found (loaded.later later) finish
  | created absent key state pending finish drafts =>
    exact .created absent key state pending finish drafts

theorem key_of_created {base : Node}
    (key : { base.key with ipVersion := reg.ipVersion.text } = reg.storedKey)
    (finish : args.finish reg base = some n) : n.key = reg.storedKey := by
  rw [(finished_of_finish finish).key, key]

/-- Texts that were found in the table fit the node's buffers. -/
theorem key_of_updated {r : Row} {old : Node} (check : args.check = some reg)
    (found : w₀.table.find? reg.key = some r) (loaded : Loaded w₀ w r old)
    (finish : args.finish reg (reg.fill old) = some n) : n.key = reg.key := by
  have old_key := loaded.key.trans (Keyed.find?_eq_some.mp found).2
  have host : old.serverHost.text = reg.key.serverHost := congrArg Key.serverHost old_key
  have uid : old.uid.text = reg.key.uid := congrArg Key.uid old_key
  have hhost : (Buf.copy reg.key.serverHost : Buf 256) = old.serverHost := by
    rw [← host, Buf.copy_text]
  have huid : (Buf.copy reg.key.uid : Buf 128) = old.uid := by rw [← uid, Buf.copy_text]
  rw [(finished_of_finish finish).key]
  simp only [Node.key, Registration.fill, hhost, huid, host, uid,
    ← RegisterArgs.ipVersion_of_check check]

/-- What makes the upsert keep the table consistent. -/
theorem Registers.node (h : Registers cfg args reg w₀ w n s) (check : args.check = some reg) :
    n.rotationState = rotationNone ∧ n.xorKeyPending = .empty ∨
      ∃ r, w₀.table.find? n.key = some r := by
  cases h with
  | created absent key state pending finish =>
    have finished := finished_of_finish finish
    exact .inl ⟨finished.rotationState.trans state, finished.xorKeyPending.trans pending⟩
  | updated found loaded finish =>
    exact .inr ⟨_, key_of_updated check found loaded finish ▸ found⟩

/-- The node a registration stores and the row it leaves, as the call on them
finds them. -/
structure Stored (reg : Registration) (w₀ w : World) (n : Node) (r : Row) (faithful : Bool) :
    Prop where
  linked : Linked faithful n r
  clientPort : r.clientPort = n.clientPort
  origin : reg.key = n.key ∧ w₀.table.find? reg.key ≠ none ∧ faithful = true ∧
    Timed w₀ w n r ∨
    w₀.table.find? reg.key = none ∧ reg.storedKey = n.key ∧
      (w₀.table.find? n.key = none → faithful = true)

theorem stored_of_updated {r : Row} {old : Node} {createdAt lastUpdated : Int}
    (check : args.check = some reg) (found : w₀.table.find? reg.key = some r)
    (loaded : Loaded w₀ w r old) (finish : args.finish reg (reg.fill old) = some n) :
    Stored reg w₀ w n
      (r.merge (Row.ofNode (n.withDefaults createdAt lastUpdated) args.lifetime.isSome)) true := by
  have finished := finished_of_finish finish
  have hkey := key_of_updated check found loaded finish
  have timed := loaded.timed
  obtain ⟨load, rfl, -⟩ := loaded
  refine ⟨.faithful ⟨?_, finished.rotationState.symm, finished.xorKeyPending.symm⟩, rfl,
    .inl ⟨hkey.symm, by simp [found], rfl, ?_⟩⟩
  · simp only [Row.merge]
    split
    · rename_i rotating
      exact (finished.xorKey rotating).symm
    · exact columnText_bind _
  · obtain ⟨load, happlied, hlifetime, reading⟩ := timed
    refine ⟨load, finished.lastAppliedAt.trans happlied, ?_, reading⟩
    cases given : args.lifetime with
    | none =>
      rw [finished.lifetimeKept given]
      exact hlifetime
    | some value =>
      simp only [Row.merge, Row.ofNode, Option.isSome_some, if_true, Option.some_or,
        Option.getD_some]
      exact (clampLifetime_of_legal (finished.lifetimeSet (by simp [given]))).symm

theorem linked_fresh (n : Node) (createdAt lastUpdated : Int) (s : Bool) :
    Linked true n (Row.ofNode (n.withDefaults createdAt lastUpdated) s) :=
  .faithful ⟨columnText_bind _, rfl, columnText_bind _⟩

theorem stored_of_created {base : Node} {createdAt lastUpdated : Int}
    (consistent : Consistent w₀.table) (absent : w₀.table.find? reg.key = none)
    (key : { base.key with ipVersion := reg.ipVersion.text } = reg.storedKey)
    (state : base.rotationState = rotationNone)
    (pending : base.xorKeyPending = .empty) (finish : args.finish reg base = some n) :
    ∃ faithful, Stored reg w₀ w n
      ((w₀.table.find? n.key).elim (Row.ofNode (n.withDefaults createdAt lastUpdated) true)
        fun old => old.merge (Row.ofNode (n.withDefaults createdAt lastUpdated) true))
            faithful := by
  have finished := finished_of_finish finish
  have hkey := key_of_created key finish
  have state : n.rotationState = rotationNone := finished.rotationState.trans state
  have pending : n.xorKeyPending = .empty := finished.xorKeyPending.trans pending
  cases hold : w₀.table.find? n.key with
  | none =>
    exact ⟨true, linked_fresh n _ _ true, rfl, .inr ⟨absent, hkey.symm, fun _ => rfl⟩⟩
  | some old =>
    by_cases resting : old.rotationState = rotationNone
    · refine ⟨true, .faithful ⟨?_, resting.trans state.symm, ?_⟩, rfl,
        .inr ⟨absent, hkey.symm, fun _ => rfl⟩⟩
      · simp only [Option.elim_some, Row.merge, resting, ne_eq, not_true_eq_false, if_false]
        exact columnText_bind _
      · rw [pending]
        exact (consistent _ _ hold).pending_of_resting resting
    · exact ⟨false, .stale state resting, rfl, .inr ⟨absent, hkey.symm, by simp [hold]⟩⟩

theorem Registers.stored (h : Registers cfg args reg w₀ w n s) (check : args.check = some reg)
    (consistent : Consistent w₀.table) (createdAt lastUpdated : Int) :
    ∃ faithful, Stored reg w₀ w n
      ((w₀.table.find? n.key).elim (Row.ofNode (n.withDefaults createdAt lastUpdated) s)
        fun old => old.merge (Row.ofNode (n.withDefaults createdAt lastUpdated) s)) faithful := by
  cases h with
  | created absent key state pending finish =>
    exact stored_of_created consistent absent key state pending finish
  | updated found loaded finish =>
    rw [key_of_updated check found loaded finish, found]
    exact ⟨true, stored_of_updated check found loaded finish⟩

/-- The upsert, the call on the row it wrote, and the look back at it. -/
theorem safe_storeAndApply {action : Action} {Q : World → Prop}
    (quiet : ∀ w q, q.quiet = true → P w q)
    (check : args.check = some reg) (consistent : Consistent w₀.table) (keeps : w₀.Keeps w)
    (registers : Registers cfg args reg w₀ w n s)
    (upsert : ∀ v createdAt lastUpdated, w.Keeps v →
      P v (.sql (.upsert (n.withDefaults createdAt lastUpdated) s)))
    (apply : ∀ v (c : Call), Registered cfg reg w₀ v c →
      (sem sqlMayFail).Safe P (reconcileOne c.cfg c.node c.force) v
        fun _ v' => ∀ v'', v'.Keeps v'' → Q v'')
    (rest : ∀ v, w₀.Keeps v → Q v) :
    (sem sqlMayFail).Safe P (storeAndApply cfg action s n) w fun _ => Q := by
  simp only [storeAndApply, safe_bind]
  refine safe_dbUpsertNode quiet upsert
    (fun v createdAt lastUpdated changes hv free => ?_) fun v hv => rest v (keeps.trans hv)
  rw [if_neg (by decide)]
  simp only [safe_bind, safe_pure]
  have hkeeps := keeps.trans hv
  obtain ⟨t', hput⟩ := Option.ne_none_iff_exists'.mp
    (mt Keyed.put?_eq_none.mp free : v.table.put? Row.merge Row.key_merge Row.slot_merge
      (Row.ofNode (n.withDefaults createdAt lastUpdated) s) ≠ none)
  have htable : (v.after (.sql (.upsert (n.withDefaults createdAt lastUpdated) s))
      (.ok [] changes)).table = t' := by
    simp only [World.table_after_ok, Stmt.effect, hput, Option.getD_some]
  have hrow := Keyed.find?_put_self hput
  rw [hkeeps.table] at hrow
  obtain ⟨faithful, stored⟩ := registers.stored check consistent createdAt lastUpdated
  let c : Call := ⟨cfg, n, true, t', w₀.commands, _, faithful, hrow, stored.clientPort,
    stored.linked⟩
  refine (apply _ c ⟨rfl, rfl, htable, ?_, ?_, rfl, hkeeps.booting, ?_,
    fun k hk => ?_, ?_⟩).post
    fun result v' post => ?_
  · rw [World.table_after_ok, hkeeps.table]
    exact consistent.upsert (registers.node check)
  · rw [World.commands_after_sql, hkeeps.commands]
  · exact hkeeps.trace.trans (List.suffix_cons _ _)
  · rw [Keyed.find?_put_of_ne hput hk, hkeeps.table]
  · rcases stored.origin with ⟨hkey, present, faithful, timed⟩ | created
    · exact .inl ⟨hkey, present, faithful,
        timed.later (hv.trace.trans (List.suffix_cons _ _))⟩
    · exact .inr created
  · exact safe_dbGetNode quiet (fun _ _ v'' _ hk _ => post v'' hk) (fun v'' _ hk => post v'' hk)
      fun v'' hk => post v'' hk

/-- A registration that gets as far as the lookup goes on to store and apply a
node, or ends there. -/
theorem safe_handleRegister_stores {Q : World → Prop} (quiet : ∀ w q, q.quiet = true → P w q)
    (store : ∀ v reg action n s, args.check = some reg → w.Keeps v →
      Registers cfg args reg w v n s →
      (sem sqlMayFail).Safe P (storeAndApply cfg action s n) v fun _ => Q)
    (rest : ∀ v, w.Keeps v → Q v) :
    (sem sqlMayFail).Safe P (handleRegister cfg args) w fun _ => Q := by
  unfold handleRegister
  cases check : args.check with
  | none => exact rest w (.refl w)
  | some reg =>
    have finishing : ∀ v action n, w.Keeps v →
        (∀ m, args.finish reg n = some m →
          Registers cfg args reg w v m (action = .created || args.lifetime.isSome)) →
        (sem sqlMayFail).Safe P (finishRegister cfg args reg action n) v fun _ => Q := by
      intro v action n keeps registers
      unfold finishRegister
      cases finish : args.finish reg n with
      | none => exact rest v keeps
      | some m => exact store v reg action m _ check keeps (registers m finish)
    simp only [registerBase, safe_bind]
    refine safe_dbGetNode quiet (fun r old v found keeps loaded => ?_) (fun v absent keeps => ?_)
      fun v keeps => rest v keeps
    · simp only [safe_bind, safe_pure, registerXor]
      rw [if_neg (by simp)]
      exact finishing v _ _ keeps fun m finish => .updated found loaded finish
    · simp only [safe_bind, safe_time, safe_pure]
      refine ⟨quiet _ _ rfl, fun now => ?_⟩
      have keeps' := keeps.trans (World.keeps_after (q := .time) rfl now)
      unfold registerXor
      split
      · rename_i on
        simp only [safe_bind, safe_randomKey]
        refine ⟨quiet _ _ rfl, fun key => ?_⟩
        have keeps'' := keeps'.trans (World.keeps_after (q := .randomKey) rfl key)
        cases key with
        | none => exact rest _ keeps''
        | some key =>
          exact finishing _ _ _ keeps'' fun m finish =>
            .created absent rfl rfl rfl finish (.keyed on.2)
      · rename_i off
        have off : cfg.enableXor = false := by simpa using off
        exact finishing _ _ _ keeps' fun m finish =>
          .created absent rfl rfl rfl finish (.plain off)

/-- It ends in one upsert and one call, or in neither. -/
theorem safe_handleRegister {Q : World → Prop} (quiet : ∀ w q, q.quiet = true → P w q)
    (consistent : Consistent w.table)
    (upsert : ∀ v reg n s createdAt lastUpdated, args.check = some reg → w.Keeps v →
      Registers cfg args reg w v n s →
      P v (.sql (.upsert (n.withDefaults createdAt lastUpdated) s)))
    (apply : ∀ v reg (c : Call), args.check = some reg → Registered cfg reg w v c →
      (sem sqlMayFail).Safe P (reconcileOne c.cfg c.node c.force) v
        fun _ v' => ∀ v'', v'.Keeps v'' → Q v'')
    (rest : ∀ v, w.Keeps v → Q v) :
    (sem sqlMayFail).Safe P (handleRegister cfg args) w fun _ => Q := by
  refine safe_handleRegister_stores quiet (fun v reg action n s check keeps registers => ?_) rest
  refine safe_storeAndApply quiet check consistent keeps registers ?_
    (fun v' c => apply v' reg c check) rest
  intro v' createdAt lastUpdated keeps'
  exact upsert v' reg n s _ _ check (keeps.trans keeps') (registers.later keeps'.trace)

end Register

section Refresh

variable {force : Bool} {w₀ : World}

/-- The nodes of a list that are still to be reconciled: read since `w₀` from
rows that are stored unchanged. -/
structure Waiting (w₀ : World) (nodes : List Node) (w : World) : Prop where
  keys : (nodes.map Node.key).Nodup
  loaded : ∀ n ∈ nodes, ∃ r, w.table.find? n.key = some r ∧ Loaded w₀ w r n

/-- A call for a node read since `w₀`. -/
structure Refreshed (cfg : Config) (force : Bool) (w₀ w : World) (c : Call) : Prop where
  cfg : c.cfg = cfg
  force : c.force = force
  table : w.table = c.table
  commands : w.commands = c.commands
  faithful : c.faithful = true
  loaded : Loaded w₀ w c.row c.node

theorem refreshed_of_loaded {n : Node} {r : Row} (cfg : Config) (force : Bool)
    (stored : w.table.find? n.key = some r) (loaded : Loaded w₀ w r n) :
    ∃ c : Call, c.node = n ∧ c.row = r ∧ Refreshed cfg force w₀ w c := by
  obtain ⟨load, rfl, reading⟩ := loaded
  exact ⟨r.call cfg force load w stored, rfl, rfl, rfl, rfl, rfl, rfl, rfl, load, rfl, reading⟩

theorem Waiting.head {n : Node} {rest : List Node} (h : Waiting w₀ (n :: rest) w) (cfg : Config)
    (force : Bool) : ∃ c : Call, c.node = n ∧ Refreshed cfg force w₀ w c := by
  obtain ⟨r, hr, hloaded⟩ := h.loaded n List.mem_cons_self
  obtain ⟨c, hn, -, hc⟩ := refreshed_of_loaded cfg force hr hloaded
  exact ⟨c, hn, hc⟩

theorem Waiting.tail {n : Node} {rest : List Node} {v : World} (h : Waiting w₀ (n :: rest) w)
    (others : ∀ k, k ≠ n.key → v.table.find? k = w.table.find? k)
    (later : w.trace <:+ v.trace) : Waiting w₀ rest v := by
  have keys := h.keys
  rw [List.map_cons, List.nodup_cons] at keys
  refine ⟨keys.2, fun m hm => ?_⟩
  obtain ⟨r, hr, hloaded⟩ := h.loaded m (List.mem_cons_of_mem _ hm)
  refine ⟨r, ?_, hloaded.later later⟩
  rw [others m.key fun same => keys.1 (same ▸ List.mem_map_of_mem hm)]
  exact hr

/-- The loop of `tumgrd_reconcile_all`, whose nodes stay as they were read until
their turn. -/
theorem safe_reconcileNodes {I : List Node → World → Prop} {nodes : List Node}
    (body : ∀ (c : Call) rest v, Refreshed cfg force w₀ v c →
      Waiting w₀ (c.node :: rest) v →
      I (c.node :: rest) v → (sem sqlMayFail).Safe P (reconcileOne c.cfg c.node c.force) v
        fun _ v' => I rest v' ∧ (∀ k, k ≠ c.key → v'.table.find? k = v.table.find? k) ∧
          v.trace <:+ v'.trace)
    (waiting : Waiting w₀ nodes w) (start : I nodes w) :
    (sem sqlMayFail).Safe P (reconcileNodes cfg force nodes) w fun _ => I [] := by
  induction nodes generalizing w with
  | nil => exact start
  | cons n rest ih =>
    obtain ⟨c, rfl, hc⟩ := waiting.head cfg force
    have hbody := body c rest w hc waiting start
    rw [hc.cfg, hc.force] at hbody
    simp only [reconcileNodes, safe_bind]
    refine hbody.post ?_
    rintro result v ⟨hI, others, later⟩
    exact ih (waiting.tail others later) hI

theorem safe_reconcileAll {I : List Node → World → Prop} {Q : World → Prop}
    (quiet : ∀ w q, q.quiet = true → P w q)
    (start : ∀ nodes v, w.Keeps v → Waiting w nodes v →
      (∀ r ∈ v.table.rows, r.key ∈ nodes.map Node.key) → I nodes v)
    (body : ∀ (c : Call) rest v, Refreshed cfg force w v c → Waiting w (c.node :: rest) v →
      I (c.node :: rest) v → (sem sqlMayFail).Safe P (reconcileOne c.cfg c.node c.force) v
        fun _ v' => I rest v' ∧ (∀ k, k ≠ c.key → v'.table.find? k = v.table.find? k) ∧
          v.trace <:+ v'.trace)
    (finish : ∀ v, I [] v → Q v) (failed : sqlMayFail → ∀ v, w.Keeps v → Q v) :
    (sem sqlMayFail).Safe P (reconcileAll cfg force) w fun _ => Q := by
  simp only [reconcileAll, safe_bind]
  refine safe_dbListNodes quiet (fun nodes v keeps loaded keys all => ?_)
    fun may v keeps => failed may v keeps
  have waiting : Waiting w nodes v := by
    refine ⟨keys, fun n hn => ?_⟩
    rw [keeps.table]
    exact loaded n hn
  rw [← keeps.table] at all
  simp only [safe_bind, safe_pure]
  exact (safe_reconcileNodes body waiting (start nodes v keeps waiting all)).post
    fun _ v' h => finish v' h

theorem safe_refreshOne {k : Key} {Q : World → Prop} (quiet : ∀ w q, q.quiet = true → P w q)
    (apply : ∀ v (c : Call), w.Keeps v → Refreshed cfg force w v c →
      (sem sqlMayFail).Safe P (reconcileOne c.cfg c.node c.force) v
        fun _ v' => ∀ v'', v'.Keeps v'' → Q v'')
    (rest : ∀ v, w.Keeps v → Q v) :
    (sem sqlMayFail).Safe P (refreshOne cfg force k) w fun _ => Q := by
  simp only [refreshOne, safe_bind]
  refine safe_dbGetNode quiet (fun r n v found keeps loaded => ?_) (fun v _ keeps => rest v keeps)
    fun v keeps => rest v keeps
  have stored : v.table.find? n.key = some r := by
    rw [keeps.table, loaded.key, (Keyed.find?_eq_some.mp found).2]
    exact found
  obtain ⟨c, rfl, -, hc⟩ := refreshed_of_loaded cfg force stored loaded
  have happly := apply v c keeps hc
  rw [hc.cfg, hc.force] at happly
  simp only [safe_bind, safe_pure]
  refine happly.post fun result v' post => ?_
  exact safe_dbGetNode quiet (fun _ _ v'' _ hk _ => post v'' hk) (fun v'' _ hk => post v'' hk)
    fun v'' hk => post v'' hk

end Refresh

section Deregister

/-- Two commands for the node that was read, and the deletion of its row. -/
theorem safe_handleDeregister {args : NodeArgs} {Q : World → Prop}
    (quiet : ∀ w q, q.quiet = true → P w q)
    (exec : ∀ (v : World) r n tool call, w.table.find? n.key = some r → Loaded w v r n →
      v.table = w.table → w.trace <:+ v.trace → tool = .serverDel ∨ tool = .clientDel →
      Issue.Builds ⟨tool, n, []⟩ call → P v (.exec ⟨tool, n, []⟩ call))
    (delete : ∀ (v : World) r n, w.table.find? n.key = some r → Loaded w v r n →
      v.table = w.table →
      P v (.sql (.delete n.key)))
    (deleted : ∀ (v : World) (n : Node) r changes, args.key? = some n.key →
      w.table.find? n.key = some r → v.table = w.table → v.booting = w.booting →
      (∃ new, v.commands = new ++ w.commands ∧ ∀ cmd ∈ new, cmd.issue.node = n) →
      Q (v.after (.sql (.delete n.key)) (.ok [] changes)))
    (failed : sqlMayFail → ∀ (v : World) (n : Node) r, args.key? = some n.key →
      w.table.find? n.key = some r → v.table = w.table → w.trace <:+ v.trace →
      Q (v.after (.sql (.delete n.key)) .error))
    (rest : ∀ v, w.Keeps v → Q v) :
    (sem sqlMayFail).Safe P (handleDeregister args) w fun _ => Q := by
  unfold handleDeregister
  cases asked : args.key? with
  | none => exact rest w (.refl w)
  | some k =>
    simp only [safe_bind]
    refine safe_dbGetNode quiet (fun r n v found keeps loaded => ?_) (fun v _ keeps => rest v keeps)
      fun v keeps => rest v keeps
    have key : n.key = k := loaded.key.trans (Keyed.find?_eq_some.mp found).2
    have stored : w.table.find? n.key = some r := key ▸ found
    rw [← key] at asked
    simp only [safe_bind, serverDel, clientDel, logTrimmed, safe_log, safe_pure]
    refine ⟨quiet _ _ rfl, ?_⟩
    have keeps' := keeps.trans (World.keeps_after (q := .log
      ⟨.info,
        "[runner] server del stdin".toList ++ ": ".toList ++ trim (serverDelScript n)⟩) rfl ())
    refine safe_runTuctlScript (fun _ _ => quiet _ _ rfl) (fun v' hv => ?_)
      fun v₁ result₁ v₂ hv₁ _ hv₂ => ?_
    · have hk := keeps'.trans hv
      exact exec v' r n .serverDel _ stored (loaded.later ((List.suffix_cons _ _).trans hv.trace))
        hk.table hk.trace (.inl rfl) builds_serverDel
    have later₁ : v.trace <:+ v₁.trace := (List.suffix_cons _ _).trans hv₁.trace
    have later₂ : v.trace <:+ v₂.trace :=
      (later₁.trans (List.suffix_cons _ _)).trans hv₂.trace
    have table₂ : v₂.table = w.table := hv₂.table.trans ((keeps'.trans hv₁).table)
    refine safe_runKtuctl (fun _ _ => quiet _ _ rfl) (fun v' hv => ?_)
      fun v₃ result₃ v₄ hv₃ _ _ hv₄ => ?_
    · exact exec v' r n .clientDel _ stored (loaded.later (later₂.trans hv.trace))
        (hv.table.trans table₂) ((keeps.trace.trans later₂).trans hv.trace) (.inr rfl)
        builds_clientDel
    have later₄ : v.trace <:+ v₄.trace :=
      ((later₂.trans hv₃.trace).trans (List.suffix_cons _ _)).trans hv₄.trace
    have table₄ : v₄.table = w.table := hv₄.table.trans (hv₃.table.trans table₂)
    have booting₄ : v₄.booting = w.booting := hv₄.booting.trans (hv₃.booting.trans
      (hv₂.booting.trans (keeps'.trans hv₁).booting))
    have ran : v₄.commands =
        [⟨⟨.clientDel, n, []⟩, ⟨clientDelArgv n, none, none⟩, result₃⟩,
          ⟨⟨.serverDel, n, []⟩, tuctlCall n (serverDelScript n), result₁⟩] ++ w.commands := by
      rw [hv₄.commands, World.commands_after_exec, hv₃.commands, hv₂.commands,
        World.commands_after_exec, hv₁.commands, keeps'.commands]
      rfl
    exact safe_dbDeleteNode (delete v₄ r n stored (loaded.later later₄) table₄)
      (fun rc changes =>
        deleted v₄ n r changes asked stored table₄ booting₄ ⟨_, ran, by simp⟩)
      fun may => failed may v₄ n r asked stored table₄ (keeps.trace.trans later₄)

end Deregister

end Tumgrd
