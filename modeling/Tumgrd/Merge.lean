import Tumgrd.Identity
import Tumgrd.Rows

/-! What `register` makes of a row: nothing at all, or exactly the columns the
request names. -/
namespace Tumgrd

open Effect Semantics Service

section Attributes

variable {cfg : Config} {args : RegisterArgs} {reg : Registration} {base n : Node}

/-- A key or a lifetime that is given was accepted. -/
structure RegisterArgs.Accepts (args : RegisterArgs) (base : Node) : Prop where
  xor : ∀ text, args.xor = some text → isSafeId text = true ∧
    base.rotationState = rotationNone
  lifetime : ∀ value : UInt32, args.lifetime = some value → LegalLifetime value.toNat

/-- The node with all attributes of the request. -/
def RegisterArgs.complete (args : RegisterArgs) (reg : Registration) (base : Node) : Node :=
  { args.fillOptional base with
    ipVersion := reg.ipVersion
    xorKey := (args.xor.map .copy).getD base.xorKey
    lifetime := (args.lifetime.map fun value => (value.toNat : Int)).getD base.lifetime }

theorem finish_eq (h : args.finish reg base = some n) :
    n = args.complete reg base ∧ args.Accepts base := by
  simp only [RegisterArgs.finish, Option.bind_eq_bind, Option.bind_eq_some_iff] at h
  obtain ⟨m, hxor, hlifetime⟩ := h
  have first : m = { args.fillOptional base with
      ipVersion := reg.ipVersion
      xorKey := (args.xor.map .copy).getD base.xorKey } ∧
      ∀ text, args.xor = some text →
        isSafeId text = true ∧ base.rotationState = rotationNone := by
    unfold RegisterArgs.overrideXor at hxor
    cases given : args.xor with
    | none =>
      rw [given] at hxor
      cases hxor
      exact ⟨rfl, by simp⟩
    | some text =>
      rw [given] at hxor
      simp only [Option.bind_eq_bind, Option.bind_eq_some_iff, Option.guard_eq_some',
        Option.pure_def, Option.some.injEq] at hxor
      obtain ⟨-, safe, -, resting, rfl⟩ := hxor
      refine ⟨rfl, ?_⟩
      rintro _ (_ | _)
      exact ⟨safe, resting⟩
  obtain ⟨rfl, accepted⟩ := first
  unfold RegisterArgs.overrideLifetime at hlifetime
  cases given : args.lifetime with
  | none =>
    rw [given] at hlifetime
    cases hlifetime
    refine ⟨?_, accepted, by simp [given]⟩
    simp [RegisterArgs.complete, given, RegisterArgs.fillOptional]
  | some value =>
    rw [given] at hlifetime
    simp only [Option.bind_eq_bind, Option.bind_eq_some_iff, Option.guard_eq_some',
      Option.pure_def, Option.some.injEq] at hlifetime
    obtain ⟨-, low, -, high, rfl⟩ := hlifetime
    refine ⟨?_, accepted, ?_⟩
    · simp [RegisterArgs.complete, given]
    · rw [given]
      rintro _ (_ | _)
      simp only [LegalLifetime, lifetimeMin, lifetimeMax] at *
      omega

end Attributes

section Tidy

/-- A row as `register` and `tumgrd_reconcile_one` leave it: no text is stored
empty instead of `NULL`, and the columns with defaults are filled. -/
structure Row.Tidy (r : Row) : Prop where
  description : r.description ≠ some .empty
  clientComment : r.clientComment ≠ some .empty
  ipCheckUrl : ∃ url, r.ipCheckUrl = some url ∧ url.text ≠ []
  currentIp : r.currentIp ≠ some .empty
  status : ∃ status, r.status = some status ∧ status.text ≠ []
  xorKey : r.xorKey ≠ some .empty

variable {sqlMayFail : Prop} {c : Call} {w : World}

theorem bindTextOrNull_ne_empty {n : Nat} [NeZero n] (b : Buf n) :
    bindTextOrNull b ≠ some .empty := by
  unfold bindTextOrNull
  split
  · simp
  · rename_i nonempty
    intro h
    exact nonempty (congrArg Buf.text (Option.some.inj h))

theorem Row.tidy_ofNode (n : Node) (createdAt lastUpdated : Int) (s : Bool) :
    (Row.ofNode (n.withDefaults createdAt lastUpdated) s).Tidy where
  description := bindTextOrNull_ne_empty _
  clientComment := bindTextOrNull_ne_empty _
  ipCheckUrl := by
    simp only [Row.ofNode, Node.withDefaults]
    split
    · exact ⟨_, bindTextOrNull_of_ne (by decide), by decide⟩
    · exact ⟨_, bindTextOrNull_of_ne ‹_›, ‹_›⟩
  currentIp := bindTextOrNull_ne_empty _
  status := by
    simp only [Row.ofNode, Node.withDefaults]
    split
    · exact ⟨_, bindTextOrNull_of_ne (by decide), by decide⟩
    · exact ⟨_, bindTextOrNull_of_ne ‹_›, ‹_›⟩
  xorKey := bindTextOrNull_ne_empty _

theorem Row.Tidy.merge {r excluded : Row} (h : r.Tidy) (h' : excluded.Tidy) :
    (r.merge excluded).Tidy where
  description := h'.description
  clientComment := h'.clientComment
  ipCheckUrl := h'.ipCheckUrl
  currentIp := h'.currentIp
  status := h'.status
  xorKey := by
    unfold Row.merge
    dsimp only
    split
    · exact h.xorKey
    · exact h'.xorKey

theorem Row.Tidy.update {r : Row} (h : r.Tidy) {set : Assign} {guard : Guard}
    (updates : Updates sqlMayFail c w set guard) : (r.assign set).Tidy := by
  cases updates with
  | @begin key =>
    refine { h with xorKey := ?_ }
    intro empty
    exact key.buf_ne_empty (Option.some.inj empty)
  | runtime named =>
    exact { h with currentIp := bindTextOrNull_ne_empty _, status := ⟨_, rfl, named⟩ }
  | _ => exact { h with }

theorem tidy_rows : RowInvariant sqlMayFail Row.Tidy where
  update := fun _ _ _ _ _ _ _ _ _ updates _ tidy => tidy.update updates
  upsert := by
    intro t w₀ w args reg n s createdAt lastUpdated _ _ _ _ rows
    unfold Table.written
    cases stored : w.table.find? (n.withDefaults createdAt lastUpdated).key with
    | none => exact Row.tidy_ofNode _ _ _ _
    | some old => exact (rows old (Keyed.find?_eq_some.mp stored).1).merge (Row.tidy_ofNode _ _ _ _)

end Tidy

section Columns

variable {cfg : Config} {args : RegisterArgs} {reg : Registration}

/-- The row with the columns that the request names. -/
def RegisterArgs.merged (args : RegisterArgs) (reg : Registration) (r : Row) : Row :=
  { r with
    clientPort := reg.clientPort
    psk := .copy reg.psk
    description := (args.description.map fun text => bindTextOrNull (.copy text)).getD r.description
    clientComment :=
      (args.clientComment.map fun text => bindTextOrNull (.copy text)).getD r.clientComment
    memlimit := (args.memlimit.map fun value =>
      if toInt value > 0 then some (toInt value) else none).getD r.memlimit
    ipCheckUrl := (args.ipCheckUrl.map fun text =>
      some (if text = [] then defaultIpCheckUrl else .copy text)).getD r.ipCheckUrl
    xorKey := (args.xor.map fun text => some (.copy text)).getD r.xorKey
    lifetime := (args.lifetime.map fun value => some (value.toNat : Int)).getD r.lifetime }

/-- The row of a new node before the request's own columns are put in. -/
def Registration.freshRow (reg : Registration) (cfg : Config) (load : Int) (key : Option HexKey) :
    Row where
  uid := .copy reg.key.uid
  description := none
  clientComment := none
  createdAt := 0
  serverHost := .copy reg.key.serverHost
  serverPort := reg.key.serverPort
  psk := .empty
  clientPort := 0
  memlimit := none
  ipCheckUrl := some defaultIpCheckUrl
  ipVersion := reg.ipVersion
  currentIp := none
  lastUpdated := 0
  status := some statusActive
  xorKey := key.map HexKey.buf
  lifetime := some cfg.defaultLifetime
  lastAppliedAt := if load ≥ minSaneTime then load else 0
  rotationState := rotationNone
  xorKeyPending := none

theorem bind_columnText {n : Nat} [NeZero n] {column : Option (Buf n)}
    (h : column ≠ some .empty) :
    bindTextOrNull (columnText column) = column := by
  cases column with
  | none => exact if_pos rfl
  | some b =>
    refine bindTextOrNull_of_ne fun nil => h ?_
    exact congrArg some (Buf.text_eq_nil_iff.mp nil)

theorem text_copy_ne_nil {n : Nat} [NeZero n] (room : 1 < n) {text : Str} (h : text ≠ []) :
    (Buf.copy text : Buf n).text ≠ [] := by
  rw [Buf.text_copy, ne_eq, List.take_eq_nil_iff]
  rintro (none | nil)
  · omega
  · exact h nil

theorem ne_nil_of_isSafeId {text : Str} (h : isSafeId text = true) : text ≠ [] := by
  simp only [isSafeId, Bool.and_eq_true, decide_eq_true_eq] at h
  exact h.1

/-- A text that is given replaces the column, one that is not leaves it. -/
theorem bind_given {n : Nat} [NeZero n] (given : Option Str) {column : Option (Buf n)}
    (h : column ≠ some .empty) :
    bindTextOrNull ((given.map .copy).getD (columnText column)) =
      (given.map fun text => bindTextOrNull (.copy text)).getD column := by
  cases given with
  | none => exact bind_columnText h
  | some text => rfl

/-- Columns that are always filled keep their texts. -/
theorem bind_filled {n : Nat} [NeZero n] {column : Option (Buf n)}
    (h : ∃ stored, column = some stored ∧ stored.text ≠ []) (default : Buf n) :
    some (if (columnText column).text = [] then default else columnText column) = column := by
  obtain ⟨stored, rfl, nonempty⟩ := h
  exact congrArg some (if_neg nonempty)

theorem bind_default {n : Nat} [NeZero n] {default : Buf n} (nonempty : default.text ≠ [])
    (b : Buf n) :
    bindTextOrNull (if b.text = [] then default else b) =
      some (if b.text = [] then default else b) := by
  refine bindTextOrNull_of_ne ?_
  split
  · exact nonempty
  · assumption

/-- The URL falls back to the default one. -/
theorem bind_url (given : Option Str) (column : Option (Buf 256)) {url : Buf 256}
    (merged : url = (given.map .copy).getD (columnText column)) :
    bindTextOrNull (if url.text = [] then defaultIpCheckUrl else url) =
      (given.map fun text => some (if text = [] then defaultIpCheckUrl else Buf.copy text)).getD
        (some
          (if (columnText column).text = [] then defaultIpCheckUrl else columnText column)) := by
  rw [bind_default (by decide), merged]
  cases given with
  | none => rfl
  | some text =>
    simp only [Option.map_some, Option.getD_some]
    by_cases blank : text = []
    · rw [blank]
      rfl
    · rw [if_neg (text_copy_ne_nil (by decide) blank), if_neg blank]

theorem bind_memlimit (given : Option UInt32) (column : Option Int) :
    (if (given.map fun value => decide (toInt value > 0)).getD column.isSome = true then
      some ((given.map fun value => if toInt value > 0 then toInt value else 0).getD
        (column.getD 0)) else none) =
      (given.map fun value =>
          if toInt value > 0 then some (toInt value) else none).getD column := by
  cases given with
  | none => cases column <;> rfl
  | some value => by_cases positive : toInt value > 0 <;> simp [positive]

theorem bind_xor {given : Option Str} {column : Option (Buf 129)} (h : column ≠ some .empty)
    (safe : ∀ text, given = some text → isSafeId text = true) :
    bindTextOrNull ((given.map .copy).getD (columnText column)) =
      (given.map fun text => some (Buf.copy text)).getD column := by
  cases given with
  | none => exact bind_columnText h
  | some text =>
    have nonempty := ne_nil_of_isSafeId (safe text rfl)
    exact bindTextOrNull_of_ne (text_copy_ne_nil (by decide) nonempty)

theorem bind_lifetime (given : Option UInt32) (column : Option Int) (lifetime : Int) :
    (if given.isSome then
      some ((given.map fun value => (value.toNat : Int)).getD lifetime) else none).or column =
      (given.map fun value => some (value.toNat : Int)).getD column := by
  cases given <;> rfl

theorem some_lifetime (given : Option UInt32) (lifetime : Int) :
    some ((given.map fun value => (value.toNat : Int)).getD lifetime) =
      (given.map fun value => some (value.toNat : Int)).getD (some lifetime) := by
  cases given <;> rfl

/-- A row takes over what the request names, and keeps the rest. -/
theorem merge_complete {r : Row} {load createdAt lastUpdated : Int} (tidy : r.Tidy)
    (accepts : args.Accepts (reg.fill (r.toNode load))) :
    r.merge (Row.ofNode ((args.complete reg (reg.fill (r.toNode load))).withDefaults createdAt
      lastUpdated) args.lifetime.isSome) =
      { args.merged reg r with createdAt, lastUpdated } := by
  simp only [Row.merge, RegisterArgs.merged, Row.mk.injEq, true_and, and_true]
  refine ⟨bind_given _ tidy.description, bind_given _ tidy.clientComment, rfl, rfl, rfl,
    bind_memlimit _ _, ?url, bind_columnText tidy.currentIp, rfl, ?status, ?xorKey,
    bind_lifetime _ _ _⟩
  case url =>
    have url := bind_url args.ipCheckUrl r.ipCheckUrl rfl
    rw [bind_filled tidy.ipCheckUrl] at url
    exact url
  case status =>
    exact (bind_default (by decide) _).trans (bind_filled tidy.status statusActive)
  case xorKey =>
    split
    · rename_i rotating
      cases given : args.xor with
      | none => rfl
      | some text => exact absurd (accepts.xor text given).2 rotating
    · exact bind_xor tidy.xorKey fun text given => (accepts.xor text given).1

/-- A new row has the columns the request names, and the defaults. -/
theorem ofNode_complete {load createdAt lastUpdated : Int} {key : Option HexKey} {base : Node}
    (fresh : base = { reg.fill (.fresh cfg load) with xorKey := columnText (key.map HexKey.buf) })
    (accepts : args.Accepts base) :
    Row.ofNode ((args.complete reg base).withDefaults createdAt lastUpdated) true =
      { args.merged reg (reg.freshRow cfg load key) with createdAt, lastUpdated } := by
  have generated : key.map HexKey.buf ≠ some .empty := by
    cases key with
    | none => simp
    | some key => exact fun empty => key.buf_ne_empty (Option.some.inj empty)
  subst fresh
  simp only [RegisterArgs.merged, Registration.freshRow, Row.ofNode, Row.mk.injEq]
  have empty : ∀ {m : Nat} [NeZero m], (none : Option (Buf m)) ≠ some .empty := by simp
  refine ⟨rfl, bind_given _ empty, bind_given _ empty, rfl, rfl, rfl, rfl, rfl,
    bind_memlimit _ none, bind_url _ none rfl, rfl, rfl, rfl, rfl,
    bind_xor generated fun text given => (accepts.xor text given).1, ?lifetime, rfl, rfl, rfl⟩
  case lifetime =>
    refine (if_pos trivial).trans ?_
    exact some_lifetime args.lifetime cfg.defaultLifetime

end Columns

section Merging

variable {admits : World → Task → Prop} {cfg : Config} {args : RegisterArgs}
  {reg : Registration}
  {w u v : World} {action : Action} {base n : Node} {createdAt lastUpdated err : Int}

/-- The row that the request's columns are put into: the one at its key, or a
fresh one, with a generated key where keys are on. -/
inductive Registration.Previous (reg : Registration) (cfg : Config) (w u : World) : Row → Prop
  | stored {r : Row} : w.table.find? reg.key = some r → Previous reg cfg w u r
  | fresh {load : Int} {key : Option HexKey} : w.table.find? reg.key = none → w.Reads u load →
      key.isSome = cfg.enableXor → (∀ k, key = some k → w.Did u ⟨.randomKey, some k⟩) →
      Previous reg cfg w u (reg.freshRow cfg load key)

theorem Registration.Previous.later {r : Row} (h : reg.Previous cfg w u r)
    (later : u.trace <:+ v.trace) : reg.Previous cfg w v r := by
  cases h with
  | stored found => exact .stored found
  | fresh absent reads generates generated =>
    exact .fresh absent (reads.later later) generates fun k hk => (generated k hk).later later

/-- What a request that came in at `w` has done at `u`, right after its upsert. -/
structure Merged (cfg : Config) (args : RegisterArgs) (w u : World) : Prop where
  commands : u.commands = w.commands
  statement : ∃ m s changes, u.trace.head? = some ⟨.sql (.upsert m s), .ok [] changes⟩
  row : ∃ reg r createdAt lastUpdated, args.check = some reg ∧ reg.Previous cfg w u r ∧
    u.table.find? reg.key = some { args.merged reg r with createdAt, lastUpdated } ∧
    w.Stamps u r.createdAt createdAt ∧ w.Stamps u r.lastUpdated lastUpdated ∧
    ∀ k, k ≠ reg.key → u.table.find? k = w.table.find? k

/-- The row that the node of a registration is stored as. -/
theorem Drafted.written (drafted : Drafted cfg reg w u action base)
    (tidy : ∀ r ∈ w.table.rows, r.Tidy) (finish : args.finish reg base = some n)
    (key : n.key = reg.key) :
    ∃ r, reg.Previous cfg w u r ∧ n.createdAt = r.createdAt ∧
      n.lastUpdated = r.lastUpdated ∧
      ∀ createdAt lastUpdated, w.table.written (n.withDefaults createdAt lastUpdated)
        (action = .created || args.lifetime.isSome) =
          { args.merged reg r with createdAt, lastUpdated } := by
  obtain ⟨rfl, accepts⟩ := finish_eq finish
  cases drafted with
  | @updated r load found reading =>
    have hr := (Keyed.find?_eq_some.mp found).1
    refine ⟨r, .stored found, rfl, rfl, fun createdAt lastUpdated => ?_⟩
    rw [Table.written_of_found (key ▸ found)]
    exact merge_complete (tidy r hr) accepts
  | @plain load absent off reads =>
    refine ⟨reg.freshRow cfg load none, .fresh absent reads off.symm (by simp), rfl, rfl, ?_⟩
    intro createdAt lastUpdated
    rw [Table.written_of_absent (key ▸ absent)]
    exact ofNode_complete rfl accepts
  | @keyed load generated absent on reads did =>
    refine ⟨reg.freshRow cfg load (some generated), .fresh absent reads on.symm ?_,
      rfl, rfl, ?_⟩
    · rintro _ ⟨⟩
      exact did
    · intro createdAt lastUpdated
      rw [Table.written_of_absent (key ▸ absent)]
      exact ofNode_complete rfl accepts

/-- The row of the request right after the upsert. -/
theorem Registering.written {sqlMayFail : Prop} {u' : World}
    (h : Registering sqlMayFail cfg args w reg action base n createdAt lastUpdated u u' err v) :
    u'.table.find? n.key = some (w.table.written (n.withDefaults createdAt lastUpdated)
      (action = .created || args.lifetime.isSome)) := by
  rw [← h.keeps.table]
  exact Keyed.find?_put_self h.stored

theorem Registering.merged {u' : World}
    (h : Registering True cfg args w reg action base n createdAt lastUpdated u u' err v)
    (tidy : ∀ r ∈ w.table.rows, r.Tidy) (fits : args.toNodeArgs.Fits) :
    Merged cfg args w u' := by
  have key : n.key = reg.key := h.key.trans (storedKey_of_fits h.check fits)
  obtain ⟨r, previous, created, updated, written⟩ := h.drafted.written tidy h.finish key
  obtain ⟨changes, hu'⟩ := h.statement
  have later : u.trace <:+ u'.trace := by
    rw [hu']
    exact List.suffix_cons _ _
  exact {
    commands := by rw [hu', World.commands_after_sql, h.keeps.commands]
    statement := ⟨_, _, _, by rw [hu']; rfl⟩
    row := by
      refine ⟨reg, r, createdAt, lastUpdated, h.check, previous.later later, ?_, ?_, ?_, ?_⟩
      · rw [← written createdAt lastUpdated, ← key]
        exact h.written
      · exact created ▸ h.stamped.createdAt.within (List.suffix_refl _) later
      · exact updated ▸ h.stamped.lastUpdated.within (List.suffix_refl _) later
      · intro k other
        rw [← key] at other
        rw [Keyed.find?_put_of_ne h.stored other, h.keeps.table] }

/-- A request that is refused leaves the table and runs nothing; one that is
stored under texts that fit comes through a world right behind its upsert, in
which only the row at its key has changed, in the columns it names. A zero time
counts as one that is not set. -/
theorem register_merges {reply : UbusReply}
    (reach : (daemon (sem True) admits).Reachable World.Fresh (.idle w))
    (runs : (sem True).Runs (handleRegister cfg args) w (.done reply) v) :
    ((∀ fields, reply ≠ .ok fields) → v.table = w.table ∧ v.commands = w.commands) ∧
      ∀ fields, reply = .ok fields → args.toNodeArgs.Fits → ∃ p u,
        (sem True).Runs (handleRegister cfg args) w p u ∧ (sem True).Runs p u (.done reply) v ∧
          Merged cfg args w u := by
  have tidy := ((tidy_rows.contract admits).invariant reach).2
  cases registerRun_of_runs runs with
  | refused keeps refused =>
    refine ⟨fun _ => ⟨keeps.table, keeps.commands⟩, ?_⟩
    intro fields ok
    exact absurd ok (refused fields)
  | stored h reached =>
    refine ⟨fun refused => absurd rfl (refused _), ?_⟩
    intro fields _ fits
    obtain ⟨p, stores, replies⟩ := reached
    exact ⟨p, _, stores, replies, h.merged tidy fits⟩

end Merging

section Samples

/-- The registration once more, later and with a description. -/
def sampleArgs : RegisterArgs where
  uid := some "node".toList
  serverHost := some "host".toList
  serverPort := some 4000
  clientPort := some 5000
  psk := some "secret".toList
  description := some "home".toList

@[irreducible] def sampleUpdate (w : World) (steps : Nat) : Prog UbusReply × World :=
  playFor World.after (sample 1700000000).answer
    steps (handleRegister ⟨true, false, 3600⟩ sampleArgs) w

theorem sampleUpdate_runs (w : World) (steps : Nat) :
    (sem True).Runs (handleRegister ⟨true, false, 3600⟩ sampleArgs) w (sampleUpdate w steps).1
      (sampleUpdate w steps).2 := by
  unfold sampleUpdate
  exact runs_playFor (S := sem True) (sample _).fair steps _ _

/-- A registration while the clock stands at zero. -/
@[irreducible] def sampleEpoch : World := ((sample 0).playing sampleRegister .first 25).2

theorem reachable_sampleEpoch :
    (daemon (sem True) fun _ _ => True).Reachable World.Fresh (.idle sampleEpoch) := by
  unfold sampleEpoch
  exact (sample _).reachable_idle (.start ⟨rfl, rfl⟩) trivial (by decide +kernel)

def Event.upserted : Event → Bool
  | ⟨.sql (.upsert _ _), .ok _ _⟩ => true
  | _ => false

/-- A row that was stored at clock zero gets another `created_at` when it is updated. -/
theorem created_at_replaced : ∃ w u p r r' fields v,
    (daemon (sem True) fun _ _ => True).Reachable World.Fresh (.idle w) ∧
      (sem True).Runs (handleRegister ⟨true, false, 3600⟩ sampleArgs) w p u ∧
      (sem True).Runs p u (.done (.ok fields)) v ∧
      u.trace.head?.any Event.upserted = true ∧
      w.table.find? sampleKey = some r ∧ u.table.find? sampleKey = some r' ∧
      r.createdAt = 0 ∧ r'.createdAt = 1700000000 := by
  obtain ⟨fields, returns⟩ := Option.isSome_iff_exists.mp
    (show ((playFor World.after (sample 1700000000).answer 25 (sampleUpdate sampleEpoch 5).1
      (sampleUpdate sampleEpoch 5).2).1.result?.bind UbusReply.ok?).isSome by decide +kernel)
  have runs :=
    runs_playFor (S := sem True) (sample 1700000000).fair 25 (sampleUpdate sampleEpoch 5).1
    (sampleUpdate sampleEpoch 5).2
  rw [done_of_ok? returns] at runs
  obtain ⟨r, before, created⟩ := Option.map_eq_some_iff.mp
    (show (sampleEpoch.table.find? sampleKey).map Row.createdAt = some 0 by decide +kernel)
  obtain ⟨r', after, replaced⟩ := Option.map_eq_some_iff.mp
    (show ((sampleUpdate sampleEpoch 5).2.table.find? sampleKey).map Row.createdAt =
      some 1700000000 by decide +kernel)
  exact ⟨_, _, _, r, r', fields, _, reachable_sampleEpoch, sampleUpdate_runs _ 5, runs,
    by decide +kernel, before, after, created, replaced⟩

theorem register_merges_sample : ∃ p u,
    (sem True).Runs (handleRegister ⟨true, false, 3600⟩ sampleArgs) sampleStored p u ∧
      (sem True).Runs p u (sampleUpdate sampleStored 30).1 (sampleUpdate sampleStored 30).2 ∧
      Merged ⟨true, false, 3600⟩ sampleArgs sampleStored u := by
  obtain ⟨fields, returns⟩ := Option.isSome_iff_exists.mp
    (show ((sampleUpdate sampleStored 30).1.result?.bind UbusReply.ok?).isSome by decide +kernel)
  have runs := sampleUpdate_runs sampleStored 30
  rw [done_of_ok? returns] at runs ⊢
  refine (register_merges sampleStored_reachable runs).2 fields rfl ⟨?_, ?_⟩
  · rintro uid (_ | _)
    decide
  · rintro host (_ | _)
    decide

end Samples

end Tumgrd
