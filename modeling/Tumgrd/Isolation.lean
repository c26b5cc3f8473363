import Tumgrd.Footprint
import Tumgrd.Rotation

/-! What the delete commands of a node can remove. Of the primary key, a
`server-del` carries all four components and a `client-del` all but the port of
the server, the version in both as the flag it is passed as. -/
namespace Tumgrd

open Effect Semantics Service

section Commands

variable {m n : Node}

/-- The texts that `normalize_ip_version` makes. -/
def Normal (ipVersion : Str) : Prop :=
  ipVersion = [] ∨ ipVersion = ipv4.text ∨ ipVersion = ipv6.text

theorem normal_of_normalize {input : Str} {ipVersion : Buf 16}
    (h : normalizeIpVersion input = some ipVersion) : Normal ipVersion.text := by
  unfold normalizeIpVersion at h
  split at h
  · cases h
    exact .inl rfl
  split at h
  · cases h
    exact .inr (.inl rfl)
  split at h
  · cases h
    exact .inr (.inr rfl)
  · contradiction

/-- Normal versions are told apart by their flags. -/
theorem ipVersionFlag_inj {a b : Str} (ha : Normal a) (hb : Normal b) :
    ipVersionFlag a = ipVersionFlag b ↔ a = b := by
  rcases ha with rfl | rfl | rfl <;> rcases hb with rfl | rfl | rfl <;> decide

/-- A flag in front of as many arguments can be read off. -/
theorem flagged_inj {f g : Option Str} {x : Str} {xs ys : List Str}
    (len : xs.length = ys.length) :
    [x] ++ f.toList ++ xs = [x] ++ g.toList ++ ys ↔ f = g ∧ xs = ys := by
  constructor
  · intro h
    obtain ⟨flag, args⟩ := List.append_inj' h len
    rw [List.append_cancel_left_eq] at flag
    cases f <;> cases g <;> simp_all
  · rintro ⟨rfl, rfl⟩
    rfl

theorem clientDelArgv_inj :
    clientDelArgv m = clientDelArgv n ↔
      ipVersionFlag m.ipVersion.text = ipVersionFlag n.ipVersion.text ∧
        m.serverHost = n.serverHost ∧ m.uid = n.uid := by
  unfold clientDelArgv
  refine (flagged_inj (by rfl)).trans ?_
  simp [Buf.text_inj]

theorem tuctlArgv_inj :
    tuctlArgv m = tuctlArgv n ↔
      ipVersionFlag m.ipVersion.text = ipVersionFlag n.ipVersion.text ∧
        m.psk = n.psk ∧ m.serverHost = n.serverHost ∧ m.serverPort = n.serverPort := by
  unfold tuctlArgv
  refine (flagged_inj (by rfl)).trans ?_
  simp [Buf.text_inj, decimal_injective.eq_iff]

theorem serverDelScript_inj : serverDelScript m = serverDelScript n ↔ m.uid = n.uid := by
  unfold serverDelScript
  rw [List.append_cancel_right_eq, List.append_cancel_left_eq, Buf.text_inj]

end Commands

section Requests

variable {sqlMayFail : Prop} {admits : World → Task → Prop} {start : World → Prop} {t : Task}
  {w₀ w v : World} {issue : Issue} {call : Invocation}

/-- Every node is stored under a normal version. -/
def Normalized (t : Table) : Prop := ∀ k r, t.find? k = some r → Normal k.ipVersion

theorem RegisterArgs.normal_of_check {args : RegisterArgs} {reg : Registration}
    (h : args.check = some reg) : Normal reg.ipVersion.text := by
  simp only [RegisterArgs.check, Option.bind_eq_bind, Option.bind_eq_some_iff, Option.pure_def,
    Option.some.injEq] at h
  obtain ⟨_, -, _, -, _, -, _, -, _, -, _, -, _, -, _, -, _, hnormal, rfl⟩ := h
  exact normal_of_normalize hnormal

theorem Registers.ipVersion {cfg : Config} {args : RegisterArgs} {reg : Registration} {n : Node}
    {s : Bool} (h : Registers cfg args reg w₀ w n s) : n.key.ipVersion = reg.ipVersion.text := by
  cases h with
  | updated found loaded finish => rw [(finished_of_finish finish).key]
  | created absent key state pending finish => rw [(finished_of_finish finish).key]

/-- The requests of every task on every table: the tools run for stored nodes
only, and what is inserted has a normal version. -/
inductive Demands (w : World) : Req → Prop
  | quiet {q : Req} : q.quiet = true → Demands w q
  | report {what : Report} : Demands w (.report what)
  | exec {issue : Issue} {call : Invocation} {r : Row} : w.table.find? issue.node.key = some r →
      issue.Builds call → Demands w (.exec issue call)
  | update {k : Key} {set : Assign} {guard : Guard} : Demands w (.sql (.update k set guard))
  | delete {k : Key} : Demands w (.sql (.delete k))
  | upsert {n : Node} {s : Bool} : Normal n.ipVersion.text → Demands w (.sql (.upsert n s))

/-- A call for a stored node, whatever its row is like. -/
theorem demands_reconcileOne {cfg : Config} {n : Node} {force : Bool}
    (stored : ∃ r, w.table.find? n.key = some r) :
    (sem sqlMayFail).Safe Demands (reconcileOne cfg n force) w
      fun _ v => Served n True w v := by
  simp only [reconcileOne, safe_bind, safe_report, safe_time]
  refine ⟨.report, .quiet rfl, fun now => ?_⟩
  rw [← safe_bind]
  have emits : (afterClock cfg n force now).Emits (Req.Serves n True) fun _ => True :=
    (emits_afterClock (fun _ => trivial) fun _ _ => trivial).post fun _ _ => trivial
  have safe := (safe_of_emits (S := sem sqlMayFail) (w := w.read n force now) emits).invariant
    (I := Served n True w) (.read n True w force now)
    fun v q r served serves _ => served.after serves r
  refine safe.mono ?_ fun _ v served => served.2
  rintro v q ⟨serves, served⟩
  cases serves with
  | quiet quiet => exact .quiet quiet
  | report => exact .report
  | update => exact .update
  | exec key _ builds =>
    obtain ⟨r, hr⟩ := stored
    obtain ⟨r', hr', -⟩ := served.row r hr
    exact .exec (key ▸ hr') builds

theorem demands_reconcileAll {cfg : Config} {force : Bool} :
    (sem sqlMayFail).Safe Demands (reconcileAll cfg force) w fun _ _ => True := by
  refine safe_reconcileAll (I := fun _ _ => True) (fun _ _ => .quiet) (fun _ _ _ _ _ => trivial)
    (fun c rest v refreshed _ _ => ?_) (fun _ _ => trivial) fun _ _ _ => trivial
  exact (demands_reconcileOne ⟨c.row, refreshed.table ▸ c.stored⟩).post
    fun _ v' served => ⟨trivial, served.others, served.trace⟩

/-- A registration applies the node it has just stored. -/
theorem demands_storeAndApply {cfg : Config} {args : RegisterArgs} {reg : Registration}
    {action : Action} {n : Node} {s : Bool} (check : args.check = some reg)
    (registers : Registers cfg args reg w₀ w n s) :
    (sem sqlMayFail).Safe Demands (storeAndApply cfg action s n) w fun _ _ => True := by
  have quiet : ∀ v q, q.quiet = true → Demands v q := fun _ _ => .quiet
  have normal : Normal n.ipVersion.text := by
    rw [show n.ipVersion.text = reg.ipVersion.text from registers.ipVersion]
    exact RegisterArgs.normal_of_check check
  simp only [storeAndApply, safe_bind]
  refine safe_dbUpsertNode quiet (fun _ _ _ _ => .upsert normal)
    (fun v createdAt lastUpdated changes _ free => ?_) fun _ _ => trivial
  rw [if_neg (by decide)]
  simp only [safe_bind, safe_pure]
  obtain ⟨t', hput⟩ := Option.ne_none_iff_exists'.mp
    (mt Keyed.put?_eq_none.mp free : v.table.put? Row.merge Row.key_merge Row.slot_merge
      (Row.ofNode (n.withDefaults createdAt lastUpdated) s) ≠ none)
  have stored : ∃ r, (v.after (.sql (.upsert (n.withDefaults createdAt lastUpdated) s))
      (.ok [] changes)).table.find? n.key = some r := by
    rw [World.table_after_ok, Stmt.effect, hput, Option.getD_some]
    exact ⟨_, Keyed.find?_put_self hput⟩
  exact (demands_reconcileOne stored).post fun _ v' _ =>
    safe_dbGetNode quiet (fun _ _ _ _ _ _ => trivial) (fun _ _ _ => trivial) fun _ _ => trivial

theorem demands_task : (sem sqlMayFail).Safe Demands t.prog w fun _ _ => True := by
  have quiet : ∀ v q, q.quiet = true → Demands v q := fun _ _ => .quiet
  unfold Task.prog
  cases op : t.op with
  | register args =>
    simp only [safe_bind, safe_pure]
    exact safe_handleRegister_stores quiet
      (fun _ _ _ _ _ check _ registers => demands_storeAndApply check registers) fun _ _ => trivial
  | deregister args =>
    simp only [safe_bind, safe_pure]
    refine safe_handleDeregister quiet (fun v r n tool call found _ table _ _ builds => ?_)
      (fun _ _ _ _ _ _ => .delete) (fun _ _ _ _ _ _ _ _ _ => trivial)
      (fun _ _ _ _ _ _ _ _ => trivial) fun _ _ => trivial
    exact .exec (table ▸ found) builds
  | refresh args =>
    simp only [safe_bind, safe_pure]
    unfold handleRefresh
    split
    · simp only [refreshAll, safe_bind, safe_pure]
      exact demands_reconcileAll
    split
    · trivial
    · refine safe_refreshOne quiet (fun v c keeps refreshed => ?_) fun _ _ => trivial
      exact (demands_reconcileOne ⟨c.row, refreshed.table ▸ c.stored⟩).post
        fun _ _ _ _ _ => trivial
  | status =>
    simp only [handleStatus, safe_bind, safe_pure]
    exact safe_dbListNodes quiet (fun _ _ _ _ _ _ => trivial) fun _ _ _ => trivial
  | periodic =>
    simp only [periodicReconcile, safe_bind, safe_pure]
    exact demands_reconcileAll
  | ifup =>
    simp only [netEvent, safe_bind, safe_pure]
    exact demands_reconcileAll
  | startup =>
    simp only [startupReconcile, safe_bind, safe_report]
    exact demands_reconcileAll.post fun _ _ _ => ⟨.report, trivial⟩

/-- Only an insertion adds a row. -/
theorem Demands.normalized {q : Req} {reply : Resp q} (h : Demands w q)
    (normalized : Normalized w.table) : Normalized (w.after q reply).table := by
  cases h with
  | quiet quiet =>
    rw [(World.keeps_after quiet reply).table]
    exact normalized
  | report => exact normalized
  | exec => exact normalized
  | @update k set guard =>
    cases reply with
    | error => exact normalized
    | ok rows changes =>
      intro k' r' after
      cases before : w.table.find? k' with
      | some r => exact normalized k' r before
      | none =>
        rw [World.table_after_ok, find?_update_none before] at after
        contradiction
  | @delete k =>
    cases reply with
    | error => exact normalized
    | ok rows changes =>
      intro k' r' after
      rw [World.table_after_ok, Stmt.effect] at after
      by_cases same : k' = k
      · rw [same, Keyed.find?_erase_self] at after
        contradiction
      · rw [Keyed.find?_erase_of_ne same] at after
        exact normalized k' r' after
  | @upsert n s normal =>
    cases reply with
    | error => exact normalized
    | ok rows changes =>
      intro k' r' after
      rw [World.table_after_ok, Stmt.effect] at after
      cases hput : w.table.put? Row.merge Row.key_merge Row.slot_merge (Row.ofNode n s) with
      | none =>
        rw [hput] at after
        exact normalized k' r' after
      | some t' =>
        rw [hput, Option.getD_some] at after
        by_cases same : k' = (Row.ofNode n s).key
        · rw [same]
          exact normal
        · rw [Keyed.find?_put_of_ne hput same] at after
          exact normalized k' r' after

theorem demands_contract (admits : World → Task → Prop) (start : World → Prop) :
    (daemon (sem sqlMayFail) admits).Contract start
      (fun w => (∀ w, start w → Normalized w.table) → Normalized w.table) (fun _ => True)
      (fun _ _ => Demands) fun _ _ _ => True where
  start := fun w begins => ⟨fun keep => keep w begins, trivial⟩
  task := fun _ _ _ _ _ => demands_task
  call := fun _ _ _ _ _ _ _ _ keep demands _ normal => demands.normalized (keep normal)
  finish := fun _ _ _ _ _ _ keep _ => ⟨keep, trivial⟩
  crash := fun _ keep => ⟨keep, trivial⟩

end Requests

section Isolation

variable {sqlMayFail : Prop} {admits : World → Task → Prop} {start : World → Prop}

theorem Row.key_eq_iff {r : Row} {n : Node} : r.key = n.key ↔
    r.serverHost = n.serverHost ∧ r.serverPort = n.serverPort ∧ r.uid = n.uid ∧
      r.ipVersion = n.ipVersion := by
  simp [Row.key, Node.key, Buf.text_inj]

/-- Both tools are told the version by the same flag. -/
def SameFlag (r : Row) (n : Node) : Prop :=
  ipVersionFlag r.ipVersion.text = ipVersionFlag n.ipVersion.text

section Arguments

variable {issue : Issue} {call : Invocation} {r : Row} {load : Int}

theorem clientDel_eq_iff (tool : issue.tool = .clientDel) (builds : issue.Builds call) :
    call.argv = clientDelArgv (r.toNode load) ↔ r.serverHost = issue.node.serverHost ∧
      r.uid = issue.node.uid ∧ SameFlag r issue.node := by
  unfold Issue.Builds at builds
  rw [tool] at builds
  have argv : call.argv = clientDelArgv issue.node := by
    rw [builds, clientDelArgv_eq_words]
  rw [argv, clientDelArgv_inj, SameFlag, eq_comm (a := issue.node.serverHost),
    eq_comm (a := issue.node.uid), eq_comm (a := ipVersionFlag issue.node.ipVersion.text)]
  exact ⟨fun ⟨flag, host, uid⟩ => ⟨host, uid, flag⟩,
    fun ⟨host, uid, flag⟩ => ⟨flag, host, uid⟩⟩

theorem serverDel_eq_iff (tool : issue.tool = .serverDel) (builds : issue.Builds call) :
    (∃ psk, call.argv = tuctlArgv { r.toNode load with psk } ∧
        call.stdin = some (serverDelScript (r.toNode load))) ↔
      r.serverHost = issue.node.serverHost ∧ r.serverPort = issue.node.serverPort ∧
        r.uid = issue.node.uid ∧ SameFlag r issue.node := by
  unfold Issue.Builds at builds
  rw [tool] at builds
  have argv : call.argv = tuctlArgv issue.node := by
    rw [builds, tuctlArgv_eq_words]
  have stdin : call.stdin = some (serverDelScript issue.node) := by
    rw [builds, serverDelScript_eq_words]
  rw [argv, stdin]
  constructor
  · rintro ⟨psk, arguments, script⟩
    obtain ⟨flag, -, host, port⟩ := tuctlArgv_inj.mp arguments
    exact ⟨host.symm, port.symm,
      (serverDelScript_inj.mp (Option.some.inj script)).symm, flag.symm⟩
  · rintro ⟨host, port, uid, flag⟩
    refine ⟨issue.node.psk, tuctlArgv_inj.mpr ⟨flag.symm, rfl, host.symm, port.symm⟩, ?_⟩
    have script : serverDelScript issue.node = serverDelScript (r.toNode load) :=
      serverDelScript_inj.mpr uid.symm
    rw [script]

end Arguments

/-- A delete command is run for a stored node. A `client-del` is that of another
one exactly when host, uid and flag are the same, a `server-del` when the port
of the server is so too. Where the versions are normal, two nodes with the same
flag have the same version, and no `server-del` is that of another node. -/
theorem delete_commands_isolated {s : State Req Resp World Task}
    (reach : (daemon (sem True) admits).Reachable start s) :
    ∀ t w₀ w issue call rest, s = .busy t w₀ w (.call (.exec issue call) rest) →
      (∃ a ∈ w.table.rows, a.key = issue.node.key) ∧
      ∀ r ∈ w.table.rows, r.key ≠ issue.node.key → ∀ load,
        (issue.tool = .clientDel → (call.argv = clientDelArgv (r.toNode load) ↔
          r.serverHost = issue.node.serverHost ∧ r.uid = issue.node.uid ∧
            SameFlag r issue.node)) ∧
        (issue.tool = .serverDel → ((∃ psk,
          call.argv = tuctlArgv { r.toNode load with psk } ∧
            call.stdin = some (serverDelScript (r.toNode load))) ↔
          r.serverHost = issue.node.serverHost ∧ r.serverPort = issue.node.serverPort ∧
            r.uid = issue.node.uid ∧ SameFlag r issue.node)) ∧
        ((∀ w, start w → Normalized w.table) →
          (SameFlag r issue.node ↔ r.ipVersion = issue.node.ipVersion) ∧
          (issue.tool = .serverDel → ∀ psk, call.argv = tuctlArgv { r.toNode load with psk } →
            call.stdin ≠ some (serverDelScript (r.toNode load)))) := by
  rintro t w₀ w issue call rest rfl
  have contract := @demands_contract True admits start
  have normalized := contract.invariant reach
  cases contract.permitted reach with
  | quiet quiet => contradiction
  | @exec _ _ a ha builds =>
    refine ⟨⟨a, Keyed.find?_eq_some.mp ha⟩, fun r hr other load => ?_⟩
    refine ⟨fun tool => clientDel_eq_iff tool builds, fun tool => serverDel_eq_iff tool builds,
      fun normal => ?_⟩
    have own : Normal issue.node.ipVersion.text := normalized normal _ _ ha
    have their : Normal r.ipVersion.text := normalized normal _ _ (Keyed.mem_rows.mp hr)
    have flag : SameFlag r issue.node ↔ r.ipVersion = issue.node.ipVersion := by
      rw [SameFlag, ipVersionFlag_inj their own, Buf.text_inj]
    refine ⟨flag, fun tool psk argv script => ?_⟩
    obtain ⟨host, port, uid, same⟩ := (serverDel_eq_iff tool builds).mp ⟨psk, argv, script⟩
    exact other (Row.key_eq_iff.mpr ⟨host, port, uid, flag.mp same⟩)

/-- A second node at another port of the same server. -/
def sampleSecond : Task := sampleTask (.register {
  uid := some "node".toList
  serverHost := some "host".toList
  serverPort := some 4001
  clientPort := some 5001
  psk := some "secret".toList })

/-- Its registration, about to clear the local client. -/
@[irreducible] def sampleDelete : Prog Unit × World :=
  (sample 1700000000).playing sampleSecond sampleStored 14

theorem sampleDelete_reachable {start : World → Prop}
    (reach : (daemon (sem sqlMayFail) admits).Reachable start (.idle sampleStored))
    (admitted : admits sampleStored sampleSecond) :
    (daemon (sem sqlMayFail) admits).Reachable start
      (.busy sampleSecond sampleStored sampleDelete.2 sampleDelete.1) := by
  unfold sampleDelete
  exact (sample _).reachable reach admitted 14

/-- The second node as it is applied. -/
def sampleApplied : Node :=
  { sampleNode 0 1700000000 with
    createdAt := 0
    serverPort := 4001
    clientPort := 5001
    ipCheckUrl := .empty
    currentIp := .empty
    status := .empty }

theorem sampleDelete_next :
    (∃ rest, sampleDelete.1 = .call (.exec ⟨.clientDel, sampleApplied, []⟩
      ⟨clientDelArgv sampleApplied, none, none⟩) rest) ∧
      ∃ r ∈ sampleDelete.2.table.rows, r.key = sampleKey ∧
        clientDelArgv (r.toNode 0) = clientDelArgv sampleApplied := by
  refine ⟨Program.eq_call (by decide +kernel), ?_⟩
  obtain ⟨r, hr, same⟩ := Option.map_eq_some_iff.mp
    (show (sampleDelete.2.table.find? sampleKey).map (fun r => clientDelArgv (r.toNode 0)) =
      some (clientDelArgv sampleApplied) by decide +kernel)
  obtain ⟨hmem, key⟩ := Keyed.find?_eq_some.mp hr
  exact ⟨r, hmem, key, same⟩

/-- Two rows that no registration makes side by side: one has its version in
another spelling. -/
def sampleAliases : World :=
  let row (version : Buf 16) (port : Int) : Row :=
    { sampleRow with ipVersion := version, clientPort := port }
  ⟨⟨[row ⟨"4".toList, by decide⟩ 5000, row ipv4 5001],
    by decide +kernel, by decide +kernel⟩, [],
    false, false⟩

def sampleAliasTask : Task := sampleTask (.deregister {
  uid := some "node".toList
  serverHost := some "host".toList
  serverPort := some 4000
  ipVersion := some "ipv4".toList })

/-- The one in the usual spelling, as it is deregistered. -/
def sampleAlias : Node :=
  { sampleNode 1700000000 1700000000 with ipVersion := ipv4, clientPort := 5001 }

/-- Its deregistration, about to clear the server. -/
@[irreducible] def sampleAliasDelete : Prog Unit × World :=
  (sample 1700000000).playing sampleAliasTask sampleAliases 4

theorem sampleAliasDelete_next :
    (∃ rest, sampleAliasDelete.1 = .call (.exec ⟨.serverDel, sampleAlias, []⟩
      (tuctlCall sampleAlias (serverDelScript sampleAlias))) rest) ∧
      ∃ r ∈ sampleAliasDelete.2.table.rows,
        r.key = { sampleKey with ipVersion := "4".toList } ∧
        tuctlCall (r.toNode 0) (serverDelScript (r.toNode 0)) =
          tuctlCall sampleAlias (serverDelScript sampleAlias) := by
  refine ⟨Program.eq_call (by decide +kernel), ?_⟩
  obtain ⟨r, hr, same⟩ := Option.map_eq_some_iff.mp
    (show (sampleAliasDelete.2.table.find? { sampleKey with ipVersion := "4".toList }).map
        (fun r => tuctlCall (r.toNode 0) (serverDelScript (r.toNode 0))) =
      some (tuctlCall sampleAlias (serverDelScript sampleAlias)) by decide +kernel)
  obtain ⟨hmem, key⟩ := Keyed.find?_eq_some.mp hr
  exact ⟨r, hmem, key, same⟩

/-- The first node, which stays registered, loses its local client; and of two
spellings of a version either row loses the entry of the other on the server. -/
theorem deletes_not_isolated :
    (∃ t w₀ w issue call rest, (daemon (sem True) fun _ _ => True).Reachable World.Fresh
        (.busy t w₀ w (.call (.exec issue call) rest)) ∧
      issue.tool = .clientDel ∧ ∃ r ∈ w.table.rows, r.key ≠ issue.node.key ∧
        call.argv = clientDelArgv (r.toNode 0)) ∧
    ∃ t w₀ w issue call rest, (daemon (sem True) fun _ _ => True).Reachable (fun _ => True)
        (.busy t w₀ w (.call (.exec issue call) rest)) ∧
      issue.tool = .serverDel ∧ ∃ r ∈ w.table.rows, r.key ≠ issue.node.key ∧
        call.argv = tuctlArgv (r.toNode 0) ∧
            call.stdin = some (serverDelScript (r.toNode 0)) := by
  constructor
  · obtain ⟨⟨rest, next⟩, r, hr, key, same⟩ := sampleDelete_next
    have reach := sampleDelete_reachable sampleStored_reachable trivial
    rw [next] at reach
    refine ⟨_, _, _, _, _, rest, reach, rfl, r, hr, ?_, same.symm⟩
    rw [key]
    decide
  · obtain ⟨⟨rest, next⟩, r, hr, key, same⟩ := sampleAliasDelete_next
    have reach : (daemon (sem True) fun _ _ => True).Reachable (fun _ => True)
        (.busy sampleAliasTask sampleAliases sampleAliasDelete.2 sampleAliasDelete.1) := by
      unfold sampleAliasDelete
      exact (sample _).reachable (.start trivial) trivial 4
    rw [next] at reach
    refine ⟨_, _, _, _, _, rest, reach, rfl, r, hr, ?_, ?_, ?_⟩
    · rw [key]
      decide
    · exact (congrArg Invocation.argv same).symm
    · exact (congrArg Invocation.stdin same).symm

theorem World.Fresh.normalized {w : World} (h : w.Fresh) : Normalized w.table := by
  intro k r hr
  simp [h.1] at hr

/-- Of the two nodes at one server, the client of the first is cleared for the second. -/
theorem delete_commands_isolated_second :
    ∃ r ∈ sampleDelete.2.table.rows, r.key = sampleKey ∧ ∀ load,
      (clientDelArgv sampleApplied = clientDelArgv (r.toNode load) ↔
        r.serverHost = sampleApplied.serverHost ∧ r.uid = sampleApplied.uid ∧
          SameFlag r sampleApplied) ∧
      (SameFlag r sampleApplied ↔ r.ipVersion = sampleApplied.ipVersion) := by
  obtain ⟨⟨rest, next⟩, r, hr, key, -⟩ := sampleDelete_next
  have reach := sampleDelete_reachable sampleStored_reachable trivial
  rw [next] at reach
  refine ⟨r, hr, key, fun load => ?_⟩
  have other : r.key ≠ sampleApplied.key := by
    rw [key]
    decide
  obtain ⟨-, isolated⟩ := delete_commands_isolated reach _ _ _ _ _ _ rfl
  obtain ⟨client, -, normal⟩ := isolated r hr other load
  exact ⟨client rfl, (normal fun _ fresh => fresh.normalized).1⟩

end Isolation

end Tumgrd
