import Tumgrd.Scenario
import Tumgrd.Sendable

/-! The key rotation over whole runs of the daemon, with tools and statements
that fail and crashes between any two steps. -/
namespace Tumgrd

open Effect Service

variable {admits : World → Task → Prop} {t : Task} {w₀ w : World} {c : Call}

theorem fresh_contract :
    (daemon (sem True) admits).Contract World.Fresh (fun w => Consistent w.table) (fun _ => True)
      (Permits True) fun _ _ _ => True :=
  { daemon_contract admits with start := fun _ fresh => ⟨fresh.consistent, trivial⟩ }

section Row

/-- When a call returns, the node in memory still agrees with its row. -/
theorem Outcome.linked {sqlMayFail : Prop} {now : Int} {result : Int × Node}
    (h : Outcome sqlMayFail c now result w) :
    ∃ r, w.table.find? result.2.key = some r ∧ Linked c.faithful result.2 r := by
  cases h with
  | skipped ready _ table =>
    obtain ⟨r, hr, hlinked, -⟩ := ready.during.row
    refine ⟨r, ?_, hlinked⟩
    rw [table, ready.during.key_eq]
    exact hr
  | applied completed =>
    obtain ⟨r, hr, hlinked, -⟩ := completed.row
    exact ⟨r, completed.key ▸ hr, hlinked⟩
  | failed _ key _ _ _ stored linked => exact ⟨_, key ▸ stored, linked⟩

/-- What is permitted of a healthy node's call is not a repair. -/
theorem Permits.not_repair {sqlMayFail : Prop} {q : Req} (h : Permits sqlMayFail t w₀ w q) :
    (∀ k, q ≠ .sql (.update k setCleared .any)) ∧
      ∀ k key now, q ≠ .sql (.update k (setRotation key rotationPendingRemote now) .any) := by
  cases h with
  | call entered healthy issued =>
    cases issued with
    | quiet quiet =>
      exact ⟨by rintro k rfl; contradiction, by rintro k key now rfl; contradiction⟩
    | replace damaged => simp [healthy] at damaged
    | clear damaged => simp [healthy] at damaged
    | _ =>
      simp [setCleared, setRotation, setRotationState, setRuntime, setCompleted, setApplied]
  | quiet quiet =>
    exact ⟨by rintro k rfl; contradiction, by rintro k key now rfl; contradiction⟩
  | _ => simp

theorem Permits.called {sqlMayFail : Prop} {n : Node} {force : Bool}
    (h : Permits sqlMayFail t w₀ w (.report (.called n force))) : n.damaged = false := by
  cases h with
  | quiet quiet => contradiction
  | call entered healthy issued =>
    cases issued with
    | quiet quiet => contradiction
    | called => exact healthy

theorem Permits.returned {sqlMayFail : Prop} {n : Node} {err : Int}
    (h : Permits sqlMayFail t w₀ w (.report (.returned n err))) :
    ∃ c now, Entered t w₀ w c ∧ Outcome sqlMayFail c now (err, n) w := by
  cases h with
  | quiet quiet => contradiction
  | call entered healthy issued =>
    cases issued with
    | quiet quiet => contradiction
    | returned outcome => exact ⟨_, _, entered, outcome⟩

/-- At every point of every run the rotation columns of every row agree; the
repair blocks find nothing to repair and their statements are never executed;
and a call returns with the stored rotation fields in memory. -/
theorem rotation_row_invariant {s : State Req Resp World Task}
    (reach : (daemon (sem True) admits).Reachable World.Fresh s) :
    (∀ r ∈ s.world.table.rows, r.Consistent) ∧
      ∀ t w₀ w q rest, s = .busy t w₀ w (.call q rest) →
        (∀ n force, q = .report (.called n force) →
          n.stateInvalid = false ∧ n.keyMismatch = false) ∧
        (∀ k, q ≠ .sql (.update k setCleared .any)) ∧
        (∀ k key now, q ≠ .sql (.update k (setRotation key rotationPendingRemote now) .any)) ∧
        (∀ n err, q = .report (.returned n err) → ¬t.Overwrites w₀ →
          ∃ r, w.table.find? n.key = some r ∧ Mirrors n r) := by
  refine ⟨fun r hr => fresh_contract.invariant reach _ r (Keyed.mem_rows.mp hr), ?_⟩
  rintro t w₀ w q rest rfl
  have permits := fresh_contract.permitted reach
  refine ⟨?_, permits.not_repair.1, permits.not_repair.2, ?_⟩
  · rintro n force rfl
    simpa [Node.damaged] using permits.called
  · rintro n err rfl faithful
    obtain ⟨c, now, entered, outcome⟩ := permits.returned
    obtain ⟨r, hr, hlinked⟩ := outcome.linked
    rw [entered.faithful faithful] at hlinked
    exact ⟨r, hr, hlinked.mirrors⟩

theorem rotation_row_invariant_expiry :
    ∃ rest, (sampleExpiry 22).1 =
      .call (.report (.returned (sampleNode 1700000000 1700003600) 0)) rest ∧
      ∃ r, (sampleExpiry 22).2.table.find? sampleKey = some r ∧
        Mirrors (sampleNode 1700000000 1700003600) r := by
  obtain ⟨rest, next⟩ := Program.eq_call (p := (sampleExpiry 22).1)
    (q := .report (.returned (sampleNode 1700000000 1700003600) 0)) (by decide +kernel)
  have reach := reachable_sampleExpiry True (fun _ _ => trivial) 22
  rw [next] at reach
  refine ⟨rest, next, ?_⟩
  have ⟨_, calls⟩ := rotation_row_invariant reach
  obtain ⟨_, _, _, returned⟩ := calls _ _ _ _ _ rfl
  rw [← key_sampleNode 1700000000 1700003600]
  refine returned _ _ rfl ?_
  rintro ⟨args, reg, op, -⟩
  contradiction

end Row

section Protocol

variable {k : Key} {r r' : Row}

/-- A server-add for the node at `k` was acknowledged with the key of `r`. -/
def Acked (w : World) (k : Key) (r : Row) : Prop :=
  ∃ cmd ∈ w.commands, cmd.issue.tool = .serverAdd ∧ cmd.issue.node.key = k ∧
    cmd.issue.node.xorKey = columnText r.xorKey ∧ cmd.issue.Builds cmd.call ∧
    cmd.result.acknowledges serverUpdated = true

theorem Acked.later {v : World} (h : Acked w k r) (xorKey : r'.xorKey = r.xorKey)
    (commands : w.commands <:+ v.commands) : Acked v k r' := by
  obtain ⟨cmd, hcmd, tool, key, xor, built, acknowledged⟩ := h
  exact ⟨cmd, commands.subset hcmd, tool, key, by rw [xor, xorKey], built, acknowledged⟩

theorem World.commands_suffix (w : World) {q : Req} (reply : Resp q) :
    w.commands <:+ (w.after q reply).commands := by
  rw [World.commands_after]
  exact List.suffix_append _ _

/-- A row that waits for its local recovery has its key at the server. -/
def Confirmed (w : World) : Prop :=
  ∀ k r, w.table.find? k = some r →
    r.rotationState = rotationPendingLocalRecovery → Acked w k r

theorem Pushed.acked {now : Int} {n : Node} {found : Buf 64}
    {ip : Str} (h : Pushed w.callCommands n ip)
    (during : During c now n found w) (xorKey : columnText r.xorKey = n.xorKey) :
    Acked w c.key r := by
  obtain ⟨cmd, rest, hcmds, hcmd⟩ := h
  refine ⟨cmd, ?_, hcmd.tool, hcmd.key.trans during.key_eq, hcmd.xorKey.trans xorKey.symm,
    hcmd.built, hcmd.acknowledged⟩
  rw [during.earlier, hcmds]
  exact List.mem_append_left _ List.mem_cons_self

/-- While a row rotates no statement changes its key. -/
theorem RowStep.xorKey (h : RowStep t w₀ w k r r') (rotating : r.rotationState ≠ rotationNone) :
    r'.xorKey = r.xorKey := by
  cases h with
  | merged => exact if_pos rotating
  | begun resting => exact absurd resting rotating
  | _ => rfl

theorem RowStep.confirmed (h : RowStep t w₀ w k r r') (before : w.table.find? k = some r)
    (confirmed : Confirmed w) (recovering : r'.rotationState = rotationPendingLocalRecovery) :
    Acked w k r' := by
  have kept : r'.rotationState = r.rotationState → Acked w k r' := by
    intro same
    have rotating : r.rotationState ≠ rotationNone := by simp [← same, recovering]
    exact (confirmed k r before (same ▸ recovering)).later (h.xorKey rotating)
      (List.suffix_refl _)
  cases h with
  | same => exact kept rfl
  | merged => exact kept rfl
  | runtime => exact kept rfl
  | applied => exact kept rfl
  | begun => simp [Row.assign, setRotation] at recovering
  | completed => simp [Row.assign, setCompleted] at recovering
  | promoted entered key during pending pushed =>
    subst key
    obtain ⟨s, hs, hlinked, -⟩ := during.row
    cases before.symm.trans hs
    obtain ⟨-, mirrors⟩ := hlinked.isFaithful (.inl (by simp [pending]))
    exact pushed.acked during mirrors.xorKey

theorem Permits.confirmed {sqlMayFail : Prop} {q : Req} {reply : Resp q}
    (h : Permits sqlMayFail t w₀ w q) (confirmed : Confirmed w) :
    Confirmed (w.after q reply) := by
  intro k r' after recovering
  cases before : w.table.find? k with
  | none => simp [h.inserted_resting before after] at recovering
  | some r =>
    exact ((h.rowStep before after).confirmed before confirmed recovering).later rfl
      (w.commands_suffix reply)

theorem rotation_contract (admits : World → Task → Prop) :
    (daemon (sem True) admits).Contract World.Fresh
      (fun w => Consistent w.table ∧ Confirmed w) (fun _ => True) (Permits True)
      fun _ _ _ => True where
  start :=
    fun w fresh => ⟨⟨fresh.consistent, fun k r hr => by simp [fresh.1] at hr⟩, trivial⟩
  task := fun _ _ _ keep _ => safe_task keep.1
  call := fun _ _ _ _ _ _ _ _ keep permits _ =>
    ⟨permits.consistent keep.1, permits.confirmed keep.2⟩
  finish := fun _ _ _ _ _ _ keep _ => ⟨keep, trivial⟩
  crash := fun _ keep => ⟨keep, trivial⟩

/-- The completing statement runs inside a call, after both ends took the key. -/
theorem RowStep.completes (h : RowStep t w₀ w k r r') (before : w.table.find? k = some r)
    (consistent : r.Consistent) (rotating : r.rotationState ≠ rotationNone)
    (resting : r'.rotationState = rotationNone) :
    ∃ n m ip, w.running = some n ∧ n.key = k ∧ m.key = k ∧
      m.xorKey = columnText r.xorKeyPending ∧
      Installed w.callCommands m ip := by
  cases h with
  | same => contradiction
  | merged => contradiction
  | runtime => contradiction
  | applied => contradiction
  | begun => simp [Row.assign, setRotation] at resting
  | promoted => simp [Row.assign, setRotationState] at resting
  | @completed c now l entered key healthy applying installed pending =>
    subst key
    obtain ⟨s, hs, hlinked, -⟩ := applying.during.row
    cases before.symm.trans hs
    obtain ⟨-, mirrors⟩ := hlinked.isFaithful (.inl pending)
    exact ⟨c.node, l.node, _, applying.during.running, rfl, applying.during.key_eq,
      by rw [consistent.pending_eq rotating, mirrors.xorKey], installed⟩

/-- The key the tools are given is the stored one. -/
theorem Permits.exec_xorKey {sqlMayFail : Prop} {issue : Issue} {call : Invocation}
    (h : Permits sqlMayFail t w₀ w (.exec issue call)) (faithful : ¬t.Overwrites w₀)
    (adds : issue.tool = .serverAdd ∨ issue.tool = .clientAdd) :
    issue.Builds call ∧ ∃ r, w.table.find? issue.node.key = some r ∧
      columnText r.xorKey = issue.node.xorKey := by
  cases h with
  | quiet quiet => contradiction
  | exec _ _ _ _ tool => rcases tool with rfl | rfl <;> simp at adds
  | call entered healthy issued =>
    cases issued with
    | quiet quiet => contradiction
    | exec during builds =>
      obtain ⟨r, hr, hlinked, -⟩ := during.row
      rw [entered.faithful faithful] at hlinked
      exact ⟨builds, r, during.key_eq ▸ hr, hlinked.mirrors.xorKey⟩

/-- One step of the daemon moves the row at a key by one statement of its task. -/
theorem row_moves {s s' : State Req Resp World Task} {sqlMayFail : Prop}
    {start I J : World → Prop}
    {Q : Task → World → World → Prop}
    (contract : (daemon (sem sqlMayFail) admits).Contract start I J (Permits sqlMayFail) Q)
    (reach : (daemon (sem sqlMayFail) admits).Reachable start s)
    (step : (daemon (sem sqlMayFail) admits).Step s s')
    (before : s.world.table.find? k = some r) (after : s'.world.table.find? k = some r') :
    r' = r ∨ ∃ t w₀, RowStep t w₀ s.world k r r' := by
  cases step with
  | call allowed => exact .inr ⟨_, _, (contract.permitted reach).rowStep before after⟩
  | _ => exact .inl (Option.some.inj (after.symm.trans before))

section Given

variable {s : State Req Resp World Task}

/-- The node of a command has the name and the key of a stored row, each one word. -/
theorem gives_stored {cmd : Issue} {call : Invocation}
    (reach : (daemon (sem True) admits).Reachable World.Fresh s)
    (found : s.world.table.find? cmd.node.key = some r) (builds : cmd.Builds call)
    (adds : cmd.tool = .serverAdd ∨ cmd.tool = .clientAdd)
    (xorKey : cmd.node.xorKey = columnText r.xorKey) :
    call.Gives cmd.tool cmd.ip cmd.node.key (columnText r.xorKey).text := by
  obtain ⟨stored, key⟩ := Keyed.find?_eq_some.mp found
  have sendable := ((sendable_rows.contract admits).invariant reach).2 r stored
  have uid : r.uid.text = cmd.node.uid.text := congrArg Key.uid key
  rw [← xorKey]
  refine builds.gives adds (uid ▸ field_of_isSafeId sendable.uid) fun keyed => ?_
  rw [xorKey] at keyed ⊢
  exact field_of_isSafeId (sendable.xorKey keyed)

/-- The server has acknowledged a `server-add` that gave it this key. -/
def Took (cmds : List Command) (k : Key) (key : Str) : Prop :=
  ∃ cmd ∈ cmds, cmd.call.Gives .serverAdd cmd.issue.ip k key ∧
    cmd.result.acknowledges serverUpdated = true

/-- The last commands gave this key to the server, which acknowledged it, and
then to the local client, which took it. -/
def TookBoth (cmds : List Command) (k : Key) (key : Str) : Prop :=
  ∃ add del push rest, cmds = add :: del :: push :: rest ∧
    push.call.Gives .serverAdd push.issue.ip k key ∧
    push.result.acknowledges serverUpdated = true ∧
    add.call.Gives .clientAdd add.issue.ip k key ∧ add.result.rc = 0

theorem Acked.took (reach : (daemon (sem True) admits).Reachable World.Fresh s)
    (found : s.world.table.find? k = some r) (h : Acked s.world k r) :
    Took s.world.commands k (columnText r.xorKey).text := by
  obtain ⟨cmd, hcmd, tool, rfl, xorKey, built, acknowledged⟩ := h
  have gives := gives_stored reach found built (.inl tool) xorKey
  rw [tool] at gives
  exact ⟨cmd, hcmd, gives, acknowledged⟩

theorem Installed.tookBoth {m : Node} {ip : Str} {cmds : List Command}
    (reach : (daemon (sem True) admits).Reachable World.Fresh s)
    (found : s.world.table.find? m.key = some r) (xorKey : m.xorKey = columnText r.xorKey)
    (h : Installed cmds m ip) : TookBoth cmds m.key (columnText r.xorKey).text := by
  obtain ⟨add, del, rest, rfl, adds, -, push, rest, rfl, pushes⟩ := h
  have client := gives_stored reach (adds.key ▸ found) adds.built (.inr adds.tool)
    (adds.xorKey.trans xorKey)
  have server := gives_stored reach (pushes.key ▸ found) pushes.built (.inl pushes.tool)
    (pushes.xorKey.trans xorKey)
  rw [adds.tool, adds.key] at client
  rw [pushes.tool, pushes.key] at server
  exact ⟨add, del, push, rest, rfl, server, pushes.acknowledged, client, adds.succeeded⟩

end Given

/-- The rotation protocol. (a) The server and the client are given the stored
key, except by a register that writes over a row it has not read. (b) A row
waits for its local recovery only after the server has taken its key. While a
row rotates its key does not change (d), and its rotation ends (c) only inside a
call for it, after the server and then the client took the pending key. -/
theorem xor_rotation_protocol {s : State Req Resp World Task}
    (reach : (daemon (sem True) admits).Reachable World.Fresh s) :
    (∀ t w₀ w issue call rest, s = .busy t w₀ w (.call (.exec issue call) rest) →
      issue.tool = .serverAdd ∨ issue.tool = .clientAdd → ¬t.Overwrites w₀ →
      ∃ r, w.table.find? issue.node.key = some r ∧
        call.Gives issue.tool issue.ip issue.node.key (columnText r.xorKey).text) ∧
    (∀ k r, s.world.table.find? k = some r → r.rotationState = rotationPendingLocalRecovery →
      Took s.world.commands k (columnText r.xorKey).text) ∧
    ∀ s', (daemon (sem True) admits).Step s s' → ∀ k r r',
      s.world.table.find? k = some r → s'.world.table.find? k = some r' →
      r.rotationState ≠ rotationNone →
      r'.xorKey = r.xorKey ∧ (r'.rotationState = rotationNone →
        (∃ n, s.world.running = some n ∧ n.key = k) ∧
          TookBoth s.world.callCommands k (columnText r.xorKeyPending).text) := by
  have contract := rotation_contract admits
  have ⟨consistent, confirmed⟩ := contract.invariant reach
  refine ⟨?_, fun k r found recovering => (confirmed k r found recovering).took reach found, ?_⟩
  · rintro t w₀ w issue call rest rfl adds faithful
    obtain ⟨builds, r, found, xorKey⟩ := (contract.permitted reach).exec_xorKey faithful adds
    exact ⟨r, found, gives_stored reach found builds adds xorKey.symm⟩
  · intro s' step k r r' before after rotating
    rcases row_moves contract reach step before after with rfl | ⟨t, w₀, moves⟩
    · exact ⟨rfl, fun resting => absurd resting rotating⟩
    refine ⟨moves.xorKey rotating, fun resting => ?_⟩
    obtain ⟨n, m, ip, running, own, rfl, xorKey, installed⟩ :=
      moves.completes before (consistent k r before) rotating resting
    have same := (consistent _ r before).pending_eq rotating
    rw [same] at xorKey ⊢
    exact ⟨⟨n, running, own⟩, installed.tookBoth reach before xorKey⟩

theorem xor_rotation_protocol_expiry :
    ∃ r r', (sampleExpiry 21).2.table.find? sampleKey = some r ∧
      r.rotationState = rotationPendingLocalRecovery ∧
      Took (sampleExpiry 21).2.commands sampleKey (columnText r.xorKey).text ∧
      ((sampleExpiry 21).2.after sampleCompletion (.ok [] 1)).table.find? sampleKey = some r' ∧
      r'.rotationState = rotationNone ∧ r'.xorKey = r.xorKey ∧
      (∃ n, (sampleExpiry 21).2.running = some n ∧ n.key = sampleKey) ∧
        TookBoth (sampleExpiry 21).2.callCommands sampleKey (columnText r.xorKeyPending).text := by
  obtain ⟨⟨rest, next⟩, replied, r, r', before, state, after, state'⟩ :=
    sampleExpiry_completes
  obtain ⟨recovering, -⟩ := Prod.mk.inj state
  obtain ⟨resting, -⟩ := Prod.mk.inj state'
  have reach := reachable_sampleExpiry True (fun _ _ => trivial) 21
  rw [next] at reach
  have ⟨_, confirmed, moves⟩ := xor_rotation_protocol reach
  have step := moves _ (.call replied) sampleKey r r' before after (by simp [recovering])
  exact ⟨r, r', before, recovering, confirmed _ _ before recovering, after, resting, step.1,
    step.2 resting⟩

end Protocol

end Tumgrd
