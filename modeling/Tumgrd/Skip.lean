import Tumgrd.Scenario

/-! A node that is skipped is applied: the server and the client were last told
what its row says. Statements do not fail here, but tools and detection may. -/
namespace Tumgrd

open Effect Semantics Service

/-- The command is for a node of `k`'s host and uid. -/
def Command.serves (cmd : Command) (k : Key) : Bool :=
  cmd.issue.node.serverHost.text = k.serverHost && cmd.issue.node.uid.text = k.uid

/-- The most recent command with one of these tools, for a node of `k`'s host and uid. -/
def latest (cmds : List Command) (k : Key) (tools : Tool → Bool) : Option Command :=
  cmds.find? fun cmd => cmd.serves k && tools cmd.issue.tool

/-- The command was built from the port and the key of the row. -/
structure Command.Carries (cmd : Command) (r : Row) : Prop where
  key : cmd.issue.node.key = r.key
  clientPort : cmd.issue.node.clientPort = r.clientPort
  xorKey : cmd.issue.node.xorKey = columnText r.xorKey
  built : cmd.issue.Builds cmd.call

/-- Both ends were last told what the row says, and nothing was deleted since. -/
structure Applied (cmds : List Command) (r : Row) (push install : Command) : Prop where
  pushed : latest cmds r.key (· = .serverAdd) = some push
  acknowledged : push.result.acknowledges serverUpdated = true
  pushedRow : push.Carries r
  installed : latest cmds r.key (· = .clientAdd) = some install
  succeeded : install.result.rc = 0
  installedRow : install.Carries r
  undisturbed : latest cmds r.key (· ≠ .serverAdd) = some install
  status : r.status = some statusActive
  currentIp : (columnText r.currentIp).text = push.issue.ip
  rotationState : r.rotationState = rotationNone

/-- The row is applied, or it says that it is not. -/
def Sound (cmds : List Command) (r : Row) : Prop :=
  r.status = some statusError ∨ r.rotationState ≠ rotationNone ∨
    ∃ push install, Applied cmds r push install

def AllSound (w : World) : Prop := ∀ k r, w.table.find? k = some r → Sound w.commands r

/-- No two nodes share a host and a uid. -/
def Distinct (t : Table) : Prop :=
  ∀ r ∈ t.rows, ∀ s ∈ t.rows, r.key.serverHost = s.key.serverHost →
    r.key.uid = s.key.uid →
    r.key = s.key

instance (t : Table) : Decidable (Distinct t) := inferInstanceAs (Decidable (∀ r ∈ t.rows, _))

/-- A skip of the node is justified by the commands that ran, and by an address
that this call has just detected. -/
def Justified (w : World) (n : Node) : Prop :=
  ∃ r push install, w.table.find? n.key = some r ∧ Applied w.commands r push install ∧
    ∃ url ipVersion ip, ⟨.detect url ipVersion, ⟨true, ip⟩⟩ ∈ w.callTrace ∧
      streqcase (columnText r.currentIp).text ip.text = true

def Justifies (w : World) (q : Req) : Prop := ∀ n, q = .report (.skipped n) → Justified w n

variable {w : World} {c : Call} {t : Table} {k k' : Key} {r s : Row} {cmds new : List Command}
  {now : Int} {l : Locals}

section Commands

theorem latest_append {tools : Tool → Bool} (others : ∀ cmd ∈ new, cmd.serves k = false) :
    latest (new ++ cmds) k tools = latest cmds k tools := by
  unfold latest
  rw [List.find?_append, List.find?_eq_none.mpr, Option.none_or]
  intro cmd hcmd
  simp [others cmd hcmd]

theorem Applied.append {push install : Command} (h : Applied cmds r push install)
    (others : ∀ cmd ∈ new, cmd.serves r.key = false) : Applied (new ++ cmds) r push install :=
  { h with
    pushed := (latest_append others).trans h.pushed
    installed := (latest_append others).trans h.installed
    undisturbed := (latest_append others).trans h.undisturbed }

theorem Sound.append (h : Sound cmds r) (others : ∀ cmd ∈ new, cmd.serves r.key = false) :
    Sound (new ++ cmds) r := by
  rcases h with status | rotating | ⟨push, install, applied⟩
  · exact .inl status
  · exact .inr (.inl rotating)
  · exact .inr (.inr ⟨push, install, applied.append others⟩)

theorem Command.serves_of_key {cmd : Command} (h : cmd.issue.node.key = k) :
    cmd.serves k = true := by
  subst h
  simp [Command.serves, Node.key]

theorem Command.serves_congr {cmd : Command} (h : cmd.serves k' = true)
    (h' : cmd.serves k = true) : k.serverHost = k'.serverHost ∧ k.uid = k'.uid := by
  simp only [Command.serves, Bool.and_eq_true, decide_eq_true_eq] at h h'
  exact ⟨h'.1.symm.trans h.1, h'.2.symm.trans h.2⟩

end Commands

section Tables

theorem Distinct.eq_of_find (h : Distinct t) (hr : t.find? k = some r) (hs : t.find? k' = some s)
    (host : k.serverHost = k'.serverHost) (uid : k.uid = k'.uid) : k = k' := by
  obtain ⟨memr, rfl⟩ := Keyed.find?_eq_some.mp hr
  obtain ⟨mems, rfl⟩ := Keyed.find?_eq_some.mp hs
  exact h r memr s mems host uid

/-- A table with no more keys than one of distinct nodes. -/
theorem Distinct.of_keys {t' : Table} (h : Distinct t)
    (keys : ∀ k r, t'.find? k = some r → ∃ s, t.find? k = some s) : Distinct t' := by
  intro r hr s hs host uid
  obtain ⟨r', hr'⟩ := keys _ _ (Keyed.mem_rows.mp hr)
  obtain ⟨s', hs'⟩ := keys _ _ (Keyed.mem_rows.mp hs)
  exact h.eq_of_find hr' hs' host uid

/-- A command for one node does not serve another. -/
theorem Distinct.serves {cmd : Command} (h : Distinct t) (hr : t.find? k = some r)
    (hs : t.find? k' = some s) (ne : k' ≠ k) (own : cmd.issue.node.key = k) :
    cmd.serves k' = false := by
  by_contra serves
  have same := Command.serves_congr (Command.serves_of_key own)
    ((Bool.not_eq_false _).mp serves)
  exact ne (h.eq_of_find hs hr same.1 same.2)

end Tables

section Calls

/-- A healthy node is skipped only on an unforced call, before anything happened. -/
theorem Ready.unforced (ready : Ready c now l w) (healthy : c.node.damaged = false)
    (unneeded : needApply l = false) :
    c.force = false ∧ w.table = c.table ∧ w.commands = c.commands ∧ l.node = c.node ∧
      c.node.rotationState = rotationNone ∧ c.node.wasError = false ∧
      streqcase c.node.currentIp.text l.detectedIp.text = true := by
  have commands : w.commands = c.commands := by
    rw [ready.during.earlier, ready.idle, List.nil_append]
  simp only [needApply, Bool.or_eq_false_iff, Bool.not_eq_false'] at unneeded
  obtain ⟨⟨unforced, sameIp⟩, clean⟩ := unneeded
  have decided := ready.decided
  rw [decided.unexpired_of_unforced unforced] at decided
  obtain ⟨node, force, table, resting, -⟩ := decided.of_unexpired healthy
  rw [node] at sameIp clean
  exact ⟨force ▸ unforced, table, commands, node, resting, clean, sameIp⟩

/-- What an unforced call is entered with. -/
def Trusted (c : Call) : Prop :=
  c.force = false → Sound c.commands c.row ∧ ∃ load, c.node = c.row.toNode load

theorem Ready.justified (ready : Ready c now l w) (healthy : c.node.damaged = false)
    (unneeded : needApply l = false) (trusted : Trusted c) :
    Justified w l.node ∧ w.table.find? c.key = some c.row ∧ Sound w.commands c.row := by
  obtain ⟨unforced, table, commands, node, resting, clean, sameIp⟩ :=
    ready.unforced healthy unneeded
  obtain ⟨sound, load, hload⟩ := trusted unforced
  have stored : w.table.find? c.key = some c.row := by
    rw [table]
    exact c.stored
  rw [commands]
  refine ⟨?_, stored, sound⟩
  rcases sound with status | rotating | ⟨push, install, applied⟩
  · simp [hload, Node.wasError, Row.toNode, status] at clean
  · rw [hload] at resting
    exact absurd resting rotating
  · obtain ⟨url, ipVersion, found⟩ := ready.detection
    rw [← commands] at applied
    refine ⟨c.row, push, install, ?_, applied, url, ipVersion, _, found, ?_⟩
    · rw [node]
      exact stored
    · rw [hload] at sameIp
      exact sameIp

/-- The commands of a call that applied its node are the latest ones. -/
theorem Completed.sound (h : Completed c now l w) :
    ∃ r, w.table.find? c.key = some r ∧ Sound w.commands r := by
  obtain ⟨r, hr, linked, port, status, ip, -⟩ := h.row
  refine ⟨r, hr, ?_⟩
  by_cases resting : r.rotationState = rotationNone
  swap
  · exact .inr (.inl resting)
  obtain ⟨-, mirrors⟩ := linked.isFaithful (.inr resting)
  have key : r.key = c.key := (Keyed.find?_eq_some.mp hr).2
  have own := h.own
  obtain ⟨add, del, rest, hcmds, installs, hdel, push, rest', hrest, pushes⟩ := h.commands
  rw [hrest] at hcmds
  rw [hcmds] at own
  have commands : w.commands = add :: del :: push :: (rest' ++ c.commands) := by
    rw [h.earlier, hcmds]
    rfl
  have serves : ∀ cmd ∈ add :: del :: push :: rest', cmd.serves c.key = true :=
    fun cmd hcmd => Command.serves_of_key (own cmd hcmd)
  have carries : ∀ cmd ∈ add :: del :: push :: rest',
      cmd.issue.node.clientPort = l.node.clientPort → cmd.issue.node.xorKey = l.node.xorKey →
      cmd.issue.Builds cmd.call → cmd.Carries r := by
    intro cmd hcmd clientPort xorKey built
    refine ⟨(own cmd hcmd).trans key.symm, ?_, ?_, built⟩
    · rw [clientPort, h.clientPort, port]
    · rw [xorKey, mirrors.xorKey]
  refine .inr (.inr ⟨push, add, ?_⟩)
  rw [commands]
  constructor
  · simp [latest, key, serves, installs.tool, hdel, pushes.tool]
  · exact pushes.acknowledged
  · exact carries push (by simp) pushes.clientPort pushes.xorKey pushes.built
  · simp [latest, key, serves, installs.tool]
  · exact installs.succeeded
  · exact carries add (by simp) installs.clientPort installs.xorKey installs.built
  · simp [latest, key, serves, installs.tool]
  · exact status
  · rw [ip, pushes.ip]
    rfl
  · exact resting

theorem Outcome.sound {result : Int × Node} (h : Outcome False c now result w)
    (healthy : c.node.damaged = false) (trusted : Trusted c) :
    ∃ r, w.table.find? c.key = some r ∧ Sound w.commands r := by
  cases h with
  | skipped ready unneeded table commands =>
    obtain ⟨-, stored, sound⟩ := ready.justified healthy unneeded trusted
    rw [table, commands]
    exact ⟨c.row, stored, sound⟩
  | applied completed => exact completed.sound
  | failed _ _ _ _ _ stored _ status =>
    exact ⟨_, stored, .inl (status.resolve_right not_false)⟩

/-- The commands a call added are its node's. -/
theorem Outcome.ran {sqlMayFail : Prop} {result : Int × Node}
    (h : Outcome sqlMayFail c now result w) :
    ∃ new, w.commands = new ++ c.commands ∧ ∀ cmd ∈ new, cmd.issue.node.key = c.key := by
  cases h with
  | skipped ready _ _ commands =>
    exact ⟨_, commands.trans ready.during.earlier, ready.during.own⟩
  | applied completed => exact ⟨_, completed.earlier, completed.own⟩
  | failed _ _ _ own earlier => exact ⟨_, earlier, own⟩

/-- What a call on distinct nodes leaves behind. -/
structure Leaves (c : Call) (w v : World) : Prop where
  consistent : Consistent v.table
  keys : ∀ k, (∃ r, v.table.find? k = some r) ↔ ∃ r, w.table.find? k = some r
  own : ∃ r, v.table.find? c.key = some r ∧ Sound v.commands r
  others : ∀ k, k ≠ c.key → v.table.find? k = w.table.find? k
  sound : Distinct w.table → ∀ k r, k ≠ c.key → w.table.find? k = some r →
    Sound w.commands r → Sound v.commands r
  trace : w.trace <:+ v.trace
  booting : v.booting = w.booting

theorem safe_trusted_call (entry : w.table = c.table) (earlier : w.commands = c.commands)
    (consistent : Consistent w.table) (trusted : Trusted c) :
    (sem False).Safe Justifies (reconcileOne c.cfg c.node c.force) w fun _ v => Leaves c w v := by
  have healthy : c.node.damaged = false :=
    (consistent c.key c.row (entry ▸ c.stored)).healthy c.linked
  have stored : w.table.find? c.key = some c.row := entry ▸ c.stored
  refine (safe_consistent_call entry earlier consistent).mono ?_ ?_
  · rintro v q ⟨⟨issued, -⟩, -⟩ n rfl
    cases issued with
    | quiet quiet => contradiction
    | skipped ready unneeded => exact (ready.justified healthy unneeded trusted).1
  · rintro result v ⟨⟨⟨now, outcome⟩, trace, booting⟩, keep⟩
    have others : ∀ k, k ≠ c.key → v.table.find? k = w.table.find? k :=
      entry ▸ outcome.others
    have own := outcome.sound healthy trusted
    obtain ⟨new, commands, mine⟩ := outcome.ran
    refine ⟨keep, fun k => ?_, own, others, fun distinct k r ne hr sound => ?_, trace, booting⟩
    · by_cases hk : k = c.key
      · subst hk
        obtain ⟨r, hr, -⟩ := own
        exact ⟨fun _ => ⟨_, stored⟩, fun _ => ⟨r, hr⟩⟩
      · rw [others k hk]
    · rw [commands, ← earlier]
      refine sound.append fun cmd hcmd => ?_
      rw [(Keyed.find?_eq_some.mp hr).2]
      exact distinct.serves stored hr ne (mine cmd hcmd)

theorem Leaves.distinct {v : World} (h : Leaves c w v) : Distinct v.table ↔ Distinct w.table :=
  ⟨fun distinct => distinct.of_keys fun k r hr => (h.keys k).mpr ⟨r, hr⟩,
    fun distinct => distinct.of_keys fun k r hr => (h.keys k).mp ⟨r, hr⟩⟩

end Calls

section Tasks

variable {cfg : Config} {force : Bool}

/-- Until the forced startup reconcile is through, nothing is reconciled unforced. -/
def Restarts (w : World) (t : Task) : Prop :=
  w.booting = true → t.op ≠ .periodic ∧ ∀ args, t.op = .refresh args → args.force = true

/-- Reconciling every node leaves every row sound, if it is forced or they all were. -/
theorem safe_sound_all (consistent : Consistent w.table) (distinct : Distinct w.table)
    (before : force = false → AllSound w) :
    (sem False).Safe Justifies (reconcileAll cfg force) w fun _ v =>
      AllSound v ∧ v.booting = w.booting := by
  refine safe_reconcileAll
    (I := fun nodes v => (∀ k r, v.table.find? k = some r →
      Sound v.commands r ∨ force = true ∧ k ∈ nodes.map Node.key) ∧
      v.booting = w.booting ∧ Consistent v.table ∧ Distinct v.table)
    ?_ (fun nodes v keeps _ listed => ?_)
    (fun c rest v refreshed _ ⟨sound, booting, keep, apart⟩ => ?_)
    (fun v ⟨sound, booting, _⟩ =>
      ⟨fun k r hr => (sound k r hr).resolve_right (by simp), booting⟩)
    fun may => may.elim
  · rintro v q quiet n rfl
    contradiction
  · refine ⟨fun k r hr => ?_, keeps.booting, keeps.table ▸ consistent,
      keeps.table ▸ distinct⟩
    cases force with
    | true =>
      exact .inr ⟨rfl, (Keyed.find?_eq_some.mp hr).2 ▸ listed r (Keyed.find?_eq_some.mp hr).1⟩
    | false =>
      rw [keeps.table] at hr
      exact .inl (keeps.commands ▸ before rfl k r hr)
  · have trusted : Trusted c := by
      intro unforced
      obtain ⟨load, loaded, -⟩ := refreshed.loaded
      refine ⟨?_, load, loaded⟩
      rw [refreshed.force] at unforced
      have stored : v.table.find? c.key = some c.row := refreshed.table ▸ c.stored
      rw [← refreshed.commands]
      exact (sound _ _ stored).resolve_right (by simp [unforced])
    refine (safe_trusted_call refreshed.table refreshed.commands keep trusted).post ?_
    intro result v' leaves
    refine ⟨⟨fun k r hr => ?_, leaves.booting.trans booting, leaves.consistent,
      leaves.distinct.mpr apart⟩, leaves.others, leaves.trace⟩
    by_cases hk : k = c.key
    · subst hk
      obtain ⟨s, hs, own⟩ := leaves.own
      cases hs.symm.trans hr
      exact .inl own
    · have hr' := hr
      rw [leaves.others k hk] at hr'
      rcases sound k r hr' with sound | ⟨forced, waiting⟩
      · exact .inl (leaves.sound apart k r hk hr' sound)
      · exact .inr ⟨forced, (List.mem_cons.mp waiting).resolve_left hk⟩

theorem AllSound.keeps {v : World} (h : AllSound w) (keeps : w.Keeps v) : AllSound v := by
  intro k r hr
  rw [keeps.table] at hr
  rw [keeps.commands]
  exact h k r hr

theorem Leaves.allSound {v : World} (h : Leaves c w v) (distinct : Distinct w.table)
    (before : ∀ k r, k ≠ c.key → w.table.find? k = some r → Sound w.commands r) :
    AllSound v := by
  intro k r hr
  by_cases hk : k = c.key
  · subst hk
    obtain ⟨s, hs, own⟩ := h.own
    cases hs.symm.trans hr
    exact own
  · have hr' := hr
    rw [h.others k hk] at hr'
    exact h.sound distinct k r hk hr' (before k r hk hr')

/-- What a task may assume of the rows, and what it leaves. -/
def Serving (w : World) : Prop := w.booting = false → AllSound w

theorem safe_sound_register {args : RegisterArgs} (consistent : Consistent w.table)
    (serving : Serving w) :
    (sem False).Safe Justifies (handleRegister cfg args) w fun _ v =>
      Distinct v.table → Serving v := by
  have quiet : ∀ v q, q.quiet = true → Justifies v q := by
    rintro v q quiet n rfl
    contradiction
  refine safe_handleRegister quiet consistent ?_ (fun v reg c check registered => ?_)
    fun v keeps distinct booted => (serving (keeps.booting.symm.trans booted)).keeps keeps
  · rintro v reg n s createdAt lastUpdated - - - m hm
    contradiction
  · have trusted : Trusted c := fun unforced => by simp [registered.force] at unforced
    refine (safe_trusted_call registered.table registered.commands registered.consistent
      trusted).post ?_
    intro result v' leaves v'' keeps distinct booted
    rw [keeps.table, leaves.distinct] at distinct
    have booted : w.booting = false := by
      rw [← registered.booting, ← leaves.booting, ← keeps.booting, booted]
    refine (leaves.allSound distinct fun k r hk hr => ?_).keeps keeps
    rw [registered.table, registered.others k hk] at hr
    rw [registered.commands, registered.earlier]
    exact serving booted k r hr

theorem safe_sound_deregister {args : NodeArgs} (distinct : Distinct w.table)
    (serving : Serving w) :
    (sem False).Safe Justifies (handleDeregister args) w fun _ v => Serving v := by
  have quiet : ∀ v q, q.quiet = true → Justifies v q := by
    rintro v q quiet n rfl
    contradiction
  refine safe_handleDeregister quiet ?_ ?_ ?_ (fun may => may.elim)
    fun v keeps booted => (serving (keeps.booting.symm.trans booted)).keeps keeps
  · rintro v r n tool call - - - - - - m hm
    contradiction
  · rintro v r n - - - m hm
    contradiction
  · rintro v n r changes - stored table booting ⟨new, commands, own⟩ booted k s hs
    rw [World.table_after_ok, Stmt.effect] at hs
    by_cases hk : k = n.key
    · subst hk
      rw [Keyed.find?_erase_self] at hs
      contradiction
    · rw [Keyed.find?_erase_of_ne hk, table] at hs
      rw [World.commands_after_sql, commands]
      have before := serving (booting.symm.trans booted) k s hs
      refine before.append fun cmd hcmd => ?_
      rw [(Keyed.find?_eq_some.mp hs).2]
      exact distinct.serves stored hs hk (congrArg Node.key (own cmd hcmd))

theorem safe_sound_refreshOne {k : Key} (consistent : Consistent w.table)
    (distinct : Distinct w.table) (serving : Serving w)
    (restarts : w.booting = true → force = true) :
    (sem False).Safe Justifies (refreshOne cfg force k) w fun _ v => Serving v := by
  have quiet : ∀ v q, q.quiet = true → Justifies v q := by
    rintro v q quiet n rfl
    contradiction
  refine safe_refreshOne quiet (fun v c keeps refreshed => ?_)
    fun v keeps booted => (serving (keeps.booting.symm.trans booted)).keeps keeps
  have stored : v.table.find? c.key = some c.row := refreshed.table ▸ c.stored
  have trusted : Trusted c := by
    intro unforced
    obtain ⟨load, loaded, -⟩ := refreshed.loaded
    refine ⟨?_, load, loaded⟩
    rw [refreshed.force] at unforced
    have booted : w.booting = false := by
      by_contra booting
      simp [restarts (by simpa using booting)] at unforced
    rw [← refreshed.commands]
    exact (serving booted).keeps keeps _ _ stored
  refine (safe_trusted_call refreshed.table refreshed.commands (keeps.table ▸ consistent)
    trusted).post ?_
  intro result v' leaves v'' keeps' booted
  have booted : w.booting = false := by
    rw [← keeps.booting, ← leaves.booting, ← keeps'.booting, booted]
  refine (leaves.allSound (keeps.table ▸ distinct) fun k r hk hr => ?_).keeps keeps'
  exact (serving booted).keeps keeps k r hr

/-- Every admitted task justifies its skips and leaves sound rows. -/
theorem safe_sound_task {t : Task} (restarts : Restarts w t) (consistent : Consistent w.table)
    (distinct : Distinct w.table) (serving : Serving w) :
    (sem False).Safe Justifies t.prog w fun _ v => Distinct v.table → Serving v := by
  have all : ∀ force, (force = false → AllSound w) →
      (sem False).Safe Justifies (reconcileAll t.cfg force) w fun _ v =>
        Distinct v.table → Serving v :=
    fun force before => (safe_sound_all consistent distinct before).post
      fun _ v sound _ _ => sound.1
  unfold Task.prog
  cases op : t.op with
  | register args =>
    simp only [safe_bind, safe_pure]
    exact safe_sound_register consistent serving
  | deregister args =>
    simp only [safe_bind, safe_pure]
    exact (safe_sound_deregister distinct serving).post fun _ _ sound _ => sound
  | refresh args =>
    have forced : w.booting = true → args.force = true := fun booting => (restarts booting).2 _ op
    simp only [safe_bind, safe_pure]
    unfold handleRefresh
    split
    · simp only [refreshAll, safe_bind, safe_pure]
      refine all args.force fun unforced => serving ?_
      by_contra booting
      simp [forced (by simpa using booting)] at unforced
    split
    · exact fun _ => serving
    · exact (safe_sound_refreshOne consistent distinct serving forced).post
        fun _ _ sound _ => sound
  | status =>
    simp only [handleStatus, safe_bind, safe_pure]
    refine safe_dbListNodes ?_ (fun nodes v keeps _ _ _ _ booted => ?_) fun may => may.elim
    · rintro v q quiet n rfl
      contradiction
    · exact (serving (keeps.booting.symm.trans booted)).keeps keeps
  | periodic =>
    simp only [periodicReconcile, safe_bind, safe_pure]
    refine all false fun _ => serving ?_
    by_contra booting
    exact (restarts (by simpa using booting)).1 op
  | ifup =>
    simp only [netEvent, safe_bind, safe_pure]
    exact all true fun forced => by contradiction
  | startup =>
    simp only [startupReconcile, safe_bind, safe_report]
    refine (safe_sound_all consistent distinct fun forced => by contradiction).post ?_
    rintro result v ⟨sound, -⟩
    exact ⟨fun n hn => by simp at hn, fun _ _ => sound⟩

/-- The daemon on distinct nodes, with statements that do not fail. -/
abbrev distinctDaemon : Daemon := daemon ((sem False).within fun w => Distinct w.table) Restarts

theorem sound_contract :
    distinctDaemon.Contract World.Fresh (fun w => Consistent w.table ∧ Distinct w.table) Serving
      (fun t w₀ w q => Permits False t w₀ w q ∧ Justifies w q)
      fun _ _ v => Distinct v.table → Serving v where
  start := by
    intro w fresh
    refine ⟨⟨fresh.consistent, ?_⟩, fun _ k r hr => ?_⟩
    · intro r hr
      rw [fresh.1] at hr
      contradiction
    · rw [fresh.1] at hr
      contradiction
  task := by
    intro t w restarts ⟨consistent, distinct⟩ serving
    have safe := (safe_task consistent).and (safe_sound_task restarts consistent distinct serving)
    exact (safe.within (I := fun v => Distinct v.table)).post fun _ _ post => post.2
  call := fun _ _ _ _ _ _ _ _ keep permits allowed =>
    ⟨permits.1.consistent keep.1, allowed.2⟩
  finish := fun _ _ _ _ _ _ keep post => ⟨keep, post keep.2⟩
  crash := fun _ keep => ⟨keep, fun booted => by contradiction⟩

/-- Whenever `tumgrd_reconcile_one` skips a node, the last server-add for it was
acknowledged and the last client-add succeeded, both with the port and the key
its row has now; nothing deleted them since; and the row is active, does not
rotate, and has the address of that server-add, which was detected again. -/
theorem skip_sound {s : State Req Resp World Task}
    (reach : distinctDaemon.Reachable World.Fresh s) :
    ∀ t w₀ w n rest, s = .busy t w₀ w (.call (.report (.skipped n)) rest) →
        Justified w n := by
  rintro t w₀ w n rest rfl
  exact (sound_contract.permitted reach).2 n rfl

end Tasks

section Reach

variable (sc : Scenario) {start : World → Prop} {t : Task} {steps : Nat}

theorem Scenario.distinct_busy (reach : distinctDaemon.Reachable start (.idle w))
    (admitted : Restarts w t)
    (stays : Stays World.after sc.answer (fun v => Distinct v.table) steps t.prog w) :
    distinctDaemon.Reachable start
      (.busy t w (sc.playing t w steps).2 (sc.playing t w steps).1) :=
  (reach.begun admitted).runs (sc.runs_within stays)

theorem Scenario.distinct_idle (reach : distinctDaemon.Reachable start (.idle w))
    (admitted : Restarts w t)
    (stays : Stays World.after sc.answer (fun v => Distinct v.table) steps t.prog w)
    (ended : (sc.playing t w steps).1.result? = some ()) :
    distinctDaemon.Reachable start (.idle (sc.playing t w steps).2) :=
  reach.finished admitted (sc.runs_within stays) ended

/-- After the registration and the startup reconcile. -/
@[irreducible] def sampleBooted : World :=
  ((sample 1700000100).playing (sampleTask .startup) sampleStored 20).2

/-- The periodic reconcile that follows. -/
@[irreducible] def sampleSkip : Prog Unit × World :=
  (sample 1700000200).playing (sampleTask .periodic) sampleBooted 5

theorem reachable_sampleSkip : distinctDaemon.Reachable World.Fresh
    (.busy (sampleTask .periodic) sampleBooted sampleSkip.2 sampleSkip.1) := by
  have registered : distinctDaemon.Reachable World.Fresh (.idle sampleStored) := by
    unfold sampleStored
    exact (sample _).distinct_idle (.start ⟨rfl, rfl⟩) (fun _ => ⟨nofun, nofun⟩)
      (by decide +kernel) (by decide +kernel)
  have booted : distinctDaemon.Reachable World.Fresh (.idle sampleBooted) := by
    unfold sampleBooted
    exact (sample _).distinct_idle registered (fun _ => ⟨nofun, nofun⟩) (by decide +kernel)
      (by decide +kernel)
  have begun : sampleBooted.booting = false := by decide +kernel
  unfold sampleSkip
  exact (sample _).distinct_busy booted (fun booting => by simp [begun] at booting)
    (by decide +kernel)

theorem skip_sound_periodic : Justified sampleSkip.2 (sampleNode 1700000100 1700000000) := by
  obtain ⟨rest, next⟩ := Program.eq_call (p := sampleSkip.1)
    (q := .report (.skipped (sampleNode 1700000100 1700000000))) (by decide +kernel)
  have reach := reachable_sampleSkip
  rw [next] at reach
  exact skip_sound reach _ _ _ _ _ rfl

end Reach

end Tumgrd
