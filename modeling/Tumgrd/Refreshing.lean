import Tumgrd.Client
import Tumgrd.Convergence

/-! `tumgr refresh`, from its arguments to the tunnels. -/
namespace Tumgrd

open Effect Program Semantics

/-- The variables of `cmd_refresh`. -/
structure RefreshVars where
  vars : Vars
  force : Bool
  all : Bool

def refreshOpts : List Opt := [.uid, .serverHost, .serverPort, .ipVersion, .socket]

/-- The loop over the arguments. Two options have no value. -/
def parseRefresh : List Str → RefreshVars → Option RefreshVars
  | [], r => some r
  | name :: rest, r =>
      if name ∈ ["-all".toList, "-a".toList] then parseRefresh rest { r with all := true }
      else if name ∈ ["-force".toList, "-f".toList] then
        parseRefresh rest { r with force := true }
      else match refreshOpts.find? fun opt => name ∈ opt.names with
        | none => none
        | some opt =>
            match rest with
            | [] => none
            | value :: rest => parseRefresh rest { r with vars := Function.update r.vars opt value }

/-- `cmd_refresh`, up to the payload. -/
def cmdRefresh (args : List Str) : Option RefreshVars := do
  let r ← parseRefresh args ⟨fun _ => [], false, false⟩
  guard (r.all = true ∨
    (∀ opt ∈ [Opt.uid, .serverHost, .serverPort, .ipVersion], r.vars opt ≠ []) ∧
      isUint (r.vars .serverPort) = true)
  pure r

def boolWord (b : Bool) : Str := if b then "true".toList else "false".toList

/-- A node is named as `cmd_deregister` names it. -/
def RefreshVars.members (r : RefreshVars) : List (Str × Json.Value) :=
  (if r.all then wordMember "all" (boolWord true) else deregisterMembers r.vars) ++
    wordMember "force" (boolWord r.force)

/-- A number, or one of the two words that become a `BLOBMSG_TYPE_BOOL`. -/
def blobOf : Json.Value → Blob
  | .text s => .string s
  | .word s =>
      if s = boolWord true then .int8 1 else if s = boolWord false then .int8 0 else number s

structure Conveyable (member : Str × Json.Value) : Prop where
  name : ∀ c ∈ member.1, Json.isPlain c = true
  value : match member.2 with
    | .text s => Faithful s
    | .word s => isUint s = true ∨ ∃ b, s = boolWord b

/-- What the `ubus` program does to a payload, where it may also hold booleans. -/
def Delivers (ubus : Str → Option Message) : Prop :=
  ∀ members, members ≠ [] → (members.map Prod.fst).Nodup →
    (∀ member ∈ members, Conveyable member) →
    ubus (payloadOf members) = some (members.map (Prod.map id blobOf))

/-- The node that the arguments name, if the daemon can make out a name. -/
def RefreshVars.key? (r : RefreshVars) : Option Key := do
  let port := Nat.ofDigitChars 10 (r.vars .serverPort) 0
  guard (port ≤ 2147483647)
  let ipVersion ← normalizeIpVersion (r.vars .ipVersion)
  pure ⟨r.vars .serverHost, port, r.vars .uid, ipVersion.text⟩

/-- The member `status` of a reply. -/
def UbusReply.status? : UbusReply → Option Value
  | .ok fields => fields.lookup "status".toList
  | _ => none

/-- The row of the node is there as it was registered, and applied at both ends. -/
def Mended (w v : World) (k : Key) : Prop :=
  ∀ r, w.table.find? k = some r → ∃ r', v.table.find? k = some r' ∧
    r'.Retains r ∧ Tended w v r'

variable {ubus : Str → Option Message} {arguments : List Str} {r : RefreshVars} {msg : Message}
  {cfg : Config} {w u v : World} {k : Key} {reply : UbusReply}

section Payload

theorem boolWord_not_digits {s : Str} (digits : isUint s = true) (b : Bool) : s ≠ boolWord b := by
  rintro rfl
  cases b <;> contradiction

theorem blobOf_digits {s : Str} (digits : isUint s = true) : blobOf (.word s) = number s := by
  simp only [blobOf, if_neg (boolWord_not_digits digits true),
    if_neg (boolWord_not_digits digits false)]

/-- The program does with numbers and texts what `register` and `deregister` need. -/
theorem Delivers.conveys (delivers : Delivers ubus) : Conveys ubus := by
  intro members nonempty names carried
  rw [delivers members nonempty names fun member mem => ⟨(carried member mem).name, ?_⟩]
  · congr 1
    refine List.map_congr_left fun member mem => ?_
    have value := (carried member mem).value
    obtain ⟨name, text | word⟩ := member
    · rfl
    · exact congrArg (Prod.mk name) (blobOf_digits value)
  · have value := (carried member mem).value
    obtain ⟨name, text | word⟩ := member
    · exact value
    · exact .inl value

theorem Conveyable.declared {member : Str × Json.Value} (h : Conveyable member) :
    Declared member := by
  obtain ⟨name, text | word⟩ := member
  · exact ⟨h.name, h.value⟩
  · refine ⟨h.name, ?_⟩
    rcases h.value with digits | ⟨b, rfl⟩
    · have carried : Carried (name, Json.Value.word word) := ⟨h.name, digits⟩
      exact carried.declared.value
    · cases b <;> exact ⟨by decide, List.all_eq_true.mp rfl⟩

theorem names_refresh (r : RefreshVars) : (r.members.map Prod.fst).Nodup := by
  unfold RefreshVars.members
  split
  · change ["all".toList, "force".toList].Nodup
    decide
  · change ["uid".toList, "server_host".toList, "server_port".toList, "ip_version".toList,
      "force".toList].Nodup
    decide

theorem u32?_number (s : Str) : (number s).u32? =
    if Nat.ofDigitChars 10 s 0 ≤ 2147483647 then some (UInt32.ofNat (Nat.ofDigitChars 10 s 0))
    else none := by
  unfold number
  dsimp only
  split <;> rfl

/-- What the handler makes of the message. -/
theorem refreshArgs_members (r : RefreshVars)
    (digits : r.all = false → isUint (r.vars .serverPort) = true) :
    (blobmsgParse (r.members.map (Prod.map id blobOf))).refreshArgs =
      if r.all then { force := r.force, all := true }
      else
        { uid := some (r.vars .uid), serverHost := some (r.vars .serverHost)
          serverPort := (number (r.vars .serverPort)).u32?, ipVersion := some (r.vars .ipVersion)
          force := r.force, all := false } := by
  obtain ⟨vars, force, all⟩ := r
  cases all with
  | true => cases force <;> rfl
  | false =>
    have port :
      (blobmsgParse ((RefreshVars.mk vars force false).members.map (Prod.map id blobOf))).getU32
        .serverPort = (number (vars .serverPort)).u32? := by
      change Option.bind
        (List.findSome? _ [_, _, ("server_port".toList, blobOf (.word (vars .serverPort))),
        _, _]) _ = _
      rw [blobOf_digits (digits rfl)]
      generalize number (vars .serverPort) = blob
      cases blob <;> rfl
    unfold Tb.refreshArgs Tb.nodeArgs
    rw [port]
    cases force <;> rfl

/-- A number of more than 31 bits names no port. -/
theorem key?_members (r : RefreshVars) :
    NodeArgs.key? { uid := some (r.vars .uid), serverHost := some (r.vars .serverHost)
                    serverPort := (number (r.vars .serverPort)).u32?
                    ipVersion := some (r.vars .ipVersion) } = r.key? := by
  unfold NodeArgs.key? RefreshVars.key?
  rw [u32?_number]
  split
  · rename_i small
    simp [toInt_ofNat (Nat.lt_succ_of_le small), small]
  · rename_i large
    simp [large]

theorem digits_of_cmdRefresh (accepted : cmdRefresh arguments = some r) :
    r.all = false → isUint (r.vars .serverPort) = true := by
  simp only [cmdRefresh, Option.bind_eq_bind, Option.bind_eq_some_iff, Option.guard_eq_some',
    Option.pure_def, Option.some.injEq] at accepted
  obtain ⟨_, -, _, checked, rfl⟩ := accepted
  rintro off
  rcases checked with all | ⟨-, digits⟩
  · rw [off] at all
    contradiction
  · exact digits

/-- What `tumgr refresh` has the daemon do. -/
theorem handle_refresh (delivers : Delivers ubus) (accepted : cmdRefresh arguments = some r)
    (sent : ∀ member ∈ r.members, Conveyable member)
    (conveyed : ubus (payloadOf r.members) = some msg) :
    Method.refresh.handle cfg msg =
      if r.all then refreshAll cfg r.force
      else r.key?.elim (pure .invalidArgument) (refreshOne cfg r.force) := by
  have nonempty : r.members ≠ [] := by simp [RefreshVars.members, wordMember]
  rw [delivers _ nonempty (names_refresh r) sent, Option.some.injEq] at conveyed
  subst conveyed
  change handleRefresh cfg (blobmsgParse _).refreshArgs = _
  rw [refreshArgs_members r (digits_of_cmdRefresh accepted)]
  unfold handleRefresh
  cases all : r.all with
  | true => rfl
  | false =>
    rw [← key?_members r]
    simp only [Bool.false_eq_true, if_false]
    cases NodeArgs.key? { uid := some (r.vars .uid), serverHost := some (r.vars .serverHost)
                          serverPort := (number (r.vars .serverPort)).u32?
                          ipVersion := some (r.vars .ipVersion) } <;> rfl

end Payload

section Refreshing

theorem looked_of_granted {lookup : Lookup}
    (runs : grantedSem.Runs (dbGetNode k) w (.done lookup) u) :
    w.Keeps u ∧ (lookup = .absent ∧ w.table.find? k = none ∨
      ∃ r n, lookup = .found n ∧ w.table.find? k = some r ∧ Loaded w u r n) := by
  have safe : (sem False).Safe (fun _ _ => True) (dbGetNode k) w fun lookup u =>
      w.Keeps u ∧ (lookup = .absent ∧ w.table.find? k = none ∨
        ∃ r n, lookup = .found n ∧ w.table.find? k = some r ∧ Loaded w u r n) := by
    simp only [dbGetNode, safe_bind, safe_sql, Stmt.Replies, true_and]
    refine ⟨?_, False.elim⟩
    rintro reply rfl
    have keeps := World.keeps_after (w := w) (q := .sql (.select k)) rfl
    cases stored : w.table.find? k with
    | none => exact ⟨keeps _, .inl ⟨rfl, rfl⟩⟩
    | some r =>
      simp only [Option.toList_some, safe_bind, safe_pure]
      refine safe_rowToNode (fun _ _ _ => trivial) (keeps _).trace fun n v later loaded => ?_
      exact ⟨(keeps _).trans later, .inr ⟨r, n, rfl, rfl, loaded⟩⟩
  exact safe.result (runs_of_granted runs)

/-- A refresh of one node, where nothing goes wrong. -/
theorem mended_of_refreshOne {force : Bool} (passable : Passable force w w)
    (runs : grantedSem.Runs (refreshOne cfg force k) w (.done reply) v) :
    Mended w v k ∧ (∀ k', k' ≠ k → v.table.find? k' = w.table.find? k') ∧
      reply.status? = some (.string
        (if (w.table.find? k).isSome then "ok" else "not_found").toList) := by
  obtain ⟨lookup, u, look, runs⟩ := runs_bind runs
  obtain ⟨keeps, ⟨rfl, absent⟩ | ⟨r, n, rfl, stored, loaded⟩⟩ := looked_of_granted look
  · obtain ⟨rfl, rfl⟩ := runs_pure runs
    rw [keeps.table]
    exact ⟨fun r stored => by rw [absent] at stored; contradiction,
      fun _ _ => rfl, by rw [absent]; rfl⟩
  · have passable := passable.keeps keeps (since_of_granted look)
    obtain ⟨⟨err, n'⟩, x, call, runs⟩ := runs_bind runs
    obtain ⟨lookup, x', again, runs⟩ := runs_bind runs
    obtain ⟨rfl, rfl⟩ := runs_pure runs
    obtain ⟨load, rfl, load_sane⟩ := passable.load loaded
    have key : r.key = k := (Keyed.find?_eq_some.mp stored).2
    subst key
    have stored' : u.table.find? r.key = some r := by rw [keeps.table]; exact stored
    obtain ⟨succeeded, r', own, tended, retains⟩ :=
      tended_of_call stored' passable.consistent load_sane
      (fun off => passable.sound off _ _ stored') call
    obtain ⟨leaves, -⟩ := passable.after (c := r.call cfg force load u stored') rfl rfl
      (fun off => ⟨passable.sound off _ _ stored', load, rfl⟩) call
    have after := (looked_of_granted again).1
    refine ⟨fun s hs => ?_, fun k' other => ?_, ?_⟩
    · cases stored.symm.trans hs
      refine ⟨r', by rw [after.table]; exact own, retains, ?_⟩
      have commands : v.commands = [] ++ x.commands := after.commands
      exact (tended.earlier keeps.trace).later after.trace commands (by simp)
    · rw [after.table, leaves.others k' other, keeps.table]
    · rw [stored, show err = 0 from succeeded]
      rfl

/-- Whatever went wrong before: `tumgr refresh`, when nothing goes wrong in it, applies
the node that its arguments name, or with `-all` every node, and touches no other; and
it says so. It refuses no arguments but a port of more than 31 bits and an unknown
family. -/
theorem refresh_mends (delivers : Delivers ubus) (accepted : cmdRefresh arguments = some r)
    (sent : ∀ member ∈ r.members, Conveyable member)
    (conveyed : ubus (payloadOf r.members) = some msg)
    (recoverable : Recoverable w r.force)
    (runs : grantedSem.Runs (Method.refresh.handle cfg msg) w (.done reply) v) :
    (r.all = true → (∀ k, Mended w v k) ∧ reply.status? = some (.string "ok".toList)) ∧
    (r.all = false → ∀ k, r.key? = some k →
      Mended w v k ∧ (∀ k', k' ≠ k → v.table.find? k' = w.table.find? k') ∧
        reply.status? = some (.string
          (if (w.table.find? k).isSome then "ok" else "not_found").toList)) ∧
    (r.all = false → r.key? = none → reply = .invalidArgument ∧ v = w) := by
  rw [handle_refresh delivers accepted sent conveyed] at runs
  have passable := recoverable.passable
  refine ⟨fun all => ?_, fun one k named => ?_, fun one unnamed => ?_⟩
  · rw [if_pos all] at runs
    obtain ⟨err, x, pass, runs⟩ := runs_bind runs
    obtain ⟨rfl, rfl⟩ := runs_pure runs
    obtain ⟨rfl, kept, tended⟩ := tends_of_pass passable pass
    refine ⟨fun k r stored => ?_, rfl⟩
    obtain ⟨mem, rfl⟩ := Keyed.find?_eq_some.mp stored
    obtain ⟨r', mem', retains⟩ := kept r mem
    refine ⟨r', ?_, retains, (tended r' mem').1⟩
    rw [← retains.key]
    exact Keyed.mem_rows.mp mem'
  · rw [if_neg (by simp [one]), named] at runs
    exact mended_of_refreshOne passable runs
  · rw [if_neg (by simp [one]), unnamed] at runs
    obtain ⟨rfl, rfl⟩ := runs_pure runs
    exact ⟨rfl, rfl⟩

/-- `ubus`, as far as it is described. -/
def ubusReads (payload : Str) : Option Message :=
  (Json.object? payload).map fun members => members.map (Prod.map id blobOf)

theorem delivers_ubusReads : Delivers ubusReads := by
  intro members nonempty _ sent
  unfold ubusReads
  rw [object?_payloadOf nonempty fun member mem => (sent member mem).declared]
  rfl

def sampleRefresh : RefreshVars := ⟨fun _ => [], true, true⟩

def sampleRefreshMessage : Message := sampleRefresh.members.map (Prod.map id blobOf)

/-- `tumgr refresh -a -f`, when the key of the sample node has expired. -/
@[irreducible] def sampleMended : Prog UbusReply × World :=
  playFor World.after (sample 1700003700).answer 40
    (Method.refresh.handle (sampleTask .periodic).cfg sampleRefreshMessage) sampleBooted

theorem refresh_mends_all : sampleBooted.table.rows ≠ [] ∧
    ∃ fields, sampleMended.1.result?.bind UbusReply.ok? = some fields ∧
      ∀ k, Mended sampleBooted sampleMended.2 k := by
  obtain ⟨fields, returns⟩ := Option.isSome_iff_exists.mp
    (show (sampleMended.1.result?.bind UbusReply.ok?).isSome by decide +kernel)
  refine ⟨by decide +kernel, fields, returns, ?_⟩
  have accepted : cmdRefresh ["-a".toList, "-f".toList] = some sampleRefresh := rfl
  have sent : ∀ member ∈ sampleRefresh.members, Conveyable member := by
    change ∀ member ∈ [("all".toList, Json.Value.word (boolWord true)),
      ("force".toList, .word (boolWord true))], Conveyable member
    simp only [List.forall_mem_cons, List.not_mem_nil, false_implies, implies_true, and_true]
    exact ⟨⟨List.all_eq_true.mp rfl, .inr ⟨true, rfl⟩⟩,
      ⟨List.all_eq_true.mp rfl, .inr ⟨true, rfl⟩⟩⟩
  have conveyed : ubusReads (payloadOf sampleRefresh.members) = some sampleRefreshMessage :=
    delivers_ubusReads _ (by decide) (names_refresh _) sent
  have runs :
    grantedSem.Runs (Method.refresh.handle (sampleTask .periodic).cfg sampleRefreshMessage)
      sampleBooted (.done (.ok fields)) sampleMended.2 := by
    rw [← done_of_ok? returns]
    unfold sampleMended
    exact runs_playFor (S := grantedSem) (sample_granted (by decide)) 40 _ _
  exact ((refresh_mends delivers_ubusReads accepted sent conveyed recoverable_sampleBooted
    runs).1 rfl).1

end Refreshing

end Tumgrd
