import Mathlib.Data.List.Sort
import Tumgrd.Daemon

/-! Surroundings that answer every request, one way each. They show that no
request is left without an answer, and they lead to states of a run. -/
namespace Tumgrd

open Effect Semantics

section Replies

variable {r s t : Row}

instance (r s : Row) : Decidable (r.listedBefore s) :=
  inferInstanceAs (Decidable (_ ∨ _ ∧ (_ ∨ _ ∧ _)))

theorem Row.listedBefore_total (r s : Row) : r.listedBefore s ∨ s.listedBefore r := by
  unfold listedBefore
  rcases lt_trichotomy r.serverHost.text s.serverHost.text with host | host | host
  · exact .inl (.inl host)
  · have host := Buf.ext host
    rcases lt_trichotomy r.serverPort s.serverPort with port | port | port
    · exact .inl (.inr ⟨host, .inl port⟩)
    · rcases le_total r.uid.text s.uid.text with uid | uid
      · exact .inl (.inr ⟨host, .inr ⟨port, uid⟩⟩)
      · exact .inr (.inr ⟨host.symm, .inr ⟨port.symm, uid⟩⟩)
    · exact .inr (.inr ⟨host.symm, .inl port⟩)
  · exact .inr (.inl host)

theorem Row.listedBefore_trans (h : r.listedBefore s) (h' : s.listedBefore t) :
    r.listedBefore t := by
  unfold listedBefore at *
  rcases h with host | ⟨host, h⟩
  · rcases h' with host' | ⟨host', -⟩
    · exact .inl (host.trans host')
    · exact .inl (host' ▸ host)
  rcases h' with host' | ⟨host', h'⟩
  · exact .inl (host ▸ host')
  refine .inr ⟨host.trans host', ?_⟩
  rcases h with port | ⟨port, uid⟩ <;> rcases h' with port' | ⟨port', uid'⟩
  · exact .inl (port.trans port')
  · exact .inl (port' ▸ port)
  · exact .inl (port ▸ port')
  · exact .inr ⟨port.trans port', uid.trans uid'⟩

instance : Std.Total Row.listedBefore := ⟨Row.listedBefore_total⟩

instance : IsTrans Row Row.listedBefore := ⟨fun _ _ _ => Row.listedBefore_trans⟩

def Stmt.reply (t : Table) : Stmt → SqlReply
  | .select k => .ok (t.find? k).toList 0
  | .list => .ok (t.rows.insertionSort Row.listedBefore) 0
  | .upsert n setLifetime => if t.Taken (Row.ofNode n setLifetime) then .error else .ok [] 1
  | .delete k => .ok [] (t.countAt k fun _ => true)
  | .update k _ guard => .ok [] (t.countAt k fun r => guard.holds r.rotationState)

theorem Stmt.replies_reply (t : Table) (s : Stmt) : s.Replies t (s.reply t) := by
  cases s with
  | list => exact ⟨_, rfl, List.perm_insertionSort _ _, List.pairwise_insertionSort _ _⟩
  | _ => rfl

end Replies

/-- A clock that stands still, one key, one address, and one result for each tool. -/
structure Scenario where
  now : Int
  key : HexKey
  found : Detection
  result : Tool → ExecResult
  detected : found.ok → found.ip.text ≠ []
  exits : ∀ tool, (result tool).rc ≤ 0 ∧
    ((result tool).rc = 0 → (result tool).timedOut = false)

namespace Scenario

variable (sc : Scenario)

def answer (w : World) : (q : Req) → Resp q
  | .time => sc.now
  | .randomKey => some sc.key
  | .detect _ _ => sc.found
  | .exec issue _ => sc.result issue.tool
  | .timedOut => w.timedOut
  | .sql s => s.reply w.table
  | .log _ => ()
  | .report _ => ()

theorem fair {sqlMayFail : Prop} (w : World) (q : Req) :
    (sem sqlMayFail).allowed w q (sc.answer w q) := by
  cases q with
  | detect => exact sc.detected
  | exec issue call => exact sc.exits issue.tool
  | timedOut => rfl
  | sql s => exact .inl (s.replies_reply w.table)
  | _ => trivial

/-- The task after its first `steps` requests. -/
def playing (t : Task) (w : World) (steps : Nat) : Prog Unit × World :=
  playFor World.after sc.answer steps t.prog w

theorem runs {sqlMayFail : Prop} (t : Task) (w : World) (steps : Nat) :
    (sem sqlMayFail).Runs t.prog w (sc.playing t w steps).1 (sc.playing t w steps).2 :=
  runs_playFor (S := sem sqlMayFail) sc.fair steps t.prog w

theorem runs_within {sqlMayFail : Prop} {I : World → Prop} {t : Task} {w : World} {steps : Nat}
    (stays : Stays World.after sc.answer I steps t.prog w) :
    ((sem sqlMayFail).within I).Runs t.prog w (sc.playing t w steps).1
      (sc.playing t w steps).2 :=
  runs_playFor_within (S := sem sqlMayFail) sc.fair stays

end Scenario

/-- Everything works: both tools succeed and the address is found. -/
def sample (now : Int) : Scenario where
  now := now
  key := ⟨List.replicate 128 'a', List.length_replicate, by simp⟩
  found := ⟨true, ⟨"192.0.2.7".toList, by decide⟩⟩
  result := fun
    | .serverAdd => ⟨0, false, serverUpdated, [], []⟩
    | .serverDel => ⟨0, false, serverDeleted, [], []⟩
    | .clientAdd | .clientDel => ⟨0, false, [], [], []⟩
  detected := fun _ => by decide
  exits := by rintro (_ | _ | _ | _) <;> decide

/-- Node names and keys of an hour. -/
def sampleTask (op : Op) : Task := ⟨⟨true, false, 3600⟩, op⟩

def sampleRegister : Task := sampleTask (.register {
  uid := some "node".toList
  serverHost := some "host".toList
  serverPort := some 4000
  clientPort := some 5000
  psk := some "secret".toList })

def sampleKey : Key := ⟨"host".toList, 4000, "node".toList, []⟩

/-- A new database. -/
def World.first : World := ⟨.empty, [], false, true⟩

/-- The registered node, as it is read back later. -/
def sampleNode (lastUpdated lastAppliedAt : Int) : Node :=
  { Node.zero with
    uid := ⟨"node".toList, by decide⟩
    createdAt := 1700000000
    serverHost := ⟨"host".toList, by decide⟩
    serverPort := 4000
    psk := ⟨"secret".toList, by decide⟩
    clientPort := 5000
    ipCheckUrl := defaultIpCheckUrl
    currentIp := (sample 0).found.ip
    lastUpdated
    status := statusActive
    xorKey := (sample 0).key.buf
    lifetime := 3600
    lastAppliedAt }

theorem key_sampleNode (lastUpdated lastAppliedAt : Int) :
    (sampleNode lastUpdated lastAppliedAt).key = sampleKey := rfl

/-- Its row. -/
def sampleRow : Row := Row.ofNode (sampleNode 1700000000 1700000000) true

/-- A daemon that makes no keys. -/
def keyless : Config := ⟨false, false, 0⟩

/-- A database of one row, before anything happened. -/
def World.ofRow (r : Row) : World :=
    ⟨⟨[r], List.nodup_singleton _, List.nodup_singleton _⟩, [],
  false, false⟩

theorem World.find_ofRow (r : Row) : (World.ofRow r).table.find? r.key = some r :=
  Keyed.mem_rows.mp (List.mem_singleton_self r)

/-- A call for the only row of a database, to its end. -/
@[irreducible] def Scenario.calling (sc : Scenario) (cfg : Config) (r : Row) (load : Int)
    (force : Bool) : Prog (Int × Node) × World :=
  playFor World.after sc.answer 40 (reconcileOne cfg (r.toNode load) force) (.ofRow r)

theorem Scenario.calling_runs {sqlMayFail : Prop} {sc : Scenario} {cfg : Config} {r : Row}
    {load : Int} {force : Bool} {result : Int × Node}
    (returns : (sc.calling cfg r load force).1.result? = some result) :
    (sem sqlMayFail).Runs (reconcileOne cfg (r.toNode load) force) (.ofRow r) (.done result)
      (sc.calling cfg r load force).2 := by
  rw [← Program.eq_done returns]
  unfold Scenario.calling
  exact runs_playFor (S := sem sqlMayFail) sc.fair 40 _ _

/-- After the registration. -/
@[irreducible] def sampleStored : World := ((sample 1700000000).playing sampleRegister .first 25).2

/-- The periodic reconcile an hour later. -/
@[irreducible] def sampleExpiry (steps : Nat) : Prog Unit × World :=
  (sample 1700003600).playing (sampleTask .periodic) sampleStored steps

section Reach

variable {sqlMayFail : Prop} {admits : World → Task → Prop} {start : World → Prop} {w : World}
  {t : Task}

theorem Scenario.reachable (sc : Scenario)
    (reach : (daemon (sem sqlMayFail) admits).Reachable start (.idle w)) (admitted : admits w t)
    (steps : Nat) : (daemon (sem sqlMayFail) admits).Reachable start
      (.busy t w (sc.playing t w steps).2 (sc.playing t w steps).1) :=
  (reach.begun admitted).runs (sc.runs t w steps)

theorem Scenario.reachable_idle (sc : Scenario)
    (reach : (daemon (sem sqlMayFail) admits).Reachable start (.idle w)) (admitted : admits w t)
    {steps : Nat} (ended : (sc.playing t w steps).1.result? = some ()) :
    (daemon (sem sqlMayFail) admits).Reachable start (.idle (sc.playing t w steps).2) :=
  reach.finished admitted (sc.runs t w steps) ended

variable (sqlMayFail)

theorem reachable_sampleStored (admitted : ∀ w t, admits w t) :
    (daemon (sem sqlMayFail) admits).Reachable World.Fresh (.idle sampleStored) := by
  unfold sampleStored
  exact (sample _).reachable_idle (.start ⟨rfl, rfl⟩) (admitted _ _) (by decide +kernel)

theorem sampleStored_reachable :
    (daemon (sem True) fun _ _ => True).Reachable World.Fresh (.idle sampleStored) := by
  exact reachable_sampleStored True fun _ _ => trivial

variable {sqlMayFail} in
theorem sampleExpiry_reachable
    (reach : (daemon (sem sqlMayFail) admits).Reachable start (.idle sampleStored))
    (admitted : admits sampleStored (sampleTask .periodic)) (steps : Nat) :
    (daemon (sem sqlMayFail) admits).Reachable start
      (.busy (sampleTask .periodic) sampleStored (sampleExpiry steps).2
          (sampleExpiry steps).1) := by
  unfold sampleExpiry
  exact (sample _).reachable reach admitted steps

theorem reachable_sampleExpiry (admitted : ∀ w t, admits w t) (steps : Nat) :
    (daemon (sem sqlMayFail) admits).Reachable World.Fresh
      (.busy (sampleTask .periodic) sampleStored (sampleExpiry steps).2
          (sampleExpiry steps).1) := by
  exact sampleExpiry_reachable (reachable_sampleStored sqlMayFail admitted) (admitted _ _) steps

end Reach

def sampleCompletion : Req := .sql (.update sampleKey (setCompleted 1700003600) .nonzero)

/-- An hour later the key is replaced, and the replacement is about to be completed. -/
theorem sampleExpiry_completes :
    (∃ rest, (sampleExpiry 21).1 = .call sampleCompletion rest) ∧
      allowed True (sampleExpiry 21).2 sampleCompletion (.ok [] 1) ∧
      ∃ r r', (sampleExpiry 21).2.table.find? sampleKey = some r ∧
        (r.rotationState, r.lastAppliedAt) = (2, 1700000000) ∧
        ((sampleExpiry 21).2.after sampleCompletion (.ok [] 1)).table.find? sampleKey = some r' ∧
        (r'.rotationState, r'.lastAppliedAt) = (0, 1700003600) := by
  have counted : 1 = (sampleExpiry 21).2.table.countAt sampleKey fun r =>
      Guard.nonzero.holds r.rotationState := by decide +kernel
  obtain ⟨r, before, state⟩ := Option.map_eq_some_iff.mp
    (show ((sampleExpiry 21).2.table.find? sampleKey).map
        (fun r => (r.rotationState, r.lastAppliedAt)) = some (2, 1700000000) by decide +kernel)
  obtain ⟨r', after, state'⟩ := Option.map_eq_some_iff.mp
    (show (((sampleExpiry 21).2.after sampleCompletion (.ok [] 1)).table.find? sampleKey).map
        (fun r => (r.rotationState, r.lastAppliedAt)) = some (0, 1700003600) by decide +kernel)
  exact ⟨Program.eq_call (by decide +kernel), .inl (congrArg (SqlReply.ok []) counted),
    r, r', before, state, after, state'⟩

end Tumgrd
