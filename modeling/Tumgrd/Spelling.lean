import Tumgrd.Deregister
import Tumgrd.Ipdetect

/-! An unforced call compares texts, not addresses. Detection by a connection
writes an address one way, the address service writes it as it likes. -/
namespace Tumgrd

open Effect Semantics

variable {sqlMayFail : Prop} {cfg : Config} {now load : Int} {r : Row} {l : Locals} {u v w : World}

/-- Nothing but its address can make an unforced call apply this row. -/
structure Row.Steady (r : Row) : Prop where
  status : r.status = some statusActive
  rotationState : r.rotationState = rotationNone
  lifetime : r.lifetime.getD 0 = 0

/-- The call succeeded without having started anything: it skipped its node. -/
structure Skips (result : Int × Node) (v : World) : Prop where
  returned : result.1 = 0
  idle : v.callCommands = []

/-- Both texts are addresses, and `inet_pton` makes the same of them. -/
def SameHost (a b : Str) : Prop :=
  ∃ address, inetPton a = some address ∧ inetPton b = some address

theorem Row.Steady.toNode (h : r.Steady) (load : Int) : (r.toNode load).stateInvalid = false ∧
    (r.toNode load).keyMismatch = false ∧ (r.toNode load).lifetime = 0 ∧
    (r.toNode load).wasError = false := by
  simp [Row.toNode, Node.stateInvalid, Node.keyMismatch, Node.wasError, h.status, h.rotationState,
    h.lifetime, clampLifetime]
  decide

/-- There is nothing to repair in it, and it does not expire. -/
theorem Row.Steady.decideApply (h : r.Steady) :
    decideApply cfg now ⟨r.toNode load, false, false, .empty, false⟩ =
      andThen (detectIp ⟨r.toNode load, false, false, .empty, false⟩) skipUnchanged := by
  obtain ⟨valid, matching, unlimited, -⟩ := h.toNode load
  have resting : (r.toNode load).rotationState = rotationNone := h.rotationState
  have intact (damaged : Node → Bool) (sound : damaged (r.toNode load) = false) :
      repairRotation cfg now damaged ⟨r.toNode load, false, false, .empty, false⟩ =
        pure (.next ⟨r.toNode load, false, false, .empty, false⟩) := by
    simp [repairRotation, sound]
  have kept : checkExpiry cfg now ⟨r.toNode load, false, false, .empty, false⟩ =
      pure (.next ⟨r.toNode load, false, false, .empty, false⟩) := by
    simp [checkExpiry, resting, unlimited]
  unfold Tumgrd.decideApply
  rw [intact _ valid]
  change andThen (repairRotation cfg now Node.keyMismatch _) _ = _
  rw [intact _ matching]
  change andThen (checkExpiry cfg now _) _ = _
  rw [kept]
  rfl

theorem Finds.mono {Q Q' : Buf 64 → Prop} (h : Finds Q v) (weaker : ∀ ip, Q ip → Q' ip) :
    Finds Q' v :=
  fun url ipVersion found happened ok => weaker _ (h url ipVersion found happened ok)

/-- A request that is no part of a detection leaves the address found. -/
theorem safe_finds {α : Type} {p : Prog α} {Q : Buf 64 → Prop}
    (emits : p.Emits Req.aside fun _ => True) (finds : Finds Q w) :
    (sem sqlMayFail).Safe (fun _ _ => True) p w fun _ v => Finds Q v := by
  have safe := (safe_of_emits (S := sem sqlMayFail) emits).invariant finds
    fun v q r finds aside _ => finds.after aside r
  exact safe.mono (fun _ _ _ => trivial) fun _ _ post => post.2

theorem aside_report {what : Report} (h : what.isCall = false) : Req.aside (.report what) :=
  ⟨h, by rintro _ _ ⟨⟩⟩

theorem emits_aside_applied :
    Program.Emits Req.aside (fun _ => True) (applyNode cfg now l >>= finishReconcile) := by
  rw [Program.emits_bind]
  refine (emits_applyNode (fun _ => ⟨rfl, by rintro _ _ ⟨⟩⟩) ⟨rfl, by rintro _ _ ⟨⟩⟩
    ⟨rfl, by rintro _ _ ⟨⟩⟩ (fun _ _ => ⟨rfl, by rintro _ _ ⟨⟩⟩)
      fun _ _ _ => aside_sql _).post fun flow _ => ?_
  cases flow with
  | next l => exact ⟨aside_report rfl, fun _ => trivial⟩
  | skip l => exact ⟨aside_report rfl, fun _ => ⟨aside_report rfl, fun _ => trivial⟩⟩
  | fail l err => exact emits_aside_failed err

/-- Once there is an address, the call skips exactly if it is spelled like the stored one. -/
theorem safe_skipUnchanged {ip : Buf 64} (steady : r.Steady) (found : ip.text ≠ [])
    (idle : w.callCommands = []) (finds : Finds (· = ip) w) :
    (sem sqlMayFail).Safe (fun _ _ => True)
      (andThen (skipUnchanged ⟨r.toNode load, false, false, ip, false⟩) (applyNode cfg now) >>=
        finishReconcile) w fun result v =>
      Finds (fun ip => Skips result v ↔
          streqcase (columnText r.currentIp).text ip.text = true) v := by
  have clean : (r.toNode load).wasError = false := (steady.toNode load).2.2.2
  by_cases same : streqcase (columnText r.currentIp).text ip.text = true
  · have unneeded : needApply ⟨r.toNode load, false, false, ip, false⟩ = false := by
      dsimp only [needApply]
      rw [clean]
      simp [Row.toNode, same]
    rw [skipUnchanged, if_neg (by simp [unneeded])]
    change (sem sqlMayFail).Safe _ (report (.skipped _) >>= fun _ => report (.returned _ 0) >>=
      fun _ => pure _) w _
    simp only [safe_bind, safe_report, safe_pure, true_and]
    refine ((finds.after (aside_report rfl) ()).after (aside_report rfl) ()).mono ?_
    rintro _ rfl
    refine iff_of_true ⟨rfl, ?_⟩ same
    rw [World.callCommands_after _ _ rfl, World.callCommands_after _ _ rfl, idle]
    rfl
  · have needed : needApply ⟨r.toNode load, false, false, ip, false⟩ = true := by
      simp [needApply, Row.toNode, same]
    rw [skipUnchanged, if_pos needed]
    change (sem sqlMayFail).Safe _ (applyNode cfg now _ >>= finishReconcile) w _
    refine ((safe_applyNode_pushes found).and (safe_finds emits_aside_applied finds)).mono
      (fun _ _ _ => trivial) ?_
    rintro result v ⟨⟨cmd, ran, -⟩, finds⟩
    refine finds.mono ?_
    rintro _ rfl
    refine iff_of_false (fun skips => ?_) same
    rw [skips.idle] at ran
    contradiction

/-- The first detection of a call. -/
theorem finds_detected (url ipVersion : Str) (found : Detection)
    (first : w.callTrace = [⟨.time, now⟩]) :
    Finds (fun ip => found.ok = true ∧ ip = found.ip)
      (w.after (.detect url ipVersion) found) := by
  intro url' ipVersion' found' happened ok
  rw [World.callTrace_after _ _ rfl, first] at happened
  simp only [List.mem_cons, List.not_mem_nil, or_false] at happened
  rcases happened with same | clock
  · cases same
    exact ⟨ok, rfl⟩
  · cases clock

/-- The whole call, whatever address it finds. -/
theorem safe_steady (steady : r.Steady) :
    (sem sqlMayFail).Safe (fun _ _ => True) (reconcileOne cfg (r.toNode load) false) w
      fun result v =>
        Finds (fun ip => Skips result v ↔
          streqcase (columnText r.currentIp).text ip.text = true) v := by
  unfold reconcileOne
  simp only [safe_bind, safe_report, safe_time, true_and]
  intro now
  simp only [steady.decideApply, detectIp, safe_bind, safe_andThen, safe_detect, true_and]
  intro found detected
  have finds := finds_detected (pickIpCheckUrl (r.toNode load)) (r.toNode load).ipVersion.text found
    (show ((w.after (.report (.called (r.toNode load) false)) ()).after .time now).callTrace =
      [⟨.time, now⟩] from rfl)
  split
  · rename_i ok
    have skips := @safe_skipUnchanged sqlMayFail cfg now load _ _ _
      steady (detected ok) rfl (finds.mono fun _ same => same.2)
    rw [safe_pure]
    simpa only [safe_bind, safe_andThen] using skips
  · rename_i failed
    refine (safe_finds (emits_aside_failed (-1)) finds).post fun _ _ finds => ?_
    exact finds.mono fun _ same => absurd same.1 failed

/-- An unforced call on a steady row skips it if and only if the address is still
the stored one, except where the same address is written in another way than
with letters of the other case. -/
theorem skips_iff_same_host {result : Int × Node} {url ipVersion : Str} {ip : Buf 64}
    (steady : r.Steady) (valid : (inetPton (columnText r.currentIp).text).isSome)
    (runs : (sem sqlMayFail).Runs (reconcileOne cfg (r.toNode load) false) w (.done result) v)
    (found : (⟨.detect url ipVersion, ⟨true, ip⟩⟩ : Event) ∈ v.callTrace) :
    (Skips result v ↔ SameHost (columnText r.currentIp).text ip.text) ↔
      streqcase (columnText r.currentIp).text ip.text = true ∨
        ¬SameHost (columnText r.currentIp).text ip.text := by
  have skips : Skips result v ↔ streqcase (columnText r.currentIp).text ip.text = true :=
    (safe_steady steady).result runs url ipVersion _ found rfl
  have same : streqcase (columnText r.currentIp).text ip.text = true →
      SameHost (columnText r.currentIp).text ip.text := fun spelled => by
    obtain ⟨address, denoted⟩ := Option.isSome_iff_exists.mp valid
    exact ⟨address, denoted, (inetPton_of_streqcase spelled).symm.trans denoted⟩
  rw [skips]
  constructor
  · intro agree
    by_cases host : SameHost (columnText r.currentIp).text ip.text
    · exact .inl (agree.mpr host)
    · exact .inr host
  · rintro (spelled | differ)
    · exact iff_of_true spelled (same spelled)
    · exact iff_of_false (fun spelled => differ (same spelled)) differ

section Samples

def Event.found? : Event → Option (Str × Str × Buf 64)
  | ⟨.detect url ipVersion, found⟩ => if found.ok then some (url, ipVersion, found.ip) else none
  | _ => none

theorem mem_of_found {events : List Event} {url ipVersion : Str} {ip : Buf 64}
    (h : (url, ipVersion, ip) ∈ events.filterMap Event.found?) :
    (⟨.detect url ipVersion, ⟨true, ip⟩⟩ : Event) ∈ events := by
  obtain ⟨⟨q, found⟩, happened, same⟩ := List.mem_filterMap.mp h
  cases q with
  | detect url' ipVersion' =>
    obtain ⟨ok, ip'⟩ := found
    cases ok with
    | false => contradiction
    | true =>
      cases same
      exact happened
  | _ => contradiction

/-- The scenario with another address. -/
def Scenario.finding (sc : Scenario) (ip : Buf 64) (given : ip.text ≠ []) : Scenario :=
  { sc with
    found := ⟨true, ip⟩
    detected := fun _ => given }

def canonical : Buf 64 := ⟨"2001:db8::1".toList, by decide⟩

def zeroPadded : Buf 64 := ⟨"2001:0db8::1".toList, by decide⟩

def steadyRow : Row :=
  { sampleRow with
    ipVersion := ipv6
    currentIp := some canonical
    lifetime := some 0 }

theorem steady_steadyRow : steadyRow.Steady := ⟨rfl, rfl, rfl⟩

/-- The service answers with the stored address, once as it is stored and once
with a zero in front of a group. -/
@[irreducible] def sampleSpelled (ip : Buf 64) (given : ip.text ≠ []) :
    Prog (Int × Node) × World :=
  ((sample 1700000200).finding ip given).calling keyless steadyRow 1700000200 false

theorem sampleSpelled_runs {ip : Buf 64} {given : ip.text ≠ []} {result : Int × Node}
    (returns : (sampleSpelled ip given).1.result? = some result) :
    (sem False).Runs (reconcileOne keyless (steadyRow.toNode 1700000200) false) (.ofRow steadyRow)
      (.done result) (sampleSpelled ip given).2 := by
  unfold sampleSpelled at returns ⊢
  exact Scenario.calling_runs returns

theorem skips_iff_same_host_canonical :
    ∃ result v, (Skips result v ↔ SameHost canonical.text canonical.text) ↔
      streqcase canonical.text canonical.text = true ∨
          ¬SameHost canonical.text canonical.text := by
  obtain ⟨result, returns⟩ := Option.isSome_iff_exists.mp
    (show (sampleSpelled canonical (by decide)).1.result?.isSome by decide +kernel)
  exact ⟨result, _, skips_iff_same_host (r := steadyRow) steady_steadyRow (by decide +kernel)
    (sampleSpelled_runs returns) (@mem_of_found _ defaultIpCheckUrl.text "ipv6".toList _
      (by decide +kernel))⟩

/-- The response of the service is another spelling of the stored address, and
the node is applied again. -/
theorem spelling_reapplied : ∃ result v url,
    extractIp "2001:0db8::1\n".toList "ipv6".toList = some zeroPadded ∧
      (sem False).Runs (reconcileOne keyless (steadyRow.toNode 1700000200) false) (.ofRow steadyRow)
        (.done result) v ∧
      (⟨.detect url "ipv6".toList, ⟨true, zeroPadded⟩⟩ : Event) ∈ v.callTrace ∧
      SameHost (columnText steadyRow.currentIp).text zeroPadded.text ∧ ¬Skips result v := by
  obtain ⟨result, returns⟩ := Option.isSome_iff_exists.mp
    (show (sampleSpelled zeroPadded (by decide)).1.result?.isSome by decide +kernel)
  refine ⟨result, _, defaultIpCheckUrl.text, by decide +kernel, sampleSpelled_runs returns,
    mem_of_found (by decide +kernel), ⟨[0x2001, 0xdb8, 0, 0, 0, 0, 0, 1], by decide +kernel,
      by decide +kernel⟩, fun skips => ?_⟩
  have applied : (sampleSpelled zeroPadded (by decide)).2.callCommands ≠ [] := by
    have ran : (sampleSpelled zeroPadded (by decide)).2.callCommands.length = 3 := by decide +kernel
    exact List.ne_nil_of_length_pos (ran ▸ by decide)
  exact applied skips.idle

end Samples

end Tumgrd
