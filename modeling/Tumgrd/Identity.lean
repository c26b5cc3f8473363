import Tumgrd.Registration
import Tumgrd.Scenario

/-! Which row a request means. A registration looks its node up by the texts of
the request and stores it under copies of them, so the two agree on the texts
that fit. -/
namespace Tumgrd

open Effect Semantics

variable {sqlMayFail : Prop} {cfg : Config} {args : RegisterArgs} {reg : Registration}
  {w v : World} {action : Action}

section Reply

theorem lookup_action (action : Action) (err : Int) (n : Node) :
    (registerReply action err n).lookup "action".toList = some (.string action.text) := rfl

theorem action_text_eq : action.text = "created".toList ↔ action = .created := by
  cases action <;> decide

/-- What the reply says that the request did. -/
def saysCreated (fields : Fields) : Prop :=
  fields.lookup "action".toList = some (.string "created".toList)

theorem saysCreated_iff {err : Int} {n : Node} :
    saysCreated (registerReply action err n) ↔ action = .created := by
  unfold saysCreated
  rw [lookup_action, Option.some.injEq, Value.string.injEq, action_text_eq]

end Reply

section Keys

/-- The texts fit the fields of the node. -/
structure NodeArgs.Fits (args : NodeArgs) : Prop where
  uid : ∀ uid, args.uid = some uid → uid.length < 128
  serverHost : ∀ host, args.serverHost = some host → host.length < 256

/-- A lookup for the arguments that does not fail finds the node at `k`. -/
def NodeArgs.Resolves (args : NodeArgs) (w : World) (k : Key) : Prop :=
  ∃ asked, args.key? = some asked ∧ ∀ lookup v,
    (sem False).Runs (dbGetNode asked) w (.done lookup) v → ∃ n, lookup = .found n ∧ n.key = k

/-- The request names its node by the key that the registration looks up. -/
theorem RegisterArgs.key?_of_check (h : args.check = some reg) :
    args.toNodeArgs.key? = some reg.key ∧ args.uid = some reg.key.uid ∧
      args.serverHost = some reg.key.serverHost := by
  simp only [RegisterArgs.check, Option.bind_eq_bind, Option.bind_eq_some_iff, Option.pure_def,
    Option.some.injEq] at h
  obtain ⟨uid, huid, host, hhost, port, hport, _, -, _, -, _, -, _, -, _, -, ipVersion, hversion,
    rfl⟩ := h
  refine ⟨?_, huid, hhost⟩
  simp [NodeArgs.key?, huid, hhost, hport, hversion]

theorem RegisterArgs.fits_iff (h : args.check = some reg) :
    args.toNodeArgs.Fits ↔ reg.key.uid.length < 128 ∧ reg.key.serverHost.length < 256 := by
  obtain ⟨-, huid, hhost⟩ := RegisterArgs.key?_of_check h
  constructor
  · intro fits
    exact ⟨fits.uid _ huid, fits.serverHost _ hhost⟩
  · rintro ⟨uid, host⟩
    refine ⟨fun text given => ?_, fun text given => ?_⟩
    · cases huid.symm.trans given
      exact uid
    · cases hhost.symm.trans given
      exact host

/-- Texts that fit are stored as they are. -/
theorem storedKey_of_fits (check : args.check = some reg) (fits : args.toNodeArgs.Fits) :
    reg.storedKey = reg.key := by
  obtain ⟨uid, host⟩ := (RegisterArgs.fits_iff check).mp fits
  unfold Registration.storedKey
  rw [Buf.text_copy_of_fits host, Buf.text_copy_of_fits uid,
    ← RegisterArgs.ipVersion_of_check check]

/-- Every stored text fits its field. -/
theorem find?_of_not_fits (check : args.check = some reg) (long : ¬args.toNodeArgs.Fits)
    (t : Table) : t.find? reg.key = none := by
  rw [Keyed.find?_eq_none]
  intro r _ same
  refine long ((RegisterArgs.fits_iff check).mpr ?_)
  rw [← same]
  exact ⟨r.uid.fits, r.serverHost.fits⟩

theorem resolves_of_find? {args : NodeArgs} {k : Key} {r : Row} (asked : args.key? = some k)
    (stored : w.table.find? k = some r) : args.Resolves w k := by
  refine ⟨k, asked, fun lookup v runs => ?_⟩
  have safe : (sem False).Safe (fun _ _ => True) (dbGetNode k) w
      fun lookup _ => ∃ n, lookup = .found n ∧ n.key = k := by
    simp only [dbGetNode, safe_bind, safe_sql, Stmt.Replies, true_and, stored]
    refine ⟨?_, False.elim⟩
    rintro reply rfl
    simp only [Option.toList_some, safe_bind, safe_pure]
    refine safe_rowToNode (fun _ _ _ => trivial) (List.suffix_refl _) fun n _ _ loaded => ?_
    exact ⟨n, rfl, loaded.key.trans (Keyed.find?_eq_some.mp stored).2⟩
  exact safe.result runs

theorem not_resolves_of_absent {args : NodeArgs} {k k' : Key} (asked : args.key? = some k)
    (absent : w.table.find? k = none) : ¬args.Resolves w k' := by
  rintro ⟨_, asked', finds⟩
  cases asked.symm.trans asked'
  have runs : (sem False).Runs (dbGetNode k) w (.done .absent)
      (w.after (.sql (.select k)) (.ok [] 0)) := by
    refine Runs.head (sem False) (r := SqlReply.ok [] 0) (.inl ?_) (.refl _ _)
    simp [Stmt.Replies, absent]
  obtain ⟨n, found, -⟩ := finds _ _ runs
  contradiction

end Keys

section Registrations

variable {base n : Node} {createdAt lastUpdated err : Int} {u u' : World}

/-- The row is stored at the copied texts. -/
theorem Registering.key
    (h : Registering sqlMayFail cfg args w reg action base n createdAt lastUpdated u u' err v) :
    n.key = reg.storedKey := by
  rw [(finished_of_finish h.finish).key]
  cases h.drafted <;> rfl

/-- What the call after the upsert has made of its table. -/
theorem Registering.served
    (h : Registering sqlMayFail cfg args w reg action base n createdAt lastUpdated u u' err v) :
    Served n True u' v := by
  obtain ⟨m, v', called, keeps⟩ := h.called
  exact (served_of_call called).1.keeps keeps

/-- The row that was stored is still there at the end. -/
theorem Registering.present
    (h : Registering sqlMayFail cfg args w reg action base n createdAt lastUpdated u u' err v) :
    ∃ r, v.table.find? n.key = some r := by
  obtain ⟨r, hr, -⟩ := h.served.row _ (Keyed.find?_put_self h.stored)
  exact ⟨r, hr⟩

/-- A registration leaves the other rows alone. -/
theorem Registering.others
    (h : Registering sqlMayFail cfg args w reg action base n createdAt lastUpdated u u' err v)
    {k : Key} (other : k ≠ n.key) : v.table.find? k = w.table.find? k := by
  rw [h.served.others k other, Keyed.find?_put_of_ne h.stored other, h.keeps.table]

theorem Registering.did
    (h : Registering sqlMayFail cfg args w reg action base n createdAt lastUpdated u u' err v) :
    ∃ m s changes, m.key = n.key ∧ w.Did v ⟨.sql (.upsert m s), .ok [] changes⟩ := by
  obtain ⟨changes, hu'⟩ := h.statement
  have later := h.served.trace
  rw [hu', World.trace_after] at later
  have did := World.did_of_suffix h.keeps.trace later
  exact ⟨n.withDefaults createdAt lastUpdated, _, changes, rfl, did⟩

/-- The row that a request stored is the one that the same names find again, and
one that `created` its node changed no other row, exactly when the names fit. -/
theorem register_resolves_iff_fits {fields : Fields}
    (runs : (sem True).Runs (handleRegister cfg args) w (.done (.ok fields)) v) :
    (∃ m s changes, w.Did v ⟨.sql (.upsert m s), .ok [] changes⟩ ∧
        args.toNodeArgs.Resolves v m.key) ∧
      (saysCreated fields → ∀ k r, w.table.find? k = some r → v.table.find? k = some r) ↔
    args.toNodeArgs.Fits := by
  cases registerRun_of_runs runs with
  | refused _ refused => exact absurd rfl (refused fields)
  | @stored reg action base n _ _ _ _ _ _ _ h _ =>
    obtain ⟨asked, -, -⟩ := RegisterArgs.key?_of_check h.check
    constructor
    · rintro ⟨⟨m, s, changes, -, resolves⟩, -⟩
      by_contra long
      exact not_resolves_of_absent asked (find?_of_not_fits h.check long _) resolves
    · intro fits
      have key : n.key = reg.key := h.key.trans (storedKey_of_fits h.check fits)
      refine ⟨?_, fun created k r hr => ?_⟩
      · obtain ⟨m, s, changes, same, did⟩ := h.did
        obtain ⟨r, hr⟩ := h.present
        refine ⟨m, s, changes, did, ?_⟩
        rw [same, key]
        exact resolves_of_find? asked (key ▸ hr)
      · rw [saysCreated_iff] at created
        subst created
        have other : k ≠ n.key := by
          rintro rfl
          rw [key] at hr
          cases h.drafted with
          | plain absent => cases absent.symm.trans hr
          | keyed absent => cases absent.symm.trans hr
        rw [h.others other, hr]

end Registrations

section Samples

def UbusReply.ok? : UbusReply → Option Fields
  | .ok fields => some fields
  | .invalidArgument | .unknownError => none

theorem done_of_ok? {p : Prog UbusReply} {fields : Fields}
    (returns : p.result?.bind UbusReply.ok? = some fields) : p = .done (.ok fields) := by
  obtain ⟨reply, ended, ok⟩ := Option.bind_eq_some_iff.mp returns
  cases reply with
  | ok fields' =>
    cases ok
    exact Program.eq_done ended
  | _ => contradiction

/-- A registration under a name of `length` characters, to its end. -/
@[irreducible] def sampleRegistration (length : Nat) : Prog UbusReply × World :=
  playFor World.after (sample 1700000000).answer 30 (handleRegister ⟨true, false, 3600⟩ {
    uid := some (List.replicate length 'n')
    serverHost := some "host".toList
    serverPort := some 4000
    clientPort := some 5000
    psk := some "secret".toList }) .first

theorem sampleRegistration_runs {length : Nat} {fields : Fields}
    (returns : (sampleRegistration length).1.result?.bind UbusReply.ok? = some fields) :
    (sem sqlMayFail).Runs (handleRegister ⟨true, false, 3600⟩ {
      uid := some (List.replicate length 'n')
      serverHost := some "host".toList
      serverPort := some 4000
      clientPort := some 5000
      psk := some "secret".toList }) .first (.done (.ok fields)) (sampleRegistration length).2 := by
  rw [← done_of_ok? returns]
  unfold sampleRegistration
  exact runs_playFor (S := sem sqlMayFail) (sample _).fair 30 _ _

/-- A name of 128 characters is stored without its last one. -/
theorem registered_not_found : ∃ fields v,
    (sem True).Runs (handleRegister ⟨true, false, 3600⟩ {
      uid := some (List.replicate 128 'n')
      serverHost := some "host".toList
      serverPort := some 4000
      clientPort := some 5000
      psk := some "secret".toList }) .first (.done (.ok fields)) v ∧
      v.table.rows ≠ [] ∧
      v.table.find? ⟨"host".toList, 4000, List.replicate 128 'n', []⟩ = none := by
  obtain ⟨fields, returns⟩ := Option.isSome_iff_exists.mp
    (show ((sampleRegistration 128).1.result?.bind UbusReply.ok?).isSome by decide +kernel)
  exact ⟨fields, _, sampleRegistration_runs returns, by decide +kernel, by decide +kernel⟩

theorem register_resolves_iff_fits_sample : ∃ m s changes,
    World.first.Did (sampleRegistration 127).2 ⟨.sql (.upsert m s), .ok [] changes⟩ ∧
      NodeArgs.Resolves {
        uid := some (List.replicate 127 'n')
        serverHost := some "host".toList
        serverPort := some 4000 } (sampleRegistration 127).2 m.key := by
  obtain ⟨fields, returns⟩ := Option.isSome_iff_exists.mp
    (show ((sampleRegistration 127).1.result?.bind UbusReply.ok?).isSome by decide +kernel)
  refine ((register_resolves_iff_fits (sampleRegistration_runs returns)).mpr ⟨?_, ?_⟩).1
  · rintro uid (_ | _)
    rw [List.length_replicate]
    omega
  · rintro host (_ | _)
    decide

end Samples

end Tumgrd
