import Mathlib.Data.List.Forall2
import Tumgrd.Db
import Tumgrd.Runner

/-! Proof rules: one for each request, one for each function of `db.c`, and one
for each of the two ways to start a subprocess. The rules hold whether or not
statements may fail for outside reasons. -/
namespace Tumgrd

open Effect Semantics

variable {sqlMayFail : Prop} {P : World → Req → Prop} {w : World}

section Requests

@[simp] theorem safe_time {Q : Int → World → Prop} :
    (sem sqlMayFail).Safe P time w Q ↔ P w .time ∧ ∀ now, Q now (w.after .time now) :=
  and_congr_right fun _ => ⟨fun h now => h now trivial, fun h now _ => h now⟩

@[simp] theorem safe_randomKey {Q : Option HexKey → World → Prop} :
    (sem sqlMayFail).Safe P randomKey w Q ↔
      P w .randomKey ∧ ∀ key, Q key (w.after .randomKey key) :=
  and_congr_right fun _ => ⟨fun h key => h key trivial, fun h key _ => h key⟩

@[simp] theorem safe_detect {url ipVersion : Str} {Q : Detection → World → Prop} :
    (sem sqlMayFail).Safe P (detect url ipVersion) w Q ↔
      P w (.detect url ipVersion) ∧ ∀ found : Detection, (found.ok → found.ip.text ≠ []) →
        Q found (w.after (.detect url ipVersion) found) := Iff.rfl

@[simp] theorem safe_exec {issue : Issue} {call : Invocation} {Q : ExecResult → World → Prop} :
    (sem sqlMayFail).Safe P (exec issue call) w Q ↔
      P w (.exec issue call) ∧
        ∀ result : ExecResult, result.rc ≤ 0 ∧ (result.rc = 0 → result.timedOut = false) →
          Q result (w.after (.exec issue call) result) := Iff.rfl

@[simp] theorem safe_readTimedOut {Q : Bool → World → Prop} :
    (sem sqlMayFail).Safe P readTimedOut w Q ↔
      P w .timedOut ∧ Q w.timedOut (w.after .timedOut w.timedOut) :=
  and_congr_right fun _ => forall_eq

@[simp] theorem safe_log {level : Level} {text : Str} {Q : Unit → World → Prop} :
    (sem sqlMayFail).Safe P (log level text) w Q ↔
      P w (.log ⟨level, text⟩) ∧ Q () (w.after (.log ⟨level, text⟩) ()) :=
  and_congr_right fun _ => ⟨fun h => h () trivial, fun h _ _ => h⟩

@[simp] theorem safe_report {what : Report} {Q : Unit → World → Prop} :
    (sem sqlMayFail).Safe P (report what) w Q ↔
      P w (.report what) ∧ Q () (w.after (.report what) ()) :=
  and_congr_right fun _ => ⟨fun h => h () trivial, fun h _ _ => h⟩

@[simp] theorem safe_sql {s : Stmt} {Q : SqlReply → World → Prop} :
    (sem sqlMayFail).Safe P (sql s) w Q ↔
      P w (.sql s) ∧ (∀ reply, s.Replies w.table reply → Q reply (w.after (.sql s) reply)) ∧
        (sqlMayFail → Q .error (w.after (.sql s) .error)) := by
  refine and_congr_right fun _ => ⟨fun h => ⟨fun reply hr => h reply (.inl hr),
    fun may => h _ (.inr ⟨may, rfl⟩)⟩, ?_⟩
  rintro ⟨replied, failed⟩ reply (hr | ⟨may, rfl⟩)
  · exact replied reply hr
  · exact failed may

end Requests

section Rows

variable {t : Table} {k : Key} {set : Assign} {guard : Guard} {r : Row}

theorem find?_update (stored : t.find? k = some r) :
    ((Stmt.update k set guard).effect t).find? k = some (r.update set guard) := by
  simp [Stmt.effect, stored]

theorem find?_update_of_ne {k' : Key} (h : k' ≠ k) :
    ((Stmt.update k set guard).effect t).find? k' = t.find? k' := by
  simp only [Stmt.effect]
  exact Keyed.find?_updateAt_of_ne h

theorem update_holds (h : guard.holds r.rotationState = true) :
    r.update set guard = r.assign set := by
  simp [Row.update, h]

theorem effect_refused (stored : t.find? k = some r) (h : guard.holds r.rotationState = false) :
    (Stmt.update k set guard).effect t = t := by
  simp only [Stmt.effect]
  refine Keyed.updateAt_eq_self fun s hs => ?_
  cases stored.symm.trans hs
  simp [Row.update, h]

end Rows

section Quiet

/-- Requests that leave the table and the tools alone. -/
def Req.quiet : Req → Bool
  | .time | .randomKey | .detect _ _ | .timedOut | .log _ => true
  | .sql (.select _) | .sql .list => true
  | _ => false

theorem Req.isCall_of_quiet {q : Req} (quiet : q.quiet = true) : q.isCall = false := by
  cases q with
  | report what => contradiction
  | _ => rfl

/-- Nothing happened from `w` to `w'` but quiet requests. -/
structure World.Keeps (w w' : World) : Prop where
  table : w'.table = w.table
  commands : w'.commands = w.commands
  callCommands : w'.callCommands = w.callCommands
  booting : w'.booting = w.booting
  timedOut : w'.timedOut = w.timedOut
  trace : w.trace <:+ w'.trace
  callTrace : w.callTrace <:+ w'.callTrace
  running : w'.running = w.running

theorem World.Keeps.refl (w : World) : w.Keeps w :=
  ⟨rfl, rfl, rfl, rfl, rfl, List.suffix_refl _, List.suffix_refl _, rfl⟩

theorem World.Keeps.trans {w w' w'' : World} (h : w.Keeps w') (h' : w'.Keeps w'') :
    w.Keeps w'' where
  table := h'.table.trans h.table
  commands := h'.commands.trans h.commands
  callCommands := h'.callCommands.trans h.callCommands
  booting := h'.booting.trans h.booting
  timedOut := h'.timedOut.trans h.timedOut
  trace := h.trace.trans h'.trace
  callTrace := h.callTrace.trans h'.callTrace
  running := h'.running.trans h.running

theorem World.keeps_of_table {q : Req} {r : Resp q} (call : q.isCall = false)
    (mark : q.mark? = none) (table : (w.after q r).table = w.table)
    (command : Event.command? ⟨q, r⟩ = none)
    (booting : World.bootingAfter w.booting q = w.booting)
    (timedOut : World.timedOutAfter w.timedOut q r = w.timedOut) : w.Keeps (w.after q r) where
  table := table
  commands := by rw [World.commands_after, command]; rfl
  callCommands := by rw [World.callCommands_after w r call, command]; rfl
  booting := booting
  timedOut := timedOut
  trace := List.suffix_cons _ _
  callTrace := by
    rw [World.callTrace_after w r call]
    exact List.suffix_cons _ _
  running := World.running_after w r mark

theorem World.keeps_after {q : Req} (quiet : q.quiet = true) (r : Resp q) :
    w.Keeps (w.after q r) := by
  cases q with
  | exec issue call => contradiction
  | report what => contradiction
  | sql s =>
    cases s with
    | select k => cases r <;> exact keeps_of_table rfl rfl rfl rfl rfl rfl
    | list => cases r <;> exact keeps_of_table rfl rfl rfl rfl rfl rfl
    | upsert | delete | update => contradiction
  | _ => exact keeps_of_table rfl rfl rfl rfl rfl rfl

theorem World.keeps_after_error (s : Stmt) : w.Keeps (w.after (.sql s) .error) :=
  keeps_of_table rfl rfl rfl rfl rfl rfl

end Quiet

section Loading

/-- `n` is `r` as read back since `w₀`, at a clock reading that was made if the
row has a time to compare it with. -/
def Loaded (w₀ w : World) (r : Row) (n : Node) : Prop :=
  ∃ load, n = r.toNode load ∧
    (r.lastAppliedAt < 0 ∨ ∃ recent, w.trace = recent ++ w₀.trace ∧
      ⟨.time, load⟩ ∈ recent)

theorem Loaded.key {w₀ : World} {r : Row} {n : Node} (h : Loaded w₀ w r n) : n.key = r.key := by
  obtain ⟨load, rfl, -⟩ := h
  rfl

theorem Loaded.later {w₀ w' : World} {r : Row} {n : Node} (h : Loaded w₀ w r n)
    (keeps : w.trace <:+ w'.trace) : Loaded w₀ w' r n := by
  obtain ⟨load, rfl, negative | ⟨recent, hrecent, hmem⟩⟩ := h
  · exact ⟨load, rfl, .inl negative⟩
  · obtain ⟨new, hnew⟩ := keeps
    refine ⟨load, rfl, .inr ⟨new ++ recent, ?_, List.mem_append_right _ hmem⟩⟩
    rw [← hnew, hrecent, List.append_assoc]

theorem safe_rowToNode {w₀ : World} {r : Row} {Q : Node → World → Prop}
    (quiet : ∀ w q, q.quiet = true → P w q) (since : w₀.trace <:+ w.trace)
    (read : ∀ n w', w.Keeps w' → Loaded w₀ w' r n → Q n w') :
    (sem sqlMayFail).Safe P (rowToNode r) w Q := by
  unfold rowToNode
  split
  · rename_i negative
    exact read _ _ (.refl w) ⟨0, rfl, .inl negative⟩
  · simp only [safe_bind, safe_time, safe_pure]
    refine ⟨quiet _ _ rfl, fun now => ?_⟩
    have keeps : w.Keeps (w.after .time now) := World.keeps_after (q := .time) rfl now
    refine read _ _ keeps ⟨now, rfl, .inr ?_⟩
    obtain ⟨recent, hrecent⟩ := since
    refine ⟨⟨.time, now⟩ :: recent, ?_, List.mem_cons_self⟩
    rw [World.trace_after, ← hrecent, List.cons_append]

theorem safe_dbGetNode {k : Key} {Q : Lookup → World → Prop}
    (quiet : ∀ w q, q.quiet = true → P w q)
    (found : ∀ r n w', w.table.find? k = some r → w.Keeps w' → Loaded w w' r n →
      Q (.found n) w')
    (absent : ∀ w', w.table.find? k = none → w.Keeps w' → Q .absent w')
    (failed : ∀ w', w.Keeps w' → Q .failed w') :
    (sem sqlMayFail).Safe P (dbGetNode k) w Q := by
  simp only [dbGetNode, safe_bind, safe_sql, Stmt.Replies]
  refine ⟨quiet _ _ rfl, fun reply hreply => ?_, fun _ => failed _ (World.keeps_after_error _)⟩
  subst hreply
  have keeps := World.keeps_after (w := w) (q := .sql (.select k)) rfl
  cases hfind : w.table.find? k with
  | none => exact absent _ hfind (keeps _)
  | some r =>
    simp only [Option.toList_some, safe_bind, safe_pure]
    refine safe_rowToNode quiet (keeps _).trace fun n w' hkeeps hload => ?_
    exact found r n w' hfind ((keeps _).trans hkeeps) hload

theorem keys_of_loaded {w₀ : World} {rows : List Row} {nodes : List Node}
    (h : List.Forall₂ (Loaded w₀ w) rows nodes) : nodes.map Node.key = rows.map Row.key := by
  induction h with
  | nil => rfl
  | cons loaded _ ih => rw [List.map_cons, List.map_cons, loaded.key, ih]

theorem row_of_loaded {w₀ : World} {rows : List Row} {nodes : List Node}
    (h : List.Forall₂ (Loaded w₀ w) rows nodes) {n : Node} (hn : n ∈ nodes) :
    ∃ r ∈ rows, Loaded w₀ w r n := by
  induction h with
  | nil => contradiction
  | cons loaded _ ih =>
    rcases List.mem_cons.mp hn with rfl | hn
    · exact ⟨_, List.mem_cons_self, loaded⟩
    · obtain ⟨r, hr, hload⟩ := ih hn
      exact ⟨r, List.mem_cons_of_mem _ hr, hload⟩

/-- The rows are listed in their order, each as it was read. -/
theorem safe_listRows {Q : Option (List Node) → World → Prop}
    (quiet : ∀ w q, q.quiet = true → P w q)
    (listed : ∀ rows nodes w', w.Keeps w' → rows.Perm w.table.rows →
      rows.Pairwise Row.listedBefore → List.Forall₂ (Loaded w w') rows nodes →
        Q (some nodes) w')
    (failed : sqlMayFail → ∀ w', w.Keeps w' → Q none w') :
    (sem sqlMayFail).Safe P dbListNodes w Q := by
  simp only [dbListNodes, safe_bind, safe_sql, Stmt.Replies]
  refine ⟨quiet _ _ rfl, fun reply hreply => ?_,
    fun may => failed may _ (World.keeps_after_error _)⟩
  obtain ⟨rows, rfl, hperm, sorted⟩ := hreply
  have keeps := World.keeps_after (w := w) (q := .sql .list) rfl (.ok rows 0)
  simp only [safe_bind, safe_pure]
  refine safe_mapM (fun rest done w' => w.Keeps w' ∧ ∃ loaded, rows = loaded ++ rest ∧
    List.Forall₂ (Loaded w w') loaded done) ⟨keeps, [], rfl, .nil⟩ ?_ ?_
  · rintro r rest done w' ⟨hkeeps, loaded, hrows, hloaded⟩
    refine safe_rowToNode quiet hkeeps.trace fun n w'' hkeeps' hload => ?_
    refine ⟨hkeeps.trans hkeeps', loaded ++ [r], by simp [hrows], ?_⟩
    refine List.rel_append (hloaded.imp fun _ _ h => h.later hkeeps'.trace) ?_
    exact .cons hload .nil
  · rintro nodes w' ⟨hkeeps, loaded, hrows, hloaded⟩
    rw [List.append_nil] at hrows
    subst hrows
    exact listed _ nodes w' hkeeps hperm sorted hloaded

/-- Every stored row is listed once, as it was read. -/
theorem safe_dbListNodes {Q : Option (List Node) → World → Prop}
    (quiet : ∀ w q, q.quiet = true → P w q)
    (listed : ∀ nodes w', w.Keeps w' →
      (∀ n ∈ nodes, ∃ r, w.table.find? n.key = some r ∧ Loaded w w' r n) →
      (nodes.map Node.key).Nodup → (∀ r ∈ w.table.rows, r.key ∈ nodes.map Node.key) →
      Q (some nodes) w')
    (failed : sqlMayFail → ∀ w', w.Keeps w' → Q none w') :
    (sem sqlMayFail).Safe P dbListNodes w Q := by
  refine safe_listRows quiet (fun rows nodes w' hkeeps hperm _ hloaded => ?_) failed
  have hkeys := keys_of_loaded hloaded
  refine listed nodes w' hkeeps (fun n hn => ?_) ?_ fun r hr => ?_
  · obtain ⟨r, hr, hload⟩ := row_of_loaded hloaded hn
    refine ⟨r, ?_, hload⟩
    rw [hload.key]
    exact Keyed.mem_rows.mp (hperm.mem_iff.mp hr)
  · rw [hkeys]
    exact (hperm.map Row.key).nodup_iff.mpr w.table.keys
  · rw [hkeys]
    exact List.mem_map_of_mem (hperm.mem_iff.mpr hr)

end Loading

section Statements

/-- An `UPDATE` of a stored row takes effect, is refused by its guard, or fails. -/
theorem safe_dbUpdateOne {k : Key} {set : Assign} {guard : Guard} {r : Row}
    {Q : Int → World → Prop} (stored : w.table.find? k = some r)
    (permit : P w (.sql (.update k set guard)))
    (done : guard.holds r.rotationState = true →
      Q 0 (w.after (.sql (.update k set guard)) (.ok [] 1)))
    (refused : guard.holds r.rotationState = false →
      Q (-1) (w.after (.sql (.update k set guard)) (.ok [] 0)))
    (failed : sqlMayFail → Q (-1) (w.after (.sql (.update k set guard)) .error)) :
    (sem sqlMayFail).Safe P (dbUpdateOne k set guard) w Q := by
  simp only [dbUpdateOne, safe_bind, safe_sql, Stmt.Replies]
  refine ⟨permit, fun reply hreply => ?_, failed⟩
  rw [Keyed.countAt_eq, stored] at hreply
  subst hreply
  cases holds : guard.holds r.rotationState with
  | true => simpa [holds] using done holds
  | false => simpa [holds] using refused holds

theorem safe_dbUpdateRuntime {k : Key} {currentIp : Buf 64} {status : Buf 32} {lastUpdated : Int}
    {Q : Int → World → Prop}
    (permit : P w (.sql (.update k (setRuntime currentIp status lastUpdated) .any)))
    (done : ∀ changes, Q 0 (w.after
      (.sql (.update k (setRuntime currentIp status lastUpdated) .any)) (.ok [] changes)))
    (failed : sqlMayFail → Q (-1) (w.after
      (.sql (.update k (setRuntime currentIp status lastUpdated) .any)) .error)) :
    (sem sqlMayFail).Safe P (dbUpdateRuntime k currentIp status lastUpdated) w Q := by
  simp only [dbUpdateRuntime, safe_bind, safe_sql, Stmt.Replies]
  refine ⟨permit, fun reply hreply => ?_, failed⟩
  subst hreply
  exact done _

/-- The upsert binds a copy of the node, with defaults for its empty fields. -/
theorem safe_dbUpsertNode {n : Node} {setLifetime : Bool} {Q : Int → World → Prop}
    (quiet : ∀ w q, q.quiet = true → P w q)
    (permit : ∀ w' createdAt lastUpdated, w.Keeps w' →
      P w' (.sql (.upsert (n.withDefaults createdAt lastUpdated) setLifetime)))
    (stored : ∀ w' createdAt lastUpdated changes, w.Keeps w' →
      ¬w'.table.Taken (Row.ofNode (n.withDefaults createdAt lastUpdated) setLifetime) →
      Q 0 (w'.after (.sql (.upsert (n.withDefaults createdAt lastUpdated) setLifetime))
        (.ok [] changes)))
    (failed : ∀ w', w.Keeps w' → Q (-1) w') :
    (sem sqlMayFail).Safe P (dbUpsertNode n setLifetime) w Q := by
  have clock : ∀ {w : World} {t : Int} {Q : Int → World → Prop},
      (∀ t w', w.Keeps w' → Q t w') → (sem sqlMayFail).Safe P (timeIfZero t) w Q := by
    intro w t Q h
    unfold timeIfZero
    split
    · rw [safe_time]
      exact ⟨quiet _ _ rfl, fun now => h _ _ (World.keeps_after (q := .time) rfl now)⟩
    · exact h _ _ (.refl w)
  simp only [dbUpsertNode, safe_bind]
  refine clock fun createdAt w₁ keeps₁ => clock fun lastUpdated w₂ keeps₂ => ?_
  have keeps := keeps₁.trans keeps₂
  rw [safe_sql]
  refine ⟨permit _ _ _ keeps, fun reply hreply => ?_,
    fun _ => failed _ (keeps.trans (World.keeps_after_error _))⟩
  simp only [Stmt.Replies] at hreply
  split at hreply
  · subst hreply
    exact failed _ (keeps.trans (World.keeps_after_error _))
  · subst hreply
    exact stored _ _ _ _ keeps ‹_›

theorem safe_dbDeleteNode {k : Key} {Q : Int → World → Prop} (permit : P w (.sql (.delete k)))
    (done : ∀ rc changes, Q rc (w.after (.sql (.delete k)) (.ok [] changes)))
    (failed : sqlMayFail → Q (-1) (w.after (.sql (.delete k)) .error)) :
    (sem sqlMayFail).Safe P (dbDeleteNode k) w Q := by
  simp only [dbDeleteNode, safe_bind, safe_sql, Stmt.Replies]
  refine ⟨permit, fun reply hreply => ?_, failed⟩
  subst hreply
  exact done _ _

end Statements

section Runner

/-- One subprocess, with lines in the log before and after it. -/
theorem safe_runTuctlScript {issue : Issue} {script marker : Str} {Q : Int → World → Prop}
    (logs : ∀ w line, P w (.log line))
    (permit : ∀ w', w.Keeps w' → P w' (.exec issue (tuctlCall issue.node script)))
    (done : ∀ w' result w'', w.Keeps w' → (result.rc = 0 → result.timedOut = false) →
      (w'.after (.exec issue (tuctlCall issue.node script)) result).Keeps w'' →
      Q (if result.acknowledges marker then 0 else -1) w'') :
    (sem sqlMayFail).Safe P (runTuctlScript issue script marker) w Q := by
  simp only [runTuctlScript, logArgv, safe_bind, safe_log, safe_exec]
  have keeps : ∀ (w : World) line, w.Keeps (w.after (.log line) ()) :=
    fun w line => World.keeps_after (q := .log line) rfl ()
  refine ⟨logs _ _, permit _ (keeps _ _), fun result hresult => ⟨logs _ _, ?_⟩⟩
  have post : ∀ rc w'', (if result.acknowledges marker then 0 else -1) = rc →
      ((w.after (.log ⟨.debug, argvLine "tuctl_client".toList (tuctlArgv issue.node)⟩) ()).after
        (.exec issue (tuctlCall issue.node script)) result).Keeps w'' → Q rc w'' :=
    fun rc w'' code keeps' => code ▸ done _ result w'' (keeps _ _) hresult.2 keeps'
  split
  · rename_i failed
    exact post _ _ (by simp [ExecResult.acknowledges, failed]) (keeps _ _)
  rename_i rc
  split
  · rename_i missing
    simp only [safe_bind, safe_log, safe_pure]
    refine ⟨logs _ _, post _ _ ?_ ((keeps _ _).trans (keeps _ _))⟩
    simp [ExecResult.acknowledges, missing]
  · rename_i shown
    have rc : result.rc = 0 := by simpa using rc
    refine post _ _ ?_ (keeps _ _)
    simp only [not_and, not_not] at shown
    simpa [ExecResult.acknowledges, rc, or_iff_not_imp_left] using shown

theorem safe_runKtuctl {issue : Issue} {argv : List Str} {Q : Int → World → Prop}
    (logs : ∀ w line, P w (.log line))
    (permit : ∀ w', w.Keeps w' → P w' (.exec issue ⟨argv, none, none⟩))
    (done : ∀ w' result w'', w.Keeps w' → result.rc ≤ 0 →
      (result.rc = 0 → result.timedOut = false) →
      (w'.after (.exec issue ⟨argv, none, none⟩) result).Keeps w'' → Q result.rc w'') :
    (sem sqlMayFail).Safe P (runKtuctl issue argv) w Q := by
  simp only [runKtuctl, logArgv, safe_bind, safe_log, safe_exec, safe_pure]
  have keeps : ∀ (w : World) line, w.Keeps (w.after (.log line) ()) :=
    fun w line => World.keeps_after (q := .log line) rfl ()
  refine ⟨logs _ _, permit _ (keeps _ _), fun result hresult => ⟨logs _ _, ?_⟩⟩
  exact done _ result _ (keeps _ _) hresult.1 hresult.2 (keeps _ _)

end Runner

end Tumgrd
