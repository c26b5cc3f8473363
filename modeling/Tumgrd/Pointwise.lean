import Tumgrd.Columns
import Tumgrd.Timeouts

/-! The pass over all rows, in surroundings that treat every node by itself: the
row of a node ends up as it does when the node is reconciled alone. -/
namespace Tumgrd

open Effect Program Semantics

/-- What the nodes meet. The clock is read for a row when the rows are listed;
during a call the answers depend on the node and on what the call has seen. -/
structure Outcomes where
  listed : Key → Int
  now : Key → List Event → Int
  fresh : Key → List Event → Option HexKey
  found : Key → List Event → Str → Str → Detection
  result : Key → List Event → Issue → Invocation → ExecResult
  fails : Key → List Event → Stmt → Bool
  detected : ∀ k past url ipVersion, (found k past url ipVersion).ok →
    (found k past url ipVersion).ip.text ≠ []
  exits : ∀ k past issue call, (result k past issue call).rc ≤ 0 ∧
    ((result k past issue call).rc = 0 → (result k past issue call).timedOut = false)

namespace World

/-- What happened since the rows were listed, newest first. -/
def sinceList (w : World) : List Event := w.trace.takeWhile fun e => e.req ≠ .sql .list

/-- The node whose call has not returned, if it was called since. -/
def concerned (w : World) : Option Key :=
  (w.sinceList.findSome? fun e => e.req.mark?).join.map Node.key

/-- The listed row that the clock is read for. -/
def reading? (w : World) : Option Row :=
  match w.trace.dropWhile fun e => e.req = .time with
  | ⟨.sql .list, .ok rows _⟩ :: _ =>
      (rows.filter fun r => 0 ≤ r.lastAppliedAt)[
        (w.trace.takeWhile fun e => e.req = .time).length]?
  | _ => none

end World

namespace Outcomes

variable (E : Outcomes)

def Gives (w : World) : (q : Req) → Resp q → Prop
  | .time, now => match w.concerned with
      | some k => now = E.now k w.callTrace
      | none => ∀ r ∈ w.reading?, now = E.listed r.key
  | .randomKey, key => ∀ k ∈ w.concerned, key = E.fresh k w.callTrace
  | .detect url ipVersion, found =>
    ∀ k ∈ w.concerned, found = E.found k w.callTrace url ipVersion
  | .exec issue run, result => ∀ k ∈ w.concerned, result = E.result k w.callTrace issue run
  | .sql .list, reply => Stmt.list.Replies w.table reply
  | .sql s, reply => ∀ k ∈ w.concerned,
      if E.fails k w.callTrace s then reply = .error else s.Replies w.table reply
  | _, _ => True

abbrev sem : Semantics Req Resp World where
  allowed w q r := allowed True w q r ∧ E.Gives w q r
  after := World.after

/-- A row as it is read when the rows are listed. -/
def loaded (r : Row) : Node := r.toNode (E.listed r.key)

/-- What `tumgrd_reconcile_one` returns and leaves in a table of one row. -/
def Alone (cfg : Config) (force : Bool) (r : Row) (rc : Int) (r' : Row) : Prop :=
  ∃ n v, E.sem.Runs (reconcileOne cfg (E.loaded r) force) (.ofRow r) (.done (rc, n)) v ∧
    v.table.rows = [r']

end Outcomes

/-- The calls of `tumgrd_reconcile_one`, newest first. -/
def Req.attempt? : Req → Option (Node × Bool)
  | .report (.called n force) => some (n, force)
  | _ => none

def World.attempts (w : World) : List (Node × Bool) := w.trace.filterMap fun e => e.req.attempt?

/-- A pass that attempts every row once, replaces each by what becomes of it alone,
and fails if one of them fails. -/
structure Pointwise (E : Outcomes) (force : Bool) (alone : Row → Int × Row)
    (w : World) (rc : Int)
    (v : World) : Prop where
  attempts : ∃ new, v.attempts = new ++ w.attempts ∧
    new.Perm (w.table.rows.map fun r => (E.loaded r, force))
  rows : v.table.rows = w.table.rows.map fun r => (alone r).2
  keys : v.table.rows.map Row.key = w.table.rows.map Row.key
  code : rc = 0 ↔ ∀ r ∈ w.table.rows, (alone r).1 = 0

section Surroundings

variable {E : Outcomes} {w : World}

/-- One way to answer every request. -/
def Outcomes.answer (E : Outcomes) (w : World) : (q : Req) → Resp q
  | .time => match w.concerned with
      | some k => E.now k w.callTrace
      | none => (w.reading?.map fun r => E.listed r.key).getD 0
  | .randomKey => w.concerned.elim none fun k => E.fresh k w.callTrace
  | .detect url ipVersion => w.concerned.elim ⟨false, .empty⟩ fun k =>
      E.found k w.callTrace url ipVersion
  | .exec issue run => w.concerned.elim ⟨-1, false, [], [], []⟩ fun k =>
      E.result k w.callTrace issue run
  | .timedOut => w.timedOut
  | .sql .list => Stmt.list.reply w.table
  | .sql s => w.concerned.elim (s.reply w.table) fun k =>
      if E.fails k w.callTrace s then .error else s.reply w.table
  | .log _ => ()
  | .report _ => ()

theorem Outcomes.fair (E : Outcomes) (w : World) (q : Req) : E.sem.allowed w q (E.answer w q) := by
  cases concerned : w.concerned with
  | none =>
    cases q with
    | time => simp +contextual [allowed, Gives, answer, concerned]
    | sql s =>
      have replied := s.replies_reply w.table
      cases s <;> simp [allowed, Gives, answer, concerned, replied]
    | _ => simp [allowed, Gives, answer, concerned]
  | some k =>
    cases q with
    | detect => simpa [allowed, Gives, answer, concerned] using E.detected _ _ _ _
    | exec => simpa [allowed, Gives, answer, concerned] using E.exits _ _ _ _
    | sql s =>
      have replied := s.replies_reply w.table
      cases s with
      | list => simp [allowed, Gives, answer, replied]
      | _ =>
        simp only [allowed, Gives, answer, concerned, Option.elim_some, Option.mem_some_iff,
          forall_eq']
        split <;> simp [replied]
    | _ => simp [allowed, Gives, answer, concerned]

/-- These surroundings only leave answers out. -/
theorem runs_of_outcomes {α : Type} {p p' : Prog α} {v : World} (runs : E.sem.Runs p w p' v) :
    (sem True).Runs p w p' v :=
  runs.widen (fun _ _ _ given => given.1) rfl

end Surroundings

section Calls

variable {E : Outcomes} {cfg : Config} {n : Node} {force : Bool} {k : Key} {u u' v v' w : World}

/-- What a call asks for between its first report and its last. -/
def Req.inner : Req → Bool
  | .time | .randomKey | .detect _ _ | .exec _ _ | .timedOut | .log _ => true
  | .sql (.update _ _ _) | .report (.skipped _) => true
  | .sql _ | .report _ => false

/-- The tail of a call, up to its last report. -/
def closing : Flow → Prog (Int × Node)
  | .next l => pure (0, l.node)
  | .skip l => do
      report (.skipped l.node)
      pure (0, l.node)
  | .fail l err => do
      let ip := if l.detectedIp.text ≠ [] then l.detectedIp else l.node.currentIp
      let _ ← markRuntime l.node ip statusError
      pure (err, l.node)

/-- A call without its first and its last report. -/
def callBody (cfg : Config) (n : Node) (force : Bool) : Prog (Int × Node) := do
  let now ← time
  let flow ← andThen (decideApply cfg now ⟨n, force, false, .empty, false⟩)
    (applyNode cfg now)
  closing flow

/-- The last report of a call. -/
def reportBack (result : Int × Node) : Prog (Int × Node) := do
  report (.returned result.2 result.1)
  pure result

theorem finishReconcile_eq (flow : Flow) : finishReconcile flow = closing flow >>= reportBack := by
  cases flow <;> simp [finishReconcile, closing, reportBack]

theorem reconcileOne_eq (cfg : Config) (n : Node) (force : Bool) : reconcileOne cfg n force =
    report (.called n force) >>= fun _ => callBody cfg n force >>= reportBack := by
  simp [reconcileOne, callBody, finishReconcile_eq]

theorem emits_inner : Emits (fun q => q.inner = true) (fun _ => True) (callBody cfg n force) := by
  simp only [callBody, emits_bind, emits_time]
  refine ⟨rfl, fun now => ?_⟩
  refine (emits_andThen (P := fun q => q.inner = true)
    (emits_decideApply rfl (fun _ _ => rfl) fun _ _ _ => rfl) fun l => emits_applyNode
      (fun _ => rfl) rfl rfl (fun _ _ => rfl) fun _ _ _ => rfl).post fun flow _ => ?_
  cases flow with
  | next l => trivial
  | skip l => exact ⟨rfl, fun _ => trivial⟩
  | fail l err =>
    simp only [closing, emits_bind]
    exact (emits_markRuntime (P := fun q => q.inner = true) rfl fun _ => rfl).post
      fun _ _ => trivial

theorem emits_serves : Emits (Req.Serves n True) (fun _ => True) (callBody cfg n force) := by
  simp only [callBody, emits_bind, emits_time]
  refine ⟨.quiet rfl, fun now => ?_⟩
  have all : Emits (Req.Serves n True) (fun result => n.Continues result.2 True)
      (afterClock cfg n force now) :=
    emits_afterClock (fun _ => trivial) fun _ _ => trivial
  simp only [afterClock, emits_bind, finishReconcile_eq] at all
  exact all.post fun flow rest => rest.post fun _ _ => trivial

/-- The flag is read for the last subprocess of this call. -/
theorem safe_punctual : E.sem.Safe Punctual (callBody cfg n force)
    (w.after (.report (.called n force)) ()) fun _ _ => True := by
  have all := safe_reconcileOne_chain cfg n force w
  rw [reconcileOne_eq, safe_bind, safe_report, safe_bind] at all
  have body : E.sem.Safe Punctual (callBody cfg n force) _ _ :=
    all.2.restrict (fun _ _ _ given => given.1) fun _ _ _ => rfl
  exact body.post fun _ _ _ => trivial

/-- Two worlds that the call for one node cannot tell apart. -/
structure SameFor (k : Key) (u u' : World) : Prop where
  concerned : u.concerned = some k
  concerned' : u'.concerned = some k
  callTrace : u.callTrace = u'.callTrace
  row : u.table.find? k = u'.table.find? k
  timedOut : u.callCommands ≠ [] → u.timedOut = u'.timedOut

theorem concerned_after {q : Req} (inner : q.inner = true) (r : Resp q) :
    (w.after q r).concerned = w.concerned := by
  have unlisted : q ≠ .sql .list := by
    rintro rfl
    contradiction
  have unmarked : q.mark? = none := by
    cases q with
    | report what => cases what <;> first | rfl | contradiction
    | _ => rfl
  unfold World.concerned World.sinceList
  rw [World.trace_after, List.takeWhile_cons_of_pos (by simpa using unlisted), List.findSome?_cons,
    unmarked]

theorem sameFor_called (row : u.table.find? n.key = u'.table.find? n.key) :
    SameFor n.key (u.after (.report (.called n force)) ())
        (u'.after (.report (.called n force)) ()) where
  concerned := rfl
  concerned' := rfl
  callTrace := rfl
  row := row
  timedOut := fun ran => absurd rfl ran

theorem SameFor.after (alike : SameFor k u u') {q : Req} (inner : q.inner = true)
    (call : q.isCall = false) (r : Resp q)
    (row : (u.after q r).table.find? k = (u'.after q r).table.find? k) :
    SameFor k (u.after q r) (u'.after q r) where
  concerned := (concerned_after inner r).trans alike.concerned
  concerned' := (concerned_after inner r).trans alike.concerned'
  callTrace := by
    rw [World.callTrace_after _ _ call, World.callTrace_after _ _ call, alike.callTrace]
  row := row
  timedOut := by
    rw [World.callCommands_after _ _ call]
    cases q with
    | exec issue run => exact fun _ => rfl
    | _ => exact alike.timedOut

/-- They answer alike, and stay so. -/
theorem SameFor.step (alike : SameFor n.key u u') {q : Req} {r r' : Resp q} (inner : q.inner = true)
    (serves : q.Serves n True) (punctual : Punctual u q) (given : E.sem.allowed u q r)
    (given' : E.sem.allowed u' q r') :
    r = r' ∧ SameFor n.key (u.after q r) (u'.after q r) := by
  obtain ⟨permitted, given⟩ := given
  obtain ⟨permitted', given'⟩ := given'
  have later := alike.after inner serves.noCall r
  cases q with
  | time =>
    simp only [Outcomes.Gives, alike.concerned, alike.concerned', alike.callTrace] at given given'
    exact ⟨given.trans given'.symm, later alike.row⟩
  | randomKey =>
    have same := alike.callTrace ▸ given _ alike.concerned
    exact ⟨same.trans (given' _ alike.concerned').symm, later alike.row⟩
  | detect url ipVersion =>
    have same := alike.callTrace ▸ given _ alike.concerned
    exact ⟨same.trans (given' _ alike.concerned').symm, later alike.row⟩
  | exec issue run =>
    have same := alike.callTrace ▸ given _ alike.concerned
    exact ⟨same.trans (given' _ alike.concerned').symm, later alike.row⟩
  | timedOut =>
    obtain ⟨cmd, earlier, ran, -⟩ := punctual
    have same : u.timedOut = u'.timedOut := alike.timedOut (by simp [ran])
    exact ⟨permitted.trans (same.trans permitted'.symm), later alike.row⟩
  | log line => exact ⟨rfl, later alike.row⟩
  | report what => exact ⟨rfl, later alike.row⟩
  | sql s =>
    cases s with
    | update k set guard =>
      cases serves with
      | quiet quiet => contradiction
      | update =>
        have own := alike.callTrace ▸ given _ alike.concerned
        have own' := given' _ alike.concerned'
        by_cases fails : E.fails n.key u'.callTrace (.update n.key set guard) = true
        · rw [if_pos fails] at own own'
          subst own own'
          exact ⟨rfl, later alike.row⟩
        · rw [if_neg fails] at own own'
          have counted : u.table.countAt n.key (fun r => guard.holds r.rotationState) =
              u'.table.countAt n.key fun r => guard.holds r.rotationState := by
            rw [Keyed.countAt_eq, Keyed.countAt_eq, alike.row]
          refine ⟨own.trans ((congrArg (SqlReply.ok []) counted).trans own'.symm), later ?_⟩
          obtain rfl : r = .ok [] _ := own
          rw [World.table_after_ok, World.table_after_ok]
          simp only [Stmt.effect, Keyed.find?_updateAt_self, alike.row]
    | _ => contradiction

/-- A call for one row does not depend on the other rows. -/
theorem sameFor_of_runs {result result' : Int × Node}
    (row : u.table.find? n.key = u'.table.find? n.key)
    (runs : E.sem.Runs (reconcileOne cfg n force) u (.done result) v)
    (runs' : E.sem.Runs (reconcileOne cfg n force) u' (.done result') v') :
    result = result' ∧ v.table.find? n.key = v'.table.find? n.key := by
  have parts {u v : World} {result : Int × Node}
      (runs : E.sem.Runs (reconcileOne cfg n force) u (.done result) v) :
      ∃ x, E.sem.Runs (callBody cfg n force) (u.after (.report (.called n force)) ())
        (.done result) x ∧
        v.table = x.table := by
    rw [reconcileOne_eq] at runs
    obtain ⟨_, _, called, runs⟩ := runs_bind runs
    obtain ⟨-, rfl⟩ := runs_perform called
    obtain ⟨result', x, body, runs⟩ := runs_bind runs
    obtain ⟨_, _, returned, runs⟩ := runs_bind runs
    obtain ⟨-, rfl⟩ := runs_perform returned
    obtain ⟨rfl, rfl⟩ := runs_pure runs
    exact ⟨x, body, rfl⟩
  obtain ⟨x, body, table⟩ := parts runs
  obtain ⟨x', body', table'⟩ := parts runs'
  have inner : Emits (fun q => q.inner = true) (fun _ => True) (callBody cfg n force) := emits_inner
  have safe := ((safe_of_emits (S := E.sem) (w := u.after (.report (.called n force)) ()) inner).and
    (safe_of_emits emits_serves)).and safe_punctual
  obtain ⟨same, alike⟩ := safe.lockstep (sameFor_called row)
    (fun _ _ _ _ _ permitted alike given given' =>
      alike.step permitted.1.1 permitted.1.2 permitted.2 given given') body body'
  rw [table, table']
  exact ⟨same, alike.row⟩

end Calls

section Pass

variable {E : Outcomes} {cfg : Config} {n : Node} {force : Bool} {u v w : World}

/-- A call leaves the other rows, and is one attempt. -/
structure Attempted (n : Node) (force : Bool) (u v : World) : Prop where
  keys : v.table.rows.map Row.key = u.table.rows.map Row.key
  others : ∀ k, k ≠ n.key → v.table.find? k = u.table.find? k
  attempts : v.attempts = (n, force) :: u.attempts

theorem keys_after_update {k : Key} {set : Assign} {guard : Guard} (reply : SqlReply) :
    (w.after (.sql (.update k set guard)) reply).table.rows.map Row.key =
      w.table.rows.map Row.key := by
  cases reply with
  | error => rfl
  | ok rows changes =>
    simp only [World.table_after_ok, Stmt.effect, Keyed.updateAt, List.map_map]
    refine List.map_congr_left fun r _ => ?_
    simp only [Function.comp_apply]
    split
    · exact Row.key_update set guard r
    · rfl

theorem attempts_after {q : Req} (call : q.isCall = false) (r : Resp q) :
    (w.after q r).attempts = w.attempts := by
  have silent : q.attempt? = none := by
    cases q with
    | report what => cases what <;> first | rfl | contradiction
    | _ => rfl
  unfold World.attempts
  rw [World.trace_after, List.filterMap_cons, silent]

theorem attempted_of_runs {result : Int × Node}
    (runs : E.sem.Runs (reconcileOne cfg n force) u (.done result) v) : Attempted n force u v := by
  have runs := runs_of_outcomes runs
  obtain ⟨now, later⟩ := read_of_runs runs
  have emits : Emits (Req.Serves n True) (fun _ => True) (afterClock cfg n force now) :=
    (emits_afterClock (fun _ => trivial) fun _ _ => trivial).post fun _ _ => trivial
  have safe := (safe_of_emits (S := sem True) (w := u.read n force now) emits).invariant
    (I := fun v => v.table.rows.map Row.key = u.table.rows.map Row.key ∧
      v.attempts = (n, force) :: u.attempts) ⟨rfl, rfl⟩ fun v q r kept serves _ => by
    refine ⟨?_, (attempts_after serves.noCall r).trans kept.2⟩
    cases serves with
    | quiet quiet =>
      rw [(World.keeps_after quiet r).table]
      exact kept.1
    | report => exact kept.1
    | exec => exact kept.1
    | update => exact (keys_after_update r).trans kept.1
  obtain ⟨-, keys, attempts⟩ := safe.result later
  exact ⟨keys, (served_of_call runs).1.others, attempts⟩

/-- A call for a stored row does to it what it does to the row alone. -/
theorem Outcomes.Alone.of_runs {r r' : Row} {rc : Int} {result : Int × Node}
    (is : E.Alone cfg force r rc r') (stored : u.table.find? r.key = some r)
    (runs : E.sem.Runs (reconcileOne cfg (E.loaded r) force) u (.done result) v) :
    result.1 = rc ∧ v.table.find? r.key = some r' := by
  obtain ⟨m, x, single, left⟩ := is
  have key : r'.key = r.key := by
    have keys := (attempted_of_runs single).keys
    rw [left] at keys
    exact (List.cons.inj keys).1
  obtain ⟨same, row⟩ := sameFor_of_runs (stored.trans (World.find_ofRow r).symm) runs single
  refine ⟨congrArg Prod.fst same, row.trans (Keyed.find?_eq_some.mpr ⟨?_, key⟩)⟩
  rw [left]
  exact List.mem_singleton_self r'

/-- What a pass over `rows` makes of `u`, whose rows they are. -/
structure Passed (E : Outcomes) (force : Bool) (alone : Row → Int × Row) (rows : List Row)
    (u : World) (failed : Nat) (v : World) : Prop where
  keys : v.table.rows.map Row.key = u.table.rows.map Row.key
  others : ∀ k, k ∉ rows.map Row.key → v.table.find? k = u.table.find? k
  own : ∀ r ∈ rows, v.table.find? r.key = some (alone r).2
  attempts : v.attempts = (rows.map fun r => (E.loaded r, force)).reverse ++ u.attempts
  failed : failed = 0 ↔ ∀ r ∈ rows, (alone r).1 = 0

theorem passed_of_runs {alone : Row → Int × Row}
    (is : ∀ r, E.Alone cfg force r (alone r).1 (alone r).2) {rows : List Row} {failed : Nat}
    (nodup : (rows.map Row.key).Nodup) (stored : ∀ r ∈ rows, u.table.find? r.key = some r)
    (runs : E.sem.Runs (reconcileNodes cfg force (rows.map E.loaded)) u (.done failed) v) :
    Passed E force alone rows u failed v := by
  induction rows generalizing u failed with
  | nil =>
    obtain ⟨rfl, rfl⟩ := runs_pure runs
    exact ⟨rfl, fun _ _ => rfl, by simp, rfl, by simp⟩
  | cons r rows ih =>
    obtain ⟨result, x, first, runs⟩ := runs_bind runs
    obtain ⟨later, x', rest, last⟩ := runs_bind runs
    obtain ⟨rfl, rfl⟩ := runs_pure last
    rw [List.map_cons, List.nodup_cons] at nodup
    obtain ⟨unlisted, nodup⟩ := nodup
    rw [List.forall_mem_cons] at stored
    have here := attempted_of_runs first
    obtain ⟨code, row⟩ := (is r).of_runs stored.1 first
    have other : ∀ s ∈ rows, s.key ≠ r.key := fun s mem same =>
      unlisted (List.mem_map.mpr ⟨s, mem, same⟩)
    have passed := ih nodup (fun s mem =>
      (here.others s.key (other s mem)).trans (stored.2 s mem)) rest
    refine ⟨passed.keys.trans here.keys, fun k absent => ?_, ?_, ?_, ?_⟩
    · rw [List.map_cons, List.mem_cons, not_or] at absent
      exact (passed.others k absent.2).trans (here.others k absent.1)
    · rw [List.forall_mem_cons]
      exact ⟨(passed.others r.key unlisted).trans row, passed.own⟩
    · rw [passed.attempts, here.attempts]
      simp
    · rw [List.forall_mem_cons, ← passed.failed, ← code]
      split <;> omega

/-- Readings of the clock that follow the listing are for its rows. -/
theorem reading_of_trace {readings past : List Event} {rows : List Row} {changes : Nat}
    (trace : u.trace = readings ++ ⟨.sql .list, .ok rows changes⟩ :: past)
    (clock : ∀ e ∈ readings, e.req = .time) :
    u.concerned = none ∧
      u.reading? = (rows.filter fun r => 0 ≤ r.lastAppliedAt)[readings.length]? := by
  constructor
  · have since : u.sinceList = readings := by
      unfold World.sinceList
      rw [trace, List.takeWhile_append_of_pos fun e mem => by simp [clock e mem],
        List.takeWhile_cons_of_neg (by simp), List.append_nil]
    have unmarked : readings.findSome? (fun e => e.req.mark?) = none := by
      rw [List.findSome?_eq_none_iff]
      intro e mem
      rw [clock e mem]
    simp [World.concerned, since, unmarked]
  · have readings_only : ∀ e ∈ readings, decide (e.req = .time) = true := fun e mem =>
      decide_eq_true (clock e mem)
    unfold World.reading?
    rw [trace, List.dropWhile_append_of_pos readings_only,
      List.takeWhile_append_of_pos readings_only, List.dropWhile_cons_of_neg (by simp),
      List.takeWhile_cons_of_neg (by simp), List.append_nil]

theorem Row.toNode_of_negative {r : Row} (negative : r.lastAppliedAt < 0) (now now' : Int) :
    r.toNode now = r.toNode now' := by
  simp [Row.toNode, clampAppliedAt, negative]

/-- Since `w` the rows were listed, and the clock was read for the first of them. -/
structure Listing (E : Outcomes) (w : World) (rows rest : List Row) (done : List Node) (u : World) :
    Prop where
  table : u.table = w.table
  attempts : u.attempts = w.attempts
  loaded : ∃ first readings, rows = first ++ rest ∧ done = first.map E.loaded ∧
    u.trace = readings ++ ⟨.sql .list, .ok rows 0⟩ :: w.trace ∧
      (∀ e ∈ readings, e.req = .time) ∧
    readings.length = (first.filter fun r => 0 ≤ r.lastAppliedAt).length

theorem safe_rowToNode_listing {r : Row} {rows rest : List Row} {done : List Node}
    (listing : Listing E w rows (r :: rest) done u) :
    E.sem.Safe (fun _ _ => True) (rowToNode r) u fun n v =>
      Listing E w rows rest (done ++ [n]) v := by
  obtain ⟨table, attempts, first, readings, rfl, rfl, trace, clock, count⟩ := listing
  unfold rowToNode
  split
  · rename_i negative
    refine ⟨table, attempts, first ++ [r], readings, by simp, ?_, trace, clock, ?_⟩
    · simp [Outcomes.loaded, Row.toNode_of_negative negative 0 (E.listed r.key)]
    · rw [List.filter_append, List.length_append, count]
      simp [negative]
  · rename_i negative
    have timed : 0 ≤ r.lastAppliedAt := Int.not_lt.mp negative
    obtain ⟨idle, next⟩ := reading_of_trace trace clock
    have next : u.reading? = some r := by
      rw [next, List.filter_append, count, List.getElem?_append_right (Nat.le_refl _),
        Nat.sub_self, List.filter_cons_of_pos (by simpa using timed)]
      rfl
    rw [safe_bind, time, perform, safe_perform]
    refine ⟨trivial, fun now given => ?_⟩
    have read : now = E.listed r.key := by
      have given := given.2
      simp only [Outcomes.Gives, idle] at given
      exact given r next
    subst read
    refine ⟨table, attempts, first ++ [r], ⟨.time, E.listed r.key⟩ :: readings,
      by simp, by simp [Outcomes.loaded], ?_, ?_, ?_⟩
    · rw [World.trace_after, trace, List.cons_append]
    · exact List.forall_mem_cons.mpr ⟨rfl, clock⟩
    · rw [List.length_cons, count, List.filter_append, List.length_append]
      simp [timed]

/-- The rows are listed in some order, each with its own clock reading. -/
theorem listed_of_runs {result : Option (List Node)}
    (runs : E.sem.Runs dbListNodes w (.done result) v) :
    ∃ rows : List Row, result = some (rows.map E.loaded) ∧ rows.Perm w.table.rows ∧
      v.table = w.table ∧ v.attempts = w.attempts := by
  obtain ⟨reply, u, query, runs⟩ := runs_bind runs
  obtain ⟨⟨-, rows, rfl, perm, -⟩, rfl⟩ := runs_perform query
  have start : Listing E w rows rows [] (w.after (.sql .list) (.ok rows 0)) :=
    ⟨rfl, rfl, [], [], rfl, rfl, rfl, by simp, rfl⟩
  have safe : E.sem.Safe (fun _ _ => True) (rows.mapM rowToNode) _ _ := safe_mapM
    (Listing E w rows) start
    (fun _ _ _ _ listing => safe_rowToNode_listing listing) fun _ _ listing => listing
  obtain ⟨nodes, x, all, runs⟩ := runs_bind runs
  obtain ⟨rfl, rfl⟩ := runs_pure runs
  obtain ⟨table, attempts, first, _, loaded, rfl, -⟩ := safe.result all
  rw [List.append_nil] at loaded
  exact ⟨rows, by rw [loaded], perm, table, attempts⟩

theorem exists_alone (E : Outcomes) (cfg : Config) (force : Bool) (r : Row) :
    ∃ outcome : Int × Row, E.Alone cfg force r outcome.1 outcome.2 := by
  obtain ⟨⟨rc, m⟩, v, runs⟩ :=
    exists_run E.fair (reconcileOne cfg (E.loaded r) force) (.ofRow r)
  have keys := (attempted_of_runs runs).keys
  obtain ⟨r', rows, left, -, none⟩ := List.map_eq_cons_iff.mp keys
  rw [List.map_eq_nil_iff.mp none] at left
  exact ⟨(rc, r'), m, v, runs, left⟩

theorem Outcomes.Alone.unique {r r' s : Row} {rc code : Int} (is : E.Alone cfg force r rc r')
    (is' : E.Alone cfg force r code s) : (code, s) = (rc, r') := by
  obtain ⟨m, v, runs, left⟩ := is'
  obtain ⟨rfl, row⟩ := is.of_runs (World.find_ofRow r) runs
  have mem := (Keyed.find?_eq_some.mp row).1
  rw [left, List.mem_singleton] at mem
  rw [mem]

theorem pointwise_of_runs {alone : Row → Int × Row} {rc : Int}
    (is : ∀ r, E.Alone cfg force r (alone r).1 (alone r).2)
    (runs : E.sem.Runs (reconcileAll cfg force) w (.done rc) v) :
    Pointwise E force alone w rc v := by
  obtain ⟨listed, u, list, runs⟩ := runs_bind runs
  obtain ⟨rows, rfl, perm, table, attempts⟩ := listed_of_runs list
  obtain ⟨failed, x, pass, runs⟩ := runs_bind runs
  obtain ⟨rfl, rfl⟩ := runs_pure runs
  have keys : (rows.map Row.key).Perm (w.table.rows.map Row.key) := perm.map Row.key
  have stored : ∀ r ∈ rows, u.table.find? r.key = some r := fun r mem => by
    rw [table]
    exact Keyed.mem_rows.mp (perm.mem_iff.mp mem)
  have passed := passed_of_runs is (keys.nodup_iff.mpr w.table.keys) stored pass
  have keys' := passed.keys.trans (congrArg (fun t : Table => t.rows.map Row.key) table)
  refine ⟨⟨_, passed.attempts.trans (congrArg _ attempts), ?_⟩, ?_, keys', ?_⟩
  · exact (List.reverse_perm _).trans (perm.map _)
  · exact Keyed.rows_eq_map keys' fun r mem => passed.own r (perm.mem_iff.mpr mem)
  · simp only [← perm.mem_iff, ← passed.failed]
    split <;> simp_all

/-- Every row is attempted once, and becomes what it becomes alone, in whatever order. -/
theorem reconcileAll_pointwise (E : Outcomes) (cfg : Config) (force : Bool) (w : World) :
    ∃ alone : Row → Int × Row,
      (∀ r rc r', E.Alone cfg force r rc r' ↔ (rc, r') = alone r) ∧
      (∃ rc v, E.sem.Runs (reconcileAll cfg force) w (.done rc) v) ∧
      ∀ rc v, E.sem.Runs (reconcileAll cfg force) w (.done rc) v →
        Pointwise E force alone w rc v := by
  choose alone is using exists_alone E cfg force
  refine ⟨alone, fun r rc r' => ⟨fun is' => (is r).unique is', ?_⟩,
    exists_run E.fair _ w, fun rc v => pointwise_of_runs is⟩
  intro same
  have own := is r
  rw [← same] at own
  exact own

/-- Two rows of one server. -/
def neighbours : World :=
  ⟨⟨[sampleRow, Row.ofNode neighbour true], by decide, by decide⟩, [], false, false⟩

/-- The address is found for the first of them only. -/
def halfFound : Outcomes where
  listed _ := 1700000200
  now _ _ := 1700000200
  fresh _ _ := some (sample 0).key
  found k _ _ _ := if k = sampleKey then (sample 0).found else ⟨false, .empty⟩
  result _ _ issue _ := (sample 0).result issue.tool
  fails _ _ _ := false
  detected k _ _ _ := by
    split
    · exact (sample 0).detected
    · exact fun failed => by contradiction
  exits _ _ issue _ := (sample 0).exits issue.tool

@[irreducible] def halfPass : Prog Int × World :=
  playFor World.after halfFound.answer 80 (reconcileAll keyless true) neighbours

theorem reconcileAll_pointwise_neighbours : ∃ alone v,
    halfFound.sem.Runs (reconcileAll keyless true) neighbours (.done (-1)) v ∧
      v.table.rows.map (fun r => r.status) = [some statusActive, some statusError] ∧
      Pointwise halfFound true alone neighbours (-1) v := by
  have runs :
      halfFound.sem.Runs (reconcileAll keyless true) neighbours (.done (-1)) halfPass.2 := by
    rw [← Program.eq_done (show halfPass.1.result? = some (-1) by decide +kernel)]
    unfold halfPass
    exact runs_playFor (S := halfFound.sem) halfFound.fair 80 _ _
  obtain ⟨alone, -, -, pointwise⟩ := reconcileAll_pointwise halfFound keyless true neighbours
  exact ⟨alone, _, runs, by decide +kernel, pointwise _ _ runs⟩

end Pass

end Tumgrd
