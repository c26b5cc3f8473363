import Tumgrd.Registration
import Tumgrd.Scenario

/-! The statements of `db.c` by position: what the upsert binds to its nineteen
columns, and what the two queries read back. -/
namespace Tumgrd

open Effect Semantics

inductive NodeColumn where
  | uid
  | description
  | clientComment
  | createdAt
  | serverHost
  | serverPort
  | psk
  | clientPort
  | memlimit
  | ipCheckUrl
  | ipVersion
  | currentIp
  | lastUpdated
  | status
  | xorKey
  | lifetime
  | lastAppliedAt
  | rotationState
  | xorKeyPending
  deriving DecidableEq

/-- A value of SQLite. -/
inductive Cell where
  | null
  | integer (i : Int)
  | text (s : Str)
  deriving DecidableEq

/-- The integer that a text starts with. -/
def leadingInt (s : Str) : Int :=
  match s.dropWhile isSpace with
  | '-' :: digits => -Nat.ofDigitChars 10 (digits.takeWhile Char.isDigit) 0
  | '+' :: digits => Nat.ofDigitChars 10 (digits.takeWhile Char.isDigit) 0
  | digits => Nat.ofDigitChars 10 (digits.takeWhile Char.isDigit) 0

namespace Cell

variable {n : Nat}

/-- `bind_required_text`. -/
def required (b : Buf n) : Cell := .text b.text

/-- `bind_text_or_null`. -/
def textOrNull (b : Buf n) : Cell := if b.text = [] then .null else .text b.text

/-- `column_text`; SQLite writes an integer out. -/
def columnText [NeZero n] : Cell → Buf n
  | .null => .empty
  | .text s => .copy s
  | .integer i => .copy (decimal i)

/-- `sqlite3_column_int64`, and `sqlite3_column_int` of what was bound as an `int`. -/
def columnInt : Cell → Int
  | .null => 0
  | .integer i => i
  | .text s => leadingInt s

end Cell

/-- The columns of the `INSERT`. -/
def upsertColumns : List NodeColumn :=
  [.uid, .description, .clientComment, .createdAt, .serverHost, .serverPort, .psk, .clientPort,
    .memlimit, .ipCheckUrl, .ipVersion, .currentIp, .lastUpdated, .status, .xorKey, .lifetime,
    .lastAppliedAt, .rotationState, .xorKeyPending]

/-- What `tumgrd_db_upsert_node` binds to its parameters, from the first on. -/
def upsertBinds (n : Node) (setLifetime : Bool) : List Cell :=
  [.required n.uid, .textOrNull n.description, .textOrNull n.clientComment, .integer n.createdAt,
    .required n.serverHost, .integer n.serverPort, .required n.psk, .integer n.clientPort,
    if n.hasMemlimit then .integer n.memlimit else .null, .textOrNull n.ipCheckUrl,
    .required n.ipVersion, .textOrNull n.currentIp, .integer n.lastUpdated, .textOrNull n.status,
    .textOrNull n.xorKey, if setLifetime then .integer n.lifetime else .null,
    .integer n.lastAppliedAt, .integer n.rotationState.toInt, .textOrNull n.xorKeyPending]

/-- The columns of the query of `tumgrd_db_get_node`. -/
def getColumns : List NodeColumn :=
  [.uid, .description, .clientComment, .createdAt, .serverHost, .serverPort, .psk, .clientPort,
    .memlimit, .ipCheckUrl, .ipVersion, .currentIp, .lastUpdated, .status, .xorKey, .lifetime,
    .lastAppliedAt, .rotationState, .xorKeyPending]

/-- The columns of the query of `tumgrd_db_list_nodes`. -/
def listColumns : List NodeColumn :=
  [.uid, .description, .clientComment, .createdAt, .serverHost, .serverPort, .psk, .clientPort,
    .memlimit, .ipCheckUrl, .ipVersion, .currentIp, .lastUpdated, .status, .xorKey, .lifetime,
    .lastAppliedAt, .rotationState, .xorKeyPending]

/-- The `WHERE` clause of the keyed statements, and what is bound to it. -/
def keyColumns : List NodeColumn := [.serverHost, .serverPort, .uid, .ipVersion]

def keyBinds (k : Key) : List Cell :=
  [.text k.serverHost, .integer k.serverPort, .text k.uid, .text k.ipVersion]

/-- The columns that `DO UPDATE SET` takes over from the refused row. -/
def conflictColumns : List NodeColumn :=
  [.description, .clientComment, .createdAt, .psk, .clientPort, .memlimit, .ipCheckUrl, .currentIp,
    .lastUpdated, .status]

/-- A row of the table, before anything is known about its values. -/
abbrev Cells := NodeColumn → Cell

/-- `INSERT INTO nodes (columns) VALUES (binds)`. -/
def insertCells (columns : List NodeColumn) (binds : List Cell) : Cells := fun column =>
  ((columns.zip binds).lookup column).getD .null

/-- The row that `DO UPDATE SET` leaves. -/
def mergeCells (old excluded : Cells) : Cells := fun column =>
  if column ∈ conflictColumns then excluded column
  else if column = .lifetime then
    if excluded .lifetime = .null then old .lifetime else excluded .lifetime
  else if column = .xorKey then
    if (old .rotationState).columnInt ≠ 0 then old .xorKey else excluded .xorKey
  else old column

/-- `row_to_node`, by the positions of the columns. -/
def rowToNodeAt (now : Int) (columns : List Cell) : Node :=
  let column (i : Nat) : Cell := columns.getD i .null
  let lifetime := (column 15).columnInt
  let lastAppliedAt := (column 16).columnInt
  { uid := (column 0).columnText
    description := (column 1).columnText
    clientComment := (column 2).columnText
    createdAt := (column 3).columnInt
    serverHost := (column 4).columnText
    serverPort := (column 5).columnInt
    psk := (column 6).columnText
    clientPort := (column 7).columnInt
    hasMemlimit := column 8 ≠ .null
    memlimit := if column 8 ≠ .null then (column 8).columnInt else 0
    ipCheckUrl := (column 9).columnText
    ipVersion := (column 10).columnText
    currentIp := (column 11).columnText
    lastUpdated := (column 12).columnInt
    status := (column 13).columnText
    xorKey := (column 14).columnText
    lifetime :=
      if lifetime ≠ 0 ∧ (lifetime < lifetimeMin ∨ lifetime > lifetimeMax) then 0 else lifetime
    lastAppliedAt :=
      if lastAppliedAt < 0 then 0 else if lastAppliedAt > now + 86400 then 1 else lastAppliedAt
    rotationState := Int32.ofInt (column 17).columnInt
    xorKeyPending := (column 18).columnText }

section Cells

variable {n : Node} {r : Row} {k : Key}

def Cell.ofText {n : Nat} : Option (Buf n) → Cell
  | none => .null
  | some b => .text b.text

def Cell.ofInteger : Option Int → Cell
  | none => .null
  | some i => .integer i

/-- The values of a row whose texts fit their fields. -/
def Row.cells (r : Row) : Cells
  | .uid => .text r.uid.text
  | .description => .ofText r.description
  | .clientComment => .ofText r.clientComment
  | .createdAt => .integer r.createdAt
  | .serverHost => .text r.serverHost.text
  | .serverPort => .integer r.serverPort
  | .psk => .text r.psk.text
  | .clientPort => .integer r.clientPort
  | .memlimit => .ofInteger r.memlimit
  | .ipCheckUrl => .ofText r.ipCheckUrl
  | .ipVersion => .text r.ipVersion.text
  | .currentIp => .ofText r.currentIp
  | .lastUpdated => .integer r.lastUpdated
  | .status => .ofText r.status
  | .xorKey => .ofText r.xorKey
  | .lifetime => .ofInteger r.lifetime
  | .lastAppliedAt => .integer r.lastAppliedAt
  | .rotationState => .integer r.rotationState.toInt
  | .xorKeyPending => .ofText r.xorKeyPending

theorem textOrNull_eq {n : Nat} (b : Buf n) : Cell.textOrNull b = .ofText (bindTextOrNull b) := by
  unfold Cell.textOrNull bindTextOrNull
  split <;> rfl

/-- Every value is bound to its own column. -/
theorem insertCells_upsert (n : Node) (setLifetime : Bool) :
    insertCells upsertColumns (upsertBinds n setLifetime) = (Row.ofNode n setLifetime).cells := by
  funext column
  cases column
  case memlimit =>
    change (if n.hasMemlimit = true then Cell.integer n.memlimit else .null) =
      .ofInteger (if n.hasMemlimit = true then some n.memlimit else none)
    split <;> rfl
  case lifetime => cases setLifetime <;> rfl
  all_goals first | rfl | exact textOrNull_eq _

theorem columnText_text {n : Nat} [NeZero n] (b : Buf n) : (Cell.text b.text).columnText = b :=
  Buf.copy_text b

theorem columnText_ofText {n : Nat} [NeZero n] (column : Option (Buf n)) :
    (Cell.ofText column).columnText = columnText column := by
  cases column with
  | none => rfl
  | some b => exact Buf.copy_text b

theorem columnInt_ofInteger (column : Option Int) :
    (Cell.ofInteger column).columnInt = column.getD 0 := by
  cases column <;> rfl

/-- Every field is read from its own column. -/
theorem rowToNodeAt_get (r : Row) (now : Int) :
    rowToNodeAt now (getColumns.map r.cells) = r.toNode now := by
  have given : (Cell.ofInteger r.memlimit ≠ .null) = (r.memlimit.isSome = true) := by
    cases r.memlimit <;> simp [Cell.ofInteger]
  have value : (if r.memlimit.isSome = true then r.memlimit.getD 0 else 0) = r.memlimit.getD 0 := by
    cases r.memlimit <;> rfl
  simp only [rowToNodeAt, getColumns, List.map_cons, List.getD_cons_zero, List.getD_cons_succ,
    Row.cells, columnText_text, columnText_ofText, columnInt_ofInteger, given, value, Row.toNode]
  simp [Cell.columnInt, clampLifetime, clampAppliedAt]

theorem rowToNodeAt_list (r : Row) (now : Int) :
    rowToNodeAt now (listColumns.map r.cells) = r.toNode now :=
  rowToNodeAt_get r now

/-- The `WHERE` clause holds of the row with the key. -/
theorem keyBinds_iff (r : Row) (k : Key) : keyColumns.map r.cells = keyBinds k ↔ r.key = k := by
  cases k
  simp [keyColumns, keyBinds, Row.cells, Row.key]

/-- `DO UPDATE SET` writes every column but those of the key and of the rotation. -/
theorem mergeCells_cells (r excluded : Row) :
    mergeCells r.cells excluded.cells = (r.merge excluded).cells := by
  funext column
  cases column
  case lifetime =>
    change (if Cell.ofInteger excluded.lifetime = .null then Cell.ofInteger r.lifetime
      else Cell.ofInteger excluded.lifetime) = Cell.ofInteger (excluded.lifetime.or r.lifetime)
    cases excluded.lifetime <;> rfl
  case xorKey =>
    change (if r.rotationState.toInt ≠ 0 then Cell.ofText r.xorKey
      else Cell.ofText excluded.xorKey) =
      Cell.ofText (if r.rotationState ≠ 0 then r.xorKey else excluded.xorKey)
    have same : r.rotationState.toInt ≠ 0 ↔ r.rotationState ≠ 0 :=
      not_congr (@Int32.toInt_inj r.rotationState 0)
    simp only [same]
    split <;> rfl
  all_goals rfl

end Cells

section Reading

variable {n : Node} {w v : World} {setLifetime : Bool} {createdAt lastUpdated now : Int}

/-- A time of zero is replaced by the clock. -/
def World.Clocks (w v : World) (t now : Int) : Prop :=
  if t = 0 then w.Did v ⟨.time, now⟩ else now = t

/-- The node with what the statements make of its fields, at the times they read. -/
def Node.readBack (n : Node) (setLifetime : Bool) (createdAt lastUpdated now : Int) : Node :=
  { n with
    createdAt
    lastUpdated
    ipCheckUrl := if n.ipCheckUrl.text = [] then defaultIpCheckUrl else n.ipCheckUrl
    status := if n.status.text = [] then statusActive else n.status
    memlimit := if n.hasMemlimit then n.memlimit else 0
    lifetime := if setLifetime then clampLifetime n.lifetime else 0
    lastAppliedAt := clampAppliedAt now n.lastAppliedAt }

theorem toNode_ofNode (n : Node) (setLifetime : Bool) (createdAt lastUpdated now : Int) :
    (Row.ofNode (n.withDefaults createdAt lastUpdated) setLifetime).toNode now =
      n.readBack setLifetime createdAt lastUpdated now := by
  cases limited : n.hasMemlimit <;> cases setLifetime <;>
    simp [Row.toNode, Row.ofNode, Node.withDefaults, Node.readBack, limited, clampLifetime]

theorem clocks_of_runs {t : Int} (runs : (sem False).Runs (timeIfZero t) w (.done now) v) :
    w.Keeps v ∧ w.Clocks v t now := by
  unfold timeIfZero at runs
  unfold World.Clocks
  split at runs
  · rename_i zero
    obtain ⟨-, rfl⟩ := runs_perform runs
    rw [if_pos zero]
    exact ⟨World.keeps_after (q := .time) rfl now, [_], rfl, List.mem_singleton_self _⟩
  · rename_i given
    obtain ⟨rfl, rfl⟩ := runs_pure runs
    rw [if_neg given]
    exact ⟨.refl _, rfl⟩

/-- The upsert stores the node, and the query for its key reads it back. -/
def ReadsBack (w : World) (n : Node) (setLifetime : Bool) : Prop :=
  ∀ rc v, (sem False).Runs (dbUpsertNode n setLifetime) w (.done rc) v →
    rc = 0 ∧ ∃ createdAt lastUpdated, w.Clocks v n.createdAt createdAt ∧
      w.Clocks v n.lastUpdated lastUpdated ∧
      ∀ lookup v', (sem False).Runs (dbGetNode n.key) v (.done lookup) v' →
        ∃ now, (n.lastAppliedAt < 0 ∨ v.Did v' ⟨.time, now⟩) ∧
          lookup = .found (n.readBack setLifetime createdAt lastUpdated now) ∧
          lookup = .found (rowToNodeAt now (getColumns.map (insertCells upsertColumns
            (upsertBinds (n.withDefaults createdAt lastUpdated) setLifetime))))

theorem World.Clocks.within {u u' : World} {t : Int} (h : u.Clocks u' t now)
    (before : w.trace <:+ u.trace) (after : u'.trace <:+ v.trace) : w.Clocks v t now := by
  unfold World.Clocks at h ⊢
  split
  · rename_i zero
    rw [if_pos zero] at h
    exact (h.later after).earlier before
  · rename_i given
    rwa [if_neg given] at h

/-- A row that was found was loaded at a clock reading since. -/
theorem found_of_runs {r : Row} {lookup : Lookup} {k : Key} (stored : w.table.find? k = some r)
    (runs : (sem False).Runs (dbGetNode k) w (.done lookup) v) :
    ∃ n, lookup = .found n ∧ Loaded w v r n := by
  have safe : (sem False).Safe (fun _ _ => True) (dbGetNode k) w
      fun lookup v => ∃ n, lookup = .found n ∧ Loaded w v r n := by
    simp only [dbGetNode, safe_bind, safe_sql, Stmt.Replies, true_and, stored]
    refine ⟨?_, False.elim⟩
    rintro reply rfl
    simp only [Option.toList_some, safe_bind, safe_pure]
    refine safe_rowToNode (fun _ _ _ => trivial) (List.suffix_cons _ _) fun n _ _ loaded => ?_
    exact ⟨n, rfl, loaded⟩
  exact safe.result runs

theorem readsBack_of_free (absent : w.table.find? n.key = none)
    (free : ∀ r ∈ w.table.rows, r.slot ≠ (Row.ofNode n setLifetime).slot) :
    ReadsBack w n setLifetime := by
  intro rc v runs
  obtain ⟨createdAt, u₁, first, runs⟩ := runs_bind runs
  obtain ⟨lastUpdated, u, second, runs⟩ := runs_bind runs
  obtain ⟨reply, v', statement, runs⟩ := runs_bind runs
  obtain ⟨keeps₁, created⟩ := clocks_of_runs first
  obtain ⟨keeps₂, updated⟩ := clocks_of_runs second
  obtain ⟨replied, rfl⟩ := runs_perform statement
  have keeps := keeps₁.trans keeps₂
  let new := Row.ofNode (n.withDefaults createdAt lastUpdated) setLifetime
  have untaken : ¬u.table.Taken new := by
    rw [keeps.table]
    rintro ⟨r, mem, -, same⟩
    exact free r mem same
  have answered : reply = .ok [] 1 := by
    rcases replied with replied | ⟨impossible, -⟩
    · have branches : reply = if u.table.Taken new then .error else .ok [] 1 := replied
      rw [branches, if_neg untaken]
    · exact impossible.elim
  subst answered
  obtain ⟨rfl, rfl⟩ := runs_pure runs
  obtain ⟨t, put⟩ := Option.ne_none_iff_exists'.mp
    (mt Keyed.put?_eq_none.mp untaken :
      u.table.put? Row.merge Row.key_merge Row.slot_merge new ≠ none)
  have stored :
    (u.after (upsertOf n createdAt lastUpdated setLifetime) (.ok [] 1)).table.find? n.key =
      some new := by
    rw [World.table_after_ok]
    change Keyed.find? (Option.getD (u.table.put? _ _ _ new) _) _ = _
    rw [put, Option.getD_some]
    have self := Keyed.find?_put_self put
    rw [keeps.table, show w.table.find? new.key = none from absent] at self
    exact self
  have later :
      u.trace <:+ (u.after (upsertOf n createdAt lastUpdated setLifetime) (.ok [] 1)).trace :=
    List.suffix_cons _ _
  refine ⟨rfl, createdAt, lastUpdated,
    created.within (List.suffix_refl _) (keeps₂.trace.trans later),
    updated.within keeps₁.trace later, fun lookup v' get => ?_⟩
  obtain ⟨m, rfl, now, rfl, clock⟩ := found_of_runs stored get
  refine ⟨now, clock, ?_, ?_⟩
  · rw [toNode_ofNode]
  · rw [insertCells_upsert, rowToNodeAt_get]

/-- `ORDER BY server_host, server_port, uid`, of what was read. -/
def Node.listedBefore (n m : Node) : Prop :=
  n.serverHost.text < m.serverHost.text ∨ n.serverHost = m.serverHost ∧
    (n.serverPort < m.serverPort ∨ n.serverPort = m.serverPort ∧ n.uid.text ≤ m.uid.text)

/-- All clock readings in between are the same. -/
def World.Still (w v : World) (t : Int) : Prop := ∀ now, w.Did v ⟨.time, now⟩ → now = t

/-- The list has one element for every row, in the order of the query, and each is
what a query for its key returns as long as the clock stands still. -/
def ListsAll (w : World) : Prop :=
  ∀ result v, (sem False).Runs dbListNodes w (.done result) v →
    ∃ nodes, result = some nodes ∧ (nodes.map Node.key).Perm (w.table.rows.map Row.key) ∧
      nodes.Pairwise Node.listedBefore ∧
      ∀ n ∈ nodes, ∃ r, w.table.find? n.key = some r ∧
        (∃ now, (r.lastAppliedAt < 0 ∨ w.Did v ⟨.time, now⟩) ∧
          n = rowToNodeAt now (listColumns.map r.cells)) ∧
        ∀ t, w.Still v t → ∀ u lookup u', u.table = w.table →
          (sem False).Runs (dbGetNode n.key) u (.done lookup) u' → u.Still u' t →
            lookup = .found n

/-- A row is read alike at one clock reading. -/
theorem Loaded.eq {u u' : World} {r : Row} {m : Node} {t : Int} (h : Loaded w v r n)
    (h' : Loaded u u' r m) (still : w.Still v t) (still' : u.Still u' t) : n = m := by
  obtain ⟨load, rfl, negative | clock⟩ := h
  · obtain ⟨load', rfl, -⟩ := h'
    simp [Row.toNode, clampAppliedAt, negative]
  · obtain ⟨load', rfl, negative | clock'⟩ := h'
    · simp [Row.toNode, clampAppliedAt, negative]
    · rw [still load clock, still' load' clock']

theorem pairwise_of_loaded {rows : List Row} {nodes : List Node}
    (sorted : rows.Pairwise Row.listedBefore)
    (loaded : List.Forall₂ (Loaded w v) rows nodes) : nodes.Pairwise Node.listedBefore := by
  induction loaded with
  | nil => exact .nil
  | @cons r n rows nodes own others ih =>
    obtain ⟨first, sorted⟩ := List.pairwise_cons.mp sorted
    refine List.pairwise_cons.mpr ⟨fun m mem => ?_, ih sorted⟩
    obtain ⟨s, hs, other⟩ := row_of_loaded others mem
    obtain ⟨load, rfl, -⟩ := own
    obtain ⟨load', rfl, -⟩ := other
    exact first s hs

theorem listsAll (w : World) : ListsAll w := by
  intro result v runs
  have safe : (sem False).Safe (fun _ _ => True) dbListNodes w fun result v =>
      ∃ rows nodes, result = some nodes ∧ rows.Perm w.table.rows ∧
        rows.Pairwise Row.listedBefore ∧
        List.Forall₂ (Loaded w v) rows nodes :=
    safe_listRows (fun _ _ _ => trivial)
      (fun rows nodes _ _ perm sorted loaded =>
        ⟨rows, nodes, rfl, perm, sorted, loaded⟩) False.elim
  obtain ⟨rows, nodes, rfl, perm, sorted, loaded⟩ := safe.result runs
  refine ⟨nodes, rfl, ?_, pairwise_of_loaded sorted loaded, fun n mem => ?_⟩
  · rw [keys_of_loaded loaded]
    exact perm.map Row.key
  · obtain ⟨r, hr, own⟩ := row_of_loaded loaded mem
    have stored : w.table.find? n.key = some r := by
      rw [own.key]
      exact Keyed.mem_rows.mp (perm.mem_iff.mp hr)
    refine ⟨r, stored, ?_, fun t still u lookup u' table get still' => ?_⟩
    · obtain ⟨load, rfl, clock⟩ := own
      exact ⟨load, clock, (rowToNodeAt_list r load).symm⟩
    · obtain ⟨m, rfl, loaded'⟩ := found_of_runs (table ▸ stored) get
      rw [own.eq loaded' still still']

/-- A node that is stored is read back, and all nodes are listed as they are read. -/
theorem nodes_read_back (absent : w.table.find? n.key = none)
    (free : ∀ r ∈ w.table.rows, r.slot ≠ (Row.ofNode n setLifetime).slot) :
    ReadsBack w n setLifetime ∧ ∀ w, ListsAll w :=
  ⟨readsBack_of_free absent free, listsAll⟩

/-- The same server, another name and port. -/
def neighbour : Node :=
  { sampleNode 0 1700000000 with uid := .copy "other".toList, clientPort := 5001 }

theorem nodes_read_back_sample :
    ReadsBack (.ofRow sampleRow) neighbour false ∧ ∀ w, ListsAll w :=
  nodes_read_back (by decide) (by decide)

end Reading

end Tumgrd
