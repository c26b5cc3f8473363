import Tumgrd.Lifecycle
import Tumgrd.Unix.Directories

/-! `ensure_parent_dir` on a tree of files, and the place where the database is
opened. -/
namespace Tumgrd

open Effect Surroundings Unix

/-- `mkdir`. With `refuses` it may fail although the tree would let it make the
directory: for the lack of a permission, of room, and so on. -/
def Makes (refuses : Prop) (t : Files Name) (path : Str) (made : Made) (t' : Files Name) : Prop :=
  refuses ∧ made = .failed ∧ t' = t ∨
    if path = [] then made = .failed ∧ t' = t
    else match t.mkdir (t.origin path) (hops path) with
      | .blocked => made = .failed ∧ t' = t
      | .existing => made = .exists ∧ t' = t
      | .fresh t'' => made = .created ∧ t' = t''

/-- Of what becomes of the files from the opening of the database on, nothing is said. -/
def diskAnswers (refuses : Prop) (t : Files Name) :
    (q : LifeCall) → LifeResp q → Files Name → Prop
  | .mkdir path, made, t' => Makes refuses t path made t'
  | .uloopInit, _, t' | .setIpdetectFwmark _, _, t' | .signals, _, t' | .installWatchdog, _, t' =>
      t' = t
  | _, _, _ => True

abbrev disk (refuses : Prop) : Surroundings LifeCall LifeResp (Files Name) where
  answers := diskAnswers refuses
  event _ _ := False

/-- What is on the way does not lead to a directory. -/
def Obstructed (t : Files Name) (start : List Name) (path : List (Hop Name)) : Prop :=
  ∃ front place, front <+: path ∧ front ≠ path ∧ t.entry start front = some place ∧
    ¬t.Leads start front

/-- The paths whose parent directory is not ensured in such a tree. Of those that
consist of two slashes and a name the parent directory is the root. -/
def Hopeless (t : Files Name) (path : Str) : Prop :=
  path = [] ∨ pathMax ≤ path.length ∨ parentDir path = ['/'] ∨
    Obstructed t (t.origin path) (hops (parentDir path))

/-- In `v` the parent directory is there, or something else in its place, which has
been there in `t`. -/
def Ensured (t v : Files Name) (path : Str) : Prop :=
  v.Leads (t.origin path) (hops (parentDir path)) ∨
    ∃ place kind, v.entry (t.origin path) (hops (parentDir path)) = some place ∧
      t.kind place = some kind ∧ kind ≠ .directory

/-- Only directories on the path have been made. -/
abbrev Prepares (t v : Files Name) (path : Str) : Prop :=
  Files.Extends (t.origin path) (hops (parentDir path)) t v

abbrev OnDisk {α : Type} (refuses : Prop) (P : Files Name → LifeCall → Prop) (p : Life α)
    (t : Files Name) (Q : α → Files Name → Prop) : Prop :=
  (disk refuses).Correct False P p t Q

variable {refuses : Prop} {t u v : Files Name} {α : Type} {P : Files Name → LifeCall → Prop}
  {Q : α → Files Name → Prop} {start : List Name} {before name rest path : Str}

theorem stable_disk (A : Files Name → Prop) : (disk refuses).Stable A :=
  fun _ _ _ event => event.elim

theorem onDisk_pure {value : α} (post : Q value t) : OnDisk refuses P (pure value) t Q :=
  correct_of_stable (stable_disk (Q value)) post value fun _ h => h

theorem onDisk_call {q : LifeCall} {f : LifeResp q → Life α} (permitted : P t q)
    (rest : ∀ r u, diskAnswers refuses t q r u → OnDisk refuses P (f r) u Q) :
    OnDisk refuses P (lifeCall q >>= f) t Q := by
  refine correct_perform (stable_disk (t = ·)) rfl ?_
  rintro _ rfl
  exact ⟨permitted, False.elim, rest⟩

theorem onDisk_bind {β : Type} {p : Life β} {f : β → Life α} {R : β → Files Name → Prop}
    (first : OnDisk refuses P p t R)
    (rest : ∀ value v, R value v → OnDisk refuses P (f value) v Q) :
    OnDisk refuses P (p >>= f) t Q :=
  (correct_bind f Q).mpr (first.post rest)

theorem origin_of_front {front path : Str} (nonempty : front ≠ []) (on : front <+: path) :
    t.origin front = t.origin path := by
  obtain ⟨rest, rfl⟩ := on
  cases front with
  | nil => contradiction
  | cons c front => rfl

theorem kind_origin (t : Files Name) (path : Str) : t.kind (t.origin path) ≠ none := by
  unfold Files.origin
  split
  · simp [t.root]
  · simp [t.seated]

/-- One `mkdir` where the path is there up to its last name. -/
theorem Makes.cases {made : Made} {whole : Str} (nonempty : whole ≠ [])
    (split : hops whole = hops before ++ hop? name) {place : List Name}
    (there : t.entry (t.origin whole) (hops before) = some place)
    (h : Makes refuses t whole made u) :
    (made ≠ .failed ∧ Files.Extends (t.origin whole) (hops whole) t u ∧
        ∃ q, u.entry (t.origin whole) (hops whole) = some q) ∨
      made = .failed ∧ u = t ∧ (refuses ∨ Obstructed t (t.origin whole) (hops whole)) := by
  rcases h with ⟨refused, rfl, rfl⟩ | h
  · exact .inr ⟨rfl, rfl, .inl refused⟩
  rw [if_neg nonempty] at h
  cases outcome : t.mkdir (t.origin whole) (hops whole) with
  | existing =>
    simp only [outcome] at h
    obtain ⟨rfl, rfl⟩ := h
    exact .inl ⟨by simp, .refl _ _ _, Files.entry_of_existing outcome⟩
  | fresh t' =>
    simp only [outcome] at h
    obtain ⟨rfl, rfl⟩ := h
    exact .inl ⟨by simp, Files.extends_of_fresh outcome⟩
  | blocked =>
    simp only [outcome] at h
    obtain ⟨rfl, rfl⟩ := h
    refine .inr ⟨rfl, rfl, .inr ?_⟩
    have single : ∃ last, hop? name = [last] := by
      by_contra none_
      have nil : hop? name = [] := by
        unfold hop? at none_ ⊢
        split_ifs at none_ ⊢ <;> first | rfl | exact absurd ⟨_, rfl⟩ none_
      rw [split, nil, List.append_nil, Files.mkdir_of_entry there] at outcome
      contradiction
    obtain ⟨last, single⟩ := single
    rw [split, single] at outcome ⊢
    exact ⟨hops before, place, List.prefix_append _ _, by simp, there,
      Files.mkdir_eq_blocked_iff.mp outcome⟩

/-- What is true behind the whole of `_mkdir_p`. -/
structure Laid (refuses : Prop) (start : List Name) (path : List (Hop Name)) (t : Files Name)
    (made : Bool) (v : Files Name) : Prop where
  grown : Files.Extends start path t v
  there : made = true → ∃ place, v.entry start path = some place
  failed : made = false → refuses ∨ Obstructed v start path

theorem Laid.done {path : List (Hop Name)} (grown : Files.Extends start path t v)
    (there : ∃ place, v.entry start path = some place) : Laid refuses start path t true v :=
  ⟨grown, fun _ => there, fun failed => absurd failed.symm Bool.false_ne_true⟩

theorem Laid.stopped {path : List (Hop Name)} (grown : Files.Extends start path t v)
    (why : refuses ∨ Obstructed v start path) : Laid refuses start path t false v :=
  ⟨grown, fun done => absurd done Bool.false_ne_true, fun _ => why⟩

section Fronts

variable {front whole : Str} {paths : List Str}

theorem onDisk_mkdir (permitted : ∀ v path, P v (.mkdir path)) (nonempty : front ≠ [])
    (on : front <+: whole) (hops_on : hops front <+: hops whole)
    (split : hops front = hops before ++ hop? name)
    (so_far : Files.Extends (t.origin whole) (hops whole) t u)
    (there : ∃ place, u.entry (t.origin whole) (hops before) = some place)
    (rest : ∀ v, Files.Extends (t.origin whole) (hops whole) t v →
      (∃ place, v.entry (t.origin whole) (hops front) = some place) →
        OnDisk refuses P (mkdirAll paths) v (Laid refuses (t.origin whole) (hops whole) t)) :
    OnDisk refuses P (mkdirAll (front :: paths)) u
        (Laid refuses (t.origin whole) (hops whole) t) := by
  have origin : u.origin front = t.origin whole := by
    rw [origin_of_front nonempty on]
    unfold Files.origin
    rw [so_far.cwd]
  obtain ⟨place, named⟩ := there
  unfold mkdirAll
  refine onDisk_call (permitted u front) fun made v answered => ?_
  rcases Makes.cases nonempty split (origin ▸ named) answered with
    ⟨done, further, leads⟩ | ⟨rfl, rfl, why⟩
  · rw [origin] at further leads
    have go := rest v (so_far.trans (further.mono hops_on)) leads
    cases made with
    | failed => contradiction
    | _ => exact go
  · refine onDisk_pure (.stopped so_far (why.imp_right ?_))
    rintro ⟨way, place, before, strict, named, other⟩
    rw [origin] at named other
    refine ⟨way, place, before.trans hops_on, ?_, named, other⟩
    rintro rfl
    exact strict (before.eq_of_length (Nat.le_antisymm before.length_le hops_on.length_le))

/-- What is in front of the last slash stands apart from what comes behind it. -/
theorem onDisk_fronts (before name : Str) {rest : Str} (permitted : ∀ v path, P v (.mkdir path))
    (closed : ∀ tail, hops (before ++ tail) = hops before ++ hops tail) (solid : '/' ∉ name)
    (nonempty : before ++ name ≠ []) (whole_eq : whole = before ++ name ++ rest)
    (so_far : Files.Extends (t.origin whole) (hops whole) t u)
    (there : ∃ place, u.entry (t.origin whole) (hops before) = some place) :
    OnDisk refuses P (mkdirAll (slashFronts (before ++ name) rest ++ [whole])) u
      (Laid refuses (t.origin whole) (hops whole) t) := by
  induction rest generalizing before name u with
  | nil =>
    rw [List.append_nil] at whole_eq
    subst whole_eq
    have split : hops (before ++ name) = hops before ++ hop? name := by
      rw [closed, hops_name solid]
    exact onDisk_mkdir permitted nonempty List.prefix_rfl List.prefix_rfl split so_far there
      fun v made there => onDisk_pure (.done made there)
  | cons c rest ih =>
    unfold slashFronts
    split
    · rename_i slash
      subst slash
      have hops_on : hops (before ++ name) <+: hops whole := by
        rw [whole_eq, hops_slash]
        exact List.prefix_append _ _
      have split : hops (before ++ name) = hops before ++ hop? name := by
        rw [closed, hops_name solid]
      refine onDisk_mkdir permitted nonempty (whole_eq ▸ List.prefix_append _ _)
        hops_on split so_far there
        fun v made there => ?_
      have closed' (tail : Str) :
          hops (before ++ name ++ ['/'] ++ tail) = hops (before ++ name ++ ['/']) ++ hops tail := by
        rw [List.append_assoc, List.singleton_append, hops_slash, hops_concat_slash]
      have next :=
        ih (before ++ name ++ ['/']) [] closed' (by simp) (by simp) (by simp [whole_eq]) made
        (by rwa [hops_concat_slash])
      rwa [List.append_nil] at next
    · rename_i other
      have solid' : '/' ∉ name ++ [c] := by
        rw [List.mem_append, List.mem_singleton, not_or]
        exact ⟨solid, fun same => other same.symm⟩
      have next := ih before (name ++ [c]) closed solid' (by simp) (by simp [whole_eq]) so_far there
      rwa [← List.append_assoc] at next

theorem onDisk_mkdirP (permitted : ∀ v path, P v (.mkdir path)) (nonempty : whole ≠ [])
    (root : whole ≠ ['/']) (short : whole.length < pathMax) :
    OnDisk refuses P (mkdirP whole) t (Laid refuses (t.origin whole) (hops whole) t) := by
  have last_slash (slash : whole.getLast? = some '/') :
      whole.dropLast ≠ [] ∧ whole = whole.dropLast ++ ['/'] := by
    have whole_eq := (List.dropLast_append_getLast? '/' slash).symm
    refine ⟨fun blank => root ?_, whole_eq⟩
    rw [whole_eq, blank]
    rfl
  obtain ⟨tmp, tmp_eq, nonempty', on, same⟩ : ∃ tmp,
      (if whole.getLast? = some '/' then whole.dropLast else whole) = tmp ∧ tmp ≠ [] ∧
        tmp <+: whole ∧ hops tmp = hops whole := by
    by_cases slash : whole.getLast? = some '/'
    · obtain ⟨nonempty', whole_eq⟩ := last_slash slash
      refine ⟨whole.dropLast, if_pos slash, nonempty', List.dropLast_prefix _, ?_⟩
      conv => rhs; rw [whole_eq, hops_concat_slash]
    · exact ⟨whole, if_neg slash, nonempty, List.prefix_rfl, rfl⟩
  unfold mkdirP
  rw [if_neg (by rw [not_or, not_le]; exact ⟨nonempty, short⟩)]
  unfold mkdirPaths
  simp only [tmp_eq]
  obtain ⟨c, rest, rfl⟩ := List.exists_cons_of_ne_nil nonempty'
  have origin : t.origin (c :: rest) = t.origin whole := origin_of_front (List.cons_ne_nil _ _) on
  have laid : OnDisk refuses P (mkdirAll (slashFronts [c] rest ++ [c :: rest])) t
      (Laid refuses (t.origin (c :: rest)) (hops (c :: rest)) t) := by
    by_cases slash : c = '/'
    · subst slash
      exact onDisk_fronts ['/'] [] permitted (hops_slash [])
        (by simp) (by simp) rfl (.refl _ _ _) ⟨_, rfl⟩
    · exact onDisk_fronts [] [c] permitted (fun _ => rfl)
        (by simpa using fun same => slash same.symm) (by simp) rfl (.refl _ _ _) ⟨_, rfl⟩
  rwa [origin, same] at laid

end Fronts

/-- Of the root alone nothing is left to make, and there is no empty path. -/
theorem onDisk_mkdirP_root (permitted : ∀ v path, P v (.mkdir path)) :
    OnDisk refuses P (mkdirP ['/']) t fun made v => made = false ∧ v = t := by
  refine onDisk_call (q := .mkdir []) (permitted t []) fun made v answered => ?_
  obtain ⟨rfl, rfl⟩ : made = .failed ∧ v = t := by
    rcases answered with ⟨-, failed⟩ | failed
    · exact failed
    · exact failed
  exact onDisk_pure ⟨rfl, rfl⟩

theorem parentDir_front (path : Str) : parentDir path <+: path :=
  (List.dropLast_prefix _).trans (List.rdropWhile_prefix _ _)

theorem parentDir_of_plain (plain : '/' ∉ path) : parentDir path = [] := by
  have all : path.rdropWhile (· ≠ '/') = [] := by
    rw [List.rdropWhile_eq_nil_iff]
    intro c mem
    simpa using ne_of_mem_of_not_mem mem plain
  rw [parentDir, all]
  rfl

/-- What `ensure_parent_dir` leaves behind. -/
structure Parented (refuses : Prop) (path : Str) (t : Files Name) (made : Bool) (v : Files Name) :
    Prop where
  grown : Prepares t v path
  ensured : made = true → Ensured t v path ∧ ¬Hopeless v path
  failed : made = false → refuses ∨ Hopeless v path

theorem Parented.hopeless (why : Hopeless t path) : Parented refuses path t false t :=
  ⟨.refl _ _ _, fun done => absurd done Bool.false_ne_true, fun _ => .inr why⟩

theorem Laid.parented {made : Bool} (nonempty : path ≠ []) (short : path.length < pathMax)
    (root : parentDir path ≠ ['/'])
    (laid : Laid refuses (t.origin path) (hops (parentDir path)) t made v) :
    Parented refuses path t made v := by
  have origin : v.origin path = t.origin path := by
    unfold Files.origin
    rw [laid.grown.cwd]
  refine ⟨laid.grown, fun done => ?_, fun failed => (laid.failed failed).imp_right ?_⟩
  · obtain ⟨place, named⟩ := laid.there done
    refine ⟨?_, ?_⟩
    · have entered : v.kind place ≠ none :=
        Files.kind_of_entry (kind_origin v path) (origin.symm ▸ named)
      by_cases dir : v.kind place = some .directory
      · exact .inl (Files.leads_of_directory named dir)
      · have same : v.kind place = t.kind place := by
          by_contra changed
          exact dir (laid.grown.new place changed).1
        obtain ⟨kind, there⟩ := Option.ne_none_iff_exists'.mp entered
        refine .inr ⟨place, kind, named, same ▸ there, ?_⟩
        rintro rfl
        exact dir there
    · rintro (blank | long | slashes | ⟨way, there, before, strict, here, other⟩)
      · exact nonempty blank
      · exact Nat.not_le.mpr short long
      · exact root slashes
      · rw [origin] at other
        exact other (Files.leads_of_entry named before strict)
  · exact fun obstructed => .inr (.inr (.inr (origin.symm ▸ obstructed)))

theorem onDisk_ensureParentDir (permitted : ∀ v path, P v (.mkdir path)) (path : Str)
    (t : Files Name) :
    OnDisk refuses P (ensureParentDir path) t (Parented refuses path t) := by
  unfold ensureParentDir
  split
  · rename_i bad
    exact onDisk_pure (.hopeless (bad.imp_right .inl))
  rename_i good
  rw [not_or, not_le] at good
  obtain ⟨nonempty, short⟩ := good
  split
  · rename_i plain
    have none_ : parentDir path = [] := plain.elim parentDir_of_plain id
    refine onDisk_pure (Laid.parented nonempty short (by simp [none_]) (.done (.refl _ _ _) ?_))
    rw [none_]
    exact ⟨_, rfl⟩
  rename_i deep
  rw [not_or] at deep
  by_cases root : parentDir path = ['/']
  · rw [root]
    refine (onDisk_mkdirP_root permitted).post ?_
    rintro _ _ ⟨rfl, rfl⟩
    exact .hopeless (.inr (.inr (.inl root)))
  · have length := (parentDir_front path).length_le
    refine (onDisk_mkdirP permitted deep.2 root (by omega)).post fun made v laid => ?_
    rw [origin_of_front deep.2 (parentDir_front path)] at laid
    exact laid.parented nonempty short root

section Main

/-- Where the database is opened, its directory is ensured. -/
def diskPermits (t v : Files Name) : LifeCall → Prop
  | .sqliteOpen path => Prepares t v path ∧ Ensured t v path
  | _ => True

/-- What is done behind the opening. -/
abbrev Aside {α : Type} (t : Files Name) (p : Life α) : Prop :=
  ∀ v, OnDisk True (diskPermits t) p v fun _ _ => True

theorem aside_pure {value : α} : Aside t (pure value) := fun _ => onDisk_pure trivial

theorem aside_call {q : LifeCall} {f : LifeResp q → Life α} (other : ∀ v, diskPermits t v q)
    (rest : ∀ r, Aside t (f r)) : Aside t (lifeCall q >>= f) :=
  fun v => onDisk_call (other v) fun r u _ => rest r u

theorem aside_bind {β : Type} {p : Life β} {f : β → Life α} (first : Aside t p)
    (rest : ∀ value, Aside t (f value)) : Aside t (p >>= f) :=
  fun v => onDisk_bind (first v) fun value u _ => rest value u

theorem aside_last {q : LifeCall} (other : ∀ v, diskPermits t v q) : Aside t (lifeCall q) :=
  aside_call (f := pure) other fun _ => aside_pure

theorem aside_orNothing {condition : Bool} {p : Life Unit} (aside : Aside t p) :
    Aside t (orNothing condition p) := by
  unfold orNothing
  split
  · exact aside
  · exact aside_pure

theorem aside_ubusCleanup (ctx : Ctx) : Aside t (ubusCleanup ctx) := by
  unfold ubusCleanup
  split
  · exact aside_pure
  · refine aside_bind (aside_orNothing (aside_last fun _ => trivial)) fun _ => ?_
    refine aside_bind (aside_orNothing (aside_last fun _ => trivial)) fun _ => ?_
    iterate 3 refine aside_call (fun _ => trivial) fun _ => ?_
    exact aside_pure

theorem aside_ubusInit (o : Options) (ctx : Ctx) : Aside t (ubusInit o ctx) := by
  unfold ubusInit
  refine aside_call (fun _ => trivial) fun bus => ?_
  cases bus with
  | none => exact aside_pure
  | some ubus =>
    iterate 3 refine aside_call (fun _ => trivial) fun _ => ?_
    split
    · exact aside_bind (aside_ubusCleanup _) fun _ => aside_pure
    · iterate 2 refine aside_call (fun _ => trivial) fun _ => ?_
      exact aside_pure

theorem aside_leave (ctx : Ctx) (dbOpened : Bool) : Aside t (leave ctx dbOpened) := by
  unfold leave
  refine aside_bind (aside_ubusCleanup ctx) fun ctx => ?_
  iterate 2 refine aside_call (fun _ => trivial) fun _ => ?_
  refine aside_bind (aside_orNothing ?_) fun _ => aside_last fun _ => trivial
  unfold dbClose
  split
  · exact aside_pure
  · exact aside_last fun _ => trivial

theorem onDisk_dbOpen (path : Str) :
    OnDisk True (diskPermits t) (dbOpen path) t fun _ _ => True := by
  unfold dbOpen
  refine onDisk_bind (onDisk_ensureParentDir (fun _ _ => trivial) _ t) fun made v parented => ?_
  cases made with
  | false => exact onDisk_pure trivial
  | true =>
    refine onDisk_call ⟨parented.grown, (parented.ensured rfl).1⟩ fun opened u _ => ?_
    cases opened with
    | failed conn =>
      cases conn with
      | none => exact onDisk_pure trivial
      | some conn =>
        refine (show Aside t _ from ?_) u
        exact aside_call (fun _ => trivial) fun _ => aside_pure
    | ok conn =>
      refine (show Aside t _ from ?_) u
      refine aside_call (fun _ => trivial) fun _ => ?_
      iterate 3 refine aside_call (fun _ => trivial) fun _ => ?_
      exact aside_pure

theorem onDisk_serve (o : Options) : OnDisk True (diskPermits t) (serve o) t fun _ _ => True := by
  unfold serve
  refine onDisk_bind (onDisk_dbOpen o.dbPath) fun conn v _ => ?_
  cases conn with
  | none => exact onDisk_pure trivial
  | some conn =>
    refine (show Aside t _ from ?_) v
    refine aside_call (fun _ => trivial) fun rc => ?_
    split
    · exact aside_pure
    refine aside_bind (aside_ubusInit _ _) fun served => ?_
    obtain ⟨err, ctx⟩ := served
    dsimp only
    split
    · exact aside_pure
    · exact aside_call (fun _ => trivial) fun _ => aside_pure

theorem onDisk_main (bits : Nat) (positional : Bool) (opts : List Switch) :
    OnDisk True (diskPermits t) (main bits positional opts) t fun _ _ => True := by
  have gone (ctx : Ctx) (dbOpened ok : Bool) : Aside t (leave ctx dbOpened >>= fun _ => pure ok) :=
    aside_bind (aside_leave ctx dbOpened) fun _ => aside_pure
  unfold main
  split
  · exact onDisk_pure trivial
  · exact gone _ _ _ t
  split
  · exact gone _ _ _ t
  refine onDisk_call trivial ?_
  rintro rc _ rfl
  split
  · exact gone _ _ _ _
  iterate 3
    refine onDisk_call trivial ?_
    rintro _ _ rfl
  refine onDisk_bind (onDisk_serve _) fun served v _ => ?_
  exact gone _ _ _ v

end Main

/-- `ensure_parent_dir` makes directories on the path and changes nothing else. With
success the parent directory is there, or what was there instead of it; without, the path
is hopeless, or some `mkdir` was refused. So where the daemon opens its database, the
directory is there, or what was there instead of it. -/
theorem database_directory :
    (∀ (refuses : Prop) (path : Str) (t : Files Name) (made : Bool) (v : Files Name),
      (disk refuses).Reaches (ensureParentDir path) t (.done made) v →
        Prepares t v path ∧ (made = true → Ensured t v path ∧ ¬Hopeless v path) ∧
          (made = false → refuses ∨ Hopeless v path)) ∧
    ∀ (bits : Nat) (positional : Bool) (opts : List Switch) (t : Files Name) (path : Str)
      (rest : Opened → Life Bool) (v : Files Name),
      (disk True).Reaches (main bits positional opts) t (.call (.sqliteOpen path) rest) v →
        Prepares t v path ∧ Ensured t v path := by
  constructor
  · intro refuses path t made v reach
    have parented := Correct.result
      (onDisk_ensureParentDir (P := fun _ _ => True) (fun _ _ => trivial) path t) reach
    exact ⟨parented.grown, parented.ensured, parented.failed⟩
  · intro bits positional opts t path rest v reach
    exact Correct.permitted (onDisk_main bits positional opts) reach

end Tumgrd
