import Mathlib.Data.List.Infix
import Mathlib.Logic.Function.Basic

/-! Trees of directories and symbolic links, and the paths through them. -/
namespace Unix

inductive Hop (N : Type) where
  | here
  | up
  | down (name : N)
  deriving DecidableEq

/-- A link has a path of its own, from the root or from where the link is. -/
inductive Kind (N : Type) where
  | directory
  | link (absolute : Bool) (path : List (Hop N))
  | other
  deriving DecidableEq

/-- What a process sees of a file system. A place is the names on the way from it up
to the root. On one way at most so many links are followed. -/
@[ext] structure Files (N : Type) where
  kind : List N → Option (Kind N)
  cwd : List N
  links : Nat
  root : kind [] = some .directory
  above : ∀ name place, kind (name :: place) ≠ none → kind place = some .directory
  seated : kind cwd = some .directory

inductive Making (N : Type) where
  | blocked
  | existing
  | fresh (made : Files N)

namespace Files

variable {N : Type} [DecidableEq N] (t : Files N)

/-- What a directory has under a name, be it a link. -/
def hop (place : List N) (h : Hop N) : Option (List N) :=
  if t.kind place ≠ some .directory then none
  else match h with
    | .here => some place
    | .up => some place.tail
    | .down name => if t.kind (name :: place) = none then none else some (name :: place)

/-- Where a link in a directory sends to. -/
def target? (place q : List N) : Option (List N × List (Hop N)) :=
  match t.kind q with
  | some (.link absolute path) => some (if absolute then [] else place, path)
  | _ => none

/-- The way up to the next link, and behind it the way `on`. -/
def follow (on : List N → List (Hop N) → Option (List N × Nat)) (left : Nat) :
    List N → List (Hop N) → Option (List N × Nat)
  | place, [] => some (place, left)
  | place, h :: rest => (t.hop place h).bind fun q =>
      match t.target? place q with
      | none => follow on left q rest
      | some (start, path) => on start (path ++ rest)

/-- Where a path leads to if so many links may be followed, and how many are left. -/
def walk : Nat → List N → List (Hop N) → Option (List N × Nat)
  | 0 => t.follow (fun _ _ => none) 0
  | left + 1 => t.follow (walk left) (left + 1)

/-- A path leads to a directory. -/
def Leads (start : List N) (path : List (Hop N)) : Prop :=
  ∃ place left, t.walk t.links start path = some (place, left) ∧ t.kind place = some .directory

/-- What a path names. A link is not followed if it comes last. -/
def entry (start : List N) (path : List (Hop N)) : Option (List N) :=
  match path.getLast? with
  | none => some start
  | some last => (t.walk t.links start path.dropLast).bind fun r => t.hop r.1 last

/-- The tree with some more directories, all of them on a path. -/
structure Extends (start : List N) (path : List (Hop N)) (t v : Files N) : Prop where
  cwd : v.cwd = t.cwd
  links : v.links = t.links
  kept : ∀ place, t.kind place ≠ none → v.kind place = t.kind place
  new : ∀ place, v.kind place ≠ t.kind place → v.kind place = some .directory ∧
    ∃ front, front <+: path ∧ v.entry start front = some place

variable {t} {u v : Files N} {place p q start : List N} {path front init : List (Hop N)}
  {h last : Hop N} {left left' : Nat} {r : List N × Nat}

theorem walk_nil (left : Nat) (place : List N) : t.walk left place [] = some (place, left) := by
  cases left <;> rfl

theorem walk_cons (left : Nat) (place : List N) (h : Hop N) (path : List (Hop N)) :
    t.walk left place (h :: path) = (t.hop place h).bind fun q =>
      match t.target? place q, left with
      | none, _ => t.walk left q path
      | some _, 0 => none
      | some (start, way), left + 1 => t.walk left start (way ++ path) := by
  cases left with
  | zero =>
    refine Option.bind_congr fun q _ => ?_
    cases t.target? place q <;> rfl
  | succ left =>
    refine Option.bind_congr fun q _ => ?_
    cases t.target? place q <;> rfl

theorem walk_append (left : Nat) (place : List N) (front rest : List (Hop N)) :
    t.walk left place (front ++ rest) =
      (t.walk left place front).bind fun r => t.walk r.2 r.1 rest := by
  induction left generalizing place front with
  | zero =>
    induction front generalizing place with
    | nil => rw [List.nil_append, walk_nil, Option.bind_some]
    | cons h front ih =>
      rw [List.cons_append, walk_cons, walk_cons, Option.bind_assoc]
      refine Option.bind_congr fun q _ => ?_
      cases t.target? place q with
      | none => exact ih q
      | some way => rfl
  | succ left further =>
    induction front generalizing place with
    | nil => rw [List.nil_append, walk_nil, Option.bind_some]
    | cons h front ih =>
      rw [List.cons_append, walk_cons, walk_cons, Option.bind_assoc]
      refine Option.bind_congr fun q _ => ?_
      cases t.target? place q with
      | none => exact ih q
      | some way =>
        dsimp only
        rw [← List.append_assoc]
        exact further _ _

theorem hop_eq_some (step : t.hop place h = some q) : t.kind place = some .directory := by
  unfold hop at step
  split at step
  · contradiction
  · rename_i dir
    exact not_not.mp dir

theorem kind_of_hop (step : t.hop place h = some q) : t.kind q ≠ none := by
  have dir := hop_eq_some step
  unfold hop at step
  rw [if_neg (not_not.mpr dir)] at step
  cases h with
  | here =>
    cases step
    simp [dir]
  | up =>
    cases step
    cases place with
    | nil => simp [dir]
    | cons name place => simp [t.above name place (by simp [dir])]
  | down name =>
    simp only [ite_eq_iff, reduceCtorEq, and_false, false_or] at step
    exact Option.some.inj step.2 ▸ step.1

theorem hop_of_kept (kept : ∀ place, t.kind place ≠ none → v.kind place = t.kind place)
    (step : t.hop place h = some q) : v.hop place h = some q := by
  have dir := hop_eq_some step
  unfold hop at step
  rw [if_neg (not_not.mpr dir)] at step
  have dir' : v.kind place = some .directory := by rw [kept place (by simp [dir]), dir]
  unfold hop
  rw [if_neg (not_not.mpr dir')]
  cases h with
  | down name =>
    simp only [ite_eq_iff, reduceCtorEq, and_false, false_or] at step ⊢
    exact ⟨by rw [kept _ step.1]; exact step.1, step.2⟩
  | _ => exact step

theorem walk_of_kept (kept : ∀ place, t.kind place ≠ none → v.kind place = t.kind place)
    (walks : t.walk left place path = some r) : v.walk left place path = some r := by
  have same {place q : List N} {h : Hop N} (step : t.hop place h = some q) :
      v.target? place q = t.target? place q := by
    rw [target?, target?, kept q (kind_of_hop step)]
  induction left generalizing place path with
  | zero =>
    induction path generalizing place with
    | nil => rwa [walk_nil] at walks ⊢
    | cons h path ih =>
      rw [walk_cons] at walks ⊢
      obtain ⟨q, step, walks⟩ := Option.bind_eq_some_iff.mp walks
      rw [hop_of_kept kept step, Option.bind_some, same step]
      cases link : t.target? place q with
      | none =>
        rw [link] at walks
        exact ih walks
      | some way =>
        rw [link] at walks
        contradiction
  | succ left further =>
    induction path generalizing place with
    | nil => rwa [walk_nil] at walks ⊢
    | cons h path ih =>
      rw [walk_cons] at walks ⊢
      obtain ⟨q, step, walks⟩ := Option.bind_eq_some_iff.mp walks
      rw [hop_of_kept kept step, Option.bind_some, same step]
      cases link : t.target? place q with
      | none =>
        rw [link] at walks
        exact ih walks
      | some way =>
        rw [link] at walks
        exact further walks

@[simp] theorem entry_nil : t.entry start [] = some start := rfl

theorem entry_concat (start : List N) (path : List (Hop N)) (last : Hop N) :
    t.entry start (path ++ [last]) =
      (t.walk t.links start path).bind fun r => t.hop r.1 last := by
  unfold entry
  rw [List.getLast?_concat, List.dropLast_concat]

theorem entry_of_kept (links : v.links = t.links)
    (kept : ∀ place, t.kind place ≠ none → v.kind place = t.kind place)
    (named : t.entry start path = some q) : v.entry start path = some q := by
  rcases List.eq_nil_or_concat' path with rfl | ⟨init, last, rfl⟩
  · exact named
  · rw [entry_concat] at named ⊢
    obtain ⟨⟨p, left⟩, walks, step⟩ := Option.bind_eq_some_iff.mp named
    rw [links, walk_of_kept kept walks]
    exact hop_of_kept kept step

/-- What a path names, it leads to, if that is a directory. -/
theorem leads_of_directory (named : t.entry start path = some q)
    (dir : t.kind q = some .directory) : t.Leads start path := by
  rcases List.eq_nil_or_concat' path with rfl | ⟨init, last, rfl⟩
  · cases named
    exact ⟨_, _, walk_nil _ _, dir⟩
  · rw [entry_concat] at named
    obtain ⟨⟨p, left⟩, walks, step⟩ := Option.bind_eq_some_iff.mp named
    have plain : t.target? p q = none := by rw [target?, dir]
    refine ⟨q, left, ?_, dir⟩
    rw [walk_append, walks, Option.bind_some, walk_cons]
    dsimp only at step ⊢
    rw [step, Option.bind_some, plain]
    exact walk_nil _ _

/-- On the way to what a path names are directories. -/
theorem leads_of_entry (named : t.entry start path = some q) (on : front <+: path)
    (strict : front ≠ path) : t.Leads start front := by
  rcases List.eq_nil_or_concat' path with rfl | ⟨init, last, rfl⟩
  · exact absurd (List.prefix_nil.mp on) strict
  · rw [entry_concat] at named
    obtain ⟨⟨p, left⟩, walks, step⟩ := Option.bind_eq_some_iff.mp named
    obtain ⟨rest, rfl⟩ : front <+: init := by
      rcases List.prefix_concat_iff.mp on with same | before
      · exact absurd same strict
      · exact before
    rw [walk_append] at walks
    obtain ⟨⟨p', left'⟩, first, second⟩ := Option.bind_eq_some_iff.mp walks
    refine ⟨p', left', first, ?_⟩
    cases rest with
    | nil =>
      rw [walk_nil] at second
      cases second
      exact hop_eq_some step
    | cons h rest =>
      rw [walk_cons] at second
      obtain ⟨_, step', -⟩ := Option.bind_eq_some_iff.mp second
      exact hop_eq_some step'

theorem kind_of_entry (there : t.kind start ≠ none) (named : t.entry start path = some q) :
    t.kind q ≠ none := by
  rcases List.eq_nil_or_concat' path with rfl | ⟨init, last, rfl⟩
  · cases named
    exact there
  · rw [entry_concat] at named
    obtain ⟨_, -, step⟩ := Option.bind_eq_some_iff.mp named
    exact kind_of_hop step

theorem Extends.refl (start : List N) (path : List (Hop N)) (t : Files N) :
    Extends start path t t :=
  ⟨rfl, rfl, fun _ _ => rfl, fun _ changed => absurd rfl changed⟩

theorem Extends.mono (extends_ : Extends start front t v) (on : front <+: path) :
    Extends start path t v := by
  refine ⟨extends_.cwd, extends_.links, extends_.kept, fun place changed => ?_⟩
  obtain ⟨dir, way, before, named⟩ := extends_.new place changed
  exact ⟨dir, way, before.trans on, named⟩

theorem Extends.trans (first : Extends start path t u) (second : Extends start path u v) :
    Extends start path t v := by
  refine ⟨second.cwd.trans first.cwd, second.links.trans first.links, fun place there => ?_,
    fun place changed => ?_⟩
  · have same := first.kept place there
    rw [second.kept place (same ▸ there), same]
  · by_cases later : v.kind place = u.kind place
    · obtain ⟨dir, way, before, named⟩ := first.new place (later ▸ changed)
      exact ⟨later.trans dir, way, before, entry_of_kept second.links second.kept named⟩
    · exact second.new place later

/-- A directory below another one. -/
def add (t : Files N) (name : N) (place : List N)
    (h : t.kind place = some .directory) : Files N where
  kind := Function.update t.kind (name :: place) (some .directory)
  cwd := t.cwd
  links := t.links
  root := (Function.update_of_ne (by simp) _ _).trans t.root
  above := by
    intro m p entered
    have dir {q : List N} (h : t.kind q = some .directory) :
        Function.update t.kind (name :: place) (some .directory) q = some .directory := by
      by_cases same : q = name :: place
      · rw [same, Function.update_self]
      · rw [Function.update_of_ne same, h]
    apply dir
    by_cases same : m :: p = name :: place
    · cases same
      exact h
    · rw [Function.update_of_ne same] at entered
      exact t.above m p entered
  seated := by
    by_cases same : t.cwd = name :: place
    · rw [same, Function.update_self]
    · rw [Function.update_of_ne same, t.seated]

/-- `mkdir`, as far as the tree decides. What is there already, it leaves alone, and if
that is a link it does not look where it leads. -/
def mkdir (t : Files N) (start : List N) (path : List (Hop N)) : Making N :=
  match path.getLast? with
  | none => .existing
  | some last =>
      match t.walk t.links start path.dropLast with
      | none => .blocked
      | some (place, _) =>
          if h : t.kind place = some .directory then
            match last with
            | .here | .up => .existing
            | .down name =>
                if t.kind (name :: place) = none then .fresh (t.add name place h) else .existing
          else .blocked

theorem mkdir_concat (start : List N) (path : List (Hop N)) (last : Hop N) :
    t.mkdir start (path ++ [last]) =
      match t.walk t.links start path with
      | none => .blocked
      | some (place, _) =>
          if h : t.kind place = some .directory then
            match last with
            | .here | .up => .existing
            | .down name =>
                if t.kind (name :: place) = none then .fresh (t.add name place h) else .existing
          else .blocked := by
  unfold mkdir
  rw [List.getLast?_concat, List.dropLast_concat]

/-- What is named is there. -/
theorem mkdir_of_entry (named : t.entry start path = some q) :
    t.mkdir start path = .existing := by
  rcases List.eq_nil_or_concat' path with rfl | ⟨init, last, rfl⟩
  · rfl
  · rw [entry_concat] at named
    obtain ⟨⟨p, left⟩, walks, step⟩ := Option.bind_eq_some_iff.mp named
    have dir := hop_eq_some step
    unfold hop at step
    rw [if_neg (not_not.mpr dir)] at step
    rw [mkdir_concat, walks]
    simp only [dif_pos dir]
    cases last with
    | down name =>
      simp only [ite_eq_iff, reduceCtorEq, and_false, false_or] at step
      exact if_neg step.1
    | _ => rfl

/-- Only a path that does not lead to a directory is in the way. -/
theorem mkdir_eq_blocked_iff : t.mkdir start (path ++ [last]) = .blocked ↔
    ¬t.Leads start path := by
  rw [mkdir_concat]
  unfold Leads
  cases walks : t.walk t.links start path with
  | none => simp
  | some r =>
    obtain ⟨p, left⟩ := r
    dsimp only
    by_cases dir : t.kind p = some .directory
    · rw [dif_pos dir]
      refine iff_of_false ?_ fun none_ => none_ ⟨p, left, rfl, dir⟩
      cases last with
      | down name =>
        dsimp only
        split <;> simp
      | _ => simp
    · rw [dif_neg dir]
      refine iff_of_true rfl ?_
      rintro ⟨_, _, ⟨⟩, dir'⟩
      exact dir dir'

theorem entry_of_existing (made : t.mkdir start path = .existing) :
    ∃ q, t.entry start path = some q := by
  rcases List.eq_nil_or_concat' path with rfl | ⟨init, last, rfl⟩
  · exact ⟨start, rfl⟩
  · rw [mkdir_concat] at made
    rw [entry_concat]
    split at made
    · contradiction
    rename_i p left walks
    split at made
    · rename_i dir
      rw [walks, Option.bind_some]
      unfold hop
      rw [if_neg (not_not.mpr dir)]
      cases last with
      | down name =>
        dsimp only at made ⊢
        split at made
        · contradiction
        · rename_i there
          exact ⟨name :: p, if_neg there⟩
      | _ => exact ⟨_, rfl⟩
    · contradiction

/-- A directory that is made is the only change, and the path names it. -/
theorem extends_of_fresh (made : t.mkdir start path = .fresh v) :
    Extends start path t v ∧ ∃ q, v.entry start path = some q := by
  rcases List.eq_nil_or_concat' path with rfl | ⟨init, last, rfl⟩
  · contradiction
  · rw [mkdir_concat] at made
    split at made
    · contradiction
    rename_i p left walks
    split at made
    · rename_i dir
      cases last with
      | down name =>
        dsimp only at made
        split at made
        · rename_i absent
          cases made
          have kept : ∀ q, t.kind q ≠ none → (t.add name p dir).kind q = t.kind q := by
            intro q there
            refine Function.update_of_ne ?_ _ _
            rintro rfl
            exact there absent
          have made : (t.add name p dir).kind (name :: p) = some .directory :=
            Function.update_self _ _ _
          have named :
              (t.add name p dir).entry start (init ++ [.down name]) = some (name :: p) := by
            rw [entry_concat, show (t.add name p dir).links = t.links from rfl,
              walk_of_kept kept walks, Option.bind_some]
            have dir' : (t.add name p dir).kind p = some .directory := by
              rw [kept p (by simp [dir]), dir]
            unfold hop
            rw [if_neg (not_not.mpr dir')]
            dsimp only
            rw [made]
            rfl
          refine ⟨⟨rfl, rfl, kept, fun q changed => ?_⟩, _, named⟩
          have same : q = name :: p := by
            by_contra other
            exact changed (Function.update_of_ne other _ _)
          rw [same]
          exact ⟨made, _, List.prefix_rfl, named⟩
        · contradiction
      | _ => contradiction
    · contradiction

end Files

/-! Paths as text. -/

abbrev Name := List Char

/-- A name between slashes. Between two slashes in a row there is none. -/
def hop? (name : Name) : List (Hop Name) :=
  if name = [] then [] else if name = ['.'] then [.here] else if name = ['.', '.'] then [.up]
  else [.down name]

def hops (path : List Char) : List (Hop Name) := (path.splitOn '/').flatMap hop?

/-- Where a path begins. -/
def Files.origin (t : Files Name) (path : List Char) : List Name :=
  if path.head? = some '/' then [] else t.cwd

theorem hops_slash (front rest : List Char) :
    hops (front ++ '/' :: rest) = hops front ++ hops rest := by
  unfold hops
  rw [List.splitOn_append_cons_self, List.flatMap_append]

theorem hops_name {name : Name} (solid : '/' ∉ name) : hops name = hop? name := by
  unfold hops
  rw [List.splitOn_eq_singleton solid, List.flatMap_singleton]

@[simp] theorem hops_nil : hops [] = [] := rfl

theorem hops_concat_slash (front : List Char) : hops (front ++ ['/']) = hops front := by
  rw [hops_slash, hops_nil, List.append_nil]

end Unix
