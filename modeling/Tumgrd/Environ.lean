import Mathlib.Algebra.Ring.Int.Defs
import Tumgrd.Text

/-! The environment `exec_with_stdio` builds for the child: that of the parent with
the variable for the memory limit replaced. An environment is the list of its
entries, up to the NULL. -/
namespace Tumgrd

def memlimitEnv : Str := "TUTUICMPTUNNEL_PWHASH_MEMLIMIT".toList
def memlimitEnvEq : Str := memlimitEnv ++ "=".toList

/-- The slots of `envp_storage`. -/
abbrev Slots := List (Option Str)

/-- A store; there is none outside of the slots. -/
def Slots.store (slots : Slots) (i : Nat) (entry : Option Str) : Option Slots :=
  if i < slots.length then some (slots.set i entry) else none

/-- `(unsigned int) memlimit`, in decimal. -/
def memlimitText (memlimit : Int) : Str := decimal (memlimit % 2 ^ 32)

/-- `memlimit_str`, which has 64 bytes. -/
def memlimitStr (memlimit : Int) : Buf 64 := .copy (memlimitEnvEq ++ memlimitText memlimit)

/-- The loop over the parent's entries, with the next free slot. -/
def copyEntries : List Str → Slots → Nat → Option (Slots × Nat)
  | [], slots, out => some (slots, out)
  | entry :: rest, slots, out =>
      if memlimitEnvEq.isPrefixOf entry then copyEntries rest slots out
      else do
        let slots ← slots.store out (some entry)
        copyEntries rest slots (out + 1)

def buildEnvp (environ : List Str) (memlimit : Int) : Option Slots := do
  let storage : Slots := List.replicate (environ.length + 2) none
  let (storage, out) ← copyEntries environ storage 0
  let storage ← storage.store out (some (memlimitStr memlimit).text)
  storage.store (out + 1) none

def childEnvp (environ : List Str) (memlimit : Option Int) : Option Slots :=
  match memlimit with
  | none => some (environ.map some ++ [none])
  | some memlimit => buildEnvp environ memlimit

section Entries

/-- The name of an entry; a text without `=` has none. -/
def entryName (entry : Str) : Option Str :=
  if '=' ∈ entry then some (entry.takeWhile (· ≠ '=')) else none

def entryValue (entry : Str) : Str := (entry.dropWhile (· ≠ '=')).drop 1

/-- `getenv`: the first entry of the name counts. -/
def getenv (environ : List Str) (name : Str) : Option Str :=
  (environ.find? fun entry => entryName entry = some name).map entryValue

theorem entryName_append {name : Str} (plain : '=' ∉ name) (value : Str) :
    entryName (name ++ '=' :: value) = some name := by
  unfold entryName
  rw [if_pos (by simp), List.takeWhile_append_of_pos]
  · simp
  · intro c hc
    simp only [ne_eq, decide_not, Bool.not_eq_true', decide_eq_false_iff_not]
    rintro rfl
    exact plain hc

theorem entryValue_append {name : Str} (plain : '=' ∉ name) (value : Str) :
    entryValue (name ++ '=' :: value) = value := by
  unfold entryValue
  rw [List.dropWhile_append_of_pos]
  · simp
  · intro c hc
    simp only [ne_eq, decide_not, Bool.not_eq_true', decide_eq_false_iff_not]
    rintro rfl
    exact plain hc

theorem eq_of_entryName {entry name : Str} (h : entryName entry = some name) :
    entry = name ++ '=' :: entryValue entry := by
  unfold entryName at h
  split at h
  · rename_i some
    cases h
    have stopped : entry.dropWhile (· ≠ '=') ≠ [] := by
      intro all
      have := List.dropWhile_eq_nil_iff.mp all _ some
      simp at this
    obtain ⟨c, rest, hrest⟩ := List.exists_cons_of_ne_nil stopped
    have eq : c = '=' := by
      have := List.head?_dropWhile_not (· ≠ '=') entry
      rw [hrest] at this
      simpa using this
    have whole := List.takeWhile_append_dropWhile (p := (· ≠ '=')) (l := entry)
    rw [hrest, eq] at whole
    unfold entryValue
    rw [hrest]
    exact whole.symm
  · contradiction

theorem plain_memlimitEnv : '=' ∉ memlimitEnv := by decide

/-- `strncmp` with the name and the `=` finds the entries of that name. -/
theorem isPrefixOf_memlimitEnvEq (entry : Str) :
    memlimitEnvEq.isPrefixOf entry = decide (entryName entry = some memlimitEnv) := by
  rw [Bool.eq_iff_iff, List.isPrefixOf_iff_prefix, decide_eq_true_iff]
  constructor
  · rintro ⟨value, rfl⟩
    rw [memlimitEnvEq, List.append_assoc]
    exact entryName_append plain_memlimitEnv value
  · intro named
    refine ⟨entryValue entry, ?_⟩
    rw [memlimitEnvEq, List.append_assoc]
    exact (eq_of_entryName named).symm

end Entries

section Storage

/-- The slots behind some stores, in the order of the slots. -/
def filled (size : Nat) (entries : List Str) : Slots :=
  entries.map some ++ List.replicate (size - entries.length) none

theorem length_filled {size : Nat} {entries : List Str} (fits : entries.length ≤ size) :
    (filled size entries).length = size := by
  simp only [filled, List.length_append, List.length_map, List.length_replicate]
  omega

/-- The slots with the first free one in front of the others. -/
theorem filled_of_room {size : Nat} {entries : List Str} (room : entries.length < size) :
    filled size entries =
      entries.map some ++ none :: List.replicate (size - entries.length - 1) none := by
  obtain ⟨rest, hrest⟩ : ∃ rest, size - entries.length = rest + 1 :=
    ⟨size - entries.length - 1, by omega⟩
  rw [filled, hrest, List.replicate_succ, Nat.add_sub_cancel]

theorem store_room {size : Nat} {entries : List Str} (room : entries.length < size)
    (entry : Option Str) :
    (filled size entries).store entries.length entry =
      some (entries.map some ++ entry :: List.replicate (size - entries.length - 1) none) := by
  unfold Slots.store
  rw [if_pos (by rw [length_filled room.le]; exact room), filled_of_room room,
    List.set_append_right _ _ (by simp), List.length_map, Nat.sub_self, List.set_cons_zero]

theorem store_filled {size : Nat} {entries : List Str} (room : entries.length < size)
    (entry : Str) :
    (filled size entries).store entries.length (some entry) =
      some (filled size (entries ++ [entry])) := by
  have left : size - (entries ++ [entry]).length = size - entries.length - 1 := by
    rw [List.length_append, List.length_singleton]
    omega
  rw [store_room room, filled, left]
  simp

theorem store_null {size : Nat} {entries : List Str} (room : entries.length < size) :
    (filled size entries).store entries.length none = some (filled size entries) := by
  rw [store_room room, ← filled_of_room room]

/-- The entries of the parent that the loop keeps. -/
def keptEntries (environ : List Str) : List Str :=
  environ.filter fun entry => entryName entry ≠ some memlimitEnv

theorem length_keptEntries (environ : List Str) : (keptEntries environ).length ≤ environ.length :=
  List.length_filter_le _ _

theorem keptEntries_cons (entry : Str) (rest : List Str) :
    keptEntries (entry :: rest) =
      if entryName entry = some memlimitEnv then keptEntries rest
      else entry :: keptEntries rest := by
  unfold keptEntries
  rw [List.filter_cons]
  split <;> simp_all

theorem copyEntries_filled {size : Nat} (environ done : List Str)
    (fits : done.length + environ.length ≤ size) :
    copyEntries environ (filled size done) done.length =
      some (filled size (done ++ keptEntries environ), (done ++ keptEntries environ).length) := by
  induction environ generalizing done with
  | nil =>
    rw [keptEntries, List.filter_nil, List.append_nil]
    rfl
  | cons entry rest ih =>
    rw [List.length_cons] at fits
    unfold copyEntries
    rw [isPrefixOf_memlimitEnvEq]
    by_cases named : entryName entry = some memlimitEnv
    · rw [if_pos (by simpa using named), keptEntries_cons, if_pos named]
      exact ih done (by omega)
    · have room : done.length < size := by omega
      have counted : done.length + 1 = (done ++ [entry]).length := by simp
      rw [if_neg (by simpa using named), keptEntries_cons, if_neg named, store_filled room, counted]
      have more := ih (done ++ [entry]) (by rw [← counted]; omega)
      rw [List.append_assoc, List.singleton_append] at more
      exact more

theorem length_memlimitText (memlimit : Int) : (memlimitText memlimit).length ≤ 10 := by
  have low : 0 ≤ memlimit % 2 ^ 32 := Int.emod_nonneg _ (by decide)
  have high : memlimit % 2 ^ 32 < 2 ^ 32 := Int.emod_lt_of_pos _ (by decide)
  unfold memlimitText decimal
  rw [if_neg (by omega), Nat.length_toDigits_le_iff (by decide) (by decide)]
  omega

/-- `memlimit_str` is never cut. -/
theorem text_memlimitStr (memlimit : Int) :
    (memlimitStr memlimit).text = memlimitEnv ++ '=' :: memlimitText memlimit := by
  have short := length_memlimitText memlimit
  have name : memlimitEnvEq.length = 31 := by decide
  rw [memlimitStr, Buf.text_copy_of_fits (by rw [List.length_append]; omega), memlimitEnvEq,
    List.append_assoc]
  rfl

theorem buildEnvp_eq (environ : List Str) (memlimit : Int) :
    buildEnvp environ memlimit =
      some (filled (environ.length + 2)
        (keptEntries environ ++ [(memlimitStr memlimit).text])) := by
  have kept := length_keptEntries environ
  have start : (List.replicate (environ.length + 2) none : Slots) =
      filled (environ.length + 2) [] := by simp [filled]
  have copied : copyEntries environ (List.replicate (environ.length + 2) none) 0 =
      some (filled (environ.length + 2) (keptEntries environ), (keptEntries environ).length) := by
    rw [start]
    exact copyEntries_filled environ [] (by simp)
  have own : (filled (environ.length + 2) (keptEntries environ)).store (keptEntries environ).length
      (some (memlimitStr memlimit).text) =
      some (filled (environ.length + 2) (keptEntries environ ++ [(memlimitStr memlimit).text])) :=
    store_filled (by omega) _
  have room :
      (keptEntries environ ++ [(memlimitStr memlimit).text]).length < environ.length + 2 := by
    rw [List.length_append, List.length_singleton]
    omega
  have ended := store_null room
  rw [List.length_append, List.length_singleton] at ended
  unfold buildEnvp
  simp only [copied, own, ended, Option.bind_eq_bind, Option.bind_some]

/-- The environment of the child, as a list of entries. -/
def childEntries (environ : List Str) (memlimit : Int) : List Str :=
  keptEntries environ ++ [memlimitEnv ++ '=' :: decimal memlimit]

/-- Without a limit the child gets the parent's list. With one it gets the parent's
other entries in their order and one for the limit, then NULL, and no store is
outside of the slots that were allocated. -/
theorem child_env_replaced (environ : List Str) {memlimit : Int} (positive : 0 < memlimit)
    (int : memlimit < 2 ^ 31) :
    childEnvp environ none = some (environ.map some ++ [none]) ∧
      ∃ rest : Slots, childEnvp environ (some memlimit) =
          some ((childEntries environ memlimit).map some ++ none :: rest) ∧
        ((childEntries environ memlimit).map some ++ none :: rest).length = environ.length + 2 := by
  have unsigned : memlimit % 2 ^ 32 = memlimit := Int.emod_eq_of_lt (by omega) (by omega)
  have entries : keptEntries environ ++ [(memlimitStr memlimit).text] =
      childEntries environ memlimit := by
    rw [text_memlimitStr, memlimitText, unsigned, childEntries]
  have room : (childEntries environ memlimit).length < environ.length + 2 := by
    have kept := length_keptEntries environ
    rw [childEntries, List.length_append, List.length_singleton]
    omega
  refine ⟨rfl,
    List.replicate (environ.length + 2 - (childEntries environ memlimit).length - 1) none,
    ?_, ?_⟩
  · show buildEnvp environ memlimit = _
    rw [buildEnvp_eq, entries, filled_of_room room]
  · simp only [List.length_append, List.length_map, List.length_cons, List.length_replicate]
    omega

def sampleEnviron : List Str :=
  ["TUTUICMPTUNNEL_PWHASH_MEMLIMIT=1".toList, "TUTUICMPTUNNEL_PWHASH_MEMLIMITS=2".toList,
    "PATH=/bin".toList, "TUTUICMPTUNNEL_PWHASH_MEMLIMIT=".toList]

/-- Every entry of the variable goes; one whose name merely starts like it stays. -/
theorem child_env_replaced_sample :
    childEntries sampleEnviron 4096 = ["TUTUICMPTUNNEL_PWHASH_MEMLIMITS=2".toList,
        "PATH=/bin".toList, "TUTUICMPTUNNEL_PWHASH_MEMLIMIT=4096".toList] ∧
      ∃ rest : Slots, childEnvp sampleEnviron (some 4096) =
        some ((childEntries sampleEnviron 4096).map some ++ none :: rest) := by
  have positive : (0 : Int) < 4096 := by decide
  have int : (4096 : Int) < 2 ^ 31 := by decide
  obtain ⟨-, rest, built, -⟩ := child_env_replaced sampleEnviron positive int
  exact ⟨by decide, rest, built⟩

theorem find?_keptEntries {name : Str} (other : name ≠ memlimitEnv) (environ : List Str) :
    (keptEntries environ).find? (fun entry => entryName entry = some name) =
      environ.find? fun entry => entryName entry = some name := by
  induction environ with
  | nil => rfl
  | cons entry rest ih =>
    rw [keptEntries_cons]
    split
    · rename_i own
      rw [ih, List.find?_cons_of_neg (by simp [own, Ne.symm other])]
    · by_cases named : entryName entry = some name
      · rw [List.find?_cons_of_pos (by simpa using named),
          List.find?_cons_of_pos (by simpa using named)]
      · rw [List.find?_cons_of_neg (by simpa using named),
          List.find?_cons_of_neg (by simpa using named),
          ih]

/-- Read by name, the result is that of `setenv` with `overwrite`. -/
theorem getenv_childEntries (environ : List Str) (memlimit : Int) (name : Str) :
    getenv (childEntries environ memlimit) name =
      if name = memlimitEnv then some (decimal memlimit) else getenv environ name := by
  have own : entryName (memlimitEnv ++ '=' :: decimal memlimit) = some memlimitEnv :=
    entryName_append plain_memlimitEnv _
  unfold getenv childEntries
  rw [List.find?_append]
  split
  · rename_i same
    subst same
    have gone :
        (keptEntries environ).find? (fun entry => entryName entry = some memlimitEnv) = none := by
      simp [keptEntries]
    rw [gone, Option.none_or, List.find?_cons_of_pos (by simpa using own), Option.map_some,
      entryValue_append plain_memlimitEnv]
  · rename_i other
    rw [find?_keptEntries other, List.find?_cons_of_neg (by simp [own, Ne.symm other]),
      List.find?_nil, Option.or_none]

end Storage

end Tumgrd
