import Netlist.Import.Lookup
import Netlist.Proofs.FileTree

/-!
# Looking a path up

A path leads to some places (`placesOf`): to one of its own, or to one below every root.  A
lookup that can inspect all of them finds a file when exactly one place is a regular file.

Where a path leads from a root depends on the directory the root denotes and not on how it
is spelled, and no place is counted twice.  So the files below two lists of roots are the same
up to their order when the lists denote the same directories, and the two lookups end in the
same way (`Lookup.Same`).
-/

namespace Netlist.Import

variable {t : FileTree} {dir p : String} {roots roots' : List String}

/-! ## One place -/

/-- A path names a regular file. -/
def IsRegular (t : FileTree) (q : String) : Prop := ∃ e, t.stat q = .ok e ∧ e.isRegular = true

/-- A path names something, or nothing because nothing is there. -/
def Inspectable (t : FileTree) (q : String) : Prop :=
  ∀ e, t.stat q = .error e → e.fault = .notFound

variable {q : String} {file : String}

theorem isFile_eq_true_iff : isFile t q = .ok true ↔ IsRegular t q := by
  unfold isFile IsRegular
  cases t.stat q with
  | error e => by_cases h : e.fault = .notFound <;> simp [h]
  | ok entry => simp

theorem exists_isFile_iff : (∃ there, isFile t q = .ok there) ↔ Inspectable t q := by
  unfold isFile Inspectable
  cases t.stat q with
  | error e => by_cases h : e.fault = .notFound <;> simp [h]
  | ok entry => simp

theorem IsRegular.inspectable (h : IsRegular t q) : Inspectable t q :=
  exists_isFile_iff.mp ⟨true, isFile_eq_true_iff.mpr h⟩

/-- A single place is found when it is a file. -/
theorem probe_eq_found_iff {q file : String} :
    probe t q = .found file ↔ q = file ∧ IsRegular t q := by
  rw [← isFile_eq_true_iff]
  unfold probe
  cases isFile t q with
  | error e => simp
  | ok there => cases there <;> simp

/-! ## Places below roots -/

theorem mem_distinct : ∀ {places seen : List String},
    q ∈ distinct seen places ↔ q ∈ places ∧ q ∉ seen
  | [], seen => by simp [distinct]
  | r :: places, seen => by
      rw [distinct]
      split
      · next h =>
        rw [List.contains_iff_mem] at h
        rw [mem_distinct, List.mem_cons]
        grind
      · next h =>
        rw [List.contains_iff_mem] at h
        rw [List.mem_cons, mem_distinct, List.mem_cons, List.mem_cons]
        grind

theorem nodup_distinct : ∀ (places seen : List String), (distinct seen places).Nodup
  | [], _ => List.nodup_nil
  | r :: places, seen => by
      rw [distinct]
      split
      · exact nodup_distinct places seen
      · rw [List.nodup_cons]
        refine ⟨fun h => ?_, nodup_distinct places (r :: seen)⟩
        exact (mem_distinct.mp h).2 (List.mem_cons_self ..)

/-- The files among places that can all be inspected. -/
theorem filesAmong_of_inspectable : ∀ {places : List String}, (∀ q ∈ places, Inspectable t q) →
    filesAmong t places = .ok (places.filter fun q => isFile t q = .ok true)
  | [], _ => rfl
  | q :: places, h => by
      obtain ⟨there, hthere⟩ := exists_isFile_iff.mpr (h q (List.mem_cons_self ..))
      rw [filesAmong, hthere, filesAmong_of_inspectable fun r hr => h r (List.mem_cons_of_mem _ hr)]
      cases there <;> simp [Except.map, hthere]

/-- One place that cannot be inspected is enough for no answer, wherever it stands. -/
theorem filesAmong_of_not_inspectable (hq : ¬ Inspectable t q) :
    ∀ {places : List String}, q ∈ places → ∃ failure, filesAmong t places = .error failure
  | r :: places, hmem => by
      rw [filesAmong]
      cases hr : isFile t r with
      | error e => exact ⟨(r, e), rfl⟩
      | ok there =>
          have hne : q ≠ r := by
            rintro rfl
            exact hq (exists_isFile_iff.mp ⟨there, hr⟩)
          obtain ⟨failure, hfailure⟩ :=
            filesAmong_of_not_inspectable hq ((List.mem_cons.mp hmem).resolve_left hne)
          exact ⟨failure, by rw [hfailure]; rfl⟩

/-- The roots denote the same directories. -/
def SameDirectories (t : FileTree) (roots roots' : List String) : Prop :=
  ∀ d, d ∈ roots.map (Path.absolute t.workDir) ↔ d ∈ roots'.map (Path.absolute t.workDir)

/-- The places are the roots joined with the path. -/
theorem mem_placesBelow : q ∈ placesBelow t roots p ↔
    q ∈ roots.map fun root => Path.absolute t.workDir (Path.join root p) := by
  rw [placesBelow, mem_distinct]
  simp

/-- A directory that is among some roots is a place below others that denote it. -/
theorem mem_placesBelow_of_same (hp : Path.isAbsolute p = false)
    (h : SameDirectories t roots roots') (hq : q ∈ placesBelow t roots p) :
    q ∈ placesBelow t roots' p := by
  rw [mem_placesBelow, List.mem_map] at hq ⊢
  obtain ⟨root, hroot, rfl⟩ := hq
  obtain ⟨root', hroot', heq⟩ := List.mem_map.mp ((h _).mp (List.mem_map_of_mem hroot))
  exact ⟨root', hroot', Path.absolute_join_congr t.rooted hp heq⟩

/-- Roots that are the same directories give the same places. -/
theorem placesBelow_perm (hp : Path.isAbsolute p = false) (h : SameDirectories t roots roots') :
    (placesBelow t roots p).Perm (placesBelow t roots' p) := by
  refine (List.perm_ext_iff_of_nodup (nodup_distinct ..) (nodup_distinct ..)).mpr fun q => ?_
  exact ⟨mem_placesBelow_of_same hp h, mem_placesBelow_of_same hp fun d => (h d).symm⟩

/-! ## How a lookup ends -/

/-- Two lookups end in the same way: at the same file, at nothing, with the same files in
question, or at a place that cannot be inspected. -/
inductive Lookup.Same : Lookup → Lookup → Prop where
  | found (file : String) : Same (.found file) (.found file)
  | missing (place : String) : Same (.missing place) (.missing place)
  | missingBelow (roots roots' : List String) : Same (.missingBelow roots) (.missingBelow roots')
  | ambiguous {files files' : List String} (h : files.Perm files') :
      Same (.ambiguous files) (.ambiguous files')
  | failed (place place' : String) (e e' : FileError) : Same (.failed place e) (.failed place' e')

theorem Lookup.Same.refl (l : Lookup) : l.Same l := by
  cases l with
  | found file => exact .found file
  | missing place => exact .missing place
  | missingBelow roots => exact .missingBelow roots roots
  | ambiguous files => exact .ambiguous (.refl files)
  | failed place e => exact .failed place place e e

/-- The outcome of a lookup below roots that meets some files. -/
def Lookup.ofFiles (roots : List String) : List String → Lookup
  | [] => .missingBelow roots
  | [file] => .found file
  | files => .ambiguous files

theorem Lookup.ofFiles_eq_found_iff {files : List String} :
    ofFiles roots files = .found file ↔ files = [file] := by
  cases files with
  | nil => simp [ofFiles]
  | cons first rest => cases rest <;> simp [ofFiles]

theorem Lookup.ofFiles_same {files files' : List String} (h : files.Perm files') :
    (ofFiles roots files).Same (ofFiles roots' files') := by
  cases files with
  | nil =>
      rw [List.nil_perm.mp h]
      exact .missingBelow roots roots'
  | cons first rest =>
      cases rest with
      | nil =>
          rw [← List.singleton_perm.mp h]
          exact .found first
      | cons second rest =>
          -- the other list has as many files, so it is ambiguous too
          obtain ⟨first', second', rest', rfl⟩ : ∃ a b l, files' = a :: b :: l := by
            have hlength := h.length_eq
            cases files' with
            | nil => cases hlength
            | cons a l =>
                cases l with
                | nil => cases hlength
                | cons b l => exact ⟨a, b, l, rfl⟩
          exact .ambiguous h

/-! ## Lookups below roots -/

/-- A path is neither absolute nor relative to the importing file. -/
def IsLibraryPath (p : String) : Prop := Path.isAbsolute p = false ∧ isExplicitRelative p = false

/-- The files that a path may mean below some roots. -/
def filesBelowRoots (t : FileTree) (roots : List String) (p : String) : List String :=
  (placesBelow t roots p).filter fun q => isFile t q = .ok true

theorem filesBelowRoots_eq_singleton_iff : filesBelowRoots t roots p = [file] ↔
    ∀ q, q ∈ placesBelow t roots p ∧ IsRegular t q ↔ q = file := by
  have hmem : ∀ q, q ∈ filesBelowRoots t roots p ↔ q ∈ placesBelow t roots p ∧ IsRegular t q := by
    intro q
    rw [filesBelowRoots, List.mem_filter, decide_eq_true_iff, isFile_eq_true_iff]
  have hnodup : (filesBelowRoots t roots p).Nodup := (nodup_distinct ..).filter _
  rw [← List.perm_singleton, List.perm_ext_iff_of_nodup hnodup (List.nodup_singleton file)]
  simp only [hmem, List.mem_singleton]

/-- When every place can be inspected, the lookup goes by the files among them. -/
theorem lookup_of_inspectable (dir : String) (hp : IsLibraryPath p)
    (h : ∀ q ∈ placesBelow t roots p, Inspectable t q) :
    lookup t dir roots p = .ofFiles roots (filesBelowRoots t roots p) := by
  rw [lookup, hp.1, hp.2, filesAmong_of_inspectable h, ← filesBelowRoots]
  rcases filesBelowRoots t roots p with _ | ⟨first, _ | ⟨second, rest⟩⟩ <;> rfl

/-- A place that cannot be inspected makes the lookup fail, wherever its root stands. -/
theorem lookup_of_not_inspectable (dir : String) (hp : IsLibraryPath p)
    (h : ¬ ∀ q ∈ placesBelow t roots p, Inspectable t q) :
    ∃ place e, lookup t dir roots p = .failed place e := by
  simp only [not_forall] at h
  obtain ⟨q, hq, h⟩ := h
  obtain ⟨⟨place, e⟩, hfailure⟩ := filesAmong_of_not_inspectable h hq
  exact ⟨place, e, by rw [lookup, hp.1, hp.2, hfailure]; rfl⟩

theorem lookup_same_of_library (dir : String) (hp : IsLibraryPath p)
    (h : SameDirectories t roots roots') :
    (lookup t dir roots p).Same (lookup t dir roots' p) := by
  have hplaces := placesBelow_perm hp.1 h
  have hall : (∀ q ∈ placesBelow t roots p, Inspectable t q) ↔
      ∀ q ∈ placesBelow t roots' p, Inspectable t q :=
    forall_congr' fun q => imp_congr_left hplaces.mem_iff
  by_cases hok : ∀ q ∈ placesBelow t roots p, Inspectable t q
  · rw [lookup_of_inspectable dir hp hok, lookup_of_inspectable dir hp (hall.mp hok)]
    exact Lookup.ofFiles_same (hplaces.filter _)
  · obtain ⟨place, e, hfailed⟩ := lookup_of_not_inspectable dir hp hok
    obtain ⟨place', e', hfailed'⟩ := lookup_of_not_inspectable dir hp (hall.not.mp hok)
    rw [hfailed, hfailed']
    exact .failed place place' e e'

/-- A library path is found when exactly one root has the file. -/
theorem lookup_eq_found_of_library (hp : IsLibraryPath p) :
    lookup t dir roots p = .found file ↔ (∀ q ∈ placesBelow t roots p, Inspectable t q) ∧
      ∀ q, q ∈ placesBelow t roots p ∧ IsRegular t q ↔ q = file := by
  by_cases hok : ∀ q ∈ placesBelow t roots p, Inspectable t q
  · rw [lookup_of_inspectable dir hp hok, Lookup.ofFiles_eq_found_iff,
      filesBelowRoots_eq_singleton_iff, and_iff_right hok]
  · obtain ⟨place, e, hfailed⟩ := lookup_of_not_inspectable dir hp hok
    rw [hfailed, iff_false_intro hok]
    simp

/-! ## Lookups of any path -/

/-- The places where a path that is written in a file of the directory `dir` may lead. -/
def placesOf (t : FileTree) (dir : String) (roots : List String) (p : String) : List String :=
  if Path.isAbsolute p then [Path.clean p]
  else if isExplicitRelative p then [Path.absolute t.workDir (Path.join dir p)]
  else roots.map fun root => Path.absolute t.workDir (Path.join root p)

/-- Places are written in the shortest way. -/
theorem isClean_of_mem_placesOf (h : q ∈ placesOf t dir roots p) : Path.IsClean q := by
  unfold placesOf at h
  split at h
  · next hp =>
    rw [List.mem_singleton.mp h]
    exact Path.isClean_clean hp
  · split at h
    · rw [List.mem_singleton.mp h]
      exact Path.isClean_absolute _ t.rooted
    · obtain ⟨root, _, rfl⟩ := List.mem_map.mp h
      exact Path.isClean_absolute _ t.rooted

theorem probe_eq_found_iff_of_singleton {a file : String} : probe t a = .found file ↔
    (∀ q ∈ [a], Inspectable t q) ∧ ∀ q, q ∈ [a] ∧ IsRegular t q ↔ q = file := by
  rw [probe_eq_found_iff]
  simp only [List.mem_singleton, forall_eq]
  constructor
  · rintro ⟨rfl, h⟩
    exact ⟨h.inspectable, fun q => ⟨And.left, fun hq => ⟨hq, hq ▸ h⟩⟩⟩
  · rintro ⟨_, h⟩
    obtain ⟨rfl, hfile⟩ := (h file).mpr rfl
    exact ⟨rfl, hfile⟩

/-- A lookup finds a file when it is the only one among the places and all of them can be
inspected. -/
theorem lookup_eq_found_iff : lookup t dir roots p = .found file ↔
    (∀ q ∈ placesOf t dir roots p, Inspectable t q) ∧
      ∀ q, q ∈ placesOf t dir roots p ∧ IsRegular t q ↔ q = file := by
  cases habs : Path.isAbsolute p with
  | true =>
      rw [lookup, placesOf, habs]
      exact probe_eq_found_iff_of_singleton
  | false =>
      cases hrel : isExplicitRelative p with
      | true =>
          rw [lookup, placesOf, habs, hrel]
          exact probe_eq_found_iff_of_singleton
      | false =>
          have hplaces : ∀ q, q ∈ placesOf t dir roots p ↔ q ∈ placesBelow t roots p := by
            intro q
            rw [mem_placesBelow, placesOf, habs, hrel]
            rfl
          simp only [hplaces]
          exact lookup_eq_found_of_library ⟨habs, hrel⟩

/-- A lookup finds files under their cleaned paths. -/
theorem isClean_of_lookup (h : lookup t dir roots p = .found file) : Path.IsClean file :=
  isClean_of_mem_placesOf (((lookup_eq_found_iff.mp h).2 file).mpr rfl).1

/-- An absolute path does not depend on where it stands. -/
theorem lookup_of_isAbsolute (hp : Path.isAbsolute p = true) (dir dir' : String)
    (roots roots' : List String) : lookup t dir roots p = lookup t dir' roots' p := by
  rw [lookup, lookup, if_pos hp, if_pos hp]

theorem lookup_of_isExplicitRelative {dir' : String} (hp : isExplicitRelative p = true)
    (hdir : Path.absolute t.workDir dir = Path.absolute t.workDir dir')
    (roots roots' : List String) : lookup t dir roots p = lookup t dir' roots' p := by
  cases habs : Path.isAbsolute p with
  | true => exact lookup_of_isAbsolute habs ..
  | false =>
      have hnot : ¬ Path.isAbsolute p = true := by rw [habs]; exact Bool.false_ne_true
      rw [lookup, lookup, if_neg hnot, if_neg hnot, if_pos hp, if_pos hp,
        Path.absolute_join_congr t.rooted habs hdir]

/-- Roots count by the directories they denote: two lists of roots that denote the same
directories give lookups that end in the same way.  A file is found when exactly one place is a
regular file and every place can be inspected.  A path that is relative to the importing file
depends on the directory of that file only, and an absolute one on neither. -/
theorem lookup_ignores_root_order (t : FileTree) (dir p : String) :
    (∀ roots roots', SameDirectories t roots roots' →
      (lookup t dir roots p).Same (lookup t dir roots' p)) ∧
    (∀ roots file, lookup t dir roots p = .found file ↔
      (∀ q ∈ placesOf t dir roots p, Inspectable t q) ∧
        ∀ q, q ∈ placesOf t dir roots p ∧ IsRegular t q ↔ q = file) ∧
    (isExplicitRelative p = true → ∀ dir' roots roots',
      Path.absolute t.workDir dir = Path.absolute t.workDir dir' →
        lookup t dir roots p = lookup t dir' roots' p) ∧
    (Path.isAbsolute p = true → ∀ dir' roots roots',
      lookup t dir roots p = lookup t dir' roots' p) := by
  refine ⟨fun roots roots' h => ?_, fun roots file => lookup_eq_found_iff,
    fun hp dir' roots roots' hdir => lookup_of_isExplicitRelative hp hdir roots roots',
    fun hp dir' roots roots' => lookup_of_isAbsolute hp dir dir' roots roots'⟩
  cases habs : Path.isAbsolute p with
  | true =>
      rw [lookup_of_isAbsolute habs dir dir roots roots']
      exact .refl _
  | false =>
      cases hrel : isExplicitRelative p with
      | true =>
          rw [lookup_of_isExplicitRelative hrel rfl roots roots']
          exact .refl _
      | false => exact lookup_same_of_library dir ⟨habs, hrel⟩ h

/-- A file of one name below two directories. -/
def twoLibraries : FileTree :=
  ((FileTree.empty "/w").addFile "a/x.net" []).addFile "b/x.net" []

/-- The same two directories in the other order, one of them twice and all spelled differently. -/
theorem lookup_ignores_root_order_twoLibraries :
    SameDirectories twoLibraries ["a", "b"] ["/w/b", "./a/", "a/../b"] ∧
    lookup twoLibraries "/w" ["a", "b"] "x.net" = .ambiguous ["/w/a/x.net", "/w/b/x.net"] ∧
    lookup twoLibraries "/w" ["/w/b", "./a/", "a/../b"] "x.net" =
      .ambiguous ["/w/b/x.net", "/w/a/x.net"] ∧
    (lookup twoLibraries "/w" ["a", "b"] "x.net").Same
      (lookup twoLibraries "/w" ["/w/b", "./a/", "a/../b"] "x.net") := by
  have hroots : SameDirectories twoLibraries ["a", "b"] ["/w/b", "./a/", "a/../b"] := by
    have h : ["a", "b"].map (Path.absolute twoLibraries.workDir) = ["/w/a", "/w/b"] := by
      decide +kernel
    have h' : ["/w/b", "./a/", "a/../b"].map (Path.absolute twoLibraries.workDir) =
        ["/w/b", "/w/a", "/w/b"] := by decide +kernel
    intro d
    rw [h, h']
    simp only [List.mem_cons, List.not_mem_nil, or_false]
    rw [or_left_comm, or_self]
  exact ⟨hroots, by decide +kernel, by decide +kernel,
    (lookup_ignores_root_order twoLibraries "/w" "x.net").1 _ _ hroots⟩

end Netlist.Import
