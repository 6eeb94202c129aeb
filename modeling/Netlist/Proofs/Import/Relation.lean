import Netlist.Import.Graph
import Netlist.Proofs.Document.Decode
import Netlist.Proofs.Document.Places
import Netlist.Proofs.Import.Lookup

/-!
# Which file imports which

What the files of a tree import is a relation on paths that does not speak of a search:
`Imports parse t roots a b` says that the document at `a` has an import with a valid namespace
and a path that leads to `b`, and that `b` can be read.  `importedFiles` lists the files that
a file imports in the order of their declaration.  `parse` is the way the trees of files are
found.

`Preorder next seen todo found` says in which order a search along `next` meets new nodes
when it goes through `todo` depth first and knows the nodes of `seen`.  The nodes that are
found are new, pairwise distinct, and exactly those that can be reached.
-/

namespace Netlist.Import

variable {parse : TreeParser} {t : FileTree} {roots : List String}

/-! ## The relation -/

/-- The file at a path under a number, if it can be read. -/
def sourceAt (t : FileTree) (id : FileId) (path : String) : Option SourceFile :=
  match t.read path with
  | .error _ => none
  | .ok content =>
    let (content, flags) := normalize content
    some (.of id path content flags)

/-- The imports that the file at a path declares: namespaces and paths.  A file that cannot
be read declares none. -/
def importsAt (parse : TreeParser) (t : FileTree) (path : String) : List (String × String) :=
  match sourceAt t 0 path with
  | none => []
  | some file => (Document.decode file parse).value.importTexts

/-- One file imports another. -/
def Imports (parse : TreeParser) (t : FileTree) (roots : List String) (a b : String) : Prop :=
  ∃ ns path, (ns, path) ∈ importsAt parse t a ∧ isNamespace ns = true ∧
    Text.isBlankText path = false ∧ lookup t (Path.dir a) roots path = .found b ∧ t.Readable b

/-- The file that an import leads to, if it is a valid one, from a file in the directory
`dir`. -/
def targetFile (t : FileTree) (roots : List String) (dir : String) (texts : String × String) :
    Option String :=
  if isNamespace texts.1 && !Text.isBlankText texts.2 then
    match lookup t dir roots texts.2 with
    | .found file => some file
    | _ => none
  else none

/-- The files that the imports of a file lead to, in the order of their declaration. -/
def targetFiles (parse : TreeParser) (t : FileTree) (roots : List String) (path : String) :
    List String :=
  (importsAt parse t path).filterMap (targetFile t roots (Path.dir path))

/-- The files that a file imports: those that its imports lead to and that can be read. -/
def importedFiles (parse : TreeParser) (t : FileTree) (roots : List String) (path : String) :
    List String :=
  (targetFiles parse t roots path).filter (t.Readable ·)

theorem targetFile_eq_some {dir ns path file : String} :
    targetFile t roots dir (ns, path) = some file ↔
      isNamespace ns = true ∧ Text.isBlankText path = false ∧
        lookup t dir roots path = .found file := by
  unfold targetFile
  cases isNamespace ns <;> cases Text.isBlankText path <;> cases lookup t dir roots path <;> simp

variable {a b : String}

theorem mem_importedFiles_iff :
    b ∈ importedFiles parse t roots a ↔ b ∈ targetFiles parse t roots a ∧ t.Readable b := by
  rw [importedFiles, List.mem_filter, decide_eq_true_iff]

theorem mem_importedFiles : b ∈ importedFiles parse t roots a ↔ Imports parse t roots a b := by
  simp only [mem_importedFiles_iff, targetFiles, List.mem_filterMap, Prod.exists,
    targetFile_eq_some, Imports]
  constructor
  · rintro ⟨⟨ns, path, hmem, hns, hpath, hlookup⟩, hread⟩
    exact ⟨ns, path, hmem, hns, hpath, hlookup, hread⟩
  · rintro ⟨ns, path, hmem, hns, hpath, hlookup, hread⟩
    exact ⟨⟨ns, path, hmem, hns, hpath, hlookup⟩, hread⟩

theorem isClean_of_mem_targetFiles (h : b ∈ targetFiles parse t roots a) : Path.IsClean b := by
  obtain ⟨texts, _, hfile⟩ := List.mem_filterMap.mp h
  exact isClean_of_lookup (targetFile_eq_some.mp hfile).2.2

theorem imports_iff :
    Imports parse t roots a b ↔ b ∈ targetFiles parse t roots a ∧ t.Readable b :=
  mem_importedFiles.symm.trans mem_importedFiles_iff

theorem Imports.isClean (h : Imports parse t roots a b) : Path.IsClean b :=
  isClean_of_mem_targetFiles (imports_iff.mp h).1

theorem importTexts_of_sourceAt {id : FileId} {path : String} {file : SourceFile}
    (h : sourceAt t id path = some file) :
    (Document.decode file parse).value.importTexts = importsAt parse t path := by
  unfold importsAt
  unfold sourceAt at h ⊢
  cases hread : t.read path with
  | error e =>
      rw [hread] at h
      cases h
  | ok content =>
      rw [hread] at h
      cases h
      exact Document.importTexts_decode ..

theorem readable_of_sourceAt {id : FileId} {path : String} {file : SourceFile}
    (h : sourceAt t id path = some file) : t.Readable path := by
  unfold sourceAt at h
  split at h
  · cases h
  · next content hread => exact ⟨content, hread⟩

/-- A file that imports another one can be read. -/
theorem Imports.readable (h : Imports parse t roots a b) : t.Readable a := by
  obtain ⟨ns, path, hmem, _⟩ := h
  unfold importsAt at hmem
  split at hmem
  · cases hmem
  · next file hfile => exact readable_of_sourceAt hfile

/-! ## Targets -/

theorem target_of_targetFile_eq_some {dir file : String} {entry : Entry}
    (h : targetFile t roots dir entry.texts = some file) :
    target t roots dir entry = .ok ⟨entry, file⟩ := by
  obtain ⟨hns, hpath, hlookup⟩ := targetFile_eq_some.mp h
  unfold target
  simp only [hns, hpath, hlookup, Bool.not_true, Bool.false_eq_true, if_false]

theorem target_of_targetFile_eq_none {dir : String} {entry : Entry}
    (h : targetFile t roots dir entry.texts = none) :
    ∃ d, target t roots dir entry = .error d := by
  unfold target
  dsimp only
  split
  · exact ⟨_, rfl⟩
  · next hns =>
    split
    · exact ⟨_, rfl⟩
    · next hpath =>
      split
      · next file hlookup =>
        have hsome : targetFile t roots dir entry.texts = some file :=
          targetFile_eq_some.mpr ⟨by simpa using hns, by simpa using hpath, hlookup⟩
        rw [h] at hsome
        cases hsome
      all_goals exact ⟨_, rfl⟩

/-- The imports that lead to a file, in order. -/
theorem value_targets (dir : String) : ∀ entries : List Entry,
    (targets t roots dir entries).value =
      entries.filterMap fun e => (targetFile t roots dir e.texts).map (Target.mk e)
  | [] => rfl
  | e :: entries => by
      rw [targets, List.filterMap_cons]
      cases hfile : targetFile t roots dir e.texts with
      | none =>
          obtain ⟨d, hd⟩ := target_of_targetFile_eq_none hfile
          rw [hd]
          exact value_targets dir entries
      | some file =>
          rw [target_of_targetFile_eq_some hfile]
          exact congrArg (Target.mk e file :: ·) (value_targets dir entries)

/-- An import that leads nowhere is reported where it is declared. -/
theorem target_eq_error {r : Region} {dir : String} {e : Entry} {d : Diagnostic}
    (hkey : e.key.span ∈ r) (hvalue : e.value.span ∈ r) (h : target t roots dir e = .error d) :
    ∃ span p, span ∈ r ∧ (∀ chain, p ≠ .cycle chain) ∧ d = ImportProblem.at_ span p := by
  unfold target at h
  grind

theorem ensures_targets {P : Diagnostic → Prop} {r : Region} (dir : String)
    (hP : ∀ span p, span ∈ r → (∀ chain, p ≠ .cycle chain) → P (ImportProblem.at_ span p))
    (entries : List Entry) : EntriesWithin r entries →
      (targets t roots dir entries).Ensures P fun ts =>
        ∀ x ∈ ts, x.entry.key.span ∈ r ∧ x.entry.value.span ∈ r := by
  induction entries with
  | nil =>
      intro _
      refine Logged.ensures_pure fun x hx => ?_
      cases hx
  | cons e entries ih =>
      intro hes
      obtain ⟨⟨hkey, hvalue⟩, hes⟩ := List.forall_mem_cons.mp hes
      rw [targets]
      cases htarget : target t roots dir e with
      | ok found =>
          have hentry : found.entry = e := by
            unfold target at htarget
            grind
          refine (ih hes).bind fun ts hts =>
            Logged.ensures_pure (List.forall_mem_cons.mpr ⟨?_, hts⟩)
          rw [hentry]
          exact ⟨hkey, hvalue⟩
      | error d =>
          obtain ⟨span, p, hspan, hp, rfl⟩ := target_eq_error hkey hvalue htarget
          exact (Logged.ensures_report (Q := fun _ => True) (hP span p hspan hp) trivial).bind
            fun _ _ => ih hes

/-! ## Depth first search -/

/-- `found` are the nodes that a search meets when it goes through `todo` depth first, along
`next` and in order, and has met the nodes of `seen` before. -/
inductive Preorder {α : Type} (next : α → List α) : (seen todo found : List α) → Prop where
  | nil (seen : List α) : Preorder next seen [] []
  | skip {seen todo found : List α} {a : α} (met : a ∈ seen)
      (rest : Preorder next seen todo found) :
      Preorder next seen (a :: todo) found
  | enter {seen todo below found : List α} {a : α} (unmet : a ∉ seen)
      (down : Preorder next (seen ++ [a]) (next a) below)
      (rest : Preorder next (seen ++ a :: below) todo found) :
      Preorder next seen (a :: todo) (a :: below ++ found)

namespace Preorder

variable {α : Type} {next : α → List α} {seen todo found : List α}

/-- Going through two lists one after the other. -/
theorem append {todo₁ todo₂ found₁ found₂ : List α} (h₁ : Preorder next seen todo₁ found₁)
    (h₂ : Preorder next (seen ++ found₁) todo₂ found₂) :
    Preorder next seen (todo₁ ++ todo₂) (found₁ ++ found₂) := by
  induction h₁ with
  | nil seen => simpa using h₂
  | skip met _ ih => exact .skip met (ih h₂)
  | enter unmet down _ _ ih =>
      have hrest := ih (by simpa using h₂)
      simpa using Preorder.enter unmet down hrest

/-- What is found is new and found once. -/
theorem nodup (h : Preorder next seen todo found) (hseen : seen.Nodup) : (seen ++ found).Nodup := by
  induction h with
  | nil seen => simpa using hseen
  | skip _ _ ih => exact ih hseen
  | @enter seen _ _ _ a unmet _ _ ihdown ihrest =>
      have hdown := ihdown (List.nodup_append.mpr ⟨hseen, List.nodup_singleton a, by grind⟩)
      simpa using ihrest (by simpa using hdown)

theorem todo_subset (h : Preorder next seen todo found) : todo ⊆ seen ++ found := by
  induction h with
  | nil => exact List.nil_subset _
  | skip met _ ih => exact List.cons_subset.mpr ⟨List.mem_append_left _ met, ih⟩
  | enter _ _ _ _ ih => grind

/-- What is found leads only to what was met or is found. -/
theorem next_subset (h : Preorder next seen todo found) : ∀ a ∈ found, next a ⊆ seen ++ found := by
  induction h with
  | nil => exact fun _ h => absurd h List.not_mem_nil
  | skip _ _ ih => exact ih
  | enter _ down _ ihdown ihrest =>
      have := down.todo_subset
      grind

/-- What is found can be reached. -/
theorem reaches (h : Preorder next seen todo found) : ∀ b ∈ found, ∃ a ∈ todo,
    Relation.ReflTransGen (fun a b => b ∈ next a) a b := by
  induction h with
  | nil => exact fun _ h => absurd h List.not_mem_nil
  | skip _ _ ih => exact fun b hb => (ih b hb).imp fun _ h => ⟨List.mem_cons_of_mem _ h.1, h.2⟩
  | @enter _ _ _ _ a _ _ _ ihdown ihrest =>
      intro b hb
      rcases List.mem_append.mp hb with hb | hb
      · refine ⟨a, List.mem_cons_self .., ?_⟩
        rcases List.mem_cons.mp hb with rfl | hb
        · exact .refl
        · obtain ⟨c, hc, hcb⟩ := ihdown b hb
          exact .head hc hcb
      · exact (ihrest b hb).imp fun _ h => ⟨List.mem_cons_of_mem _ h.1, h.2⟩

/-- A search that knows nothing finds exactly what can be reached. -/
theorem mem_iff {b : α} (h : Preorder next [] todo found) :
    b ∈ found ↔ ∃ a ∈ todo, Relation.ReflTransGen (fun a b => b ∈ next a) a b := by
  refine ⟨h.reaches b, ?_⟩
  rintro ⟨a, ha, hab⟩
  induction hab with
  | refl => exact h.todo_subset ha
  | tail _ hstep ih => exact h.next_subset _ ih hstep

end Preorder

end Netlist.Import
