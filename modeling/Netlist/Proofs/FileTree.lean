import Netlist.FileTree
import Netlist.Proofs.Text.Split

/-!
# Places of cleaned paths

A cleaned absolute path spells the components of one place (`Path.IsClean`), so two such
paths that lead to the same place are the same path.  Hence a tree has at least as many
entries as there are cleaned paths at which a file can be read
(`FileTree.length_le_of_readable`).

Any other path leads where its components lead from the working directory
(`FileTree.components_of_locate`), so a relative path joined to it is followed from there
(`Path.components_absolute_join`).
-/

namespace Netlist

namespace Path

/-! ## Cleaned paths -/

/-- A component that names something below a directory. -/
structure IsName (c : String) : Prop where
  not_empty : c ≠ ""
  not_here : c ≠ "."
  not_above : c ≠ ".."
  no_slash : '/' ∉ c.toList

/-- A cleaned absolute path. -/
def IsClean (p : String) : Prop := ∃ cs, (∀ c ∈ cs, IsName c) ∧ p = ofComponents true cs

theorem no_slash_of_mem_pieces {p c : String} (h : c ∈ pieces p) : '/' ∉ c.toList := by
  obtain ⟨piece, hpiece, rfl⟩ := List.mem_map.mp h
  rw [String.toList_ofList]
  exact Text.not_mem_of_mem_splitOn hpiece

variable {p : String} {workDir : String} {done : List String} {c : String} {cs : List String}

/-- One component more keeps cleaned components cleaned. -/
theorem isName_pushComponent (hdone : ∀ d ∈ done, IsName d)
    (hc : '/' ∉ c.toList) : ∀ d ∈ pushComponent true done c, IsName d := by
  unfold pushComponent
  split
  · exact hdone
  · next hskip =>
    simp only [Bool.or_eq_true, beq_iff_eq, not_or] at hskip
    split
    · cases done with
      | nil => simp
      | cons d rest =>
          have hd : (d == "..") = false := by
            simpa using (hdone d (List.mem_cons_self ..)).not_above
          simp only [hd, Bool.false_eq_true, if_false]
          exact fun e he => hdone e (List.mem_cons_of_mem _ he)
    · next habove =>
      simp only [beq_iff_eq] at habove
      rintro d (_ | ⟨_, hd⟩)
      · exact ⟨hskip.1, hskip.2, habove, hc⟩
      · exact hdone d hd

theorem isName_of_mem_components {p c : String} (hp : isAbsolute p = true)
    (hc : c ∈ components p) : IsName c := by
  have hfold : ∀ (cs done : List String), (∀ c ∈ cs, '/' ∉ c.toList) → (∀ d ∈ done, IsName d) →
      ∀ d ∈ cs.foldl (pushComponent true) done, IsName d := by
    intro cs
    induction cs with
    | nil => exact fun _ _ hdone => hdone
    | cons c cs ih =>
        intro done hcs hdone
        exact ih _ (fun d hd => hcs d (List.mem_cons_of_mem _ hd))
          (isName_pushComponent hdone (hcs c (List.mem_cons_self ..)))
  rw [components, hp, List.mem_reverse] at hc
  exact hfold _ [] (fun _ => no_slash_of_mem_pieces) (fun _ h => absurd h List.not_mem_nil) c hc

theorem isClean_clean (hp : isAbsolute p = true) : IsClean (clean p) :=
  ⟨components p, fun _ => isName_of_mem_components hp, by rw [clean, hp]⟩

theorem isClean_absolute (p : String) (h : isAbsolute workDir = true) :
    IsClean (absolute workDir p) := by
  obtain ⟨q, hq, heq⟩ := exists_absolute_eq_clean p h
  rw [heq]
  exact isClean_clean hq

/-- The pieces of a cleaned path are its components behind the first slash. -/
theorem pieces_ofComponents (hcs : ∀ c ∈ cs, IsName c) (hne : cs ≠ []) :
    pieces (ofComponents true cs) = "" :: cs := by
  have hsplit : ((ofComponents true cs).toList).splitOn '/' = [] :: cs.map String.toList := by
    have hlist : (ofComponents true cs).toList =
        ['/'].intercalate ([] :: cs.map String.toList) := by
      rw [List.intercalate_cons_of_ne_nil (by simpa using hne)]
      simp [ofComponents]
    rw [hlist, List.splitOn_intercalate]
    · simp only [List.mem_cons, List.mem_map, forall_eq_or_imp, List.not_mem_nil,
        not_false_eq_true, true_and, forall_exists_index, and_imp, forall_apply_eq_imp_iff₂]
      exact fun c hc => (hcs c hc).no_slash
    · simp
  rw [pieces, hsplit]
  simp [Function.comp_def]

theorem pushComponent_of_isName (h : IsName c) (rooted : Bool) (done : List String) :
    pushComponent rooted done c = c :: done := by
  simp [pushComponent, h.not_empty, h.not_here, h.not_above]

theorem foldl_pushComponent : ∀ (cs done : List String), (∀ c ∈ cs, IsName c) →
    cs.foldl (pushComponent true) done = cs.reverse ++ done
  | [], _, _ => rfl
  | c :: cs, done, hcs => by
      rw [List.foldl_cons, pushComponent_of_isName (hcs c (List.mem_cons_self ..)),
        foldl_pushComponent cs _ fun d hd => hcs d (List.mem_cons_of_mem _ hd)]
      simp

theorem components_ofComponents (hcs : ∀ c ∈ cs, IsName c) :
    components (ofComponents true cs) = cs := by
  cases cs with
  | nil => decide
  | cons c cs =>
      rw [components, isAbsolute_ofComponents, pieces_ofComponents hcs (by simp),
        List.foldl_cons, show pushComponent true [] "" = [] from rfl,
        foldl_pushComponent _ _ hcs, List.append_nil, List.reverse_reverse]

theorem components_clean (h : isAbsolute p = true) :
    components (clean p) = components p := by
  rw [clean, h, components_ofComponents fun _ => isName_of_mem_components h]

/-- Cleaning a cleaned path changes nothing. -/
theorem IsClean.clean_eq (h : IsClean p) : clean p = p := by
  obtain ⟨cs, hcs, rfl⟩ := h
  rw [clean, isAbsolute_ofComponents, components_ofComponents hcs]

theorem IsClean.isAbsolute (h : IsClean p) : Path.isAbsolute p = true := by
  obtain ⟨cs, _, rfl⟩ := h
  exact isAbsolute_ofComponents cs

/-! ## Paths from the working directory -/

theorem pieces_append_slash (a b : String) : pieces (a ++ "/" ++ b) = pieces a ++ pieces b := by
  have hsplit :
      (a ++ "/" ++ b).toList.splitOn '/' = a.toList.splitOn '/' ++ b.toList.splitOn '/' := by
    rw [String.toList_append, String.toList_append, show "/".toList = ['/'] from rfl,
      List.append_assoc, List.singleton_append, List.splitOn_append_cons_self]
  rw [pieces, hsplit, List.map_append]
  rfl

theorem pieces_of_no_slash (h : '/' ∉ c.toList) : pieces c = [c] := by
  rw [pieces, List.splitOn_eq_singleton (by simpa using h)]
  simp

/-- The components of an absolute path, one piece after the other. -/
theorem reverse_components (h : isAbsolute p = true) :
    (components p).reverse = (pieces p).foldl (pushComponent true) [] := by
  rw [components, h, List.reverse_reverse]

theorem mem_pushComponent {rooted : Bool} {c d : String}
    (h : d ∈ pushComponent rooted done c) : d ∈ done ∨ d = c ∧ c ≠ "" ∧ c ≠ "." := by
  unfold pushComponent at h
  split at h
  · exact .inl h
  · next hskip =>
    simp only [Bool.or_eq_true, beq_iff_eq, not_or] at hskip
    split at h
    · next habove =>
      rw [beq_iff_eq] at habove
      grind
    · rcases List.mem_cons.mp h with rfl | h
      · exact .inr ⟨rfl, hskip⟩
      · exact .inl h

theorem mem_foldl_pushComponent {rooted : Bool} {d : String} : ∀ {cs done : List String},
    d ∈ cs.foldl (pushComponent rooted) done → d ∈ done ∨ d ∈ cs ∧ d ≠ "" ∧ d ≠ "."
  | [], _, h => .inl h
  | c :: cs, done, h => by
      rw [List.foldl_cons] at h
      rcases mem_foldl_pushComponent h with h | ⟨hcs, hd⟩
      · rcases mem_pushComponent h with h | ⟨rfl, hd⟩
        · exact .inl h
        · exact .inr ⟨List.mem_cons_self .., hd⟩
      · exact .inr ⟨List.mem_cons_of_mem _ hcs, hd⟩

/-- Following cleaned components and then one more is following the two cleaned together. -/
theorem foldl_reverse_pushComponent (hdone : ∀ d ∈ done, d ≠ "" ∧ d ≠ ".")
    (start : List String) (c : String) :
    (pushComponent false done c).reverse.foldl (pushComponent true) start =
      pushComponent true (done.reverse.foldl (pushComponent true) start) c := by
  by_cases hskip : (c == "" || c == ".") = true
  · simp only [pushComponent, hskip, if_true]
  by_cases habove : (c == "..") = true
  · cases done with
    | nil => simp_all [pushComponent]
    | cons d rest =>
        by_cases hd : (d == "..") = true
        · simp_all [pushComponent]
        · -- the component `d` is a name, and `..` takes it away on both sides
          have := hdone d (List.mem_cons_self ..)
          simp_all [pushComponent]
  · simp_all [pushComponent]

/-- Cleaning components first makes no difference to where they lead. -/
theorem foldl_foldl_pushComponent (start : List String) : ∀ (cs : List String) {done : List String},
    (∀ d ∈ done, d ≠ "" ∧ d ≠ ".") →
    (cs.foldl (pushComponent false) done).reverse.foldl (pushComponent true) start =
      cs.foldl (pushComponent true) (done.reverse.foldl (pushComponent true) start)
  | [], _, _ => rfl
  | c :: cs, done, hdone => by
      have hnext : ∀ d ∈ pushComponent false done c, d ≠ "" ∧ d ≠ "." := by
        intro d hd
        rcases mem_pushComponent hd with hd | ⟨rfl, hd⟩
        · exact hdone d hd
        · exact hd
      rw [List.foldl_cons, foldl_foldl_pushComponent start cs hnext,
        foldl_reverse_pushComponent hdone, List.foldl_cons]

/-- The pieces of a relative path that has components. -/
theorem pieces_ofComponents_false (hcs : ∀ c ∈ cs, '/' ∉ c.toList)
    (hne : cs ≠ []) : pieces (ofComponents false cs) = cs := by
  have hsplit : (ofComponents false cs).toList.splitOn '/' = cs.map String.toList := by
    have hlist : (ofComponents false cs).toList = ['/'].intercalate (cs.map String.toList) := by
      simp [ofComponents, hne]
    rw [hlist, List.splitOn_intercalate]
    · simpa using hcs
    · simpa using hne
  rw [pieces, hsplit]
  simp [Function.comp_def]

/-- Where a path leads from the working directory: its pieces are followed from there. -/
theorem components_absolute {workDir p : String} (h : isAbsolute workDir = true) (hp : p ≠ "") :
    components (absolute workDir p) = ((pieces p).foldl (pushComponent true)
      (if isAbsolute p then [] else (components workDir).reverse)).reverse := by
  unfold absolute
  split
  · next hroot => rw [components_clean hroot, components, hroot]
  · have hjoin : isAbsolute (workDir ++ "/" ++ p) = true :=
      isAbsolute_append p (isAbsolute_append "/" h)
    have hempty : p.isEmpty = false := by simpa [String.isEmpty_iff] using hp
    rw [join, isEmpty_of_isAbsolute h, hempty]
    simp only [Bool.and_self, Bool.false_eq_true, if_false]
    rw [components_clean hjoin, components, hjoin, pieces_append_slash, List.foldl_append,
      reverse_components h]

/-- A path that is empty or starts at the root has an empty piece. -/
theorem empty_mem_pieces (h : p = "" ∨ isAbsolute p = true) : "" ∈ pieces p := by
  rcases h with rfl | h
  · decide
  · rw [isAbsolute, beq_iff_eq, List.head?_eq_some_iff] at h
    obtain ⟨rest, hrest⟩ := h
    rw [pieces, hrest, List.splitOn_cons_eq_if_modifyHead]
    simp

theorem isAbsolute_append_of_ne_empty {a : String} (b : String) (h : a ≠ "") :
    isAbsolute (a ++ b) = isAbsolute a := by
  cases ha : a.toList with
  | nil => exact absurd (String.toList_eq_nil_iff.mp ha) h
  | cons c rest => simp [isAbsolute, ha]

/-- Cleaning a path makes no difference to where it leads. -/
theorem components_absolute_clean {workDir p : String} (h : isAbsolute workDir = true)
    (hp : p ≠ "") : components (absolute workDir (clean p)) = components (absolute workDir p) := by
  cases hroot : isAbsolute p with
  | true =>
      rw [absolute, isAbsolute_clean hroot, if_pos rfl, components_clean (isAbsolute_clean hroot),
        absolute, hroot, if_pos rfl]
  | false =>
      let done := (pieces p).foldl (pushComponent false) []
      have hclean : clean p = ofComponents false done.reverse := by rw [clean, components, hroot]
      rw [components_absolute h hp, hroot, hclean]
      by_cases hdone : done = []
      · have hnone : ∀ d ∈ ([] : List String), d ≠ "" ∧ d ≠ "." := by simp
        have hfold := foldl_foldl_pushComponent (components workDir).reverse (pieces p) hnone
        rw [show (pieces p).foldl (pushComponent false) [] = [] from hdone] at hfold
        rw [hdone, List.reverse_nil, show ofComponents false [] = "." from rfl,
          components_absolute h (by decide), show pieces "." = ["."] by decide,
          show isAbsolute "." = false by decide]
        simp only [List.reverse_nil, List.foldl_nil] at hfold
        simp [pushComponent, ← hfold]
      · have hmem : ∀ d ∈ done.reverse, d ∈ pieces p ∧ d ≠ "" ∧ d ≠ "." := by
          intro d hd
          rcases mem_foldl_pushComponent (List.mem_reverse.mp hd) with hd | hd
          · exact absurd hd List.not_mem_nil
          · exact hd
        have hpieces : pieces (ofComponents false done.reverse) = done.reverse :=
          pieces_ofComponents_false (fun d hd => no_slash_of_mem_pieces (hmem d hd).1)
            (by simpa using hdone)
        have hkind : ¬ (ofComponents false done.reverse = "" ∨
            isAbsolute (ofComponents false done.reverse) = true) := by
          intro hkind
          have := empty_mem_pieces hkind
          rw [hpieces] at this
          exact (hmem "" this).2.1 rfl
        rw [not_or, Bool.not_eq_true] at hkind
        rw [components_absolute h hkind.1, hkind.2, hpieces]
        exact congrArg List.reverse
          (foldl_foldl_pushComponent (components workDir).reverse (pieces p) (by simp))

theorem components_absolute_empty (h : isAbsolute workDir = true) :
    components (absolute workDir "") = components workDir := by
  simp [absolute, show isAbsolute "" = false from rfl, join, isEmpty_of_isAbsolute h,
    components_clean h]

/-- A relative path joined to another is followed from where that one leads. -/
theorem components_absolute_join (h : isAbsolute workDir = true) (a : String)
    (hp : isAbsolute p = false) :
    components (absolute workDir (join a p)) = ((pieces p).foldl (pushComponent true)
      (components (absolute workDir a)).reverse).reverse := by
  have hstay : ∀ done, (pieces "").foldl (pushComponent true) done = done := fun _ => rfl
  by_cases ha : a = "" <;> by_cases hpe : p = ""
  · subst ha hpe
    rw [show join "" "" = "" from rfl, hstay, List.reverse_reverse]
  · subst ha
    have hjoin : join "" p = clean p := by simp [join, hpe]
    rw [hjoin, components_absolute_clean h hpe, components_absolute h hpe, hp,
      components_absolute_empty h]
    rfl
  · subst hpe
    have hjoin : join a "" = clean a := by simp [join, ha]
    rw [hjoin, components_absolute_clean h ha, hstay, List.reverse_reverse]
  · have hjoin : join a p = clean (a ++ "/" ++ p) := by simp [join, ha, hpe]
    have hjoined : a ++ "/" ++ p ≠ "" := by
      intro hempty
      exact ha (String.append_eq_empty_iff.mp (String.append_eq_empty_iff.mp hempty).1).1
    rw [hjoin, components_absolute_clean h hjoined, components_absolute h hjoined,
      components_absolute h ha, String.append_assoc, isAbsolute_append_of_ne_empty _ ha,
      ← String.append_assoc, pieces_append_slash, List.foldl_append, List.reverse_reverse]

/-- A name joined to a path is one component more. -/
theorem components_absolute_join_name (h : isAbsolute workDir = true) (a : String) (hc : IsName c) :
    components (absolute workDir (join a c)) = components (absolute workDir a) ++ [c] := by
  have hroot : isAbsolute c = false := by
    rw [isAbsolute, beq_eq_false_iff_ne]
    exact fun hhead => hc.no_slash (List.mem_of_head? hhead)
  rw [components_absolute_join h a hroot, pieces_of_no_slash hc.no_slash, List.foldl_cons,
    List.foldl_nil, pushComponent_of_isName hc, List.reverse_cons, List.reverse_reverse]

/-- Where a relative path leads from another does not depend on how that one is spelled. -/
theorem absolute_join_congr {workDir a b p : String} (h : isAbsolute workDir = true)
    (hp : isAbsolute p = false) (hab : absolute workDir a = absolute workDir b) :
    absolute workDir (join a p) = absolute workDir (join b p) := by
  have hspell : ∀ q, absolute workDir q = ofComponents true (components (absolute workDir q)) := by
    intro q
    obtain ⟨cs, hcs, heq⟩ := isClean_absolute q h
    rw [heq, components_ofComponents hcs]
  rw [hspell (join a p), components_absolute_join h a hp, hab, ← components_absolute_join h b hp,
    ← hspell]

end Path

/-! ## Places -/

namespace FileTree

variable {t : FileTree}

/-- Walking along pieces leads where they lead lexically. -/
theorem walk_eq_ok : ∀ {cs here place : List String}, (∀ d ∈ here, d ≠ "..") →
    t.walk here cs = .ok place → place = cs.foldl (Path.pushComponent true) here
  | [], here, place, _, h => by
      rw [walk] at h
      cases h
      rfl
  | c :: cs, here, place, hhere, h => by
      rw [walk] at h
      rw [List.foldl_cons]
      split at h
      · cases h
      · split at h
        · next hskip =>
          have hpush : Path.pushComponent true here c = here := by simp [Path.pushComponent, hskip]
          rw [hpush]
          exact walk_eq_ok hhere h
        · next hskip =>
          split at h
          · next habove =>
            have hpush : Path.pushComponent true here c = here.tail := by
              cases here with
              | nil => simp [Path.pushComponent, hskip, habove]
              | cons d rest =>
                  simp [Path.pushComponent, hskip, habove, hhere d (List.mem_cons_self ..)]
            rw [hpush]
            exact walk_eq_ok (fun d hd => hhere d (List.mem_of_mem_tail hd)) h
          · next habove =>
            have hpush : Path.pushComponent true here c = c :: here := by
              simp [Path.pushComponent, hskip, habove]
            split at h
            · cases h
            · rw [hpush]
              refine walk_eq_ok (fun d hd => ?_) h
              rcases List.mem_cons.mp hd with rfl | hd
              · simpa using habove
              · exact hhere d hd
      · cases h

variable {p : String} {content : Bytes}

/-- A path that leads somewhere leads to its components. -/
theorem components_of_locate {place : List String} (h : t.locate p = .ok place) :
    place = Path.components (Path.absolute t.workDir p) := by
  rw [locate] at h
  split at h
  · cases h
  split at h
  · cases h
  next hp =>
  rw [String.isEmpty_iff] at hp
  split at h
  · cases h
  rw [Path.components_absolute t.rooted hp]
  dsimp only at h
  set start := if Path.isAbsolute p = true then [] else (Path.components t.workDir).reverse
  have hstart : ∀ d ∈ start, d ≠ ".." := by
    intro d hd
    by_cases hroot : Path.isAbsolute p = true
    · simp [start, hroot] at hd
    · simp only [start, hroot, Bool.false_eq_true, if_false, List.mem_reverse] at hd
      exact (Path.isName_of_mem_components t.rooted hd).not_above
  cases hwalk : t.walk start (Path.pieces p) with
  | error f =>
      rw [hwalk] at h
      cases h
  | ok here =>
      rw [hwalk] at h
      cases h
      rw [walk_eq_ok hstart hwalk]

/-- A cleaned path that leads somewhere spells the components of that place. -/
theorem eq_of_locate_eq_ok {place : List String} (hp : Path.IsClean p)
    (h : t.locate p = .ok place) : p = Path.ofComponents true place := by
  rw [components_of_locate h]
  obtain ⟨cs, hcs, rfl⟩ := hp
  rw [Path.absolute, Path.isAbsolute_ofComponents, if_pos rfl,
    Path.components_clean (Path.isAbsolute_ofComponents cs), Path.components_ofComponents hcs]

/-- A file can be read at a path. -/
def Readable (t : FileTree) (p : String) : Prop := ∃ content, t.read p = .ok content

instance (t : FileTree) : DecidablePred t.Readable := fun p =>
  decidable_of_iff ((t.read p).isOk = true) (by
    unfold Readable
    cases t.read p <;> simp [Except.isOk, Except.toBool])

theorem mem_entries_of_entry? {cs : List String}
    (h : t.entry? cs = some (.file content)) : (cs, .file content) ∈ t.entries := by
  rw [ entry?] at h
  split at h
  · cases h
  · obtain ⟨e, hfind, he⟩ := Option.map_eq_some_iff.mp h
    have hplace : e.1 = cs := by simpa using List.find?_some hfind
    rw [← hplace, ← he]
    exact List.mem_of_find?_eq_some hfind

/-- What is read at a path is the file at the place where it leads. -/
theorem exists_entry_of_read (h : t.read p = .ok content) :
    ∃ place, t.locate p = .ok place ∧ (place, .file content) ∈ t.entries := by
  rw [read] at h
  split at h
  · cases h
  · next place hplace =>
    split at h
    · next c hentry =>
      cases h
      exact ⟨place, hplace, mem_entries_of_entry? hentry⟩
    all_goals cases h

theorem exists_entry_of_readable (hp : Path.IsClean p) (h : t.Readable p) :
    p ∈ t.entries.map fun e => Path.ofComponents true e.1 := by
  obtain ⟨content, h⟩ := h
  obtain ⟨place, hplace, hentry⟩ := exists_entry_of_read h
  exact List.mem_map.mpr ⟨_, hentry, (eq_of_locate_eq_ok hp hplace).symm⟩

/-- There are at most as many different readable paths as entries. -/
theorem length_le_of_readable {paths : List String} (hnodup : paths.Nodup)
    (hclean : ∀ p ∈ paths, Path.IsClean p) (hread : ∀ p ∈ paths, t.Readable p) :
    paths.length ≤ t.entries.length := by
  have hsub : paths ⊆ t.entries.map fun e => Path.ofComponents true e.1 :=
    fun p hp => exists_entry_of_readable (hclean p hp) (hread p hp)
  calc paths.length ≤ (t.entries.map fun e => Path.ofComponents true e.1).length :=
        (hnodup.subperm hsub).length_le
    _ = t.entries.length := List.length_map ..

theorem mem_filesBelow {dir place : List String} :
    (place, content) ∈ t.filesBelow dir ↔
      (place, .file content) ∈ t.entries ∧ dir <+: place ∧ dir.length < place.length := by
  rw [filesBelow, List.mem_filterMap]
  constructor
  · rintro ⟨⟨cs, e⟩, he, hfile⟩
    cases e with
    | directory => cases hfile
    | sealed => cases hfile
    | file c =>
        rw [Option.ite_none_right_eq_some, Option.some.injEq, Prod.mk.injEq] at hfile
        obtain ⟨hbelow, rfl, rfl⟩ := hfile
        simpa [he, isBelow] using hbelow
  · rintro ⟨he, hbelow⟩
    exact ⟨_, he, by simpa [isBelow] using hbelow⟩

/-! ## Changes -/

theorem mem_entries_put {cs : List String} {x : FileEntry} {e : List String × FileEntry}
    (h : e ∈ (t.put cs x).entries) : e = (cs, x) ∨ e ∈ t.entries := by
  rcases List.mem_cons.mp h with h | h
  · exact .inl h
  · exact .inr (List.mem_filter.mp h).1

/-- Making directories keeps the working directory and makes no file. -/
theorem makeDirectories_spec (cs : List String) :
    (t.makeDirectories cs).workDir = t.workDir ∧
      ∀ place content, (place, .file content) ∈ (t.makeDirectories cs).entries →
        (place, .file content) ∈ t.entries := by
  unfold makeDirectories
  generalize ancestors cs ++ [cs] = ds
  induction ds generalizing t with
  | nil => exact ⟨rfl, fun _ _ h => h⟩
  | cons d ds ih =>
      rw [List.foldl_cons]
      split
      · exact ih
      · obtain ⟨hdir, hfiles⟩ := ih (t := t.put d .directory)
        refine ⟨hdir, fun place content h => ?_⟩
        rcases mem_entries_put (hfiles place content h) with h | h
        · cases h
        · exact h

theorem makeDirectory_spec {t' : FileTree} (h : t.makeDirectory p = .ok t') :
    t'.workDir = t.workDir ∧
      ∀ place content, (place, .file content) ∈ t'.entries →
        (place, .file content) ∈ t.entries := by
  unfold makeDirectory at h
  dsimp only at h
  split at h
  · cases h
  · rw [← Except.ok.inj h]
    exact makeDirectories_spec _

/-- A new file stands at the place where the path leads. -/
theorem replace_spec {t' : FileTree} (h : t.replace p content = .ok t') :
    t' = t.put (Path.components (Path.absolute t.workDir p)) (.file content) := by
  unfold replace at h
  split at h
  · cases h
  · next place hplace =>
    rw [← components_of_locate hplace]
    split at h
    · cases h
    · cases h
      rfl
    · split at h
      · cases h
      · cases h
        rfl
    · cases h
    · cases h

end FileTree

end Netlist
