import Netlist.Proofs.Elaborate.Outcome
import Netlist.Proofs.Import.Resolve
import Netlist.Proofs.MessagePack.Scalar
import Netlist.Proofs.Related

/-!
# What a key covers

The key of a result is taken of the limit for atoms and of the paths and contents of the
files, in the order of discovery.  Unless digests collide, graphs with the same key have the
same files (`ImportGraph.sources_of_cacheKey_eq`), hence the same documents, symbols and
identifiers.  The only thing that compiling looks at and the key leaves out is which file
a namespace stands for (`compile_eq_of_cacheKey_eq`).
-/

namespace Netlist

/-! ## Digests -/

theorem Sha256.length_digest (bytes : Bytes) : (Sha256.digest bytes).length = 32 := by
  have hword (w : UInt32) : (bigEndian 4 w.toNat).length = 4 := MessagePack.length_bigEndian 4 _
  simp [Sha256.digest, hword]

theorem Sha256.bigEndian_injective {count m n : Nat} (hm : m < 256 ^ count) (hn : n < 256 ^ count)
    (h : bigEndian count m = bigEndian count n) : m = n := by
  have hvalue (k : Nat) := MessagePack.foldl_bigEndian k count 0
  simp only [MessagePack.bigEndian, Nat.zero_mul, Nat.zero_add] at hvalue
  rw [← Nat.mod_eq_of_lt hm, ← Nat.mod_eq_of_lt hn, ← hvalue, ← hvalue, h]

theorem Digest.littleEndian64_injective {m n : Int} (hm : -2 ^ 63 ≤ m ∧ m < 2 ^ 63)
    (hn : -2 ^ 63 ≤ n ∧ n < 2 ^ 63) (h : littleEndian64 m = littleEndian64 n) : m = n := by
  have hmod := Sha256.bigEndian_injective (by omega) (by omega) (List.reverse_injective h)
  omega

/-- No two inputs at the same place of two lists have the same digest by chance. -/
def Collisionless (xs ys : List Bytes) : Prop :=
  ∀ pair ∈ xs.zip ys, Sha256.digest pair.1 = Sha256.digest pair.2 → pair.1 = pair.2

theorem Collisionless.self : ∀ xs : List Bytes, Collisionless xs xs
  | [], _, hpair => absurd hpair List.not_mem_nil
  | x :: xs, pair, hpair => by
      rcases List.mem_cons.mp hpair with rfl | hpair
      · exact fun _ => rfl
      · exact Collisionless.self xs pair hpair

theorem Collisionless.cons {x y : Bytes} {xs ys : List Bytes}
    (h : Collisionless (x :: xs) (y :: ys)) :
    (Sha256.digest x = Sha256.digest y → x = y) ∧ Collisionless xs ys :=
  ⟨h (x, y) (List.mem_cons_self ..), fun pair hpair => h pair (List.mem_cons_of_mem _ hpair)⟩

/-! ## The files of a graph -/

namespace ImportGraph

/-- The files of a graph, in the order of discovery. -/
def sources (g : ImportGraph) : List SourceFile := g.nodes.filterMap fun n => g.files.get? n.id

/-- What stands for a file in the digest of a graph. -/
def sourceLine (file : SourceFile) : Bytes := Bytes.ofString file.path ++ 0 :: file.digest

/-- What the digest of a graph is taken of. -/
def listing (g : ImportGraph) : Bytes := g.sources.flatMap sourceLine

theorem digest_eq (g : ImportGraph) : g.digest = Sha256.digest g.listing := by
  unfold digest listing sources
  generalize g.nodes = nodes
  refine congrArg Sha256.digest ?_
  induction nodes with
  | nil => rfl
  | cons n nodes ih =>
      rw [List.flatMap_cons, List.filterMap_cons, ih]
      cases g.files.get? n.id with
      | none => rfl
      | some file => simp [sourceLine]

/-- What digests are taken of for the key of a graph: the two halves of the key, the paths
and digests of the files, the limit, and the contents of the files. -/
def hashed (g : ImportGraph) (maxAtoms : Int) : List Bytes :=
  (g.digest ++ Digest.salt [maxAtoms]) :: g.listing :: Digest.littleEndian64 maxAtoms ::
    g.sources.map (·.content)

/-- The graph was made from its files, with identifiers from the first one on. -/
structure Made (parse : TreeParser) (g : ImportGraph) (alloc : Allocator) : Prop where
  documents : g.documents = g.sources.map fun file => (Document.decode file parse).value
  number : ∀ k file, g.sources[k]? = some file → file.id = UInt32.ofNat k
  path : ∀ file ∈ g.sources, Char.ofNat 0 ∉ file.path.toList
  declared : (Import.declareAll {} {} g.documents).value = (g.symbols, alloc)

theorem append_zero_inj : ∀ {a b r s : Bytes}, 0 ∉ a → 0 ∉ b → a ++ 0 :: r = b ++ 0 :: s →
    a = b ∧ r = s
  | [], [], _, _, _, _, h => ⟨rfl, (List.cons.inj h).2⟩
  | [], y :: b, _, _, _, hb, h => by
      rw [← (List.cons.inj h).1] at hb
      exact absurd (List.mem_cons_self ..) hb
  | x :: a, [], _, _, ha, _, h => by
      rw [(List.cons.inj h).1] at ha
      exact absurd (List.mem_cons_self ..) ha
  | x :: a, y :: b, _, _, ha, hb, h => by
      obtain ⟨rfl, hrest⟩ := List.cons.inj h
      obtain ⟨rfl, htail⟩ := append_zero_inj (fun hmem => ha (List.mem_cons_of_mem _ hmem))
        (fun hmem => hb (List.mem_cons_of_mem _ hmem)) hrest
      exact ⟨rfl, htail⟩

/-- Listings are read in one way only, for no path holds the byte that ends it. -/
theorem map_path_digest_of_flatMap_eq : ∀ {xs ys : List SourceFile},
    (∀ file ∈ xs, Char.ofNat 0 ∉ file.path.toList) →
    (∀ file ∈ ys, Char.ofNat 0 ∉ file.path.toList) →
    xs.flatMap sourceLine = ys.flatMap sourceLine →
    xs.map (fun file => (file.path, file.digest)) = ys.map fun file => (file.path, file.digest)
  | [], [], _, _, _ => rfl
  | [], y :: ys, _, _, h => by simp [sourceLine] at h
  | x :: xs, [], _, _, h => by simp [sourceLine] at h
  | x :: xs, y :: ys, hxs, hys, h => by
      have hzero {file : SourceFile} (hfile : Char.ofNat 0 ∉ file.path.toList) :
          0 ∉ Bytes.ofString file.path := fun hmem => hfile (Bytes.zero_mem_ofString hmem)
      simp only [List.flatMap_cons, sourceLine, List.append_assoc, List.cons_append] at h
      obtain ⟨hpath, hrest⟩ := append_zero_inj
        (hzero (hxs x (List.mem_cons_self ..))) (hzero (hys y (List.mem_cons_self ..))) h
      obtain ⟨hdigest, hrest⟩ := List.append_inj hrest
        (by rw [SourceFile.digest, SourceFile.digest, Sha256.length_digest, Sha256.length_digest])
      have ih := map_path_digest_of_flatMap_eq
        (fun file hfile => hxs file (List.mem_cons_of_mem _ hfile))
        (fun file hfile => hys file (List.mem_cons_of_mem _ hfile)) hrest
      rw [List.map_cons, List.map_cons, ih, Bytes.ofString_injective hpath, hdigest]

/-- Files with the same paths and digests have the same contents. -/
theorem map_path_content_of_digest_eq : ∀ {xs ys : List SourceFile},
    Collisionless (xs.map (·.content)) (ys.map (·.content)) →
    xs.map (fun file => (file.path, file.digest)) = ys.map (fun file => (file.path, file.digest)) →
    xs.map (fun file => (file.path, file.content)) = ys.map fun file => (file.path, file.content)
  | [], [], _, _ => rfl
  | [], y :: ys, _, h => by cases h
  | x :: xs, [], _, h => by cases h
  | x :: xs, y :: ys, hcollision, h => by
      rw [List.map_cons, List.map_cons, List.cons.injEq, Prod.mk.injEq] at h
      obtain ⟨⟨hpath, hdigest⟩, hrest⟩ := h
      obtain ⟨hcontent, hcollision⟩ := hcollision.cons
      have hcontent : x.content = y.content := hcontent hdigest
      rw [List.map_cons, List.map_cons, map_path_content_of_digest_eq hcollision hrest, hpath,
        hcontent]

theorem cacheKey_eq (g : ImportGraph) (maxAtoms : Int) :
    cacheKey g maxAtoms = Sha256.digest (g.digest ++ Digest.salt [maxAtoms]) := by
  simp [cacheKey, Digest.combine]

variable {parse : TreeParser} {g₁ g₂ : ImportGraph}

/-- What digests are taken of is a matter of the paths and contents of the files. -/
theorem hashed_congr (maxAtoms : Int) (h : g₁.sources.map (fun file => (file.path, file.content)) =
      g₂.sources.map fun file => (file.path, file.content)) :
    g₁.hashed maxAtoms = g₂.hashed maxAtoms := by
  have hline (g : ImportGraph) : g.listing =
      (g.sources.map fun file => (file.path, file.content)).flatMap fun file =>
        Bytes.ofString file.1 ++ 0 :: Sha256.digest file.2 := by
    rw [listing, List.flatMap_map]
    rfl
  have hcontent (g : ImportGraph) : g.sources.map (·.content) =
      (g.sources.map fun file => (file.path, file.content)).map (·.2) := by
    rw [List.map_map]
    rfl
  rw [hashed, hashed, digest_eq, digest_eq, hline, hline, hcontent, hcontent, h]

theorem cacheKey_congr (maxAtoms : Int)
    (h : g₁.sources.map (fun file => (file.path, file.content)) =
      g₂.sources.map fun file => (file.path, file.content)) :
    cacheKey g₁ maxAtoms = cacheKey g₂ maxAtoms := by
  have hhashed := hashed_congr maxAtoms h
  rw [hashed, hashed, List.cons.injEq] at hhashed
  rw [cacheKey_eq, cacheKey_eq, hhashed.1]

/-- Graphs with the same key have the same limit and the same files. -/
theorem sources_of_cacheKey_eq {alloc₁ alloc₂ : Allocator} {n₁ n₂ : Int}
    (h₁ : g₁.Made parse alloc₁) (h₂ : g₂.Made parse alloc₂) (hn₁ : -2 ^ 63 ≤ n₁ ∧ n₁ < 2 ^ 63)
    (hn₂ : -2 ^ 63 ≤ n₂ ∧ n₂ < 2 ^ 63) (hcollision : Collisionless (g₁.hashed n₁) (g₂.hashed n₂))
    (hkey : cacheKey g₁ n₁ = cacheKey g₂ n₂) :
    n₁ = n₂ ∧ g₁.sources.map (fun file => (file.path, file.content)) =
      g₂.sources.map fun file => (file.path, file.content) := by
  obtain ⟨hhalves, hcollision⟩ := hcollision.cons
  obtain ⟨hlisting, hcollision⟩ := hcollision.cons
  obtain ⟨hlimit, hcollision⟩ := hcollision.cons
  rw [cacheKey_eq, cacheKey_eq] at hkey
  obtain ⟨hdigest, hsalt⟩ := List.append_inj (hhalves hkey)
    (by rw [digest_eq, digest_eq, Sha256.length_digest, Sha256.length_digest])
  rw [digest_eq, digest_eq] at hdigest
  simp only [Digest.salt, List.flatMap_cons, List.flatMap_nil, List.append_nil] at hsalt
  refine ⟨Digest.littleEndian64_injective hn₁ hn₂ (hlimit hsalt), ?_⟩
  exact map_path_content_of_digest_eq hcollision
    (map_path_digest_of_flatMap_eq h₁.path h₂.path (hlisting hdigest))

theorem Made.documents_eq {alloc₁ alloc₂ : Allocator} (h₁ : g₁.Made parse alloc₁)
    (h₂ : g₂.Made parse alloc₂) (h : g₁.sources.map (fun file => (file.path, file.content)) =
      g₂.sources.map fun file => (file.path, file.content)) : g₁.documents = g₂.documents := by
  rw [h₁.documents, h₂.documents]
  refine List.ext_getElem? fun k => ?_
  have hk := congrArg (·[k]?) h
  simp only [List.getElem?_map] at hk ⊢
  cases hx : g₁.sources[k]? with
  | none =>
      rw [hx, Option.map_none, eq_comm, Option.map_eq_none_iff] at hk
      rw [hk]
  | some x =>
      rw [hx, Option.map_some, eq_comm, Option.map_eq_some_iff] at hk
      obtain ⟨y, hy, heq⟩ := hk
      rw [Prod.mk.injEq] at heq
      rw [hy, Option.map_some, Option.map_some,
        Document.decode_congr ((h₁.number k x hx).trans (h₂.number k y hy).symm) heq.1.symm
          heq.2.symm parse]

end ImportGraph

open ImportGraph in
/-- Two graphs with the same key compile to the same, if their namespaces stand for the same
files. -/
theorem compile_eq_of_cacheKey_eq {parse : TreeParser} {g₁ g₂ : ImportGraph}
    {alloc₁ alloc₂ : Allocator} {n₁ n₂ : Int} (h₁ : g₁.Made parse alloc₁)
    (h₂ : g₂.Made parse alloc₂) (hn₁ : -2 ^ 63 ≤ n₁ ∧ n₁ < 2 ^ 63)
    (hn₂ : -2 ^ 63 ≤ n₂ ∧ n₂ < 2 ^ 63) (hcollision : Collisionless (g₁.hashed n₁) (g₂.hashed n₂))
    (hkey : cacheKey g₁ n₁ = cacheKey g₂ n₂) (hbindings : g₁.bindings = g₂.bindings) :
    compile g₁ alloc₁ n₁ = compile g₂ alloc₂ n₂ := by
  obtain ⟨rfl, hsources⟩ := sources_of_cacheKey_eq h₁ h₂ hn₁ hn₂ hcollision hkey
  have hdocuments := h₁.documents_eq h₂ hsources
  have hdeclared := h₁.declared
  rw [hdocuments, h₂.declared, Prod.mk.injEq] at hdeclared
  obtain ⟨hsymbols, rfl⟩ := hdeclared
  have hbuild : buildGraph g₁ alloc₂ = buildGraph g₂ alloc₂ := by
    rw [buildGraph, buildGraph, hdocuments, hsymbols, hbindings]
  rw [compile, compile, hbuild]

/-! ## Resolved graphs -/

namespace Import

variable {parse : TreeParser} {t : FileTree} {roots : List String} {files : FileSet}
  {entry : String} {g : ImportGraph}

theorem declared_of_resolve (hg : (resolve t roots files {} entry parse).value.graph = some g) :
    (declareAll {} {} g.documents).value =
      (g.symbols, (resolve t roots files {} entry parse).value.alloc) := by
  unfold resolve resolveWith at hg ⊢
  dsimp only at hg ⊢
  split at hg
  · cases hg
  · next hcyclic =>
    cases hg
    rw [if_neg hcyclic]
    rfl

theorem no_zero_of_readable {p : String} (h : t.Readable p) : Char.ofNat 0 ∉ p.toList := by
  obtain ⟨content, hread⟩ := h
  obtain ⟨place, hplace, _⟩ := FileTree.exists_entry_of_read hread
  intro hzero
  simp [FileTree.locate, hzero] at hplace

theorem isClean_of_reached {p : String}
    (h : Relation.ReflTransGen (Imports parse t roots) (Path.absolute t.workDir entry) p) :
    Path.IsClean p := by
  rcases Relation.ReflTransGen.cases_tail h with rfl | ⟨q, _, hq⟩
  · exact Path.isClean_absolute entry t.rooted
  · exact hq.isClean

theorem no_zero_of_sourceAt {n : FileNode} {file : SourceFile} (hclean : Path.IsClean n.path)
    (hfile : sourceAt t n.id n.path = some file) : Char.ofNat 0 ∉ file.path.toList := by
  unfold sourceAt at hfile
  split at hfile
  · cases hfile
  · next content hread =>
    cases hfile
    rw [SourceFile.of, hclean.clean_eq]
    exact no_zero_of_readable ⟨content, hread⟩

/-- A graph is given by a search that met no cycle, and has its nodes and files. -/
theorem searched_of_resolve {alloc : Allocator}
    (hg : (resolve t roots files alloc entry parse).value.graph = some g) :
    (searchFrom parse t roots files entry).value.2.cyclic = false ∧
      g.nodes = (searchFrom parse t roots files entry).value.2.nodes ∧
      g.files = (searchFrom parse t roots files entry).value.2.files := by
  have hcyclic : (searchFrom parse t roots files entry).value.2.cyclic = false := by
    by_contra h
    rw [Bool.not_eq_false] at h
    rw [(resolve_of_cyclic alloc h).1] at hg
    cases hg
  obtain ⟨g', hg', hnodes, hfiles, -⟩ := resolve_of_not_cyclic alloc hcyclic
  rw [hg, Option.some.injEq] at hg'
  subst hg'
  exact ⟨hcyclic, hnodes, hfiles⟩

/-- The files of a graph are its nodes' files, each read from its path and decoded there. -/
theorem forall₂_sources {alloc : Allocator} (hempty : files.size = 0)
    (hg : (resolve t roots files alloc entry parse).value.graph = some g)
    (hsize : g.nodes.length ≤ 2 ^ 32) :
    List.Forall₂ (fun n file => sourceAt t n.id n.path = some file ∧
      n.document = (Document.decode file parse).value) g.nodes g.sources := by
  obtain ⟨hcyclic, hnodes, hfiles⟩ := searched_of_resolve hg
  have hs := (advances_of_not_cyclic hcyclic).wellFormed
  have hloaded : ∀ n ∈ g.nodes, ∃ file, sourceAt t n.id n.path = some file ∧
      g.files.get? n.id = some file ∧ n.document = (Document.decode file parse).value := by
    rw [hnodes] at hsize ⊢
    intro n hn
    obtain ⟨k, hk⟩ := List.mem_iff_getElem?.mp hn
    obtain ⟨file, hsource, hfile, hdocument⟩ := (hs.loaded k n hk).source
    rw [hempty, Nat.zero_add] at hfile
    refine ⟨file, hsource, ?_, hdocument⟩
    rw [FileSet.get?, hs.toNat_id hempty hsize hk, hfiles, hfile]
  have hsome : ∀ n ∈ g.nodes, (g.files.get? n.id).isSome = true := by
    intro n hn
    obtain ⟨file, _, hfile, _⟩ := hloaded n hn
    rw [hfile, Option.isSome_some]
  refine List.Forall₂.imp ?_ ((List.forall₂_and_left _ _).mpr ⟨hloaded, forall₂_filterMap hsome⟩)
  rintro n file ⟨⟨file', hsource, hfile', hdocument⟩, hfile⟩
  rw [hfile, Option.some.injEq] at hfile'
  subst hfile'
  exact ⟨hsource, hdocument⟩

/-- The graph of a resolved entry was made from its files. -/
theorem made_of_resolve (hempty : files.size = 0)
    (hg : (resolve t roots files {} entry parse).value.graph = some g)
    (hsize : g.nodes.length ≤ 2 ^ 32) :
    g.Made parse (resolve t roots files {} entry parse).value.alloc := by
  obtain ⟨hcyclic, hnodes, -⟩ := searched_of_resolve hg
  have hsources := forall₂_sources hempty hg hsize
  refine ⟨?_, ?_, ?_, declared_of_resolve hg⟩
  · rw [ImportGraph.documents, ← List.forall₂_eq_eq_eq, List.forall₂_map_left_iff,
      List.forall₂_map_right_iff]
    exact hsources.imp fun _ _ h => h.2
  · intro k file hk
    obtain ⟨n, hn, hsource, _⟩ := forall₂_getElem? hsources hk
    rw [hnodes] at hn
    rw [id_of_sourceAt hsource, ((advances_of_not_cyclic hcyclic).wellFormed.loaded k n hn).id_eq,
      hempty, Nat.zero_add]
  · intro file hfile
    obtain ⟨n, hn, hsource, _⟩ := forall₂_exists_of_mem_right hsources hfile
    rw [hnodes] at hn
    have hreached := (mem_paths_iff hcyclic).mp (List.mem_map_of_mem hn)
    exact no_zero_of_sourceAt (isClean_of_reached hreached.2) hsource

end Import

end Netlist
