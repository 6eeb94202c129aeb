import Netlist.Import.Graph
import Netlist.Proofs.Related
import Netlist.Proofs.Text.Split
import Netlist.Source.Interner

/-!
# What references mean

A reference mentions a name of its own file, or a name of the file that a namespace is bound to
(`Mentions`).  It resolves when the documents declare that name exactly once in that file, and
otherwise one error says what is the matter (`Blames`).

The tables of a symbol base follow the documents that were added (`SymbolBase.Lists`): adding a
document of a new file keeps this up (`SymbolBase.Lists.add`), and so do all documents one after the
other.  Each look-up reads one table only.
-/

namespace Netlist

/-! ## Declarations -/

/-- The definitions of a document: modules before devices, each in the order of the file. -/
def Document.definitions (d : Document) : List Definition :=
  d.modules.map .module_ ++ d.devices.map .device

/-- What documents declare with a name in a file. -/
def declared (docs : List Document) (file : FileId) (name : String) : List Definition :=
  (docs.filter (·.file == file)).flatMap fun d => d.definitions.filter (·.name.text == name)

/-- What a symbol stands for, and where. -/
def Symbol.declaration (s : Symbol) : FileId × Definition := (s.file, s.definition)

/-- The declarations of documents, in order. -/
def declarations (docs : List Document) : List (FileId × Definition) :=
  docs.flatMap fun d => d.definitions.map (d.file, ·)

/-- A table with a symbol for each definition of a document. -/
structure SymbolTable.Lists (t : SymbolTable) (d : Document) : Prop where
  file : t.file = d.file
  symbols : t.symbols.map Symbol.declaration = d.definitions.map (d.file, ·)

namespace SymbolBase

/-- The symbols of all files, in order. -/
def symbols (b : SymbolBase) : List Symbol := b.tables.flatMap (·.symbols)

/-- A table for each document, in order. -/
def Lists (b : SymbolBase) (docs : List Document) : Prop :=
  List.Forall₂ SymbolTable.Lists b.tables docs

theorem declare_declarations (file : FileId) (definitions : List Definition) :
    ∀ (before : List Symbol) (alloc : Allocator),
      (declare file before alloc definitions).value.1.map Symbol.declaration =
        before.map Symbol.declaration ++ definitions.map (file, ·) := by
  induction definitions with
  | nil =>
      intro before alloc
      simp [declare]
  | cons d definitions ih =>
      intro before alloc
      -- a repeated name is reported, and makes no difference
      have hnext : ∀ (id : Ident) (alloc : Allocator),
          (declare file (before ++ [⟨id, file, d⟩]) alloc definitions).value.1.map
              Symbol.declaration =
            before.map Symbol.declaration ++ (d :: definitions).map (file, ·) := by
        intro id alloc
        rw [ih]
        simp [Symbol.declaration]
      rw [declare]
      dsimp only
      split
      · exact hnext _ _
      · exact hnext _ _

/-- A document of a new file adds a table. -/
theorem Lists.add {b : SymbolBase} {docs : List Document} {d : Document} (h : b.Lists docs)
    (hnew : d.file ∉ docs.map (·.file)) (alloc : Allocator) :
    (b.add alloc d).value.1.Lists (docs ++ [d]) := by
  have hnone : b.table? d.file = none := by
    rw [table?, List.find?_eq_none]
    intro t ht hfile
    obtain ⟨d', hd', hlists⟩ := forall₂_exists_of_mem h ht
    rw [beq_iff_eq, hlists.file] at hfile
    exact hnew (hfile ▸ List.mem_map_of_mem hd')
  rw [SymbolBase.add, hnone]
  refine List.rel_append h (.cons ⟨rfl, ?_⟩ .nil)
  exact declare_declarations d.file d.definitions [] alloc

theorem Lists.declareAll {docs : List Document} {b : SymbolBase} {before : List Document}
    (h : b.Lists before) (alloc : Allocator)
    (hdistinct : ((before ++ docs).map (·.file)).Nodup) :
    (Import.declareAll b alloc docs).value.1.Lists (before ++ docs) := by
  induction docs generalizing b before alloc with
  | nil => rwa [List.append_nil]
  | cons d docs ih =>
      have hnew : d.file ∉ before.map (·.file) := by
        rw [List.map_append, List.map_cons] at hdistinct
        exact fun hmem => List.disjoint_of_nodup_append hdistinct hmem (List.mem_cons_self ..)
      rw [List.append_cons] at hdistinct ⊢
      exact ih (h.add hnew alloc) _ hdistinct

theorem lists_declareAll {docs : List Document} (hdistinct : (docs.map (·.file)).Nodup)
    (alloc : Allocator) : (Import.declareAll {} alloc docs).value.1.Lists docs := by
  have hempty : Lists {} [] := .nil
  exact hempty.declareAll alloc hdistinct

/-! ## Look-ups -/

theorem filter_file_eq {docs : List Document} (hdistinct : (docs.map (·.file)).Nodup)
    (file : FileId) :
    docs.filter (·.file == file) = (docs.find? (·.file == file)).toList := by
  induction docs with
  | nil => rfl
  | cons d docs ih =>
      rw [List.map_cons, List.nodup_cons] at hdistinct
      rw [List.filter_cons, List.find?_cons]
      cases hfile : d.file == file with
      | false => simpa using ih hdistinct.2
      | true =>
          have hrest : docs.filter (·.file == file) = [] := by
            rw [List.filter_eq_nil_iff]
            intro d' hd' hfile'
            rw [beq_iff_eq] at hfile hfile'
            exact hdistinct.1 (hfile.trans hfile'.symm ▸ List.mem_map_of_mem hd')
          simp [hrest]

section Lists

variable {b : SymbolBase} {docs : List Document} (h : b.Lists docs)

include h

theorem Lists.symbols_eq : b.symbols.map Symbol.declaration = declarations docs := by
  rw [Lists] at h
  rw [symbols, declarations]
  generalize b.tables = tables at h
  induction h with
  | nil => rfl
  | cons htable _ ih =>
      rw [List.flatMap_cons, List.map_append, htable.symbols, ih, List.flatMap_cons]

variable (hdistinct : (docs.map (·.file)).Nodup) (file : FileId) (name : String)

include hdistinct

/-- The symbols that a look-up finds are those of the declarations with the name. -/
theorem Lists.lookup_eq :
    (b.lookup file name).map Symbol.declaration = (declared docs file name).map (file, ·) := by
  rw [declared, filter_file_eq hdistinct, lookup, table?]
  rcases forall₂_find? (p := (·.file == file)) (q := (·.file == file)) h
    (fun t d hlists => by rw [hlists.file]) with ⟨htable, hdoc⟩ | ⟨t, d, htable, hdoc, hlists⟩
  · rw [htable, hdoc]
    rfl
  · obtain rfl : d.file = file := by simpa using List.find?_some hdoc
    have hfilter : (t.symbols.map Symbol.declaration).filter (·.2.name.text == name) =
        (d.definitions.map (d.file, ·)).filter (·.2.name.text == name) := by rw [hlists.symbols]
    rw [List.filter_map, List.filter_map] at hfilter
    rw [htable, hdoc, Option.toList_some, List.flatMap_singleton]
    exact hfilter

theorem Lists.definitions_eq :
    (b.lookup file name).map Symbol.definition = declared docs file name := by
  have hsecond := congrArg (List.map Prod.snd) (h.lookup_eq hdistinct file name)
  rwa [List.map_map, List.map_map, Function.comp_def, Function.comp_def, List.map_id'] at hsecond

variable {file} {name}

theorem Lists.file_eq {s : Symbol} (hs : s ∈ b.lookup file name) : s.file = file := by
  have hmem := List.mem_map_of_mem (f := Symbol.declaration) hs
  rw [h.lookup_eq hdistinct] at hmem
  obtain ⟨_, _, heq⟩ := List.mem_map.mp hmem
  exact (congrArg Prod.fst heq).symm

end Lists

theorem lookup_sublist (b : SymbolBase) (file : FileId) (name : String) :
    (b.lookup file name).Sublist b.symbols := by
  rw [lookup]
  split
  · next t ht =>
    have htable : t.symbols.Sublist b.symbols := List.sublist_flatten_of_mem
      (List.mem_map_of_mem (f := SymbolTable.symbols) (List.mem_of_find?_eq_some ht))
    exact List.filter_sublist.trans htable
  · exact List.nil_sublist _

theorem name_eq_of_lookup {b : SymbolBase} {file : FileId} {name : String} {s : Symbol}
    (h : s ∈ b.lookup file name) : s.name = name := by
  rw [lookup] at h
  split at h
  · exact beq_iff_eq.mp (List.mem_filter.mp h).2
  · cases h

end SymbolBase

/-! ## Mentions -/

/-- A token in a file mentions a name of a file: of its own, or of one that a namespace is
bound to. -/
inductive Mentions (bindings : Bindings) (file : FileId) : String → FileId → String → Prop
  | own {name : String} (hname : '.' ∉ name.toList) : Mentions bindings file name file name
  | imported {ns name : String} {target : FileId} (hns : ns ≠ "") (hns' : '.' ∉ ns.toList)
      (hname : name ≠ "") (hname' : '.' ∉ name.toList) (hbound : bindings file ns = some target) :
      Mentions bindings file (ns ++ "." ++ name) target name

section Mentions

variable {bindings : Bindings} {file target target' : FileId} {token name name' : String}

theorem splitOn_qualified {ns name : String} (hns : '.' ∉ ns.toList) (hname : '.' ∉ name.toList) :
    (ns ++ "." ++ name).toList.splitOn '.' = [ns.toList, name.toList] := by
  rw [← Text.splitOn_pair hns hname]
  simp

/-- Mentions, read off the pieces between the points. -/
theorem mentions_iff : Mentions bindings file token target name ↔
    (token.toList.splitOn '.' = [name.toList] ∧ target = file) ∨
      ∃ ns : String, token.toList.splitOn '.' = [ns.toList, name.toList] ∧ ns ≠ "" ∧ name ≠ "" ∧
        bindings file ns = some target := by
  constructor
  · intro h
    cases h with
    | own hname => exact .inl ⟨List.splitOn_eq_singleton hname, rfl⟩
    | @imported ns _ _ hns hns' hname hname' hbound =>
        exact .inr ⟨ns, splitOn_qualified hns' hname', hns, hname, hbound⟩
  · have hjoin : ['.'].intercalate (token.toList.splitOn '.') = token.toList :=
      List.intercalate_splitOn '.'
    have hfree : ∀ piece ∈ token.toList.splitOn '.', '.' ∉ piece := fun _ =>
      Text.not_mem_of_mem_splitOn
    rintro (⟨hsplit, rfl⟩ | ⟨ns, hsplit, hns, hname, hbound⟩)
    · rw [hsplit] at hjoin hfree
      obtain rfl : name = token := String.toList_injective (by simpa using hjoin)
      exact .own (hfree _ (List.mem_singleton_self _))
    · rw [hsplit] at hjoin hfree
      obtain rfl : ns ++ "." ++ name = token := String.toList_injective (by simpa using hjoin)
      exact .imported hns (hfree _ (by simp)) hname (hfree _ (by simp)) hbound

theorem Mentions.unique (h : Mentions bindings file token target name)
    (h' : Mentions bindings file token target' name') : target' = target ∧ name' = name := by
  rcases mentions_iff.mp h with ⟨hsplit, rfl⟩ | ⟨ns, hsplit, -, -, hbound⟩ <;>
  rcases mentions_iff.mp h' with ⟨hsplit', rfl⟩ | ⟨ns', hsplit', -, -, hbound'⟩ <;>
  rw [hsplit] at hsplit' <;>
  simp only [List.cons.injEq, String.toList_inj, reduceCtorEq, and_true, and_false] at hsplit'
  · exact ⟨rfl, hsplit'.symm⟩
  · obtain ⟨rfl, rfl⟩ := hsplit'
    exact ⟨Option.some.inj (hbound'.symm.trans hbound), rfl⟩

/-- A token that mentions a name means what is found under it. -/
theorem Mentions.find_eq (h : Mentions bindings file token target name) :
    ∃ noMatch : RefProblem, noMatch.notes = [] ∧
      (noMatch.code = if '.' ∈ token.toList then .unresolvedQualifiedReference
        else .unresolvedReference) ∧
      ∀ b : SymbolBase,
        b.find bindings file token = single token noMatch (b.lookup target name) := by
  cases h with
  | own hname =>
      refine ⟨.unresolved token, rfl, by rw [if_neg hname]; rfl, fun b => ?_⟩
      rw [SymbolBase.find, List.splitOn_eq_singleton hname]
  | @imported ns _ _ hns hns' hname hname' hbound =>
      refine ⟨.notInNamespace (ns ++ "." ++ name) ns name, rfl, by rw [if_pos (by simp)]; rfl,
        fun b => ?_⟩
      rw [SymbolBase.find, splitOn_qualified hns' hname']
      simp [hns, hname, hbound]

/-- A token that mentions nothing is qualified, and is an error. -/
theorem find_eq_of_not_mentions (h : ∀ target name, ¬ Mentions bindings file token target name) :
    '.' ∈ token.toList ∧ ∃ problem : RefProblem, problem.notes = [] ∧
      problem.code = .unresolvedQualifiedReference ∧
      ∀ b : SymbolBase, b.find bindings file token = .error problem := by
  have hpoint : '.' ∈ token.toList := by
    by_contra hpoint
    exact h file token (.own hpoint)
  refine ⟨hpoint, ?_⟩
  cases hsplit : token.toList.splitOn '.' with
  | nil => exact absurd hsplit (List.splitOn_ne_nil _ _)
  | cons first rest =>
      cases rest with
      | nil =>
          have hown : Mentions bindings file token file (String.ofList first) :=
            mentions_iff.mpr (.inl ⟨by rw [hsplit, String.toList_ofList], rfl⟩)
          exact absurd hown (h _ _)
      | cons second more =>
          cases more with
          | nil =>
              by_cases hempty : first = [] ∨ second = []
              · refine ⟨.malformed token, rfl, rfl, fun b => ?_⟩
                rw [SymbolBase.find, hsplit]
                simp [hempty]
              · cases hbound : bindings file (String.ofList first) with
                | none =>
                    refine ⟨.unboundNamespace token (String.ofList first), rfl, rfl, fun b => ?_⟩
                    rw [SymbolBase.find, hsplit]
                    simp [hempty, hbound]
                | some target =>
                    rw [not_or] at hempty
                    have himported : Mentions bindings file token target (String.ofList second) :=
                      mentions_iff.mpr (.inr ⟨String.ofList first, by simp [hsplit],
                        by simpa using hempty.1, by simpa using hempty.2, hbound⟩)
                    exact absurd himported (h _ _)
          | cons third more =>
              refine ⟨.malformed token, rfl, rfl, fun b => ?_⟩
              rw [SymbolBase.find, hsplit]

/-- What a reference gives, over the symbols that a base has under the name it mentions. -/
inductive Answered (bindings : Bindings) (file : FileId) (token : String) (noMatch : RefProblem)
    (b : SymbolBase) (span : Span) : Logged (Option Symbol) → Prop
  | one {target : FileId} {name : String} {s : Symbol}
      (h : Mentions bindings file token target name) (hone : b.lookup target name = [s]) :
      Answered bindings file token noMatch b span ⟨some s, []⟩
  | several {target : FileId} {name : String} (h : Mentions bindings file token target name)
      (hmany : 2 ≤ (b.lookup target name).length) :
      Answered bindings file token noMatch b span
        ⟨none, [(RefProblem.ambiguous token (b.lookup target name)).at_ span]⟩
  | nothing (h : ∀ target name, Mentions bindings file token target name →
      b.lookup target name = []) :
      Answered bindings file token noMatch b span ⟨none, [noMatch.at_ span]⟩

/-- Every base gives an answer.  The problem with a name that is not there does not depend on the
base. -/
theorem exists_answered (bindings : Bindings) (file : FileId) (token : String) :
    ∃ noMatch : RefProblem, noMatch.notes = [] ∧
      (noMatch.code = if '.' ∈ token.toList then .unresolvedQualifiedReference
        else .unresolvedReference) ∧
      ∀ (b : SymbolBase) (span : Span), Answered bindings file token noMatch b span
        (b.resolve bindings file token span) := by
  by_cases hmention : ∃ target name, Mentions bindings file token target name
  · obtain ⟨target, name, h⟩ := hmention
    obtain ⟨noMatch, hnotes, hcode, hfind⟩ := h.find_eq
    refine ⟨noMatch, hnotes, hcode, fun b span => ?_⟩
    rw [SymbolBase.resolve, hfind b]
    cases hlookup : b.lookup target name with
    | nil =>
        refine .nothing fun target' name' h' => ?_
        obtain ⟨rfl, rfl⟩ := h.unique h'
        exact hlookup
    | cons s rest =>
        cases rest with
        | nil => exact .one h hlookup
        | cons s' rest =>
            rw [← hlookup]
            have hmany : 2 ≤ (b.lookup target name).length := by simp [hlookup]
            have hsingle : single token noMatch (b.lookup target name) =
                .error (.ambiguous token (b.lookup target name)) := by rw [hlookup]; rfl
            rw [hsingle]
            exact .several h hmany
  · have hnone : ∀ target name, ¬ Mentions bindings file token target name := by
      simpa using hmention
    obtain ⟨hpoint, problem, hnotes, hcode, hfind⟩ := find_eq_of_not_mentions hnone
    refine ⟨problem, hnotes, by rw [if_pos hpoint, hcode], fun b span => ?_⟩
    rw [SymbolBase.resolve, hfind b]
    exact .nothing fun target name h => absurd h (hnone target name)

end Mentions

/-! ## Names by number -/

namespace Interner

/-- The numbers after some more names. -/
def internAll (t : Interner) (names : List String) : Interner :=
  names.foldl (fun t name => (t.intern name).2) t

theorem find?_isSome_iff {t : Interner} {name : String} :
    (t.find? name).isSome = true ↔ name ∈ t.names := by
  simp [find?]

theorem find?_injective {t : Interner} {name name' : String} {n : Nat} (h : t.find? name = some n)
    (h' : t.find? name' = some n) : name = name' := by
  rw [find?, List.idxOf?, List.findIdx?_eq_some_iff_getElem] at h h'
  obtain ⟨_, hname, -⟩ := h
  obtain ⟨_, hname', -⟩ := h'
  rw [beq_iff_eq] at hname hname'
  exact hname.symm.trans hname'

theorem names_intern (t : Interner) (name : String) :
    t.names ⊆ (t.intern name).2.names ∧ name ∈ (t.intern name).2.names := by
  rw [intern]
  split
  · next n hfound => exact ⟨List.Subset.refl _, find?_isSome_iff.mp (by simp [hfound])⟩
  · exact ⟨List.subset_append_left .., by simp⟩

/-- The number that a name gets is the number of the name. -/
theorem lookup_intern (t : Interner) (name : String) :
    (t.intern name).2.lookup (t.intern name).1 = .ok name := by
  have hname : (t.intern name).2.lookup? (t.intern name).1 = some name := by
    rw [intern]
    split
    · next n hfound =>
      rw [find?, List.idxOf?, List.findIdx?_eq_some_iff_getElem] at hfound
      obtain ⟨hn, heq, -⟩ := hfound
      rw [lookup?, List.getElem?_eq_getElem hn, beq_iff_eq.mp heq]
    · exact List.getElem?_concat_length
  rw [lookup, hname]

theorem names_internAll (names : List String) : ∀ t : Interner,
    t.names ⊆ (t.internAll names).names ∧ names ⊆ (t.internAll names).names := by
  induction names with
  | nil => exact fun t => ⟨List.Subset.refl _, List.nil_subset _⟩
  | cons name names ih =>
      intro t
      obtain ⟨hkeep, hnew⟩ := names_intern t name
      obtain ⟨hkeep', hnew'⟩ := ih (t.intern name).2
      exact ⟨List.Subset.trans hkeep hkeep', List.cons_subset.mpr ⟨hkeep' hnew, hnew'⟩⟩

end Interner

/-- The symbols of a file with a name, when names are compared by number. -/
def SymbolBase.lookupNumbered (b : SymbolBase) (numbers : Interner) (file : FileId)
    (name : String) : List Symbol :=
  match numbers.find? name, b.table? file with
  | some n, some t => t.symbols.filter fun s => numbers.find? s.name == some n
  | _, _ => []

theorem SymbolBase.lookupNumbered_eq {b : SymbolBase} {numbers : Interner}
    (h : ∀ s ∈ b.symbols, s.name ∈ numbers.names) (file : FileId) (name : String) :
    b.lookupNumbered numbers file name = b.lookup file name := by
  rw [lookupNumbered, lookup]
  cases htable : b.table? file with
  | none => cases numbers.find? name <;> rfl
  | some t =>
      have hfound : ∀ s ∈ t.symbols, (numbers.find? s.name).isSome = true := fun s hs =>
        Interner.find?_isSome_iff.mpr
          (h s (List.mem_flatMap.mpr ⟨t, List.mem_of_find?_eq_some htable, hs⟩))
      cases hn : numbers.find? name with
      | none =>
          refine (List.filter_eq_nil_iff.mpr fun s hs hname => ?_).symm
          have hsome := hfound s hs
          rw [beq_iff_eq.mp hname, hn] at hsome
          cases hsome
      | some n =>
          refine List.filter_congr fun s _ => ?_
          rw [Bool.eq_iff_iff, beq_iff_eq, beq_iff_eq]
          exact ⟨fun hs => Interner.find?_injective hs hn, fun hs => by rw [hs, hn]⟩

/-! ## References and declarations -/

/-- The error for a token that does not mean one declaration, and the declarations among which
it does not decide. -/
inductive Blames (docs : List Document) (bindings : Bindings) (file : FileId) (token : String) :
    Code → List Definition → Prop
  | unresolved (hpoint : '.' ∉ token.toList) (hnone : declared docs file token = []) :
      Blames docs bindings file token .unresolvedReference []
  | ambiguous {target : FileId} {name : String} (h : Mentions bindings file token target name)
      (hmany : 2 ≤ (declared docs target name).length) :
      Blames docs bindings file token .ambiguousReference (declared docs target name)
  | unresolvedQualified (hpoint : '.' ∈ token.toList)
      (hnone : ∀ target name, Mentions bindings file token target name →
        declared docs target name = []) :
      Blames docs bindings file token .unresolvedQualifiedReference []

/-- A diagnostic without the wording of its notes, which names identifiers. -/
def Diagnostic.unworded (d : Diagnostic) : Diagnostic :=
  { d with notes := d.notes.map fun n => ⟨n.span, ""⟩ }

/-- The remark on a symbol that a reference could mean. -/
def candidateNote (s : Symbol) : Note :=
  ⟨s.span, .text ("candidate " ++ s.definition.kindName ++ " " ++ s.id.text)⟩

section

variable {bindings : Bindings} {file : FileId} {token : String}

theorem unworded_ambiguous {candidates candidates' : List Symbol}
    (h : candidates'.map Symbol.declaration = candidates.map Symbol.declaration) (span : Span) :
    ((RefProblem.ambiguous token candidates').at_ span).unworded =
      ((RefProblem.ambiguous token candidates).at_ span).unworded := by
  have hlength : candidates'.length = candidates.length := by simpa using congrArg List.length h
  have hmessage : (RefProblem.ambiguous token candidates').message =
      (RefProblem.ambiguous token candidates).message :=
    congrArg (fun n => "ambiguous reference " ++ Text.quoted token ++ " matches " ++
      Decimal.ofNat n ++ " declarations") hlength
  have hnotes : ∀ candidates,
      (RefProblem.ambiguous token candidates).notes.map (fun n => (⟨n.span, ""⟩ : Note)) =
        (candidates.map Symbol.declaration).map fun p => ⟨p.2.name.span, ""⟩ := by
    intro candidates
    rw [RefProblem.notes, List.map_map, List.map_map]
    rfl
  have hspans := (hnotes candidates').trans ((congrArg _ h).trans (hnotes candidates).symm)
  rw [Diagnostic.unworded, Diagnostic.unworded, RefProblem.at_, RefProblem.at_, hmessage]
  exact congrArg (Diagnostic.mk _ _ _ _) hspans

/-- Bases with the same declarations under the name that a reference mentions give the same
answer, up to identifiers. -/
theorem resolve_congr {b b' : SymbolBase}
    (h : ∀ target name, Mentions bindings file token target name →
      (b'.lookup target name).map Symbol.declaration =
        (b.lookup target name).map Symbol.declaration) (span : Span) :
    (b'.resolve bindings file token span).value.map Symbol.declaration =
        (b.resolve bindings file token span).value.map Symbol.declaration ∧
      (b'.resolve bindings file token span).log.map Diagnostic.unworded =
        (b.resolve bindings file token span).log.map Diagnostic.unworded := by
  rw [SymbolBase.resolve, SymbolBase.resolve]
  by_cases hmention : ∃ target name, Mentions bindings file token target name
  · obtain ⟨target, name, hmention⟩ := hmention
    obtain ⟨noMatch, -, -, hfind⟩ := hmention.find_eq
    have hmap := h target name hmention
    rw [hfind, hfind]
    generalize b.lookup target name = found at hmap
    generalize b'.lookup target name = found' at hmap
    cases found with
    | nil =>
        rw [List.map_nil, List.map_eq_nil_iff] at hmap
        rw [hmap]
        exact ⟨rfl, rfl⟩
    | cons s rest =>
        obtain ⟨s', rest', rfl, hs, hrest⟩ := List.map_eq_cons_iff.mp hmap
        cases rest with
        | nil =>
            rw [List.map_nil, List.map_eq_nil_iff] at hrest
            rw [hrest]
            exact ⟨congrArg some hs, rfl⟩
        | cons t rest =>
            obtain ⟨t', rest', rfl, -, -⟩ := List.map_eq_cons_iff.mp hrest
            exact ⟨rfl, congrArg ([·]) (unworded_ambiguous hmap span)⟩
  · obtain ⟨-, problem, -, -, hfind⟩ :=
      find_eq_of_not_mentions (by simpa using hmention : ∀ target name, ¬ Mentions ..)
    rw [hfind, hfind]
    exact ⟨rfl, rfl⟩

variable {b : SymbolBase} {docs : List Document} (hlists : b.Lists docs)
  (hdistinct : (docs.map (·.file)).Nodup) (span : Span)

include hlists hdistinct

theorem isSome_resolve_iff : (b.resolve bindings file token span).value.isSome = true ↔
    ∃ target name d, Mentions bindings file token target name ∧
      declared docs target name = [d] := by
  have hdefinitions := hlists.definitions_eq hdistinct
  obtain ⟨noMatch, -, -, hanswered⟩ := exists_answered bindings file token
  have hresult := hanswered b span
  generalize b.resolve bindings file token span = result at hresult
  cases hresult with
  | @one target name s h hone =>
      refine iff_of_true rfl ⟨target, name, s.definition, h, ?_⟩
      rw [← hdefinitions, hone, List.map_singleton]
  | several h hmany =>
      refine iff_of_false Bool.false_ne_true ?_
      rintro ⟨target, name, d, h', hone⟩
      obtain ⟨rfl, rfl⟩ := h.unique h'
      have hlength := congrArg List.length hone
      rw [← hdefinitions, List.length_map, List.length_singleton] at hlength
      omega
  | nothing hnone =>
      refine iff_of_false Bool.false_ne_true ?_
      rintro ⟨target, name, d, h, hone⟩
      rw [← hdefinitions, hnone target name h] at hone
      cases hone

theorem declared_of_resolve {s : Symbol}
    (hs : (b.resolve bindings file token span).value = some s) :
    (b.resolve bindings file token span).log = [] ∧ s ∈ b.symbols ∧
      Mentions bindings file token s.file s.name ∧
      declared docs s.file s.name = [s.definition] := by
  obtain ⟨noMatch, -, -, hanswered⟩ := exists_answered bindings file token
  have hresult := hanswered b span
  generalize b.resolve bindings file token span = result at hresult hs
  cases hresult with
  | @one target name s' h hone =>
      obtain rfl : s' = s := Option.some.inj hs
      have hmem : s' ∈ b.lookup target name := by rw [hone]; exact List.mem_singleton_self s'
      rw [hlists.file_eq hdistinct hmem, SymbolBase.name_eq_of_lookup hmem]
      refine ⟨rfl, (b.lookup_sublist target name).subset hmem, h, ?_⟩
      rw [← hlists.definitions_eq hdistinct, hone, List.map_singleton]
  | several => cases hs
  | nothing => cases hs

theorem blames_of_resolve (hnone : (b.resolve bindings file token span).value = none) :
    ∃ (e : Diagnostic) (candidates : List Symbol),
      (b.resolve bindings file token span).log = [e] ∧ e.severity = .error ∧ e.span = span ∧
      Blames docs bindings file token e.code (candidates.map Symbol.definition) ∧
      candidates.Sublist b.symbols ∧
      (∀ s ∈ candidates, Mentions bindings file token s.file s.name) ∧
      e.notes = candidates.map candidateNote := by
  have hdefinitions := hlists.definitions_eq hdistinct
  obtain ⟨noMatch, hnotes, hcode, hanswered⟩ := exists_answered bindings file token
  have hresult := hanswered b span
  generalize b.resolve bindings file token span = result at hresult hnone
  cases hresult with
  | one => cases hnone
  | @several target name h hmany =>
      refine ⟨_, b.lookup target name, rfl, rfl, rfl, ?_, b.lookup_sublist target name,
        fun s hs => ?_, rfl⟩
      · rw [hdefinitions]
        refine .ambiguous h ?_
        rwa [← hdefinitions, List.length_map]
      · rwa [hlists.file_eq hdistinct hs, SymbolBase.name_eq_of_lookup hs]
  | nothing h =>
      have hempty : ∀ target name, Mentions bindings file token target name →
          declared docs target name = [] := fun target name hmention => by
        rw [← hdefinitions, h target name hmention, List.map_nil]
      refine ⟨_, [], rfl, rfl, rfl, ?_, List.nil_sublist _, by simp, hnotes⟩
      show Blames docs bindings file token noMatch.code []
      rw [hcode]
      split
      · next hpoint => exact .unresolvedQualified hpoint hempty
      · next hpoint => exact .unresolved hpoint (hempty file token (.own hpoint))

end

/-- References mean what the documents of different files declare.  A reference resolves exactly
when the name that it mentions is declared once in its file, to the symbol of that declaration and
without a report.  Otherwise there is one error, whose notes are the candidates in the order of
their declarations.  Documents of other files make no difference, except to the numbers in
identifiers, and neither does it matter whether names are compared by their numbers in an
interner that all files share. -/
theorem resolve_follows_declarations {docs : List Document}
    (hdistinct : (docs.map (·.file)).Nodup) (alloc : Allocator) (bindings : Bindings)
    (file : FileId) (token : String) (span : Span) :
    let base := (Import.declareAll {} alloc docs).value.1
    let result := base.resolve bindings file token span
    base.symbols.map Symbol.declaration = declarations docs ∧
    (result.value.isSome = true ↔
      ∃ target name d, Mentions bindings file token target name ∧ declared docs target name = [d]) ∧
    (∀ s ∈ result.value, result.log = [] ∧ s ∈ base.symbols ∧
      Mentions bindings file token s.file s.name ∧ declared docs s.file s.name = [s.definition]) ∧
    (result.value = none → ∃ (e : Diagnostic) (candidates : List Symbol), result.log = [e] ∧
      e.severity = .error ∧ e.span = span ∧
      Blames docs bindings file token e.code (candidates.map Symbol.definition) ∧
      candidates.Sublist base.symbols ∧
      (∀ s ∈ candidates, Mentions bindings file token s.file s.name) ∧
      e.notes = candidates.map candidateNote) ∧
    (∀ docs' alloc', (docs'.map (·.file)).Nodup →
      (∀ target name, Mentions bindings file token target name →
        docs'.filter (·.file == target) = docs.filter (·.file == target)) →
      let result' := (Import.declareAll {} alloc' docs').value.1.resolve bindings file token span
      result'.value.map Symbol.declaration = result.value.map Symbol.declaration ∧
        result'.log.map Diagnostic.unworded = result.log.map Diagnostic.unworded) ∧
    (∀ (numbers : Interner) (target : FileId) (name : String),
      base.lookupNumbered (numbers.internAll ((declarations docs).map (·.2.name.text)))
        target name = base.lookup target name) := by
  intro base result
  have hlists : base.Lists docs := SymbolBase.lists_declareAll hdistinct alloc
  refine ⟨hlists.symbols_eq, isSome_resolve_iff hlists hdistinct span,
    fun s => declared_of_resolve hlists hdistinct span, blames_of_resolve hlists hdistinct span,
    fun docs' alloc' hdistinct' hsame => resolve_congr (fun target name h => ?_) span,
    fun numbers => SymbolBase.lookupNumbered_eq fun s hs => ?_⟩
  · have hlists' := SymbolBase.lists_declareAll hdistinct' alloc'
    rw [hlists'.lookup_eq hdistinct', hlists.lookup_eq hdistinct, declared, declared,
      hsame target name h]
  · refine (Interner.names_internAll _ numbers).2 ?_
    rw [← hlists.symbols_eq, List.map_map]
    exact List.mem_map_of_mem hs

/-- A library that declares a name twice, and a file with a namespace for it. -/
def sharedNames : List Document :=
  [{ file := 0, path := "main.yaml", modules := [{ name := ⟨"res", ⟨0, 9, 12⟩⟩ }] },
    { file := 1, path := "lib.yaml"
      modules := [{ name := ⟨"x", ⟨1, 9, 10⟩⟩ }]
      devices := [{ name := ⟨"res", ⟨1, 20, 23⟩⟩ }, { name := ⟨"x", ⟨1, 30, 31⟩⟩ }] }]

theorem resolve_follows_declarations_sharedNames :
    let bindings : Bindings := fun file ns => if file == 0 && ns == "std" then some 1 else none
    let base := (Import.declareAll {} {} sharedNames).value.1
    (sharedNames.map (·.file)).Nodup ∧
      (∀ span, (base.resolve bindings 0 "std.res" span).value.isSome = true) ∧
      ∀ span, ∃ (e : Diagnostic) (candidates : List Symbol),
        (base.resolve bindings 0 "std.x" span).log = [e] ∧
        Blames sharedNames bindings 0 "std.x" e.code (candidates.map Symbol.definition) ∧
        e.notes = candidates.map candidateNote := by
  intro bindings base
  have hdistinct : (sharedNames.map (·.file)).Nodup := by decide
  refine ⟨hdistinct, fun span => ?_, fun span => ?_⟩
  · obtain ⟨-, hsome, -⟩ :=
      resolve_follows_declarations hdistinct {} bindings 0 "std.res" span
    have hmention : Mentions bindings 0 ("std" ++ "." ++ "res") 1 "res" :=
      .imported (by decide) (by decide) (by decide) (by decide) rfl
    exact hsome.mpr ⟨1, "res", _, hmention, rfl⟩
  · obtain ⟨-, -, -, hnone, -⟩ :=
      resolve_follows_declarations hdistinct {} bindings 0 "std.x" span
    obtain ⟨e, candidates, hlog, -, -, hblames, -, -, hnotes⟩ := hnone rfl
    exact ⟨e, candidates, hlog, hblames, hnotes⟩

end Netlist
