import Netlist.Proofs.Diagnostic.Reports
import Netlist.Proofs.Source.Region

/-!
# Where the parts of a document stand

Where a file holds no span outside of a region, what decoding it reports and all parts of its
document are in that region, whatever tree the file has (`Document.ensures_decode`).
-/

namespace Netlist

/-! ## Documents in a region -/

section Within

variable (r : Region)

/-- All entries are in the region. -/
def EntriesWithin (es : List Entry) : Prop := ∀ e ∈ es, e.key.span ∈ r ∧ e.value.span ∈ r

/-- All parts of a device are in the region. -/
structure DeviceDecl.Within (d : DeviceDecl) : Prop where
  name : d.name.span ∈ r
  ports : ∀ p ∈ d.ports, p.span ∈ r
  parameters : EntriesWithin r d.parameters
  backends : ∀ b ∈ d.backends, b.name.span ∈ r ∧ EntriesWithin r b.fields

/-- All parts of a net are in the region. -/
structure NetDecl.Within (n : NetDecl) : Prop where
  name : n.name.span ∈ r
  endpoints : ∀ e ∈ n.endpoints, e.expression.span ∈ r

/-- All parts of default bindings are in the region. -/
structure DefaultDecl.Within (d : DefaultDecl) : Prop where
  ref : d.ref.span ∈ r
  bindings : EntriesWithin r d.bindings

/-- All parts of a module are in the region. -/
structure ModuleDecl.Within (m : ModuleDecl) : Prop where
  name : m.name.span ∈ r
  parameters : EntriesWithin r m.parameters
  vars : EntriesWithin r m.vars
  patterns : EntriesWithin r m.patterns
  instances : EntriesWithin r m.instances
  nets : ∀ n ∈ m.nets, n.Within r
  defaults : ∀ d ∈ m.defaults, d.Within r

/-- All parts of a document are in the region. -/
structure Document.Within (d : Document) : Prop where
  file : Span.fileStart d.file ∈ r
  top : ∀ t ∈ d.top, t.span ∈ r
  imports : EntriesWithin r d.imports
  devices : ∀ v ∈ d.devices, v.Within r
  modules : ∀ m ∈ d.modules, m.Within r

/-- The places that a problem speaks of are in the region. -/
def DocumentProblem.Within : DocumentProblem → Prop
  | duplicateKey _ _ first => first ∈ r
  | _ => True

end Within

variable {r : Region}

theorem DocumentProblem.proper_at {p : DocumentProblem} {span : Span} (hspan : span ∈ r)
    (hp : p.Within r) : (p.at_ span).Proper r := by
  cases p with
  | duplicateKey key what first =>
      exact Diagnostic.proper_error hspan (List.forall_mem_singleton.mpr hp) (by decide)
  | unknownField => exact Diagnostic.proper_warning hspan (by simp) (by decide)
  | notComposed =>
      exact Diagnostic.proper_warning hspan (List.forall_mem_singleton.mpr hspan) (by decide)
  | _ => exact Diagnostic.proper_error hspan (by simp) (by decide)

theorem entriesWithin_nil : EntriesWithin r [] := by
  intro e he
  cases he

theorem EntriesWithin.append {es fs : List Entry} (hes : EntriesWithin r es)
    (hfs : EntriesWithin r fs) : EntriesWithin r (es ++ fs) :=
  List.forall_mem_append.mpr ⟨hes, hfs⟩

theorem entriesWithin_singleton {key value : Located} (hkey : key.span ∈ r)
    (hvalue : value.span ∈ r) : EntriesWithin r [⟨key, value⟩] :=
  List.forall_mem_singleton.mpr ⟨hkey, hvalue⟩

/-! ## Decoding -/

namespace Decoder

open Logged (ensures_pure ensures_report)

section Places

variable {P : Diagnostic → Prop} {β : Type} {d : Decoder}
  (hP : ∀ span p, span ∈ r → p.Within r → P (DocumentProblem.at_ span p))
  (hd : ∀ s, d.file.Holds s → s ∈ r)

include hd in
theorem located_mem (s : Yaml.Scalar) : (d.located s).span ∈ r :=
  hd _ (d.file.holds_scalarSpan s)

include hP in
theorem ensures_reportAt_then {Q : β → Prop} {span : Span} {p : DocumentProblem} {x : Logged β}
    (hspan : span ∈ r) (hp : p.Within r) (hx : x.Ensures P Q) :
    (do reportAt span p; x).Ensures P Q :=
  (ensures_report (Q := fun _ => True) (hP span p hspan hp) trivial).bind fun _ _ => hx

include hP in
theorem ensures_reportAt_pure {Q : β → Prop} {span : Span} {p : DocumentProblem} {b : β}
    (hspan : span ∈ r) (hp : p.Within r) (hb : Q b) :
    (do reportAt span p; pure b : Logged β).Ensures P Q :=
  ensures_reportAt_then hP hspan hp (ensures_pure hb)

theorem afterMarker?_mem {marker : Char} {l bare : Located} (hl : l.span ∈ r)
    (h : afterMarker? marker l = some bare) : bare.span ∈ r := by
  unfold afterMarker? at h
  split at h
  · split at h
    · cases h
      exact Region.slice hl _ _
    · cases h
  · cases h

include hP hd

/-- What every step through the members of a map keeps holds at the end. -/
theorem ensures_foldMembers {I : β → Prop} (what : String)
    {step : β → Yaml.Scalar → Option Yaml.Node → Logged β}
    (hstep : ∀ b s n, I b → (step b s n).Ensures P I) (members : List (Yaml.Node × Yaml.Node)) :
    ∀ (seen : List Yaml.Scalar) (b : β), I b →
      (d.foldMembers what step seen members b).Ensures P I := by
  induction members with
  | nil =>
      intro seen b hb
      exact ensures_pure hb
  | cons member rest ih =>
      intro seen b hb
      unfold foldMembers
      split
      · next s _ =>
        split
        · next first _ =>
          have hfirst : scalarSpan d.file first ∈ r := located_mem hd first
          exact ensures_reportAt_then hP (located_mem hd s) hfirst (ih _ _ hb)
        · exact (hstep _ _ _ hb).bind fun b hb => ih _ b hb
      · exact ensures_reportAt_then hP (hd _ (d.file.holds_nodeSpan _)) trivial (ih _ _ hb)

/-- A mapping is gone through with an invariant. -/
theorem ensures_foldMap {I : β → Prop} (n : Option Yaml.Node) (what : String) {init : β}
    (hinit : I init) {step : β → Yaml.Scalar → Option Yaml.Node → Logged β}
    (hstep : ∀ b s n, I b → (step b s n).Ensures P I) :
    (d.foldMap n what init step).Ensures P I := by
  unfold foldMap
  split
  · exact ensures_pure hinit
  · split
    · exact ensures_foldMembers hP hd what hstep _ _ _ hinit
    · exact ensures_reportAt_pure hP (hd _ (d.file.holds_nodeSpan _)) trivial hinit

theorem ensures_scalar (n : Option Yaml.Node) (what : String) :
    (d.scalar n what).Ensures P fun v => ∀ l ∈ v, l.span ∈ r := by
  unfold scalar
  split
  · next s _ =>
    refine ensures_pure fun l hl => ?_
    cases hl
    exact located_mem hd _
  · refine ensures_reportAt_pure hP (hd _ (d.file.holds_nodeSpan _)) trivial fun l hl => ?_
    cases hl

theorem ensures_scalars (what : String) (nodes : List Yaml.Node) :
    (d.scalars what nodes).Ensures P fun ls => ∀ l ∈ ls, l.span ∈ r := by
  induction nodes with
  | nil =>
      refine ensures_pure fun l hl => ?_
      cases hl
  | cons n nodes ih =>
      refine (ensures_scalar hP hd _ _).bind fun first hfirst => ih.bind fun more hmore => ?_
      refine ensures_pure (List.forall_mem_append.mpr ⟨fun l hl => ?_, hmore⟩)
      exact hfirst l (Option.mem_toList.mp hl)

/-- Every text of a list is in the region. -/
theorem ensures_scalarList (n : Option Yaml.Node) (what : String) :
    (d.scalarList n what).Ensures P fun ls => ∀ l ∈ ls, l.span ∈ r := by
  have hnil : ∀ l ∈ ([] : List Located), l.span ∈ r := by
    intro l hl
    cases hl
  unfold scalarList
  split
  · exact ensures_pure hnil
  · split
    · next s _ => exact ensures_pure (List.forall_mem_singleton.mpr (located_mem hd s))
    · exact ensures_scalars hP hd what _
    · exact ensures_reportAt_pure hP (hd _ (d.file.holds_nodeSpan _)) trivial hnil

theorem ensures_entries (n : Option Yaml.Node) (what : String) :
    (d.entries n what).Ensures P (EntriesWithin r) := by
  refine ensures_foldMap hP hd n what entriesWithin_nil fun es key value hes => ?_
  refine (ensures_scalar hP hd _ _).bind fun v hv => ?_
  cases v with
  | none => exact ensures_pure hes
  | some v =>
      exact ensures_pure (hes.append (entriesWithin_singleton (located_mem hd key) (hv v rfl)))

theorem ensures_checkName {name : Located} (hname : name.span ∈ r) (key : Yaml.Scalar)
    (what : String) : (d.checkName name key what).Ensures P fun _ => True := by
  unfold checkName
  split
  · exact ensures_reportAt_pure hP (located_mem hd key) trivial trivial
  · split
    · exact ensures_reportAt_pure hP hname trivial trivial
    · exact ensures_pure trivial

theorem ensures_device {name : Located} (hname : name.span ∈ r) (body : Option Yaml.Node) :
    (d.device name body).Ensures P (DeviceDecl.Within r) := by
  have hinit : DeviceDecl.Within r { name := name } :=
    ⟨hname, by simp, entriesWithin_nil, by simp⟩
  refine ensures_foldMap hP hd body _ hinit fun dev key value hdev => ?_
  split
  · exact (ensures_scalarList hP hd _ _).bind fun ports hports =>
      ensures_pure { hdev with ports := hports }
  · exact (ensures_entries hP hd _ _).bind fun parameters hparameters =>
      ensures_pure { hdev with parameters := hparameters }
  · refine ensures_foldMap hP hd value _ hdev fun dev backend fields hdev => ?_
    refine (ensures_entries hP hd _ _).bind fun fields hfields => ensures_pure ?_
    refine { hdev with backends := List.forall_mem_append.mpr ⟨hdev.backends, ?_⟩ }
    exact List.forall_mem_singleton.mpr ⟨located_mem hd backend, hfields⟩
  · exact ensures_reportAt_pure hP (located_mem hd key) trivial hdev

omit hd in
theorem ensures_endpoints (net : String) (exprs : List Located) :
    (∀ e ∈ exprs, e.span ∈ r) →
      (endpoints net exprs).Ensures P fun es => ∀ e ∈ es, e.expression.span ∈ r := by
  induction exprs with
  | nil =>
      intro _
      refine ensures_pure fun e he => ?_
      cases he
  | cons e exprs ih =>
      intro hes
      obtain ⟨he, hes⟩ := List.forall_mem_cons.mp hes
      have hdecl : ∀ decl : EndpointDecl, decl.expression.span ∈ r → Logged.Ensures P
          (fun es : List EndpointDecl => ∀ e ∈ es, e.expression.span ∈ r)
          (if Text.isBlankText decl.expression.text then do
            reportAt e.span (.emptyEndpoint net)
            endpoints net exprs
          else return decl :: (← endpoints net exprs)) := by
        intro decl hdecl
        split
        · exact ensures_reportAt_then hP he trivial (ih hes)
        · exact (ih hes).bind fun more hmore =>
            ensures_pure (List.forall_mem_cons.mpr ⟨hdecl, hmore⟩)
      refine hdecl _ ?_
      split
      · next bare hbare => exact afterMarker?_mem he hbare
      · exact he

/-- The spans of a net are in the region. -/
theorem ensures_net (key : Yaml.Scalar) (value : Option Yaml.Node) :
    (d.net key value).Ensures P fun n => ∀ decl ∈ n, NetDecl.Within r decl := by
  have hbody : ∀ (name : Located) (isPort : Bool), name.span ∈ r → Logged.Ensures P
      (fun n : Option NetDecl => ∀ decl ∈ n, decl.Within r) (do
        if ← d.checkName name key "net" then
          let exprs ← d.scalarList value ("endpoints of net " ++ Text.quoted key.text)
          return some ⟨name, isPort, ← endpoints key.text exprs⟩
        else return none) := by
    intro name isPort hname
    refine (ensures_checkName hP hd hname _ _).bind fun good _ => ?_
    cases good with
    | false =>
        refine ensures_pure fun decl hdecl => ?_
        cases hdecl
    | true =>
        refine (ensures_scalarList hP hd _ _).bind fun exprs hexprs =>
          (ensures_endpoints hP _ _ hexprs).bind fun es hes => ensures_pure fun decl hdecl => ?_
        cases hdecl
        exact ⟨hname, hes⟩
  unfold net
  dsimp only
  cases hmarker : afterMarker? '$' (d.located key) with
  | none => exact hbody _ _ (located_mem hd key)
  | some bare => exact hbody _ _ (afterMarker?_mem (located_mem hd key) hmarker)

theorem ensures_defaults {ref : Located} (href : ref.span ∈ r) (body : Option Yaml.Node) :
    (d.defaults ref body).Ensures P (DefaultDecl.Within r) := by
  refine ensures_foldMap hP hd body _ ⟨href, entriesWithin_nil⟩ fun decl key value hdecl => ?_
  split
  · exact (ensures_entries hP hd _ _).bind fun bindings hbindings =>
      ensures_pure { hdecl with bindings := hbindings }
  · exact ensures_reportAt_pure hP (located_mem hd key) trivial hdecl

/-- The spans of a module are in the region. -/
theorem ensures_module {name : Located} (hname : name.span ∈ r) (body : Option Yaml.Node) :
    (d.module name body).Ensures P (ModuleDecl.Within r) := by
  have hinit : ModuleDecl.Within r { name := name } :=
    ⟨hname, entriesWithin_nil, entriesWithin_nil, entriesWithin_nil, entriesWithin_nil, by simp,
      by simp⟩
  refine ensures_foldMap hP hd body _ hinit fun mod key value hmod => ?_
  split
  · exact (ensures_entries hP hd _ _).bind fun es hes =>
      ensures_pure { hmod with parameters := hes }
  · exact (ensures_entries hP hd _ _).bind fun es hes => ensures_pure { hmod with vars := hes }
  · exact (ensures_entries hP hd _ _).bind fun es hes => ensures_pure { hmod with patterns := hes }
  · refine ensures_foldMap hP hd value _ hmod fun mod inst token hmod =>
      (ensures_checkName hP hd (located_mem hd inst) _ _).bind fun good _ => ?_
    cases good with
    | false => exact ensures_pure hmod
    | true =>
        refine (ensures_scalar hP hd _ _).bind fun v hv => ?_
        cases v with
        | none => exact ensures_pure hmod
        | some v =>
            refine ensures_pure { hmod with instances := hmod.instances.append ?_ }
            exact entriesWithin_singleton (located_mem hd inst) (hv v rfl)
  · refine ensures_foldMap hP hd value _ hmod fun mod key value hmod =>
      (ensures_net hP hd _ _).bind fun n hn => ?_
    cases n with
    | none => exact ensures_pure hmod
    | some n =>
        refine ensures_pure { hmod with nets := List.forall_mem_append.mpr ⟨hmod.nets, ?_⟩ }
        exact List.forall_mem_singleton.mpr (hn n rfl)
  · refine ensures_foldMap hP hd value _ hmod fun mod ref body hmod =>
      (ensures_defaults hP hd (located_mem hd ref) _).bind fun decl hdecl => ?_
    refine ensures_pure { hmod with defaults := List.forall_mem_append.mpr ⟨hmod.defaults, ?_⟩ }
    exact List.forall_mem_singleton.mpr hdecl
  · exact ensures_reportAt_pure hP (located_mem hd key) trivial hmod

theorem ensures_document {empty : Document} (hempty : empty.Within r) :
    (d.document empty).Ensures P (Document.Within r) := by
  refine ensures_foldMap hP hd _ _ hempty fun doc key value hdoc => ?_
  split
  · refine (ensures_scalar hP hd _ _).bind fun v hv => ?_
    cases v with
    | none => exact ensures_pure hdoc
    | some v => exact ensures_pure { hdoc with top := hv }
  · exact (ensures_entries hP hd _ _).bind fun es hes =>
      ensures_pure { hdoc with imports := hdoc.imports.append hes }
  · refine ensures_foldMap hP hd value _ hdoc fun doc name body hdoc =>
      (ensures_checkName hP hd (located_mem hd name) _ _).bind fun good _ => ?_
    cases good with
    | false => exact ensures_pure hdoc
    | true =>
        refine (ensures_device hP hd (located_mem hd name) _).bind fun dev hdev => ?_
        refine ensures_pure { hdoc with devices := List.forall_mem_append.mpr ⟨hdoc.devices, ?_⟩ }
        exact List.forall_mem_singleton.mpr hdev
  · refine ensures_foldMap hP hd value _ hdoc fun doc name body hdoc =>
      (ensures_checkName hP hd (located_mem hd name) _ _).bind fun good _ => ?_
    cases good with
    | false => exact ensures_pure hdoc
    | true =>
        refine (ensures_module hP hd (located_mem hd name) _).bind fun mod hmod => ?_
        refine ensures_pure { hdoc with modules := List.forall_mem_append.mpr ⟨hdoc.modules, ?_⟩ }
        exact List.forall_mem_singleton.mpr hmod
  · exact ensures_reportAt_pure hP (located_mem hd key) trivial hdoc

end Places

end Decoder

/-- The spans of a document are in any region that holds those of its file. -/
theorem Document.ensures_decode {P : Diagnostic → Prop} {f : SourceFile}
    (hP : ∀ span p, span ∈ r → p.Within r → P (DocumentProblem.at_ span p))
    (hf : ∀ s, f.Holds s → s ∈ r) (parse : TreeParser) :
    (decode f parse).Ensures P (Document.Within r) := by
  have hempty : Document.Within r { file := f.id, path := f.path } :=
    ⟨hf _ f.holds_fileStart, by simp, entriesWithin_nil, by simp, by simp⟩
  unfold decode ofTree
  split
  · exact Decoder.ensures_reportAt_pure hP (hf _ (f.holds_syntaxFault _)) trivial hempty
  · exact Logged.ensures_pure hempty
  · next tree _ =>
    split
    · exact Logged.ensures_pure hempty
    · exact Decoder.ensures_document (d := ⟨f, tree⟩) hP hf hempty

theorem Document.reports_decode {P : Diagnostic → Prop}
    (hP : ∀ span p, P (DocumentProblem.at_ span p)) (f : SourceFile) (parse : TreeParser) :
    (decode f parse).Reports P :=
  (ensures_decode (r := .all) (fun span p _ _ => hP span p) (fun s _ => Region.mem_all s)
    parse).reports

end Netlist
