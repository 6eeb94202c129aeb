import Netlist.Document.Decode
import Netlist.Proofs.Diagnostic.Reports

/-!
# What decoding depends on

The number of a file goes into spans only, so the texts of its imports
are the same under every number (`Document.importTexts_decode`).  The flags of a file are not looked
at (`Document.decode_congr`).
-/

namespace Netlist

/-- The texts of an entry. -/
def Entry.texts (e : Entry) : String × String := (e.key.text, e.value.text)

/-- The namespaces and paths of the imports of a document. -/
def Document.importTexts (d : Document) : List (String × String) := d.imports.map Entry.texts

namespace Decoder

/-! ## Imports -/

section Imports

variable (f₁ f₂ : SourceFile) (tree : Yaml.Tree)

/-- Two ways through the members of a map that agree at every step end in agreement. -/
theorem foldMembers_rel {β₁ β₂ : Type} {R : β₁ → β₂ → Prop} (what : String)
    {step₁ : β₁ → Yaml.Scalar → Option Yaml.Node → Logged β₁}
    {step₂ : β₂ → Yaml.Scalar → Option Yaml.Node → Logged β₂}
    (hstep : ∀ b₁ b₂ s n, R b₁ b₂ → R (step₁ b₁ s n).value (step₂ b₂ s n).value) :
    ∀ (members : List (Yaml.Node × Yaml.Node)) (seen : List Yaml.Scalar) (b₁ : β₁) (b₂ : β₂),
      R b₁ b₂ → R (foldMembers ⟨f₁, tree⟩ what step₁ seen members b₁).value
        (foldMembers ⟨f₂, tree⟩ what step₂ seen members b₂).value
  | [], _, _, _, h => h
  | (key, value) :: rest, seen, b₁, b₂, h => by
      have ih := foldMembers_rel what hstep rest
      unfold foldMembers
      dsimp only
      cases tree.resolve key with
      | none => exact ih seen b₁ b₂ h
      | some node =>
          cases node with
          | scalar s =>
              cases hseen : seen.find? fun k => k.text == s.text with
              | some first =>
                  simp only [hseen]
                  exact ih _ _ _ h
              | none =>
                  simp only [hseen]
                  exact ih _ _ _ (hstep b₁ b₂ s _ h)
          | _ => exact ih seen b₁ b₂ h

theorem foldMap_rel {β₁ β₂ : Type} {R : β₁ → β₂ → Prop} {what : String} {n : Option Yaml.Node}
    {step₁ : β₁ → Yaml.Scalar → Option Yaml.Node → Logged β₁}
    {step₂ : β₂ → Yaml.Scalar → Option Yaml.Node → Logged β₂} {b₁ : β₁} {b₂ : β₂}
    (hstep : ∀ b₁ b₂ s n, R b₁ b₂ → R (step₁ b₁ s n).value (step₂ b₂ s n).value) (h : R b₁ b₂) :
    R (foldMap ⟨f₁, tree⟩ n what b₁ step₁).value (foldMap ⟨f₂, tree⟩ n what b₂ step₂).value := by
  unfold foldMap
  split
  · exact h
  · split
    · exact foldMembers_rel f₁ f₂ tree what hstep _ _ _ _ h
    · exact h

/-- A map that is gone through without touching a part of the state leaves that part
alone. -/
theorem foldMap_keeps {β γ : Type} {d : Decoder} {part : β → γ} {what : String}
    {n : Option Yaml.Node} {step : β → Yaml.Scalar → Option Yaml.Node → Logged β} {b : β}
    (hstep : ∀ b s n, part (step b s n).value = part b) :
    part (d.foldMap n what b step).value = part b := by
  have hrel : ∀ b₁ b₂ s n, part b₁ = part b ∧ b₁ = b₂ →
      part (step b₁ s n).value = part b ∧ (step b₁ s n).value = (step b₂ s n).value := by
    rintro b₁ _ s n ⟨h, rfl⟩
    exact ⟨(hstep b₁ s n).trans h, rfl⟩
  exact (foldMap_rel d.file d.file d.tree hrel ⟨rfl, rfl⟩).1

theorem scalar_rel (n : Option Yaml.Node) (what : String) :
    (scalar ⟨f₁, tree⟩ n what).value.map Located.text =
      (scalar ⟨f₂, tree⟩ n what).value.map Located.text := by
  unfold scalar
  split <;> rfl

theorem entries_rel (n : Option Yaml.Node) (what : String) :
    (entries ⟨f₁, tree⟩ n what).value.map Entry.texts =
      (entries ⟨f₂, tree⟩ n what).value.map Entry.texts := by
  refine foldMap_rel f₁ f₂ tree (R := fun (es₁ es₂ : List Entry) =>
    es₁.map Entry.texts = es₂.map Entry.texts) (fun es₁ es₂ s n h => ?_) rfl
  have hv := scalar_rel f₁ f₂ tree n (what ++ " " ++ Text.quoted s.text)
  simp only [Logged.value_bind]
  split <;> split <;> simp_all [Entry.texts, located]

/-- Two documents whose imports have the same texts still do after they were read from
the same tree. -/
theorem document_rel {doc₁ doc₂ : Document} (h : doc₁.importTexts = doc₂.importTexts) :
    (document ⟨f₁, tree⟩ doc₁).value.importTexts =
      (document ⟨f₂, tree⟩ doc₂).value.importTexts := by
  refine foldMap_rel f₁ f₂ tree (R := fun (d₁ d₂ : Document) => d₁.importTexts = d₂.importTexts)
    (fun d₁ d₂ s n h => ?_) h
  split
  · simp only [Logged.value_bind]
    split <;> split <;> exact h
  · simp only [Logged.value_bind, Logged.value_pure, Document.importTexts, List.map_append]
    rw [entries_rel f₁ f₂ tree]
    exact congrArg (· ++ _) h
  · have hkeep : ∀ (f : SourceFile) (doc : Document),
        (foldMap ⟨f, tree⟩ n "devices" doc fun doc name body => do
          if ← checkName ⟨f, tree⟩ (located ⟨f, tree⟩ name) name "device" then
            return { doc with
              devices := doc.devices ++ [← device ⟨f, tree⟩ (located ⟨f, tree⟩ name) body] }
          else return doc).value.importTexts = doc.importTexts := by
      intro f doc
      refine foldMap_keeps fun doc name body => ?_
      simp only [Logged.value_bind]
      split <;> rfl
    rw [hkeep, hkeep, h]
  · have hkeep : ∀ (f : SourceFile) (doc : Document),
        (foldMap ⟨f, tree⟩ n "modules" doc fun doc name body => do
          if ← checkName ⟨f, tree⟩ (located ⟨f, tree⟩ name) name "module" then
            return { doc with
              modules := doc.modules ++ [← module ⟨f, tree⟩ (located ⟨f, tree⟩ name) body] }
          else return doc).value.importTexts = doc.importTexts := by
      intro f doc
      refine foldMap_keeps fun doc name body => ?_
      simp only [Logged.value_bind]
      split <;> rfl
    rw [hkeep, hkeep, h]
  · exact h

end Imports

/-! ## Flags -/

/-- The decoder for the same file with other flags. -/
def withFlags (d : Decoder) (flags : FileFlags) : Decoder :=
  { d with file := { d.file with flags := flags } }

section Flags

variable (d : Decoder) (flags : FileFlags)

@[simp] theorem tree_withFlags : (d.withFlags flags).tree = d.tree := rfl

@[simp] theorem scalarSpan_withFlags (s : Yaml.Scalar) :
    scalarSpan (d.withFlags flags).file s = scalarSpan d.file s := rfl

@[simp] theorem nodeSpan_withFlags (n : Option Yaml.Node) :
    nodeSpan (d.withFlags flags).file n = nodeSpan d.file n := rfl

@[simp] theorem located_withFlags (s : Yaml.Scalar) :
    (d.withFlags flags).located s = d.located s := rfl

@[simp] theorem foldMembers_withFlags {β : Type} (what : String)
    (step : β → Yaml.Scalar → Option Yaml.Node → Logged β) :
    ∀ (members : List (Yaml.Node × Yaml.Node)) (seen : List Yaml.Scalar) (b : β),
      (d.withFlags flags).foldMembers what step seen members b =
        d.foldMembers what step seen members b
  | [], _, _ => rfl
  | (key, value) :: rest, seen, b => by
      have ih := foldMembers_withFlags what step rest
      simp only [foldMembers, tree_withFlags, scalarSpan_withFlags, nodeSpan_withFlags, ih]

@[simp] theorem foldMap_withFlags {β : Type} (n : Option Yaml.Node) (what : String) (init : β)
    (step : β → Yaml.Scalar → Option Yaml.Node → Logged β) :
    (d.withFlags flags).foldMap n what init step = d.foldMap n what init step := by
  simp [foldMap]

@[simp] theorem scalar_withFlags (n : Option Yaml.Node) (what : String) :
    (d.withFlags flags).scalar n what = d.scalar n what := rfl

@[simp] theorem scalars_withFlags (what : String) : ∀ items : List Yaml.Node,
    (d.withFlags flags).scalars what items = d.scalars what items
  | [] => rfl
  | n :: rest => by
      simp only [scalars, tree_withFlags, scalar_withFlags, scalars_withFlags what rest]

@[simp] theorem scalarList_withFlags (n : Option Yaml.Node) (what : String) :
    (d.withFlags flags).scalarList n what = d.scalarList n what := by
  simp [scalarList]

@[simp] theorem entries_withFlags (n : Option Yaml.Node) (what : String) :
    (d.withFlags flags).entries n what = d.entries n what := by
  simp [entries]

@[simp] theorem checkName_withFlags (name : Located) (key : Yaml.Scalar) (what : String) :
    (d.withFlags flags).checkName name key what = d.checkName name key what := rfl

@[simp] theorem unknownField_withFlags (key : Yaml.Scalar) (place : String) :
    (d.withFlags flags).unknownField key place = d.unknownField key place := rfl

@[simp] theorem device_withFlags (name : Located) (body : Option Yaml.Node) :
    (d.withFlags flags).device name body = d.device name body := by
  simp [device]

@[simp] theorem net_withFlags (key : Yaml.Scalar) (value : Option Yaml.Node) :
    (d.withFlags flags).net key value = d.net key value := by
  simp [net]

@[simp] theorem defaults_withFlags (ref : Located) (body : Option Yaml.Node) :
    (d.withFlags flags).defaults ref body = d.defaults ref body := by
  simp [defaults]

@[simp] theorem module_withFlags (name : Located) (body : Option Yaml.Node) :
    (d.withFlags flags).module name body = d.module name body := by
  simp [module]

theorem document_withFlags (empty : Document) :
    (d.withFlags flags).document empty = d.document empty := by
  simp [document]

end Flags
end Decoder

/-- The imports of a file do not depend on its number. -/
theorem Document.importTexts_decode (id₁ id₂ : FileId) (path : String) (content : Bytes)
    (flags : FileFlags) (parse : TreeParser) :
    (decode (.of id₁ path content flags) parse).value.importTexts =
      (decode (.of id₂ path content flags) parse).value.importTexts := by
  unfold decode ofTree
  dsimp only [SourceFile.of]
  split
  · rfl
  · rfl
  · split
    · rfl
    · exact Decoder.document_rel _ _ _ rfl

/-- The document of a file depends on its number, its path and its content. -/
theorem Document.decode_congr {x y : SourceFile} (hid : x.id = y.id) (hpath : x.path = y.path)
    (hcontent : x.content = y.content) (parse : TreeParser) : decode x parse = decode y parse := by
  obtain ⟨id, path, content, flags, _, rfl⟩ := x
  obtain ⟨id', path', content', flags', _, rfl⟩ := y
  obtain rfl : id = id' := hid
  obtain rfl : path = path' := hpath
  obtain rfl : content = content' := hcontent
  unfold decode ofTree
  dsimp only
  split
  · rfl
  · rfl
  · next tree _ =>
    split
    · rfl
    · exact (Decoder.document_withFlags ⟨⟨id, path, content, flags', _, rfl⟩, tree⟩ flags _)

end Netlist
