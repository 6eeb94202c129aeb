import Netlist.Atomize.Design
import Netlist.Design.Build
import Netlist.Proofs.Import.Search

/-!
# When stages fail

A stage fails if and only if it reports an error: loading gives no graph or a broken one
(`Import.hasErrors_resolveWith`), building no design (`hasErrors_buildDesign`), and
atomizing no program (`Design.hasErrors_atomize`).
-/

namespace Netlist

/-! ## Loading -/

namespace Import

/-- When a step of the search ends it, it reports an error. -/
def EndsWithError {α : Type} (x : SearchM α) : Prop :=
  ∀ s, s.cyclic = false → (x s).value.2.cyclic = true → (x s).hasErrors = true

theorem endsWithError_pure {α : Type} (a : α) : EndsWithError (pure a : SearchM α) :=
  fun _ hs hcyclic => absurd (hs.symm.trans hcyclic) Bool.false_ne_true

theorem endsWithError_follow {next : String → Span → SearchM (Option FileId)}
    (hnext : ∀ path from_, EndsWithError (next path from_)) :
    ∀ (ts before : List Target), EndsWithError (follow next before ts)
  | [], _ => endsWithError_pure _
  | x :: ts, before => by
      have hrest := endsWithError_follow hnext ts (before ++ [x])
      have hchild := hnext x.path x.entry.value.span
      intro s hs
      cases hcyclic : (next x.path x.entry.value.span s).value.2.cyclic with
      | true =>
          rw [follow_cons_cyclic hcyclic]
          intro _
          have herrors := hchild s hs hcyclic
          simp only [Logged.hasErrors, List.any_append, Bool.or_eq_true] at herrors ⊢
          exact .inr herrors
      | false =>
          rw [follow_cons hcyclic]
          intro hends
          have herrors := hrest _ hcyclic hends
          simp only [Logged.hasErrors, List.any_append, Bool.or_eq_true] at herrors ⊢
          exact .inr (.inr herrors)

theorem endsWithError_visitWith {read : Reading} {t : FileTree} {roots : List String}
    {deeper : List String → String → Span → SearchM (Option FileId)}
    (hdeeper : ∀ stack path from_, EndsWithError (deeper stack path from_)) (stack : List String)
    (path : String) (from_ : Span) :
    EndsWithError (visitWith read t roots deeper stack path from_) := by
  intro s hs
  by_cases hon : path ∈ stack
  · rw [visitWith_onStack hon]
    exact fun _ => rfl
  cases hnode : s.node? path with
  | some node =>
      rw [visitWith_loaded hon hnode]
      exact fun hcyclic => absurd (hs.symm.trans hcyclic) Bool.false_ne_true
  | none =>
      cases hread : read.content (s.metAt path) path with
      | error e =>
          rw [visitWith_unreadable hon hnode hread]
          exact fun _ => rfl
      | ok content =>
          rw [visitWith_readable hon hnode hread]
          intro hends
          have hstart : ∀ ts, ((load read.parse path content (s.take path)).value.2.readAhead
              ts).cyclic = false := by
            intro ts
            obtain ⟨ahead, hahead⟩ :=
              readAhead_eq (load read.parse path content (s.take path)).value.2 ts
            rw [hahead]
            exact hs
          have herrors := endsWithError_follow (hdeeper _) _ _ _ (hstart _) hends
          simp only [Logged.hasErrors, List.any_append, Bool.or_eq_true] at herrors ⊢
          exact .inr (.inr herrors)

theorem endsWithError_visit (read : Reading) (t : FileTree) (roots : List String) :
    ∀ (fuel : Nat) (stack : List String) (path : String) (from_ : Span),
      EndsWithError (visit read t roots fuel stack path from_)
  | 0, _, _, _ => endsWithError_pure _
  | fuel + 1, stack, path, from_ =>
      endsWithError_visitWith (endsWithError_visit read t roots fuel) stack path from_

/-- Loading gives no graph or a broken one if and only if it reports an error. -/
theorem hasErrors_resolveWith (read : Reading) (t : FileTree) (roots : List String)
    (files : FileSet) (alloc : Allocator) (entry : String) :
    (resolveWith read t roots files alloc entry).hasErrors =
      ((resolveWith read t roots files alloc entry).value.graph.map (·.broken)).getD true := by
  have hends := endsWithError_visit read t roots (t.entries.length + 1) []
    (Path.absolute t.workDir entry) Span.nowhere { files := files } rfl
  unfold resolveWith
  dsimp only
  split
  · next hcyclic => exact hends hcyclic
  · simp [Logged.hasErrors]

end Import

/-! ## Building and atomizing -/

theorem BuildProblem.isError_at (p : BuildProblem) (span : Span) :
    (p.at_ span).isError = true := rfl

/-- There is no top module only if an error was reported. -/
theorem hasErrors_findTop {input : BuildInput} {entry : Document}
    (h : (findTop input entry).value = none) : (findTop input entry).hasErrors = true := by
  cases htop : entry.top with
  | some top =>
      simp only [findTop, htop, Logged.value_bind, Logged.hasErrors_bind] at h ⊢
      split at h
      · simp [BuildProblem.isError_at]
      · split at h
        · cases h
        · next hdevice => simp [hdevice, BuildProblem.isError_at]
  | none =>
      simp only [findTop, htop] at h ⊢
      split at h
      · cases h
      · simp [BuildProblem.isError_at]
      · simp [BuildProblem.isError_at]

/-- Building gives no design if and only if it reports an error. -/
theorem hasErrors_buildDesign (input : BuildInput) (alloc : Allocator) :
    (buildDesign input alloc).hasErrors = (buildDesign input alloc).value.1.isNone := by
  unfold buildDesign
  split
  · rfl
  · next entry rest hdocuments =>
    dsimp only
    generalize hr : ((buildDocuments input input.documents).run { alloc := alloc } >>= _ :
      Logged ((Option Ident × List DesignModule × List Device) × BuildState)) = r
    have htop : r.value.1.1 = (findTop input entry).value := by rw [← hr]; rfl
    have hfails : r.value.1.1 = none → r.hasErrors = true := by
      intro hnone
      rw [htop] at hnone
      rw [← hr]
      simp [hasErrors_findTop hnone]
    change r.hasErrors = _
    cases herrors : r.hasErrors with
    | true => simp
    | false =>
        cases hsome : r.value.1.1 with
        | none => exact absurd (herrors.symm.trans (hfails hsome)) Bool.false_ne_true
        | some id => simp

/-- A program passes the verifier if and only if no error is reported. -/
theorem Program.hasErrors_verify (p : Program) : p.verify.hasErrors = !p.verify.value := by
  unfold Program.verify
  cases p.violations with
  | nil => rfl
  | cons f fs => rfl

/-- Atomizing gives no program if and only if it reports an error. -/
theorem Design.hasErrors_atomize (design : Design) (alloc : Allocator) (maxAtoms : Int) :
    (design.atomize alloc maxAtoms).hasErrors = (design.atomize alloc maxAtoms).value.isNone := by
  unfold Design.atomize
  rw [Logged.hasErrors_bind, Logged.value_bind, Logged.hasErrors_reportAll]
  change ((atomizeModules design maxAtoms alloc design.modules).hasErrors || _) = _
  cases herrors : (atomizeModules design maxAtoms alloc design.modules).hasErrors with
  | true => simp
  | false =>
      simp only [Bool.false_or, Bool.false_eq_true, if_false, Logged.hasErrors_bind,
        Logged.value_bind]
      rw [Program.hasErrors_verify]
      cases hsound : (Program.verify _).value with
      | false => simp
      | true => simp

end Netlist
