import Netlist.Pattern.Endpoint
import Netlist.Proofs.Axis.Projection
import Netlist.Proofs.Diagnostic.Reports

/-!
# Results without errors

An expression, an endpoint expression and a binding that report no error have a result.  The
binding then gives every endpoint atom a net atom, whichever way it was found
(`bindOrPair_complete`).
-/

namespace Netlist

/-! ## Expressions -/

namespace Pattern

variable {raw : String} {o : Options}

/-- A text that is not read is reported. -/
theorem hasErrors_of_parse (h : (parse o raw).value = none) :
    (parse o raw).hasErrors = true := by
  have hread : (read o raw).1 = none := h
  have hfound : ∃ f ∈ (read o raw).2, f.isError = true := by
    rw [read, readWith] at hread ⊢
    split at hread
    · rename_i hblank
      rw [if_pos hblank]
      exact ⟨_, List.mem_singleton.mpr rfl, rfl⟩
    · rename_i hblank
      rw [if_neg hblank]
      simp only at hread ⊢
      split at hread
      · rename_i hany
        rw [if_pos hany]
        exact List.any_eq_true.mp hany
      · cases hread
  obtain ⟨f, hf, he⟩ := hfound
  exact Logged.hasErrors_of_mem (List.mem_map_of_mem hf) he

/-- An expression that is not expanded is reported. -/
theorem hasErrors_of_expand (h : (expand o raw).value = none) :
    (expand o raw).hasErrors = true := by
  rw [expand, Logged.value_bind] at h
  rw [expand, Logged.hasErrors_bind, Bool.or_eq_true]
  cases he : (parse o raw).value with
  | none => exact Or.inl (hasErrors_of_parse he)
  | some e =>
      rw [he] at h
      right
      simp only [expandParsed] at h ⊢
      split at h
      · rfl
      · split at h
        · cases h
        · rfl

/-- An endpoint expression that stands for something is an expression that does, and each of its
atoms names a port of an instance. -/
theorem expandEndpoint_eq_some {x : Expansion}
    {atoms : List EndpointAtom} (h : (expandEndpoint o raw).value = some (x, atoms)) :
    (expand o raw).value = some x ∧ atoms.length = x.length := by
  rw [expandEndpoint, Logged.value_bind] at h
  cases he : (expand o raw).value with
  | none =>
      rw [he] at h
      cases h
  | some y =>
      rw [he] at h
      simp only at h
      cases hm : y.atoms.mapM (splitEndpoint raw) with
      | error p =>
          rw [hm] at h
          cases h
      | ok found =>
          rw [hm] at h
          cases h
          exact ⟨rfl, (Axis.forall₂_of_mapM_eq_ok hm).length_eq.symm⟩

/-- An atom that names no port of an instance is an error. -/
theorem isError_of_splitEndpoint {a : Atom} {p : Problem}
    (h : splitEndpoint raw a = .error p) (span : Span) : (p.at_ span).isError = true := by
  rw [splitEndpoint] at h
  split at h
  · split at h
    · cases h
      rfl
    · cases h
  · cases h
    rfl

theorem hasErrors_of_expandEndpoint
    (h : (expandEndpoint o raw).value = none) : (expandEndpoint o raw).hasErrors = true := by
  rw [expandEndpoint, Logged.value_bind] at h
  rw [expandEndpoint, Logged.hasErrors_bind, Bool.or_eq_true]
  cases he : (expand o raw).value with
  | none => exact Or.inl (hasErrors_of_expand he)
  | some y =>
      rw [he] at h
      right
      simp only at h ⊢
      cases hm : y.atoms.mapM (splitEndpoint raw) with
      | error p =>
          obtain ⟨a, _, ha⟩ := Axis.exists_of_mapM_eq_error hm
          exact Logged.hasErrors_of_mem (List.mem_singleton.mpr rfl)
            (isError_of_splitEndpoint ha o.span)
      | ok found =>
          rw [hm] at h
          cases h

end Pattern

/-! ## Bindings -/

namespace Axis

open Pattern

theorem isError_at (p : Problem) (span : Span) : (p.at_ span).isError = true := rfl

variable {net endpoint : Expansion}

/-- An alignment that fails says why. -/
theorem ne_nil_of_align {problems : List Problem}
    (h : align net endpoint = .error problems) : problems ≠ [] := by
  rw [align] at h
  split at h
  · simp only [Bind.bind, Except.bind] at h
    split at h
    · split at h
      · cases h
        simp
      · split at h
        · cases h
        · cases h
          simp
    · rename_i hne
      cases h
      exact hne
  · cases h
    simp

/-- Expressions that are not bound are reported. -/
theorem hasErrors_of_bindOrPair {span : Span} (h : (bindOrPair net endpoint span).value = none) :
    (bindOrPair net endpoint span).hasErrors = true := by
  unfold bindOrPair at h ⊢
  split
  · rename_i hone
    rw [if_pos hone] at h
    cases h
  · rename_i hone
    rw [if_neg hone] at h
    split
    · rename_i helig
      rw [if_pos helig] at h
      cases ha : align net endpoint with
      | ok b =>
          rw [bind_of_align_ok ha] at h
          cases h
      | error problems =>
          rw [bind_of_align_error ha]
          obtain ⟨p, hp⟩ := List.exists_mem_of_ne_nil _ (ne_nil_of_align ha)
          exact Logged.hasErrors_of_mem (List.mem_map_of_mem hp) (isError_at p span)
    · rename_i helig
      rw [if_neg helig] at h
      split
      · rfl
      · rename_i hlen
        rw [if_neg hlen] at h
        cases h

/-- A binding of expressions gives every endpoint atom the number of a net atom. -/
theorem bindOrPair_complete {o₁ o₂ : Options} {raw₁ raw₂ : String}
    (hnet : (expand o₁ raw₁).value = some net) (hep : (expand o₂ raw₂).value = some endpoint)
    {span : Span} {b : Binding} (h : (bindOrPair net endpoint span).value = some b) :
    b.netIndex.length = endpoint.length ∧ ∀ k ∈ b.netIndex, k < net.length := by
  rw [bindOrPair] at h
  split at h
  · rename_i hone
    cases h
    have hone : net.length = 1 := by simpa using hone
    refine ⟨List.length_replicate, fun k hk => ?_⟩
    rw [(List.mem_replicate.mp hk).2, hone]
    exact Nat.one_pos
  · split at h
    · rename_i helig
      simp only [eligible, Bool.and_eq_true] at helig
      have hgrid := isGrid_of_expand hnet helig.1
      have hgrid' := isGrid_of_expand hep helig.2
      rcases align_eq_error_or_ok hgrid hgrid' with ⟨problems, ha, _⟩ | ⟨places, hleft, hfits, ha⟩
      · rw [bind_of_align_error ha] at h
        cases h
      · rw [bind_of_align_ok ha] at h
        cases h
        have hproj := isProjection_of_fits hgrid hgrid' hleft.toIsEmbedding hfits
        refine ⟨hproj.length_eq, fun k hk => ?_⟩
        obtain ⟨i, hi, hik⟩ := List.getElem_of_mem hk
        have hi' : i < endpoint.atoms.length := Nat.lt_of_lt_of_eq hi hproj.length_eq
        obtain ⟨n, hn, _⟩ := (hproj.atom_iff i _ (List.getElem?_eq_getElem hi') k).mp
          (hik ▸ List.getElem?_eq_getElem hi)
        exact (List.getElem?_eq_some_iff.mp hn).1
    · split at h
      · cases h
      · rename_i hlen
        cases h
        have hlen : endpoint.length = net.length := by simpa using hlen
        refine ⟨List.length_range, fun k hk => ?_⟩
        rw [← hlen]
        exact List.mem_range.mp hk

end Axis

end Netlist
