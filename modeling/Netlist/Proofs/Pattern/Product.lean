import Netlist.Proofs.Pattern.Grid

/-!
# Expansion as a product

Atom number `r` of a segment has the values that the digits of `r` pick from the groups, in the
mixed radix of the sizes of the groups (`Segment.atom`).  An expression that was read stands for
the atoms of its segments one after the other, if they are within the limit and their texts are
different (`expandParsed_eq_product`).  The limit is guarded by a division, which refuses an
expression exactly when its atoms are too many; none of the numbers on the way has more than
64 bits (`expandSegmentsChecked_eq`).
-/

namespace Netlist.Pattern

/-! ## Digits -/

/-- Digit number `k` of a number in the mixed radix of some lengths, the last one fastest. -/
def digit (lengths : List Nat) (r k : Nat) : Nat :=
  r / (lengths.drop (k + 1)).prod % lengths.getD k 0

/-- The values that the digits of a number pick from columns. -/
def choice (columns : List (List Part)) (r : Nat) : List Part :=
  columns.mapIdx fun k c => c.getD (digit (columns.map List.length) r k) .unset

theorem choice_cons (c : List Part) (cs : List (List Part)) (r : Nat) :
    choice (c :: cs) r =
      c.getD (r / (cs.map List.length).prod % c.length) .unset :: choice cs r := by
  rw [choice, List.mapIdx_cons]
  rfl

/-- The digits of a number are those of its remainder by the product of the lengths. -/
theorem digit_mod : ∀ (lengths : List Nat) {k : Nat}, k < lengths.length → ∀ r,
    digit lengths (r % lengths.prod) k = digit lengths r k
  | [], _, hk, _ => absurd hk (Nat.not_lt_zero _)
  | n :: lengths, 0, _, r => by
      show r % (n * lengths.prod) / lengths.prod % n = r / lengths.prod % n
      rw [Nat.mul_comm, Nat.mod_mul_right_div_self, Nat.mod_mod]
  | n :: lengths, k + 1, hk, r => by
      have hdvd : lengths.prod ∣ (n :: lengths).prod := by
        rw [List.prod_cons]
        exact Nat.dvd_mul_left ..
      have hk' : k < lengths.length := by simpa using hk
      calc digit (n :: lengths) (r % (n :: lengths).prod) (k + 1)
          = digit lengths (r % (n :: lengths).prod) k := rfl
        _ = digit lengths (r % (n :: lengths).prod % lengths.prod) k :=
          (digit_mod lengths hk' _).symm
        _ = digit lengths (r % lengths.prod) k := by rw [Nat.mod_mod_of_dvd _ hdvd]
        _ = digit lengths r k := digit_mod lengths hk' r

theorem choice_mod (columns : List (List Part)) (r : Nat) :
    choice columns (r % (columns.map List.length).prod) = choice columns r := by
  rw [choice, choice]
  refine List.mapIdx_eq_mapIdx_iff.mpr fun k hk => ?_
  rw [digit_mod _ (by simpa using hk)]

/-- Tuple number `r` is what the digits of `r` pick. -/
theorem getElem?_tuples : ∀ (columns : List (List Part)) {r : Nat},
    r < (columns.map List.length).prod → (tuples columns)[r]? = some (choice columns r)
  | [], r, hr => by
      have hr : r = 0 := by simpa using hr
      subst hr
      rfl
  | c :: cs, r, hr => by
      rw [List.map_cons, List.prod_cons] at hr
      have hpos : 0 < (cs.map List.length).prod := Nat.pos_of_lt_mul_left hr
      have hdiv : r / (cs.map List.length).prod < c.length := (Nat.div_lt_iff_lt_mul hpos).mpr hr
      have hblock := getElem?_flatMap_block (fun a => (tuples cs).map (a :: ·))
        (Nat.mod_lt r hpos) c (fun a _ => by rw [List.length_map, length_tuples])
        (r / (cs.map List.length).prod)
      rw [Nat.div_add_mod'] at hblock
      rw [tuples, hblock, List.getElem?_eq_getElem hdiv, Option.bind_some, List.getElem?_map,
        getElem?_tuples cs (Nat.mod_lt r hpos), choice_mod, choice_cons, Nat.mod_eq_of_lt hdiv,
        List.getD_eq_getElem _ _ hdiv, Option.map_some]

/-- Tuples are numbered with the last column fastest. -/
theorem tuples_eq_map_choice (columns : List (List Part)) :
    tuples columns = (List.range (columns.map List.length).prod).map (choice columns) := by
  refine List.ext_getElem? fun r => ?_
  by_cases hr : r < (columns.map List.length).prod
  · rw [getElem?_tuples columns hr, List.getElem?_map, List.getElem?_range hr, Option.map_some]
  · rw [List.getElem?_eq_none (by rw [length_tuples]; omega),
      List.getElem?_eq_none (by rw [List.length_map, List.length_range]; omega)]

/-! ## The product -/

/-- The number of atoms of a segment: the product of the sizes of its groups. -/
def Segment.size (s : Segment) : Nat := (s.groups.map (·.items.length)).prod

/-- The text at the front of some pieces, empty if they start with a group. -/
def leadingText : List Piece → String
  | .text t :: _ => t
  | _ => ""

/-- Atom number `r` of the segment with a number. -/
def Segment.atom (s : Segment) (number r : Nat) : Atom :=
  let parts := choice (s.groups.map (·.items)) r
  ⟨fill s.pieces parts, leadingText s.pieces, number, parts⟩

/-- The atoms of the segment with a number. -/
def Segment.atoms (s : Segment) (number : Nat) : List Atom :=
  (List.range s.size).map (s.atom number)

/-- The atoms of segments that are numbered from `number` on. -/
def productFrom (number : Nat) (segments : List Segment) : List Atom :=
  (segments.zipIdx number).flatMap fun s => s.1.atoms s.2

/-- The number of atoms of some segments. -/
def totalSize (segments : List Segment) : Nat := (segments.map Segment.size).sum

/-- The atoms of an expression. -/
def Expression.product (e : Expression) : List Atom := productFrom 0 e.segments

/-- The number of atoms of an expression: the sum of the sizes of its segments. -/
def Expression.size (e : Expression) : Nat := totalSize e.segments

theorem Segment.baseName_eq_leadingText (s : Segment) : s.baseName = leadingText s.pieces := by
  unfold baseName leadingText
  rcases s.pieces with _ | ⟨_ | _, _⟩ <;> rfl

theorem Segment.atoms_eq (s : Segment) (number : Nat) : s.atoms number =
    (tuples (s.groups.map (·.items))).map fun ps => ⟨fill s.pieces ps, s.baseName, number, ps⟩ := by
  rw [Segment.atoms, tuples_eq_map_choice, List.map_map, List.map_map, baseName_eq_leadingText]
  rfl

@[simp] theorem length_atoms (s : Segment) (number : Nat) : (s.atoms number).length = s.size := by
  rw [Segment.atoms, List.length_map, List.length_range]

@[simp] theorem productFrom_nil (number : Nat) : productFrom number [] = [] := rfl

@[simp] theorem productFrom_cons (number : Nat) (s : Segment) (segments : List Segment) :
    productFrom number (s :: segments) = s.atoms number ++ productFrom (number + 1) segments := by
  rw [productFrom, List.zipIdx_cons, List.flatMap_cons]
  rfl

@[simp] theorem totalSize_cons (s : Segment) (segments : List Segment) :
    totalSize (s :: segments) = s.size + totalSize segments := by
  simp [totalSize]

/-- The product has as many atoms as the sizes say. -/
theorem length_productFrom (segments : List Segment) (number : Nat) :
    (productFrom number segments).length = totalSize segments := by
  induction segments generalizing number with
  | nil => rfl
  | cons s segments ih =>
      rw [productFrom_cons, List.length_append, length_atoms, ih, totalSize_cons]

/-! ## The guard -/

/-- The drafts are given up exactly when they would become too many.  Each value goes on, so
too many on the way are too many in the end. -/
theorem isSome_expandPieces {budget : Nat} : ∀ (pieces : List Piece) (drafts : List Draft),
    (∀ c ∈ columns pieces, c ≠ []) →
    ((expandPieces budget drafts pieces).isSome = true ↔
      drafts.length * ((columns pieces).map List.length).prod ≤ budget)
  | [], drafts, _ => by
      rw [expandPieces, columns_nil, List.map_nil, List.prod_nil, Nat.mul_one]
      split
      · simp; omega
      · simp; omega
  | .text s :: rest, drafts, hne => by
      rw [expandPieces, isSome_expandPieces rest _ hne, List.length_map, columns_text]
  | .group g :: rest, drafts, hne => by
      rw [columns_group] at hne ⊢
      have hitems : 0 < g.items.length := List.length_pos_iff.mpr (hne _ (List.mem_cons_self ..))
      have hrest : ∀ c ∈ columns rest, c ≠ [] := fun c hc => hne c (List.mem_cons_of_mem _ hc)
      have hpos : 0 < ((columns rest).map List.length).prod := by
        rw [← length_tuples]
        exact List.length_pos_iff.mpr (tuples_ne_nil hrest)
      have hnot : (!g.items.isEmpty) = true := by simpa using List.length_pos_iff.mp hitems
      rw [expandPieces, hnot, Bool.true_and, List.map_cons, List.prod_cons, ← Nat.mul_assoc]
      by_cases hdiv : budget / g.items.length < drafts.length
      · have hlt : budget < drafts.length * g.items.length := (Nat.div_lt_iff_lt_mul hitems).mp hdiv
        have hle := Nat.le_mul_of_pos_right (drafts.length * g.items.length) hpos
        simp only [hdiv, decide_true, if_true, Option.isSome_none]
        simp
        omega
      · simp only [hdiv, decide_false, Bool.false_eq_true, if_false]
        rw [isSome_expandPieces rest _ hrest]
        simp [List.length_flatMap]

/-- A segment is expanded if its atoms are within the budget. -/
theorem expandSegment_eq_atoms {s : Segment} (hne : ∀ g ∈ s.groups, g.items ≠ [])
    (budget number : Nat) : expandSegment budget number s =
      if s.size ≤ budget then some (s.atoms number) else none := by
  have hcolumns : ∀ c ∈ columns s.pieces, c ≠ [] := by
    intro c hc
    obtain ⟨g, hg, rfl⟩ := List.mem_map.mp hc
    exact hne g hg
  have hsome : (expandSegment budget number s).isSome = true ↔ s.size ≤ budget := by
    rw [expandSegment, Option.isSome_map, isSome_expandPieces _ _ hcolumns, Segment.size,
      Segment.groups, columns, List.map_map]
    simp [Function.comp_def]
  split
  · next hle =>
    obtain ⟨atoms, hatoms⟩ := Option.isSome_iff_exists.mp (hsome.mpr hle)
    rw [hatoms, expandSegment_eq hatoms, Segment.atoms_eq]
  · next hlt => rwa [← Option.not_isSome_iff_eq_none, hsome]

/-- Segments are expanded exactly when their atoms are within the budget, which each of them
takes its own from. -/
theorem expandSegments_eq_product : ∀ (segments : List Segment),
    (∀ s ∈ segments, ∀ g ∈ s.groups, g.items ≠ []) → ∀ budget number,
    expandSegments budget number segments =
      if totalSize segments ≤ budget then some (productFrom number segments) else none
  | [], _, budget, number => by simp [expandSegments, totalSize]
  | s :: segments, hne, budget, number => by
      have hrest := expandSegments_eq_product segments fun s' hs' =>
        hne s' (List.mem_cons_of_mem _ hs')
      rw [expandSegments, expandSegment_eq_atoms (hne s (List.mem_cons_self ..)), totalSize_cons,
        productFrom_cons]
      by_cases hs : s.size ≤ budget
      · by_cases htotal : s.size + totalSize segments ≤ budget
        · have hle : totalSize segments ≤ budget - s.size := by omega
          simp [hs, htotal, hrest, hle]
        · have hlt : ¬ totalSize segments ≤ budget - s.size := by omega
          simp [hs, htotal, hrest, hlt]
      · have htotal : ¬ s.size + totalSize segments ≤ budget := by omega
        simp [hs, htotal]

/-! ## Numbers of 64 bits -/

/-- A number, if it has 64 bits. -/
def int64? (n : Int) : Option Int := if -2 ^ 63 ≤ n ∧ n < 2 ^ 63 then some n else none

/-- Whether a group gives too many drafts, in checked arithmetic. -/
def refusesChecked (budget count size : Int) : Option Bool :=
  if 0 < size then (int64? (budget.tdiv size)).map fun quotient => decide (quotient < count)
  else some false

/-- The drafts after some pieces, in checked arithmetic: nothing at all when a number has more
than 64 bits. -/
def expandPiecesChecked (budget : Int) : List Draft → List Piece → Option (Option (List Draft))
  | drafts, [] => do
    let count ← int64? drafts.length
    return if budget < count then none else some drafts
  | drafts, .text s :: rest => expandPiecesChecked budget (drafts.map (·.addText s)) rest
  | drafts, .group g :: rest => do
    let count ← int64? drafts.length
    let size ← int64? g.items.length
    if ← refusesChecked budget count size then return none
    else
      -- room for the drafts to come
      let _ ← int64? (count * size)
      expandPiecesChecked budget (drafts.flatMap fun d => g.items.map d.addPart) rest

/-- The atoms of segments after those that are done, in checked arithmetic. -/
def expandSegmentsChecked (limit : Int) : (done : List Atom) → (number : Nat) → List Segment →
    Option (Option (List Atom))
  | done, _, [] => some (some done)
  | done, number, s :: rest => do
    let count ← int64? done.length
    let budget ← int64? (limit - count)
    match ← expandPiecesChecked budget [{}] s.pieces with
    | none => return none
    | some drafts =>
      expandSegmentsChecked limit
        (done ++ drafts.map fun d => ⟨d.text, s.baseName, number, d.parts.reverse⟩)
        (number + 1) rest

theorem int64?_natCast {n : Nat} (h : n < 2 ^ 63) : int64? n = some (n : Int) := by
  rw [int64?, if_pos]
  omega

theorem refusesChecked_natCast {budget : Nat} (h : budget < 2 ^ 63) (count size : Nat) :
    refusesChecked budget count size =
      some (decide (size ≠ 0) && decide (budget / size < count)) := by
  rw [refusesChecked]
  split
  · next hsize =>
    have hne : size ≠ 0 := by omega
    have hquotient : (budget : Int).tdiv size = (budget / size : Nat) := rfl
    have hle := Nat.div_le_self budget size
    rw [hquotient, int64?_natCast (by omega), Option.map_some]
    simp only [Nat.cast_lt, hne, ne_eq, not_false_eq_true, decide_true, Bool.true_and]
  · next hsize =>
    have hzero : size = 0 := by omega
    simp [hzero]

/-- What the guard lets through has no more drafts than the budget. -/
theorem expandPiecesChecked_eq {budget : Nat} (h : budget < 2 ^ 63) :
    ∀ (pieces : List Piece) (drafts : List Draft), drafts.length < 2 ^ 63 →
      (∀ g ∈ pieces.filterMap Piece.group?, g.items.length < 2 ^ 63) →
      expandPiecesChecked budget drafts pieces = some (expandPieces budget drafts pieces)
  | [], drafts, hdrafts, _ => by
      rw [expandPiecesChecked, int64?_natCast hdrafts, expandPieces]
      simp
  | .text s :: rest, drafts, hdrafts, hsizes => by
      rw [expandPiecesChecked, expandPieces]
      exact expandPiecesChecked_eq h rest _ (by rwa [List.length_map]) hsizes
  | .group g :: rest, drafts, hdrafts, hsizes => by
      have hsize : g.items.length < 2 ^ 63 := hsizes g (List.mem_cons_self ..)
      rw [expandPiecesChecked, int64?_natCast hdrafts, int64?_natCast hsize, expandPieces]
      simp only [Option.bind_eq_bind, Option.bind_some, refusesChecked_natCast h]
      have hempty : (!g.items.isEmpty) = decide (g.items.length ≠ 0) := by
        cases g.items <;> simp
      rw [hempty]
      split
      · rfl
      · next hgo =>
        have hroom : drafts.length * g.items.length < 2 ^ 63 := by
          by_cases hzero : g.items.length = 0
          · simp [hzero]
          · have hdiv : ¬ budget / g.items.length < drafts.length := by simpa [hzero] using hgo
            have hle :=
              (Nat.le_div_iff_mul_le (Nat.pos_of_ne_zero hzero)).mp (Nat.le_of_not_lt hdiv)
            omega
        have hcast :
            (drafts.length : Int) * g.items.length = (drafts.length * g.items.length : Nat) :=
          (Nat.cast_mul ..).symm
        rw [hcast, int64?_natCast hroom, Option.bind_some]
        refine expandPiecesChecked_eq h rest _ ?_ fun g' hg' =>
          hsizes g' (List.mem_cons_of_mem _ hg')
        simpa [List.length_flatMap] using hroom

/-- No number on the way has more than 64 bits. -/
theorem expandSegmentsChecked_eq : ∀ (segments : List Segment),
    (∀ s ∈ segments, ∀ g ∈ s.groups, g.items.length < 2 ^ 63) →
    ∀ (budget number : Nat) (done : List Atom), done.length + budget < 2 ^ 63 →
      expandSegmentsChecked (done.length + budget : Nat) done number segments =
        some ((expandSegments budget number segments).map (done ++ ·))
  | [], _, budget, number, done, _ => by simp [expandSegmentsChecked, expandSegments]
  | s :: segments, hsizes, budget, number, done, hlimit => by
      have hbudget : ((done.length + budget : Nat) : Int) - done.length = budget := by omega
      rw [expandSegmentsChecked, int64?_natCast (by omega), Option.bind_eq_bind, Option.bind_some,
        hbudget, int64?_natCast (by omega), Option.bind_eq_bind, Option.bind_some,
        expandPiecesChecked_eq (by omega) _ _ (by simp) (hsizes s (List.mem_cons_self ..)),
        expandSegments, expandSegment]
      cases hpieces : expandPieces budget [{}] s.pieces with
      | none => rfl
      | some drafts =>
          have hle := length_le_of_expandPieces hpieces
          have ih := expandSegmentsChecked_eq segments
            (fun s' hs' => hsizes s' (List.mem_cons_of_mem _ hs'))
            (budget - drafts.length) (number + 1)
            (done ++ drafts.map fun d => ⟨d.text, s.baseName, number, d.parts.reverse⟩)
          rw [List.length_append, List.length_map, Nat.add_assoc, Nat.add_sub_cancel' hle] at ih
          simp only [Option.bind_some, ih hlimit, Option.map_some, Option.bind_eq_bind,
            List.length_map]
          cases expandSegments (budget - drafts.length) (number + 1) segments <;> simp

/-! ## Expansion -/

/-- The axes of an expression with one segment, one per group. -/
def Expression.axes (e : Expression) : List Axis :=
  if 1 < e.segments.length then []
  else (e.segments.flatMap Segment.groups).map fun g => ⟨g.axis, g.items.length, g.items.zipIdx⟩

theorem axes_eq (e : Expression) : (match e.segments with
    | [s] => s.groups.map axisOf
    | _ => []) = e.axes := by
  rw [Expression.axes]
  split
  · next s hs => simp [hs, axisOf]
  · next hs =>
    cases hsegments : e.segments with
    | nil => simp
    | cons s rest =>
        cases rest with
        | nil => exact absurd hsegments (hs s)
        | cons s' rest => simp

section

variable {e : Expression} (hne : ∀ s ∈ e.segments, ∀ g ∈ s.groups, g.items ≠ []) {o : Options}

include hne

theorem Expression.expandSegments_eq : expandSegments o.limit 0 e.segments =
    if e.size ≤ o.limit then some e.product else none :=
  expandSegments_eq_product e.segments hne o.limit 0

/-- More atoms than the limit are refused. -/
theorem expandParsed_tooMany (hlt : o.limit < e.size) :
    expandParsed o e = ⟨none, [(Problem.tooManyAtoms e.raw o.limit).at_ o.span]⟩ := by
  rw [expandParsed, Expression.expandSegments_eq hne, if_neg (Nat.not_le.mpr hlt)]

/-- Atoms within the limit with different names are the result. -/
theorem expandParsed_distinct (hle : e.size ≤ o.limit) (hnd : (e.product.map (·.literal)).Nodup) :
    expandParsed o e = ⟨some ⟨e.raw, e.isSpliced, e.isLiteral, e.product, e.axes⟩, []⟩ := by
  have hnone := (repeated_eq_nil_iff _).mpr hnd
  rw [expandParsed, Expression.expandSegments_eq hne, if_pos hle]
  simp only [hnone]
  exact congrArg (fun axes => Logged.mk (some (Expansion.mk e.raw e.isSpliced e.isLiteral e.product
    axes)) []) (axes_eq e)

/-- A name that occurs twice is refused. -/
theorem expandParsed_repeated (hle : e.size ≤ o.limit)
    (hnd : ¬ (e.product.map (·.literal)).Nodup) :
    ∃ shown hidden, expandParsed o e =
      ⟨none, [(Problem.duplicateAtoms e.raw shown hidden).at_ o.span]⟩ := by
  have hsome : repeated (e.product.map (·.literal)) ≠ [] := fun hnone =>
    hnd ((repeated_eq_nil_iff _).mp hnone)
  rw [expandParsed, Expression.expandSegments_eq hne, if_pos hle]
  obtain ⟨s, rest, hrepeats⟩ := List.exists_cons_of_ne_nil hsome
  simp only [hrepeats]
  exact ⟨_, _, rfl⟩

end

/-- An expression that was read, with any named patterns and any limit, stands for its product,
if that is within the limit and no text occurs twice in it; otherwise one error says which of the
two is the matter. -/
theorem expandParsed_eq_product {o' : Options} {raw : String} {e : Expression}
    (h : (parse o' raw).value = some e) (o : Options) :
    let limit : Nat := if o.maxAtoms ≤ 0 then 10000 else o.maxAtoms.toNat
    ((expandParsed o e).value.isSome = true ↔
      e.size ≤ limit ∧ (e.product.map (·.literal)).Nodup) ∧
    e.product.length = e.size ∧
    (∀ x ∈ (expandParsed o e).value, (expandParsed o e).log = [] ∧
      x = ⟨e.raw, 1 < e.segments.length, e.isLiteral, e.product, e.axes⟩) ∧
    ((expandParsed o e).value = none → ∃ d, (expandParsed o e).log = [d] ∧ d.severity = .error ∧
      d.code = if limit < e.size then .expansionTooLarge else .duplicateAtoms) ∧
    (o.maxAtoms < 2 ^ 63 → (∀ s ∈ e.segments, ∀ g ∈ s.groups, g.items.length < 2 ^ 63) →
      expandSegmentsChecked limit [] 0 e.segments =
        some (expandSegments limit 0 e.segments)) := by
  intro limit
  have hlimit : limit = o.limit := rfl
  rw [hlimit]
  have hne : ∀ s ∈ e.segments, ∀ g ∈ s.groups, g.items ≠ [] := fun s hs g hg =>
    (meant_of_read h s hs g hg).items_ne_nil
  have hchecked : o.maxAtoms < 2 ^ 63 →
      (∀ s ∈ e.segments, ∀ g ∈ s.groups, g.items.length < 2 ^ 63) →
      expandSegmentsChecked o.limit [] 0 e.segments =
        some (expandSegments o.limit 0 e.segments) := by
    intro hmax hsizes
    have hlimit : o.limit < 2 ^ 63 := by
      rw [Options.limit, defaultMaxAtoms]
      split <;> omega
    simpa using expandSegmentsChecked_eq e.segments hsizes o.limit 0 [] (by simpa using hlimit)
  by_cases hlt : o.limit < e.size
  · rw [expandParsed_tooMany hne hlt]
    refine ⟨?_, length_productFrom .., by simp, fun _ => ⟨_, rfl, rfl, ?_⟩, hchecked⟩
    · simp [Nat.not_le.mpr hlt]
    · rw [if_pos hlt]
      rfl
  · have hle := Nat.le_of_not_lt hlt
    by_cases hnd : (e.product.map (·.literal)).Nodup
    · rw [expandParsed_distinct hne hle hnd]
      exact ⟨by simp [hle, hnd], length_productFrom .., by simp [Expression.isSpliced], by simp,
        hchecked⟩
    · obtain ⟨shown, hidden, heq⟩ := expandParsed_repeated hne hle hnd
      rw [heq]
      refine ⟨by simp [hnd], length_productFrom .., by simp, fun _ => ⟨_, rfl, rfl, ?_⟩, hchecked⟩
      rw [if_neg hlt]
      rfl

/-- Two segments, one of them with two groups, up to a limit of seven. -/
theorem expandParsed_eq_product_spliced :
    ∃ e ∈ (parse {} "d<p,n>[2:0];x").value, e.size = 7 ∧
      e.product = [⟨"dp2", "d", 0, [.literal "p", .number 2]⟩,
        ⟨"dp1", "d", 0, [.literal "p", .number 1]⟩, ⟨"dp0", "d", 0, [.literal "p", .number 0]⟩,
        ⟨"dn2", "d", 0, [.literal "n", .number 2]⟩, ⟨"dn1", "d", 0, [.literal "n", .number 1]⟩,
        ⟨"dn0", "d", 0, [.literal "n", .number 0]⟩, ⟨"x", "x", 1, []⟩] ∧
      (∀ x ∈ (expandParsed {} e).value, x.atoms = e.product ∧ x.axes = []) ∧
      (expandParsed { maxAtoms := 7 } e).value.isSome = true ∧
      (expandParsed { maxAtoms := 6 } e).value.isSome = false ∧
      expandSegmentsChecked 7 [] 0 e.segments = some (expandSegments 7 0 e.segments) := by
  have hsome : (parse {} "d<p,n>[2:0];x").value.isSome = true := by decide +kernel
  obtain ⟨e, he⟩ := Option.isSome_iff_exists.mp hsome
  have hsize : (parse {} "d<p,n>[2:0];x").value.map Expression.size = some 7 := by decide +kernel
  have hatoms : (parse {} "d<p,n>[2:0];x").value.map (fun e => (e.product, e.axes)) =
      some ([⟨"dp2", "d", 0, [.literal "p", .number 2]⟩,
        ⟨"dp1", "d", 0, [.literal "p", .number 1]⟩, ⟨"dp0", "d", 0, [.literal "p", .number 0]⟩,
        ⟨"dn2", "d", 0, [.literal "n", .number 2]⟩, ⟨"dn1", "d", 0, [.literal "n", .number 1]⟩,
        ⟨"dn0", "d", 0, [.literal "n", .number 0]⟩, ⟨"x", "x", 1, []⟩], []) := by decide +kernel
  have hsizes : (parse {} "d<p,n>[2:0];x").value.all (fun e => e.segments.all fun s =>
      s.groups.all fun g => g.items.length < 2 ^ 63) = true := by decide +kernel
  rw [he] at hsize hatoms hsizes
  have hseven : e.size = 7 := Option.some.inj hsize
  obtain ⟨hproduct, haxes⟩ := Prod.mk.inj (Option.some.inj hatoms)
  obtain ⟨hiff, -, -, -, hchecked⟩ := expandParsed_eq_product he { maxAtoms := 7 }
  obtain ⟨hiff', -⟩ := expandParsed_eq_product he { maxAtoms := 6 }
  refine ⟨e, he, hseven, hproduct, fun x hx => ?_, ?_, ?_, ?_⟩
  · rw [((expandParsed_eq_product he {}).2.2.1 x hx).2]
    exact ⟨rfl, haxes⟩
  · rw [hiff, hseven, hproduct]
    decide
  · rw [← Bool.not_eq_true, hiff', hseven, hproduct]
    decide
  · refine hchecked (by decide) fun s hs g hg => ?_
    simp only [Option.all_some, List.all_eq_true, decide_eq_true_eq] at hsizes
    exact hsizes s hs g hg

end Netlist.Pattern
