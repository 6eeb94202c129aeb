import Netlist.Proofs.Diagnostic.Accounting
import Netlist.Proofs.Elaborate.Outcome
import Netlist.Report.Pretty

/-!
# The entry with the times

The times of a run go into the bag as one more diagnostic, for which the limit is raised if
there is no room.  The bag is asked first, though, so a full bag has counted the entry as turned
away before it takes it, and a bag of the largest size counts it twice and does not take it.
With room the entry changes nothing else (`Bag.insist_of_hasRoom`); without room one diagnostic
too many is counted, and the report of the run says that it is not shown
(`timing_entry_counted`).
-/

namespace Netlist

/-! ## An entry that must not be lost -/

namespace Bag

section

variable {b : Bag} {d : Diagnostic}

theorem insist_of_hasRoom (h : b.hasRoom = true) :
    b.insist d = { b with items := b.items ++ [d] } := by
  rw [insist, if_pos h, add, if_pos h]

/-- A full bag that is asked to take something that is no error. -/
theorem add_of_full (h : b.hasRoom = false) (hd : d.isError = false) :
    b.add d = { b with dropped := b.dropped + 1 } := by
  rw [add, h, hd]
  rfl

theorem limit_le_of_full (h : b.hasRoom = false) : b.limit ≤ b.items.length := by
  simpa [hasRoom] using h

/-- A full bag is asked, and then a bag with nothing but the entry is merged into it. -/
theorem insist_of_full_eq (h : b.hasRoom = false) (hd : d.isError = false) :
    b.insist d = { b with dropped := b.dropped + 1 }.merge { items := [d], limit := 1 } := by
  rw [insist, h, add_of_full h hd]
  rfl

/-- A full bag takes the entry, but it has counted it as turned away. -/
theorem insist_of_full (h : b.hasRoom = false) (hlength : b.length < maxLimit)
    (hd : d.isError = false) : b.insist d =
      { b with items := b.items ++ [d], limit := b.length + 1, dropped := b.dropped + 1 } := by
  have hlimit := limit_le_of_full h
  have hfits : ({ b with dropped := b.dropped + 1 } : Bag).length +
      ({ items := [d], limit := 1 } : Bag).length ≤ maxLimit := hlength
  have hraised : ({ b with dropped := b.dropped + 1 } : Bag).mergeLimit
      { items := [d], limit := 1 } = b.items.length + 1 :=
    (mergeLimit_of_le hfits).trans (Nat.max_eq_right (Nat.le_succ_of_le hlimit))
  rw [insist_of_full_eq h hd, merge_eq, hraised, addAll_eq]
  simp [room, length]

/-- A bag of the largest size turns the entry away and counts it twice. -/
theorem insist_of_largest (h : b.hasRoom = false) (hlength : maxLimit ≤ b.length)
    (hd : d.isError = false) : b.insist d = { b with dropped := b.dropped + 2 } := by
  have hlimit := limit_le_of_full h
  have hkept : ({ b with dropped := b.dropped + 1 } : Bag).mergeLimit { items := [d], limit := 1 } =
      b.limit := mergeLimit_of_lt (Nat.lt_succ_of_le hlength)
  rw [insist_of_full_eq h hd, merge_eq, hkept, addAll_eq]
  simp [room, Nat.sub_eq_zero_of_le hlimit, hd]

end

end Bag

/-! ## What a run turns away -/

/-- Reports without the repeats among them. -/
def distinctReports (ds : List Diagnostic) : List Diagnostic := Bag.firsts Sink.sameReport [] ds

/-- The bag behind the filter gets what is not a repeat. -/
theorem Sink.bag_reportAll (ds : List Diagnostic) : ∀ s : Sink,
    (s.reportAll ds).bag = s.bag.addAll (Bag.firsts sameReport s.seen ds) := by
  induction ds with
  | nil => exact fun s => rfl
  | cons d ds ih =>
      intro s
      have hstep : s.reportAll (d :: ds) = (s.report d).reportAll ds := rfl
      rw [hstep, ih, report, Bag.firsts]
      split <;> rfl

/-- All that is reported in a run for loaded files.  A stored result comes with what was
reported when it was made. -/
def reportsFor (o : ElaborateOptions) (tree : FileTree) (found : Logged Import.Resolution) :
    List Diagnostic :=
  found.log ++
    match found.value.graph with
    | none => []
    | some graph =>
      if graph.broken then []
      else
        match storedFor o tree graph with
        | some (_, diagnostics) => diagnostics
        | none => (compile graph found.value.alloc o.maxAtoms).log

theorem sink_findingsFor (o : ElaborateOptions) (tree : FileTree)
    (found : Logged Import.Resolution) : (findingsFor o tree found).sink =
      Sink.reportAll { bag := Bag.new o.limit } (reportsFor o tree found) := by
  unfold findingsFor reportsFor
  cases found.value.graph with
  | none => simp
  | some graph =>
      cases hbroken : graph.broken with
      | true => simp [hbroken]
      | false =>
          simp only [hbroken, Bool.false_eq_true, if_false]
          cases storedFor o tree graph with
          | none => simp [Sink.reportAll_append]
          | some stored => simp [Sink.reportAll_append]

/-- The reports of a run for which its bag has no room. -/
def turnedAway (o : ElaborateOptions) (ds : List Diagnostic) : List Diagnostic :=
  (distinctReports ds).drop (Bag.new o.limit).limit

/-- The bag of a run before the times are added. -/
def bagBeforeTimes (o : ElaborateOptions) (ds : List Diagnostic) : Bag :=
  settleWarnings o ((Bag.new o.limit).addAll (distinctReports ds))

theorem dropped_settleWarnings (o : ElaborateOptions) (b : Bag) :
    (settleWarnings o b).dropped = b.dropped := by
  unfold settleWarnings
  dsimp only
  split <;> split <;> rfl

theorem dropped_bagBeforeTimes (o : ElaborateOptions) (ds : List Diagnostic) :
    (bagBeforeTimes o ds).dropped = (turnedAway o ds).length := by
  rw [bagBeforeTimes, dropped_settleWarnings, Bag.addAll_eq]
  exact Nat.zero_add _

theorem limit_bagBeforeTimes_le (o : ElaborateOptions) (ds : List Diagnostic) :
    (bagBeforeTimes o ds).limit ≤ Bag.maxLimit := by
  have hlimit : (bagBeforeTimes o ds).limit =
      ((Bag.new o.limit).addAll (distinctReports ds)).limit := by
    unfold bagBeforeTimes settleWarnings
    dsimp only
    split <;> split <;> rfl
  rw [hlimit, Bag.limit_addAll]
  exact (Bag.bounded_new o.limit).limit_le

/-- How much is counted for an entry: it is counted if it is lost, and once more if there was no
room. -/
theorem Bag.dropped_insist {b : Bag} (hb : b.limit ≤ maxLimit) {d : Diagnostic}
    (hd : d.isError = false) : (b.insist d).dropped =
      b.dropped + (if b.length < maxLimit then 0 else 1) + (if b.hasRoom then 0 else 1) := by
  cases hroom : b.hasRoom with
  | true =>
      have hlt : b.length < b.limit := by simpa [hasRoom, length] using hroom
      rw [insist_of_hasRoom hroom, if_pos (Nat.lt_of_lt_of_le hlt hb)]
      rfl
  | false =>
      rcases Nat.lt_or_ge b.length maxLimit with hlt | hge
      · rw [insist_of_full hroom hlt hd, if_pos hlt]
        rfl
      · rw [insist_of_largest hroom hge hd, if_neg (Nat.not_lt_of_le hge)]
        rfl

section

variable (o : ElaborateOptions) (tree : FileTree) (found : Logged Import.Resolution)
  (report : TimingReport)

theorem bag_conclude : (conclude o (findingsFor o tree found) (some report)).bag =
    ((bagBeforeTimes o (reportsFor o tree found)).insist
      (timingDiagnostic report (findingsFor o tree found).cacheHit)).sort := by
  rw [conclude, sink_findingsFor, Sink.bag_reportAll]
  rfl

theorem dropped_conclude : (conclude o (findingsFor o tree found) (some report)).bag.dropped =
    (turnedAway o (reportsFor o tree found)).length +
      (if (bagBeforeTimes o (reportsFor o tree found)).length < Bag.maxLimit then 0 else 1) +
      (if (bagBeforeTimes o (reportsFor o tree found)).hasRoom then 0 else 1) := by
  rw [bag_conclude, ← dropped_bagBeforeTimes]
  exact Bag.dropped_insist (limit_bagBeforeTimes_le o _) rfl

end

/-! ## What a report says -/

/-- What a report says about a number of diagnostics that a limit kept away. -/
def notShown (count limit : Nat) : String :=
  if count = 0 then ""
  else "... " ++ Decimal.ofNat count ++ " more diagnostic(s) not shown (limit " ++
    Decimal.ofNat limit ++ ")\n"

theorem pretty_eq (files : FileSet) (format : Report.PrettyOptions) (b : Bag) :
    Report.pretty files format b =
      b.items.flatMap (Report.diagnosticText files format) ++
        Bytes.ofString (notShown b.dropped b.limit) := by
  simp [Report.pretty, Report.droppedText, notShown]

/-- A bag with room takes the entry with the times and counts nothing.  A full bag takes it and
counts it as turned away all the same, and a bag of the largest size turns it away and counts it
twice.  So the number of diagnostics that the report of a run with times says are not shown is
right if there was room for the entry, and otherwise too large by one. -/
theorem timing_entry_counted {m : Type → Type} [Monad m] [LawfulMonad m] (now : m Int)
    (o : ElaborateOptions) (tree : FileTree) (tracer : Trace.Tracer) (entry : String)
    (parse : TreeParser) (htimings : o.timings = true) (hruns : o.cancelled = false) :
    (∀ (b : Bag) (report : TimingReport) (hit : Bool),
      let d := timingDiagnostic report hit
      (b.hasRoom = true → b.insist d = { b with items := b.items ++ [d] }) ∧
      (b.hasRoom = false → b.length < Bag.maxLimit → b.insist d =
        { b with items := b.items ++ [d], limit := b.length + 1, dropped := b.dropped + 1 }) ∧
      (b.hasRoom = false → Bag.maxLimit ≤ b.length →
        b.insist d = { b with dropped := b.dropped + 2 })) ∧
    ∃ run : Int → Int → Int → m RunOutcome,
      (elaborate now o tree tracer entry parse = do
        let t₀ ← now
        let t₁ ← now
        let t₂ ← now
        run t₀ t₁ t₂) ∧
      ∀ t₀ t₁ t₂, SatisfiesM
        (fun out => ∃ e report hit, out.result = some e ∧
          let ds := reportsFor o tree
            (loadFiles (readingAt o tree tracer t₀ t₁ t₂ parse) o tree entry)
          let before := bagBeforeTimes o ds
          let lost := (turnedAway o ds).length + if before.length < Bag.maxLimit then 0 else 1
          e.bag = (before.insist (timingDiagnostic report hit)).sort ∧
          ∀ format, Report.pretty e.files format e.bag =
            e.bag.items.flatMap (Report.diagnosticText e.files format) ++
              Bytes.ofString (notShown (lost + if before.hasRoom then 0 else 1) e.bag.limit))
        (run t₀ t₁ t₂) := by
  refine ⟨fun b report hit => ⟨Bag.insist_of_hasRoom, fun h hlt => Bag.insist_of_full h hlt rfl,
    fun h hge => Bag.insist_of_largest h hge rfl⟩, ?_⟩
  obtain ⟨run, hrun, hgives⟩ := satisfiesM_elaborate now hruns tree tracer entry parse
  refine ⟨run, hrun, fun t₀ t₁ t₂ => (hgives t₀ t₁ t₂).imp fun hout => ?_⟩
  obtain ⟨⟨⟨report, hreport⟩, hresult⟩, _⟩ := hout
  rw [htimings] at hreport
  obtain ⟨r, rfl⟩ := Option.isSome_iff_exists.mp hreport
  refine ⟨_, r, _, hresult, bag_conclude o tree _ r, fun format => ?_⟩
  rw [pretty_eq, dropped_conclude]

/-- A tree of one file that is cut off. -/
def cutOff : FileTree where
  workDir := "/t"
  entries := [(["t"], .directory), (["t", "a"], .file (Bytes.ofString "["))]
  rooted := rfl

/-- Settings with room for one diagnostic and with times. -/
def tight : ElaborateOptions := { maxDiagnostics := 1, timings := true }

/-- One problem is reported and kept, and so is the entry with the times, yet the report says that
one more diagnostic is not shown. -/
theorem timing_entry_counted_cutOff :
    let ds := reportsFor tight cutOff
      (loadFiles (readingAt tight cutOff Trace.Tracer.none 0 0 0) tight cutOff "a")
    ds.length = 1 ∧ turnedAway tight ds = [] ∧
    ∃ e, (elaborate (m := Id) 0 tight cutOff Trace.Tracer.none "a").result = some e ∧
      e.bag.length = 2 ∧
      ∀ format, Report.pretty e.files format e.bag =
        e.bag.items.flatMap (Report.diagnosticText e.files format) ++
          Bytes.ofString "... 1 more diagnostic(s) not shown (limit 2)\n" := by
  intro ds
  have hds : ds.length = 1 ∧ turnedAway tight ds = [] := by decide +kernel
  have hfull : (bagBeforeTimes tight ds).length = 1 ∧
      (bagBeforeTimes tight ds).hasRoom = false := by decide +kernel
  have hcount : (turnedAway tight ds).length +
      (if (bagBeforeTimes tight ds).length < Bag.maxLimit then 0 else 1) +
      (if (bagBeforeTimes tight ds).hasRoom then 0 else 1) = 1 := by
    rw [hds.2, hfull.1, hfull.2]
    rfl
  have htext : notShown 1 2 = "... 1 more diagnostic(s) not shown (limit 2)\n" := by decide
  obtain ⟨hinsist, run, hrun, hcounted⟩ :=
    timing_entry_counted (m := Id) 0 tight cutOff Trace.Tracer.none "a" readTree rfl rfl
  obtain ⟨e, report, hit, hresult, hbag, hpretty⟩ := SatisfiesM_Id_eq.mp (hcounted 0 0 0)
  have hkept := (hinsist (bagBeforeTimes tight ds) report hit).2.1 hfull.2 (by rw [hfull.1]; decide)
  have hlength : e.bag.length = 2 := by
    rw [hbag, hkept]
    simpa [Bag.sort, Bag.length] using hfull.1
  have hlimit : e.bag.limit = 2 := by
    rw [hbag, hkept, hfull.1]
    rfl
  refine ⟨hds.1, hds.2, e, by rw [hrun]; exact hresult, hlength, fun format => ?_⟩
  rw [hpretty format, hlimit, ← htext]
  exact congrArg (fun n => _ ++ Bytes.ofString (notShown n 2)) hcount

end Netlist
