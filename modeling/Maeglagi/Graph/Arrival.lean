import Maeglagi.Graph.Periods
import Maeglagi.PlainRuntime
import Maeglagi.Temporal.Exact
import Maeglagi.Temporal.Omitted

/-!
# Sources that arrive one after another
-/

namespace Maeglagi.Graph

open Core Temporal Resolution

/-!
## Periods lost in a write

When two entities of a source go to one stored node, two of its relations can get one
triple and one start; only the last is written. What the other stated is lost exactly
when it is not covered.
-/

section

variable {Id : Type} [DecidableEq Id]

/-- Every graph that the writer reaches is tidy. -/
theorem tidy_of_runs (rt : Runtime Id) {g : Stored Id}
    (h : Runs rt (fun _ graph => ∃ w, Extracted rt w graph) Stored.empty g) : Tidy g :=
  Runs.invariant (P := Tidy) (fun _ _ hg hok => by
    obtain ⟨w, hw⟩ := hok
    exact (storedPeriods_write rt hg hw.closed).1) h Tidy.empty

/-- The stored periods of every triple are the earlier ones normalized together with those
of all relations that the id map takes to the triple. -/
def NoPeriodLost (rt : Runtime Id) (g : Stored Id) (graph : ResolvedGraph Id) : Prop :=
  ∀ t, (storedPeriods (write rt g graph).1 t).Perm
    (normalize (storedPeriods g t ++ incoming rt g graph t))

/-- The incoming periods of a triple that a later one with the same start replaces. -/
def replacedPeriods (rt : Runtime Id) (g : Stored Id) (graph : ResolvedGraph Id) (t : Triple Id) :
    List (Temporal.Interval Instant) := overwritten Interval.validFrom (incoming rt g graph t)

/-- The stored and the written periods of a triple before they are normalized. -/
def keptPeriods (rt : Runtime Id) (g : Stored Id) (graph : ResolvedGraph Id) (t : Triple Id) :
    List (Temporal.Interval Instant) :=
  storedPeriods g t ++ lasts Interval.validFrom (incoming rt g graph t)

/-- A write loses no stated period exactly when every replaced one is covered: the periods
that its start can belong to, among what starts by its end, end no earlier than it. -/
theorem noPeriodLost_iff (rt : Runtime Id) {w : Id} {g : Stored Id} {graph : ResolvedGraph Id}
    (hg : Tidy g) (h : Closed w graph) : NoPeriodLost rt g graph ↔
      ∀ t, ∀ d ∈ replacedPeriods rt g graph t,
        Covered (later (replacedPeriods rt g graph t) d ++ keptPeriods rt g graph t) d := by
  refine forall_congr' fun t => ?_
  have hin : ∀ i ∈ incoming rt g graph t, i.WellFormed := by
    intro i hi
    obtain ⟨r, hr, rfl⟩ := List.mem_map.mp hi
    obtain ⟨o, ho, rfl⟩ := List.mem_map.mp (List.mem_filter.mp hr).1
    exact h.periods o ho
  have hkept : ∀ i ∈ keptPeriods rt g graph t, i.WellFormed :=
    List.forall_mem_append.mpr ⟨hg.periods_wellFormed t, fun i hi => hin i (mem_of_mem_lasts hi)⟩
  have hout : ∀ i ∈ replacedPeriods rt g graph t, i.WellFormed :=
    fun i hi => hin i (mem_of_mem_overwritten hi)
  have hall : ∀ i ∈ replacedPeriods rt g graph t ++ keptPeriods rt g graph t, i.WellFormed :=
    List.forall_mem_append.mpr ⟨hout, hkept⟩
  have hperm : (replacedPeriods rt g graph t ++ keptPeriods rt g graph t).Perm
      (storedPeriods g t ++ incoming rt g graph t) := by
    rw [keptPeriods, replacedPeriods, ← List.append_assoc]
    refine (List.perm_append_comm.append_right _).trans ?_
    rw [List.append_assoc]
    exact (overwritten_append_lasts _ _).append_left _
  rw [← normalize_append_eq_iff hkept hout fun d hd => ?_, ← normalize_perm hall hperm]
  · have hstored := (storedPeriods_write rt hg h).2 t
    constructor
    · intro hlost
      have hnorm := normalize_perm (normalize_wellFormed hkept) (hstored.symm.trans hlost)
      rw [normalize_normalize hall, normalize_normalize hkept] at hnorm
      exact hnorm.symm
    · intro heq
      rw [heq]
      exact hstored
  · obtain ⟨k, hk, hs⟩ := exists_lasts_of_overwritten hd
    exact ⟨k, List.mem_append_right _ hk, hs⟩

theorem incoming_eq_nil {rt : Runtime Id} {g : Stored Id} {graph : ResolvedGraph Id}
    {t : Triple Id} (h : t ∉ (remapped rt g graph).map triple) : incoming rt g graph t = [] := by
  rw [incoming, List.map_eq_nil_iff, List.filter_eq_nil_iff]
  exact fun r hr ht => h (List.mem_map.mpr ⟨r, hr, of_decide_eq_true ht⟩)

/-- A source that knows a person under two addresses. -/
def twoAddresses : ExtractionResult := ⟨[plainPerson "Kim" ["a@x", "b@x"]], [], []⟩

/-- A source that takes the addresses for two people, with one assignment each. -/
def twoAssignments (first second : Option String) : ExtractionResult :=
  ⟨[plainPerson "Kim" ["a@x"], plainPerson "Lee" ["b@x"], plainPerson "Atlas" []], [],
    [plainAssignment "Kim" "Atlas" (some "2026-01-01") first,
      plainAssignment "Lee" "Atlas" (some "2026-01-01") second]⟩

/-- The stored graph with the person. -/
def knownPerson : Stored Text :=
  (write plainRuntime Stored.empty (plainGraph twoAddresses "s")).1

theorem runs_knownPerson :
    Runs plainRuntime (fun _ graph => ∃ w, Extracted plainRuntime w graph) Stored.empty knownPerson :=
  Relation.ReflTransGen.single
    ⟨_, ⟨"w".toList, twoAddresses, plainSource "s", rfl, by decide +kernel⟩, rfl⟩

theorem extracted_twoAssignments {first second : Option String}
    (h : resolveExtraction plainRuntime (twoAssignments first second) (plainSource "t") =
      .ok (plainGraph (twoAssignments first second) "t")) :
    Extracted plainRuntime "w".toList (plainGraph (twoAssignments first second) "t") :=
  ⟨_, plainSource "t", rfl, h⟩

theorem noPeriodLost_endLast :
    NoPeriodLost plainRuntime knownPerson (plainGraph (twoAssignments none (some "2026-02-01")) "t") := by
  refine (noPeriodLost_iff plainRuntime (tidy_of_runs plainRuntime runs_knownPerson)
    (extracted_twoAssignments (by decide +kernel)).closed).mpr fun t d hd => ?_
  have hopen : ∀ t ∈ (remapped plainRuntime knownPerson
      (plainGraph (twoAssignments none (some "2026-02-01")) "t")).map triple,
      ∀ d ∈ replacedPeriods plainRuntime knownPerson
        (plainGraph (twoAssignments none (some "2026-02-01")) "t") t, d.validTo = none := by
    decide +kernel
  by_cases ht : t ∈ (remapped plainRuntime knownPerson
      (plainGraph (twoAssignments none (some "2026-02-01")) "t")).map triple
  · intro e he
    rw [hopen t ht d hd] at he
    cases he
  · rw [replacedPeriods, incoming_eq_nil ht] at hd
    exact absurd hd List.not_mem_nil

/-- The end of the first assignment is lost when the second one has none. -/
theorem not_noPeriodLost_endFirst : ∃ g graph,
    Runs plainRuntime (fun _ graph => ∃ w, Extracted plainRuntime w graph) Stored.empty g ∧
    Extracted plainRuntime "w".toList graph ∧ ¬NoPeriodLost plainRuntime g graph := by
  refine ⟨knownPerson, plainGraph (twoAssignments (some "2026-02-01") none) "t", runs_knownPerson,
    extracted_twoAssignments (by decide +kernel), fun h => ?_⟩
  have hlost : ∃ t ∈ (remapped plainRuntime knownPerson
      (plainGraph (twoAssignments (some "2026-02-01") none) "t")).map triple,
      ¬(storedPeriods (write plainRuntime knownPerson
        (plainGraph (twoAssignments (some "2026-02-01") none) "t")).1 t).Perm
        (normalize (storedPeriods knownPerson t ++ incoming plainRuntime knownPerson
          (plainGraph (twoAssignments (some "2026-02-01") none) "t") t)) := by
    decide +kernel
  obtain ⟨t, _, ht⟩ := hlost
  exact ht (h t)

end

/-!
## The order in which sources arrive

Writing the relations of the sources one after the other normalizes the periods of a
triple in batches. As long as no unknown bound is folded away before the last batch, the
stored periods are those of all batches at once, in whatever order they came.
-/

section

variable {Id : Type} [DecidableEq Id]

/-- The periods that a source's relations state for a triple. -/
def triplePeriods (t : Triple Id) (relations : List (GraphRelation Id)) :
    List (Temporal.Interval Instant) :=
  (relations.filter fun r => decide (triple r = t)).map period

/-- Before each batch, what is stored and the earlier batches keep their unknown bounds. -/
def Gradual (before : List (Temporal.Interval Instant))
    (batches : List (List (Temporal.Interval Instant))) : Prop :=
  ∀ n < batches.length, KeepsUnknown (stated (before ++ (batches.take n).flatten))

instance (before : List (Temporal.Interval Instant))
    (batches : List (List (Temporal.Interval Instant))) :
    Decidable (Gradual before batches) :=
  inferInstanceAs (Decidable (∀ n < batches.length,
    KeepsUnknown (stated (before ++ (batches.take n).flatten))))

theorem Gradual.dropLast {before : List (Temporal.Interval Instant)}
    {batches : List (List (Temporal.Interval Instant))} {batch : List (Temporal.Interval Instant)}
    (h : Gradual before (batches ++ [batch])) :
    Gradual before batches ∧ KeepsUnknown (stated (before ++ batches.flatten)) := by
  refine ⟨fun n hn => ?_, ?_⟩
  · have := h n (by rw [List.length_append]; omega)
    rwa [List.take_append_of_le_length hn.le] at this
  · have := h batches.length (by rw [List.length_append]; simp)
    rwa [List.take_left] at this

/-- Writing batches one after the other, while no unknown bound is folded away. -/
theorem storedPeriods_batches (rt : Runtime Id) {g : Stored Id} {w : Id} {kind : RelationKind}
    {batches : List (List (GraphRelation Id))} (hg : Tidy g)
    (h : ∀ batch ∈ batches, Writable g w kind batch) (t : Triple Id)
    (hgradual : Gradual (storedPeriods g t) (batches.map (triplePeriods t))) :
    Tidy (batches.foldl (fun g batch => writeRelations rt g kind batch) g) ∧
      (batches.foldl (fun g batch => writeRelations rt g kind batch) g).nodes = g.nodes ∧
      (storedPeriods (batches.foldl (fun g batch => writeRelations rt g kind batch) g) t).Perm
        (normalize (storedPeriods g t ++ (batches.map (triplePeriods t)).flatten)) := by
  induction batches using List.reverseRecOn with
  | nil => exact ⟨hg, rfl, by simpa using hg.normal t⟩
  | append_singleton batches batch ih =>
    rw [List.map_append, List.map_singleton] at hgradual
    obtain ⟨hbefore, hkeeps⟩ := hgradual.dropLast
    obtain ⟨htidy, hnodes, hperiods⟩ := ih (fun b hb => h b (List.mem_append_left _ hb)) hbefore
    have hw := (h batch (by simp)).congr hnodes htidy
    rw [List.foldl_append, List.foldl_cons, List.foldl_nil]
    refine ⟨htidy.writeRelations rt hw, (writeRelations_nodes rt _ _ _).trans hnodes, ?_⟩
    have hearlier : ∀ i ∈ storedPeriods g t ++ (batches.map (triplePeriods t)).flatten,
        i.WellFormed := by
      refine List.forall_mem_append.mpr ⟨hg.periods_wellFormed t, fun i hi => ?_⟩
      obtain ⟨l, hl, hi⟩ := List.mem_flatten.mp hi
      obtain ⟨b, hb, rfl⟩ := List.mem_map.mp hl
      obtain ⟨r, hr, rfl⟩ := List.mem_map.mp hi
      exact (h b (List.mem_append_left _ hb)).incoming r (List.mem_filter.mp hr).1
    have hnew : ∀ i ∈ triplePeriods t batch, i.WellFormed := by
      intro i hi
      obtain ⟨r, hr, rfl⟩ := List.mem_map.mp hi
      exact hw.incoming r (List.mem_filter.mp hr).1
    refine (storedPeriods_writeRelations rt htidy hw t).trans (List.Perm.of_eq ?_)
    rw [normalize_perm (hw.merged_wellFormed htidy t) (hperiods.append_right _),
      ← triplePeriods, normalize_append_of_stated hkeeps hearlier hnew, List.append_assoc,
      List.map_append,
      List.map_singleton, List.flatten_append, List.flatten_singleton]

/-- A list may be normalized before any other is added when its stated intervals keep their
unknown bounds, and, but for starts at the earliest instant, only then. Sources may arrive
in any two orders in which this holds before each of them. -/
theorem arrival_order (rt : Runtime Id) :
    (∀ xs ys : List (Temporal.Interval Instant),
      (∀ i ∈ xs, i.WellFormed) → (∀ i ∈ ys, i.WellFormed) →
      KeepsUnknown (stated xs) → normalize (normalize xs ++ ys) = normalize (xs ++ ys)) ∧
    (∀ xs : List (Temporal.Interval Instant),
      (∀ i ∈ xs, i.WellFormed) → (∀ i ∈ xs, i.validFrom ≠ some ⊥) →
      (∀ ys : List (Temporal.Interval Instant), (∀ i ∈ ys, i.WellFormed) →
        normalize (normalize xs ++ ys) = normalize (xs ++ ys)) → KeepsUnknown (stated xs)) ∧
    ∀ (g : Stored Id) (w : Id) (t : Triple Id) (batches batches' : List (List (GraphRelation Id))),
      Tidy g → (∀ batch ∈ batches, Writable g w t.2.2 batch) → batches.Perm batches' →
      Gradual (storedPeriods g t) (batches.map (triplePeriods t)) →
      Gradual (storedPeriods g t) (batches'.map (triplePeriods t)) →
      (storedPeriods (batches.foldl (fun g batch => writeRelations rt g t.2.2 batch) g) t).Perm
        (storedPeriods (batches'.foldl (fun g batch => writeRelations rt g t.2.2 batch) g) t) := by
  refine ⟨fun xs ys hx hy h => normalize_append_of_stated h hx hy,
    fun xs hx hstart hlaw => keepsUnknown_of_normalize hx hstart hlaw, ?_⟩
  intro g w t batches batches' hg h hperm hgradual hgradual'
  have h' : ∀ batch ∈ batches', Writable g w t.2.2 batch := fun b hb => h b (hperm.mem_iff.mpr hb)
  refine (storedPeriods_batches rt hg h t hgradual).2.2.trans
    (List.Perm.trans (List.Perm.of_eq ?_) (storedPeriods_batches rt hg h' t hgradual').2.2.symm)
  refine normalize_perm (List.forall_mem_append.mpr ⟨hg.periods_wellFormed t, fun i hi => ?_⟩)
    ((hperm.map (triplePeriods t)).flatten.append_left _)
  obtain ⟨l, hl, hi⟩ := List.mem_flatten.mp hi
  obtain ⟨b, hb, rfl⟩ := List.mem_map.mp hl
  obtain ⟨r, hr, rfl⟩ := List.mem_map.mp hi
  exact (h b hb).incoming r (List.mem_filter.mp hr).1

/-- A source that states one assignment. -/
def oneAssignment (validFrom validTo : Option String) : ExtractionResult :=
  ⟨[plainPerson "Kim" ["a@x"], plainPerson "Atlas" []], [],
    [plainAssignment "Kim" "Atlas" validFrom validTo]⟩

/-- The relations of such a source. -/
def assignment (validFrom validTo : Option String) : List (GraphRelation Text) :=
  (plainGraph (oneAssignment validFrom validTo) "t").relations

/-- The stored graph with an assignment over one month. -/
def assigned : Stored Text :=
  (write plainRuntime Stored.empty
    (plainGraph (oneAssignment (some "2026-01-01") (some "2026-02-01")) "s")).1

/-- The triple of the assignments. -/
def assignmentTriple : Triple Text :=
  ((assignment none none).map triple).headD ([], [], .assignedTo)

theorem arrival_order_assignments :
    (Temporal.normalize (normalize [⟨some 1, some 4⟩, ⟨some 3, none⟩] ++ [⟨some 5, some 6⟩]) =
      normalize ([⟨some 1, some 4⟩, ⟨some 3, none⟩, ⟨some 5, some 6⟩] :
        List (Temporal.Interval Instant))) ∧
    KeepsUnknown (stated ([] : List (Temporal.Interval Instant))) ∧
    (storedPeriods ([assignment (some "2026-01-15") (some "2026-03-01"),
      assignment (some "2026-05-01") none].foldl
        (fun g batch => writeRelations plainRuntime g .assignedTo batch) assigned)
          assignmentTriple).Perm
      (storedPeriods ([assignment (some "2026-05-01") none,
        assignment (some "2026-01-15") (some "2026-03-01")].foldl
          (fun g batch => writeRelations plainRuntime g .assignedTo batch) assigned)
            assignmentTriple) := by
  have hassigned : Tidy assigned :=
    tidy_of_runs plainRuntime (Relation.ReflTransGen.single
      ⟨_, ⟨"w".toList, oneAssignment (some "2026-01-01") (some "2026-02-01"), plainSource "s", rfl,
        by decide +kernel⟩, rfl⟩)
  have hwritable : ∀ batch ∈ [assignment (some "2026-01-15") (some "2026-03-01"),
      assignment (some "2026-05-01") none],
      Writable assigned "w".toList .assignedTo batch := by
    intro batch hbatch
    refine ⟨?_, ?_, fun r hr s e => ?_, hassigned.wellFormed⟩
    · exact (by decide +kernel : ∀ batch ∈ [assignment (some "2026-01-15") (some "2026-03-01"),
        assignment (some "2026-05-01") none], ∀ r ∈ batch,
          r.workspaceId = "w".toList ∧ r.kind = .assignedTo) batch hbatch
    · exact (by decide +kernel : ∀ batch ∈ [assignment (some "2026-01-15") (some "2026-03-01"),
        assignment (some "2026-05-01") none], ∀ r ∈ batch,
          inWorkspace assigned "w".toList r.sourceEntityId = true ∧
            inWorkspace assigned "w".toList r.targetEntityId = true) batch hbatch
    · have hclosed : ∀ {validFrom validTo}, resolveExtraction plainRuntime
          (oneAssignment validFrom validTo) (plainSource "t") =
            .ok (plainGraph (oneAssignment validFrom validTo) "t") →
          ∀ r ∈ assignment validFrom validTo, (period r).WellFormed := fun h =>
        (show Extracted plainRuntime "w".toList _ from ⟨_, plainSource "t", rfl, h⟩).closed.periods
      rcases List.mem_cons.mp hbatch with rfl | hbatch
      · exact hclosed (by decide +kernel) r hr s e
      · rw [List.mem_singleton.mp hbatch] at hr
        exact hclosed (by decide +kernel) r hr s e
  refine ⟨(arrival_order plainRuntime).1 [⟨some 1, some 4⟩, ⟨some 3, none⟩] [⟨some 5, some 6⟩]
    (by decide) (by decide) (by decide +kernel), ?_, ?_⟩
  · exact (arrival_order plainRuntime).2.1 [] (by simp) (by simp) fun ys hys => by
      rw [Temporal.normalize, sortIntervals]
      rfl
  · exact (arrival_order plainRuntime).2.2 assigned "w".toList assignmentTriple _ _ hassigned
      hwritable (List.Perm.swap ..) (by decide +kernel) (by decide +kernel)

/-- An end stated within an open period is lost when the period was folded before. -/
theorem not_normalize_append_openPeriod : ∃ xs ys : List (Temporal.Interval Instant),
    (∀ i ∈ xs, i.WellFormed) ∧ (∀ i ∈ ys, i.WellFormed) ∧
      normalize (normalize xs ++ ys) ≠ normalize (xs ++ ys) :=
  ⟨[⟨some 1, none⟩, ⟨some 7, some 10⟩], [⟨some 3, some 5⟩], by decide, by decide, by decide⟩

end

end Maeglagi.Graph
