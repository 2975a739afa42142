import Mathlib.Data.List.Nodup
import Maeglagi.Drafts.Capture

/-!
# What merging keeps

The rows of a capture have ids of their own. A row that its user wrote keeps its text, a row that
was deleted stays away, and a row that was final is there as long as its user does not delete it.
-/

namespace Maeglagi.Drafts

open Core

variable {K : Type} {current : List (LiveTurn K)} {incoming : List (Segment K)}

theorem updateFor_eq_some {id : Int} {segment : Segment K}
    (h : updateFor incoming id = some segment) : segment ∈ incoming ∧ segment.id = id := by
  refine ⟨List.mem_reverse.mp (List.mem_of_find?_eq_some h), ?_⟩
  simpa using List.find?_some h

theorem updateFor_eq_none {id : Int} (h : updateFor incoming id = none) :
    ∀ segment ∈ incoming, segment.id ≠ id := by
  intro segment hmem
  simpa using List.find?_eq_none.mp h segment (List.mem_reverse.mpr hmem)

/-- A row is kept as it is, or what was recognized replaces its text unless that was edited. -/
theorem keptTurn_cases {row row' : LiveTurn K} (h : keptTurn incoming row = some row') :
    row'.id = row.id ∧ row'.speaker = row.speaker ∧ row'.edited = row.edited ∧
      (row.edited = true ∨ row.id < 0 → row'.text = row.text) ∧
      (row' = row ∧ (row.id < 0 ∨ ∀ segment ∈ incoming, segment.id ≠ row.id) ∨
        ∃ segment ∈ incoming, segment.id = row.id ∧ row'.isFinal = segment.isFinal) := by
  unfold keptTurn at h
  by_cases hmanual : row.id < 0
  · rw [if_pos hmanual] at h
    obtain rfl := Option.some.inj h
    exact ⟨rfl, rfl, rfl, fun _ => rfl, .inl ⟨rfl, .inl hmanual⟩⟩
  · rw [if_neg hmanual] at h
    split at h
    · next segment hsegment =>
      obtain rfl := Option.some.inj h
      obtain ⟨hmem, hid⟩ := updateFor_eq_some hsegment
      refine ⟨rfl, rfl, rfl, fun hown => ?_, .inr ⟨segment, hmem, hid, rfl⟩⟩
      have hedited := hown.resolve_right hmanual
      simp [hedited]
    · next hnone =>
      split_ifs at h
      obtain rfl := Option.some.inj h
      exact ⟨rfl, rfl, rfl, fun _ => rfl, .inl ⟨rfl, .inr (updateFor_eq_none hnone)⟩⟩

/-- A row that was written by its user, is final or is reported is kept. -/
theorem exists_keptTurn {row : LiveTurn K}
    (h : row.edited = true ∨ row.id < 0 ∨ row.isFinal = true ∨
      ∃ segment ∈ incoming, segment.id = row.id) : ∃ row', keptTurn incoming row = some row' := by
  unfold keptTurn
  by_cases hmanual : row.id < 0
  · exact ⟨row, if_pos hmanual⟩
  · rw [if_neg hmanual]
    split
    · exact ⟨_, rfl⟩
    · next hnone =>
      rw [if_pos]
      · exact ⟨_, rfl⟩
      · rcases h with hedited | hneg | hfinal | ⟨segment, hmem, hid⟩
        · simp [hedited]
        · exact absurd hneg hmanual
        · simp [hfinal]
        · exact absurd hid (updateFor_eq_none hnone segment hmem)

/-- The second loop adds a row for each id that does not exist yet. -/
theorem foldl_addSegment (speaker : K) (state : List (LiveTurn K) × List Int) :
    ∃ added, (incoming.foldl (addSegment speaker) state).1 = state.1 ++ added ∧
      (added.map fun row => row.id).Nodup ∧
      ∀ row ∈ added, row.id ∉ state.2 ∧
        ∃ segment ∈ incoming, row = { segment with speaker := speaker } := by
  induction incoming generalizing state with
  | nil => exact ⟨[], by simp, List.nodup_nil, by simp⟩
  | cons segment rest ih =>
    rw [List.foldl_cons]
    by_cases hexists : segment.id ∈ state.2
    · have hsame : addSegment speaker state segment = state := if_pos hexists
      rw [hsame]
      obtain ⟨added, hrows, hnodup, hadded⟩ := ih state
      refine ⟨added, hrows, hnodup, fun row hrow => ?_⟩
      obtain ⟨hnew, segment', hmem, rfl⟩ := hadded row hrow
      exact ⟨hnew, segment', List.mem_cons_of_mem _ hmem, rfl⟩
    · have hadd : addSegment speaker state segment =
          (state.1 ++ [{ segment with speaker := speaker }], state.2 ++ [segment.id]) :=
        if_neg hexists
      rw [hadd]
      obtain ⟨added, hrows, hnodup, hadded⟩ :=
        ih (state.1 ++ [{ segment with speaker := speaker }], state.2 ++ [segment.id])
      refine ⟨{ segment with speaker := speaker } :: added, ?_, ?_, ?_⟩
      · rw [hrows, List.append_assoc, List.singleton_append]
      · rw [List.map_cons, List.nodup_cons]
        refine ⟨fun hmem => ?_, hnodup⟩
        obtain ⟨row, hrow, hid⟩ := List.mem_map.mp hmem
        exact (hadded row hrow).1 (List.mem_append_right _ (by simp [hid]))
      · intro row hrow
        rcases List.mem_cons.mp hrow with rfl | hrow
        · exact ⟨hexists, segment, List.mem_cons_self, rfl⟩
        · obtain ⟨hnew, segment', hmem, rfl⟩ := hadded row hrow
          exact ⟨fun hold => hnew (List.mem_append_left _ hold), segment',
            List.mem_cons_of_mem _ hmem, rfl⟩

/-- The merged rows are the kept ones and rows for ids that are new. -/
theorem mergeTranscript_cases (current : List (LiveTurn K)) (incoming : List (Segment K))
    (speaker : K) : ∃ added, mergeTranscript current incoming speaker =
      current.filterMap (keptTurn incoming) ++ added ∧ (added.map fun row => row.id).Nodup ∧
      ∀ row ∈ added, (row.id ∉ current.map fun row => row.id) ∧
        ∃ segment ∈ incoming, row = { segment with speaker := speaker } :=
  foldl_addSegment speaker _

theorem nodup_mergeTranscript (speaker : K) (h : (current.map fun row => row.id).Nodup) :
    ((mergeTranscript current incoming speaker).map fun row => row.id).Nodup := by
  obtain ⟨added, hrows, hnodup, hadded⟩ := mergeTranscript_cases current incoming speaker
  rw [hrows, List.map_append, List.nodup_append]
  refine ⟨?_, hnodup, ?_⟩
  · rw [List.nodup_iff_pairwise_ne, List.pairwise_map] at h ⊢
    refine (List.pairwise_filterMap).mpr (h.imp fun hne b hb b' hb' heq => hne ?_)
    rw [← (keptTurn_cases hb).1, ← (keptTurn_cases hb').1, heq]
  · rintro id hold id' hnew rfl
    obtain ⟨row, hrow, rfl⟩ := List.mem_map.mp hold
    obtain ⟨row', hrow', hid⟩ := List.mem_map.mp hnew
    obtain ⟨before, hbefore, hkept⟩ := List.mem_filterMap.mp hrow
    refine (hadded row' hrow').1 ?_
    rw [hid, (keptTurn_cases hkept).1]
    exact List.mem_map_of_mem hbefore

theorem mem_mergeTranscript {speaker : K} {row : LiveTurn K}
    (h : row ∈ mergeTranscript current incoming speaker) :
    (∃ before ∈ current, keptTurn incoming before = some row) ∨
      (row.id ∉ current.map fun row => row.id) ∧
        ∃ segment ∈ incoming, row = { segment with speaker := speaker } := by
  obtain ⟨added, hrows, -, hadded⟩ := mergeTranscript_cases current incoming speaker
  rw [hrows, List.mem_append] at h
  exact h.imp List.mem_filterMap.mp (hadded row)

theorem mem_mergeTranscript_of_kept {speaker : K} {before row : LiveTurn K} (h : before ∈ current)
    (hkept : keptTurn incoming before = some row) :
    row ∈ mergeTranscript current incoming speaker := by
  obtain ⟨added, hrows, -, -⟩ := mergeTranscript_cases current incoming speaker
  rw [hrows]
  exact List.mem_append_left _ (List.mem_filterMap.mpr ⟨before, h, hkept⟩)

/-- A segment of a session is one of its results, under the id of the result. -/
theorem Recognition.mem_segments {session : Recognition} {duration now : Rat} {segment : Segment K}
    (h : segment ∈ session.segments duration now) :
    ∃ (j : Nat) (r : RecognitionResult) (n : Nat), session.results[j]? = some r ∧
      session.resultIds[j]? = some n ∧ segment.id = (n : Int) ∧ segment.isFinal = r.isFinal := by
  rw [Recognition.segments, List.mem_filter, List.mem_map] at h
  obtain ⟨⟨⟨r, n, start⟩, hmem, rfl⟩, -⟩ := h
  obtain ⟨j, hj⟩ := List.mem_iff_getElem?.mp hmem
  rw [List.getElem?_zip_eq_some, List.getElem?_zip_eq_some] at hj
  exact ⟨j, r, n, hj.1, hj.2.1, rfl, rfl⟩

namespace Capture

variable {s s' : Capture K} {e : CaptureEvent K} {lower : JsString → JsString}

/-- The ids of the rows. -/
def rowIds (s : Capture K) : List Int := s.rows.map fun row => row.id

/-- The ids of the rows that were there when the last session started. -/
def previousIds (s : Capture K) : List Int := s.previousSegments.map fun row => row.id

/-- The result of an id is final. -/
def Settled (s : Capture K) (id : Int) : Prop :=
  ∀ i j n, s.idAt i j = some n → (n : Int) = id →
    ∃ r, s.resultAt i j = some r ∧ r.isFinal = true

/-- Nothing that is reported takes the row away. -/
def Holds (s : Capture K) (row : LiveTurn K) : Prop :=
  row.edited = true ∨ row.id < 0 ∨ row.id ∈ s.previousIds ∨ row.isFinal = true ∧ s.Settled row.id

/-- The ids of rows, of results and of what was deleted are handed out once. -/
structure Sound (s : Capture K) : Prop where
  nodup : s.rowIds.Nodup
  manual : s.manualId < 0
  bounds : ∀ id, id ∈ s.rowIds ∨ id ∈ s.previousIds ∨ id ∈ s.deletedIds →
    s.manualId < id ∧ id < s.nextId
  deleted : ∀ id ∈ s.deletedIds, id ∉ s.rowIds
  ids : ∀ i j n, s.idAt i j = some n → n < s.nextId
  distinct : ∀ i j i' j' n, s.idAt i j = some n → s.idAt i' j' = some n → i = i' ∧ j = j'
  final : ∀ row ∈ s.rows, row.isFinal = true → s.Holds row

theorem sound_initial (first : K) : (initial first).Sound where
  nodup := List.nodup_nil
  manual := Int.negSucc_lt_zero 0
  bounds := by simp [initial, rowIds, rows, previousIds]
  deleted := by simp [initial]
  ids := by simp [idAt, initial]
  distinct := by simp [idAt, initial]
  final := by simp [rows, initial]

theorem Holds.of_map {row row' : LiveTurn K} (h : s.Holds row) (hid : row'.id = row.id)
    (hrow : row'.edited = true ∨ row'.isFinal = row.isFinal ∧ row'.edited = row.edited)
    (hprevious : s'.previousIds = s.previousIds) (hsessions : s'.sessions = s.sessions) :
    s'.Holds row' := by
  have hidAt : s'.idAt = s.idAt := by
    funext i j
    rw [idAt, idAt, hsessions]
  have hresultAt : s'.resultAt = s.resultAt := by
    funext i j
    rw [resultAt, resultAt, hsessions]
  rcases hrow with hedited | ⟨hfinal, hedited⟩
  · exact .inl hedited
  · simpa only [Holds, Settled, hedited, hid, hprevious, hidAt, hresultAt, hfinal] using h

/-- What a report changes of the ids and of the results. -/
theorem idAt_result {i : Nat} {now : Rat} {results : List RecognitionResult}
    (h : s.result i now results = some s') :
    ∃ before, s.sessions[i]? = some before ∧
      (∀ i' j n, s'.idAt i' j = some n → s.idAt i' j = some n ∨
        i' = i ∧ before.resultIds.length ≤ j ∧ n = s.nextId + (j - before.resultIds.length) ∧
          n < s'.nextId) ∧
      (∀ i' j, s'.resultAt i' j = if i' = i then results[j]? else s.resultAt i' j) ∧
      s.nextId ≤ s'.nextId := by
  simp only [result, Option.bind_eq_bind, Option.bind_eq_some_iff] at h
  obtain ⟨before, hbefore, h⟩ := h
  obtain rfl := Option.some.inj h
  have hlt : i < s.sessions.length := (List.getElem?_eq_some_iff.mp hbefore).1
  refine ⟨before, hbefore, fun i' j n hid => ?_, fun i' j => ?_, Nat.le_add_right _ _⟩
  · by_cases hi : i' = i
    · subst hi
      simp only [idAt, List.getElem?_set_self hlt, Option.bind_some, Recognition.reported] at hid
      by_cases hj : j < before.resultIds.length
      · rw [List.getElem?_append_left hj] at hid
        left
        rw [idAt, hbefore]
        exact hid
      · rw [List.getElem?_append_right (by omega)] at hid
        obtain ⟨hbound, hvalue⟩ := List.getElem?_eq_some_iff.mp hid
        rw [List.length_range'] at hbound
        rw [List.getElem_range'] at hvalue
        refine .inr ⟨rfl, by omega, by omega, ?_⟩
        dsimp only
        omega
    · left
      simp only [idAt, List.getElem?_set_ne (Ne.symm hi)] at hid
      exact hid
  · by_cases hi : i' = i
    · subst hi
      simp [resultAt, List.getElem?_set_self hlt, Recognition.reported]
    · simp [resultAt, List.getElem?_set_ne (Ne.symm hi), hi]

/-- What a report merges: the rows before the session and its results, as far as their rows are not
deleted. -/
theorem incoming_result {i : Nat} {now : Rat} {results : List RecognitionResult}
    (h : s.result i now results = some s') :
    s'.previousSegments = s.previousSegments ∧ s'.deletedIds = s.deletedIds ∧
      s'.manualId = s.manualId ∧ ∃ incoming,
      s'.rows = mergeTranscript s.rows incoming s.speaker ∧
      (∀ segment ∈ incoming, segment.id ∉ s.deletedIds ∧ (segment.id ∈ s.previousIds ∨
        ∃ (j n : Nat) (r : RecognitionResult), s'.idAt i j = some n ∧ segment.id = (n : Int) ∧
          s'.resultAt i j = some r ∧ segment.isFinal = r.isFinal)) ∧
      ∀ id ∈ s.previousIds, id ∉ s.deletedIds → ∃ segment ∈ incoming, segment.id = id := by
  simp only [result, Option.bind_eq_bind, Option.bind_eq_some_iff] at h
  obtain ⟨before, hbefore, h⟩ := h
  obtain rfl := Option.some.inj h
  have hlt : i < s.sessions.length := (List.getElem?_eq_some_iff.mp hbefore).1
  refine ⟨rfl, rfl, rfl, _, rfl, fun segment hmem => ?_, fun id hid hdeleted => ?_⟩
  · rw [incoming, List.mem_filter, List.mem_append] at hmem
    obtain ⟨hmem, hkept⟩ := hmem
    refine ⟨by simpa using hkept, hmem.imp (fun hprevious => ?_) fun hreported => ?_⟩
    · obtain ⟨row, hrow, rfl⟩ := List.mem_map.mp hprevious
      exact List.mem_map_of_mem hrow
    · obtain ⟨j, r, n, hr, hn, hid, hfinal⟩ := Recognition.mem_segments hreported
      refine ⟨j, n, r, ?_, hid, ?_, hfinal⟩
      · rw [idAt, List.getElem?_set_self hlt]
        exact hn
      · rw [resultAt, List.getElem?_set_self hlt]
        exact hr
  · obtain ⟨row, hrow, rfl⟩ := List.mem_map.mp hid
    refine ⟨row.toSegment, ?_, rfl⟩
    rw [incoming, List.mem_filter, List.mem_append]
    exact ⟨.inl (List.mem_map_of_mem hrow), by simpa using hdeleted⟩

theorem Settled.result {i : Nat} {now : Rat} {results : List RecognitionResult} {id : Int}
    (h : s.result i now results = some s') (hreports : s.Reports (.result i now results))
    (hid : id < s.nextId) (hsettled : s.Settled id) : s'.Settled id := by
  obtain ⟨before, -, hids, hresults, -⟩ := idAt_result h
  intro i' j n hn heq
  rcases hids i' j n hn with hold | ⟨-, -, hnew, -⟩
  · obtain ⟨r, hr, hfinal⟩ := hsettled i' j n hold heq
    refine ⟨r, ?_, hfinal⟩
    rw [hresults]
    split_ifs with hi
    · exact hreports j r (hi ▸ hr) hfinal
    · exact hr
  · omega

theorem Sound.distinct_result {i : Nat} {now : Rat} {results : List RecognitionResult} (h : s.Sound)
    (hstep : s.result i now results = some s') {i₁ j₁ i₂ j₂ n : Nat}
    (h₁ : s'.idAt i₁ j₁ = some n) (h₂ : s'.idAt i₂ j₂ = some n) : i₁ = i₂ ∧ j₁ = j₂ := by
  obtain ⟨before, -, hids, -, -⟩ := idAt_result hstep
  rcases hids i₁ j₁ n h₁ with hold₁ | ⟨hi₁, hj₁, hn₁, -⟩
  · rcases hids i₂ j₂ n h₂ with hold₂ | ⟨-, -, hn₂, -⟩
    · exact h.distinct i₁ j₁ i₂ j₂ n hold₁ hold₂
    · have hlt := h.ids i₁ j₁ n hold₁
      omega
  · rcases hids i₂ j₂ n h₂ with hold₂ | ⟨hi₂, hj₂, hn₂, -⟩
    · have hlt := h.ids i₂ j₂ n hold₂
      omega
    · exact ⟨hi₁.trans hi₂.symm, by omega⟩

/-- A row that what was reported makes final stays. -/
theorem Sound.holds_of_segment {i : Nat} {now : Rat} {results : List RecognitionResult}
    (h : s.Sound) (hstep : s.result i now results = some s') {segment : Segment K} {row : LiveTurn K}
    (hsegment : segment.id ∈ s.previousIds ∨
      ∃ (j n : Nat) (r : RecognitionResult), s'.idAt i j = some n ∧ segment.id = (n : Int) ∧
        s'.resultAt i j = some r ∧ segment.isFinal = r.isFinal)
    (hid : row.id = segment.id) (hfinal : row.isFinal = segment.isFinal)
    (hrow : row.isFinal = true) : s'.Holds row := by
  obtain ⟨hprevious, -⟩ := incoming_result hstep
  rcases hsegment with hold | ⟨j, n, r, hn, hsegment, hr, hsame⟩
  · refine .inr (.inr (.inl ?_))
    rw [previousIds, hprevious, hid]
    exact hold
  · refine .inr (.inr (.inr ⟨hrow, fun i' j' n' hn' heq => ?_⟩))
    obtain rfl : n' = n := by omega
    obtain ⟨rfl, rfl⟩ := h.distinct_result hstep hn' hn
    exact ⟨r, hr, by rw [← hsame, ← hfinal, hrow]⟩

theorem Sound.result {i : Nat} {now : Rat} {results : List RecognitionResult} (h : s.Sound)
    (hreports : s.Reports (.result i now results)) (hstep : s.result i now results = some s') :
    s'.Sound := by
  obtain ⟨before, -, hids, hresults, hnext⟩ := idAt_result hstep
  obtain ⟨hprevious, hdeleted, hmanual, incoming, hrows, hincoming, -⟩ := incoming_result hstep
  have hpreviousIds : s'.previousIds = s.previousIds := by rw [previousIds, previousIds, hprevious]
  have hidlt : ∀ i j n, s'.idAt i j = some n → n < s'.nextId := by
    intro i' j n hn
    rcases hids i' j n hn with hold | ⟨-, -, -, hlt⟩
    · exact (h.ids i' j n hold).trans_le hnext
    · exact hlt
  have hrowIds : ∀ row ∈ s'.rows, row.id ∈ s.rowIds ∨ row.id ∉ s.deletedIds ∧
      (row.id ∈ s.previousIds ∨ 0 ≤ row.id ∧ row.id < s'.nextId) := by
    intro row hrow
    rw [hrows] at hrow
    rcases mem_mergeTranscript hrow with ⟨old, hold, hkept⟩ | ⟨-, segment, hsegment, rfl⟩
    · exact .inl ((keptTurn_cases hkept).1 ▸ List.mem_map_of_mem hold)
    · obtain ⟨hnot, hsource⟩ := hincoming segment hsegment
      refine .inr ⟨hnot, hsource.imp_right ?_⟩
      rintro ⟨j, n, r, hn, hid, -⟩
      have hlt := hidlt i j n hn
      dsimp only
      omega
  refine ⟨?_, hmanual ▸ h.manual, fun id hid => ?_, fun id hid hmem => ?_, hidlt,
    fun _ _ _ _ _ => h.distinct_result hstep, fun row hrow hfinal => ?_⟩
  · rw [rowIds, hrows]
    exact nodup_mergeTranscript _ h.nodup
  · have hold : id ∈ s.rowIds ∨ id ∈ s.previousIds ∨ id ∈ s.deletedIds →
        s'.manualId < id ∧ id < s'.nextId := by
      intro hid
      have hbounds := h.bounds id hid
      omega
    rw [hpreviousIds, hdeleted] at hid
    rcases hid with hid | hid
    · obtain ⟨row, hrow, rfl⟩ := List.mem_map.mp hid
      rcases hrowIds row hrow with hmem | ⟨-, hmem | hmem⟩
      · exact hold (.inl hmem)
      · exact hold (.inr (.inl hmem))
      · have hneg := h.manual
        omega
    · exact hold (.inr hid)
  · rw [hdeleted] at hid
    obtain ⟨row, hrow, rfl⟩ := List.mem_map.mp hmem
    rcases hrowIds row hrow with hmem | ⟨hnot, -⟩
    · exact h.deleted row.id hid hmem
    · exact hnot hid
  · rw [hrows] at hrow
    rcases mem_mergeTranscript hrow with ⟨old, hold, hkept⟩ | ⟨-, segment, hsegment, rfl⟩
    · obtain ⟨hid, -, hedited, -, ⟨rfl, -⟩ | ⟨segment, hsegment, hsame, hfinal'⟩⟩ :=
        keptTurn_cases hkept
      · rcases h.final row hold hfinal with howned | hneg | hmem | ⟨-, hsettled⟩
        · exact .inl howned
        · exact .inr (.inl hneg)
        · exact .inr (.inr (.inl (hpreviousIds ▸ hmem)))
        · have hlt := (h.bounds row.id (.inl (List.mem_map_of_mem hold))).2
          exact .inr (.inr (.inr ⟨hfinal, hsettled.result hstep hreports hlt⟩))
      · exact h.holds_of_segment hstep (hincoming segment hsegment).2 (hid.trans hsame.symm) hfinal'
          hfinal
    · exact h.holds_of_segment hstep (hincoming segment hsegment).2 rfl rfl hfinal

/-- What the start of a session changes; a new session has no results yet. -/
theorem start_eq_some {now : Rat} {started restarted : Bool}
    (h : s.start now started restarted = some s') :
    s'.rows = s.rows ∧ s'.previousSegments = s.rows ∧ s'.deletedIds = s.deletedIds ∧
      s'.manualId = s.manualId ∧ s'.nextId = s.nextId ∧
      ∀ i j n, s'.idAt i j = some n → s.idAt i j = some n := by
  unfold Capture.start at h
  by_cases hbusy : (started && s.listening) = true
  · rw [if_pos hbusy] at h
    cases h
  · rw [if_neg hbusy] at h
    obtain rfl := Option.some.inj h
    refine ⟨?_, rfl, rfl, rfl, rfl, fun i j n hid => ?_⟩
    · simp only [rows]
      split_ifs
      · rfl
      · rfl
    · simp only [idAt] at hid ⊢
      split_ifs at hid
      · rw [List.getElem?_append] at hid
        split_ifs at hid
        · exact hid
        · cases hnew : ([⟨now, [], [], []⟩] : List Recognition)[i - s.sessions.length]? with
          | none => simp [hnew] at hid
          | some session =>
            obtain rfl := List.mem_singleton.mp (List.mem_of_getElem? hnew)
            simp [hnew] at hid
      · exact hid

theorem Sound.start {now : Rat} {started restarted : Bool} (h : s.Sound)
    (hstep : s.start now started restarted = some s') : s'.Sound := by
  obtain ⟨hrows, hprevious, hdeleted, hmanual, hnext, hids⟩ := start_eq_some hstep
  have hrowIds : s'.rowIds = s.rowIds := by rw [rowIds, rowIds, hrows]
  have hpreviousIds : s'.previousIds = s.rowIds := by rw [previousIds, hprevious, rowIds]
  refine ⟨hrowIds ▸ h.nodup, hmanual ▸ h.manual, fun id hid => ?_, ?_, fun i j n hn => ?_,
    fun i j i' j' n hn hn' => h.distinct i j i' j' n (hids i j n hn) (hids i' j' n hn'),
    fun row hrow _ => .inr (.inr (.inl ?_))⟩
  · rw [hmanual, hnext]
    rw [hrowIds, hpreviousIds, hdeleted] at hid
    exact h.bounds id (hid.elim .inl fun hid => hid.imp_right .inr)
  · rw [hrowIds, hdeleted]
    exact h.deleted
  · rw [hnext]
    exact h.ids i j n (hids i j n hn)
  · rw [hpreviousIds]
    exact List.mem_map_of_mem (hrows ▸ hrow)

theorem rows_filter (draft : Option (List (LiveTurn K))) (p : LiveTurn K → Bool) :
    (draft.map fun rows => rows.filter p).getD [] = (draft.getD []).filter p := by
  cases draft with
  | none => rfl
  | some rows => rfl

theorem Sound.delete {id : Int} (h : s.Sound) (hid : id ∈ s.rowIds) :
    ({ s with
      deletedIds := s.deletedIds ++ [id]
      draft := s.draft.map fun rows => rows.filter fun row => row.id ≠ id } : Capture K).Sound := by
  have hmem : ∀ row ∈ (s.draft.map fun rows => rows.filter fun row => row.id ≠ id).getD [],
      row ∈ s.rows ∧ row.id ≠ id := by
    intro row hrow
    rw [rows_filter, List.mem_filter] at hrow
    exact ⟨hrow.1, by simpa using hrow.2⟩
  refine ⟨?_, h.manual, fun id' hid' => ?_, fun id' hid' hmem' => ?_, h.ids, h.distinct,
    fun row hrow hfinal => h.final row (hmem row hrow).1 hfinal⟩
  · simp only [rowIds, rows, rows_filter]
    exact h.nodup.sublist (List.filter_sublist.map _)
  · rcases hid' with hid' | hid' | hid'
    · obtain ⟨row, hrow, rfl⟩ := List.mem_map.mp hid'
      exact h.bounds row.id (.inl (List.mem_map_of_mem (hmem row hrow).1))
    · exact h.bounds id' (.inr (.inl hid'))
    · rcases List.mem_append.mp hid' with hold | hnew
      · exact h.bounds id' (.inr (.inr hold))
      · exact List.mem_singleton.mp hnew ▸ h.bounds id (.inl hid)
  · obtain ⟨row, hrow, rfl⟩ := List.mem_map.mp hmem'
    obtain ⟨hrow, hne⟩ := hmem row hrow
    rcases List.mem_append.mp hid' with hold | hnew
    · exact h.deleted row.id hold (List.mem_map_of_mem hrow)
    · exact hne (List.mem_singleton.mp hnew)

theorem Sound.addTurn (h : s.Sound) :
    ({ s with
      manualId := s.manualId - 1
      draft := some (s.rows ++ [⟨⟨s.manualId, [], true, none, none, none, true⟩, s.speaker⟩]) } :
      Capture K).Sound := by
  have hmanual := h.manual
  have hnew : ∀ id, id ∈ s.rowIds ∨ id ∈ s.previousIds ∨ id ∈ s.deletedIds → id ≠ s.manualId := by
    intro id hid
    have hbounds := h.bounds id hid
    omega
  have hids : ({ s with
      manualId := s.manualId - 1
      draft := some (s.rows ++ [⟨⟨s.manualId, [], true, none, none, none, true⟩, s.speaker⟩]) } :
      Capture K).rowIds = s.rowIds ++ [s.manualId] := List.map_append
  refine ⟨?_, ?_, fun id hid => ?_, fun id hid hmem => ?_, h.ids, h.distinct,
    fun row hrow hfinal => ?_⟩
  · rw [hids, List.nodup_append]
    refine ⟨h.nodup, List.nodup_singleton _, fun a ha b hb heq => hnew a (.inl ha) ?_⟩
    exact heq.trans (List.mem_singleton.mp hb)
  · dsimp only
    omega
  · rw [hids, List.mem_append, List.mem_singleton] at hid
    dsimp only
    rcases hid with (hid | rfl) | hid
    · have hbounds := h.bounds id (.inl hid)
      omega
    · omega
    · have hbounds := h.bounds id (.inr hid)
      omega
  · rw [hids, List.mem_append, List.mem_singleton] at hmem
    rcases hmem with hmem | hmem
    · exact h.deleted id hid hmem
    · exact hnew id (.inr (.inr hid)) hmem
  · rcases List.mem_append.mp hrow with hrow | hrow
    · exact h.final row hrow hfinal
    · rw [List.mem_singleton.mp hrow]
      exact .inl rfl

/-- A report keeps the rows that hold. -/
theorem Sound.exists_of_result {i : Nat} {now : Rat} {results : List RecognitionResult}
    (h : s.Sound) (hreports : s.Reports (.result i now results))
    (hstep : s.result i now results = some s') {row : LiveTurn K} (hrow : row ∈ s.rows)
    (hholds : s.Holds row) : ∃ row' ∈ s'.rows, row'.id = row.id ∧ row'.edited = row.edited ∧
      (row.edited = true ∨ row.id < 0 → row'.text = row.text) ∧ s'.Holds row' := by
  obtain ⟨hprevious, -, -, incoming, hrows, hincoming, hmerged⟩ := incoming_result hstep
  have hpreviousIds : s'.previousIds = s.previousIds := by rw [previousIds, previousIds, hprevious]
  have hmem : row.id ∈ s.rowIds := List.mem_map_of_mem hrow
  obtain ⟨row', hkept⟩ : ∃ row', keptTurn incoming row = some row' := by
    refine exists_keptTurn ?_
    rcases hholds with hedited | hneg | hold | ⟨hfinal, -⟩
    · exact .inl hedited
    · exact .inr (.inl hneg)
    · exact .inr (.inr (.inr (hmerged row.id hold fun hdeleted => h.deleted _ hdeleted hmem)))
    · exact .inr (.inr (.inl hfinal))
  obtain ⟨hid, -, hedited, htext, hsource⟩ := keptTurn_cases hkept
  refine ⟨row', hrows ▸ mem_mergeTranscript_of_kept hrow hkept, hid, hedited, htext, ?_⟩
  rcases hholds with howned | hneg | hold | ⟨hfinal, hsettled⟩
  · exact .inl (hedited.trans howned)
  · exact .inr (.inl (hid ▸ hneg))
  · exact .inr (.inr (.inl (by rwa [hid, hpreviousIds])))
  · have hlt := (h.bounds row.id (.inl hmem)).2
    have hlater := hsettled.result hstep hreports hlt
    rcases hsource with ⟨rfl, -⟩ | ⟨segment, hsegment, hsame, hfinal'⟩
    · exact .inr (.inr (.inr ⟨hfinal, hlater⟩))
    · rcases (hincoming segment hsegment).2 with hold | ⟨j, n, r, hn, hnid, hr, hreported⟩
      · exact .inr (.inr (.inl (by rwa [hid, hpreviousIds, ← hsame])))
      · -- the result of the row was final before, and so it is reported again
        obtain ⟨r', hr', hfinal''⟩ := hlater i j n hn (hnid.symm.trans hsame)
        obtain rfl := Option.some.inj (hr.symm.trans hr')
        refine .inr (.inr (.inr ⟨?_, hid.symm ▸ hlater⟩))
        rw [hfinal', hreported, hfinal'']

/-- The same words, perhaps of another speaker. -/
def Respoken (row row' : LiveTurn K) : Prop :=
  row'.id = row.id ∧ row'.text = row.text ∧ row'.isFinal = row.isFinal ∧ row'.edited = row.edited

theorem Respoken.refl (row : LiveTurn K) : Respoken row row := ⟨rfl, rfl, rfl, rfl⟩

theorem rows_update (s : Capture K) (id : Int) (text : Option JsString) (speaker : Option K) :
    (s.update id text speaker).rows = s.rows.map fun row =>
      if row.id = id then
        { row with text := text.getD row.text, speaker := speaker.getD row.speaker, edited := true }
      else row := by
  cases hdraft : s.draft with
  | none => simp [rows, update, hdraft]
  | some rows => simp [Capture.rows, update, hdraft]

/-- The user writes the text of a row. -/
def Writes (id : Int) : CaptureEvent K → Prop
  | .update id' (some _) _ => id' = id
  | _ => False

/-- The rows are changed under their ids, and the texts by their user only. -/
structure Mapped (s s' : Capture K) (e : CaptureEvent K) (f g : LiveTurn K → LiveTurn K) :
    Prop where
  rows : s'.rows = s.rows.map f
  previous : s'.previousSegments = s.previousSegments.map g
  row : ∀ row, (f row).id = row.id ∧ ((f row).edited = true ∨
    (f row).isFinal = row.isFinal ∧ (f row).edited = row.edited)
  text : ∀ row, (f row).text = row.text ∨ Writes row.id e
  previousId : ∀ row, (g row).id = row.id
  deleted : s'.deletedIds = s.deletedIds
  manual : s'.manualId = s.manualId
  next : s'.nextId = s.nextId
  sessions : s'.sessions = s.sessions

/-- What an event does to the rows and to the ids. -/
inductive Change (s s' : Capture K) (e : CaptureEvent K) : Prop
  | started (now : Rat) (started restarted : Bool)
      (hstep : s.start now started restarted = some s')
  | reported (i : Nat) (now : Rat) (results : List RecognitionResult)
      (hevent : e = .result i now results) (hstep : s.result i now results = some s')
  | deleted (id : Int) (hevent : e = .delete id) (hid : id ∈ s.rowIds)
      (hs : s' = { s with
        deletedIds := s.deletedIds ++ [id]
        draft := s.draft.map fun rows => rows.filter fun row => row.id ≠ id })
  | added (hs : s' = { s with
      manualId := s.manualId - 1
      draft := some (s.rows ++ [⟨⟨s.manualId, [], true, none, none, none, true⟩, s.speaker⟩]) })
  | mapped (f g : LiveTurn K → LiveTurn K) (h : Mapped s s' e f g)

theorem Mapped.rowIds {f g : LiveTurn K → LiveTurn K} (h : Mapped s s' e f g) :
    s'.rowIds = s.rowIds := by
  rw [Capture.rowIds, h.rows, List.map_map]
  exact List.map_congr_left fun row _ => (h.row row).1

theorem Mapped.previousIds {f g : LiveTurn K → LiveTurn K} (h : Mapped s s' e f g) :
    s'.previousIds = s.previousIds := by
  rw [Capture.previousIds, h.previous, List.map_map]
  exact List.map_congr_left fun row _ => h.previousId row

theorem Sound.of_mapped {f g : LiveTurn K → LiveTurn K} (h : s.Sound) (hmapped : Mapped s s' e f g) :
    s'.Sound := by
  have hrowIds := hmapped.rowIds
  have hpreviousIds := hmapped.previousIds
  have hidAt : s'.idAt = s.idAt := by
    funext i j
    rw [idAt, idAt, hmapped.sessions]
  refine ⟨hrowIds ▸ h.nodup, hmapped.manual ▸ h.manual, ?_, ?_, ?_, ?_, ?_⟩
  · rw [hrowIds, hpreviousIds, hmapped.deleted, hmapped.manual, hmapped.next]
    exact h.bounds
  · rw [hrowIds, hmapped.deleted]
    exact h.deleted
  · rw [hidAt, hmapped.next]
    exact h.ids
  · rw [hidAt]
    exact h.distinct
  · intro row hrow hfinal
    rw [hmapped.rows] at hrow
    obtain ⟨before, hbefore, rfl⟩ := List.mem_map.mp hrow
    obtain ⟨hid, hedited | hsame⟩ := hmapped.row before
    · exact .inl hedited
    · exact (h.final before hbefore (hsame.1 ▸ hfinal)).of_map hid (.inr hsame) hpreviousIds
        hmapped.sessions

theorem change_of_same (hrows : s'.rows = s.rows)
    (hprevious : s'.previousSegments = s.previousSegments)
    (hdeleted : s'.deletedIds = s.deletedIds) (hmanual : s'.manualId = s.manualId)
    (hnext : s'.nextId = s.nextId) (hsessions : s'.sessions = s.sessions) : Change s s' e :=
  .mapped id id ⟨hrows.trans (List.map_id _).symm, hprevious.trans (List.map_id _).symm,
    fun _ => ⟨rfl, .inr ⟨rfl, rfl⟩⟩, fun _ => .inl rfl, fun _ => rfl, hdeleted, hmanual, hnext,
    hsessions⟩

theorem mapped_update (s : Capture K) (id : Int) (text : Option JsString) (speaker : Option K) :
    ∃ f g, Mapped s (s.update id text speaker) (.update id text speaker) f g := by
  refine ⟨_, fun row => row, rows_update s id text speaker, (List.map_id _).symm, fun row => ?_,
    fun row => ?_, fun _ => rfl, rfl, rfl, rfl, rfl⟩
  · split_ifs
    · exact ⟨rfl, .inl rfl⟩
    · exact ⟨rfl, .inr ⟨rfl, rfl⟩⟩
  · split_ifs with hid
    · cases text with
      | none => exact .inl rfl
      | some text => exact .inr hid.symm
    · exact .inl rfl

variable [DecidableEq K]

theorem respoken_reassign (removedId replacementId : K) (row : LiveTurn K) :
    Respoken row (reassign removedId replacementId row) := by
  unfold reassign
  split_ifs
  · exact ⟨rfl, rfl, rfl, rfl⟩
  · exact .refl row

/-- Removing a speaker changes no words. -/
theorem removeSpeaker_rows (speakers : List (MeetingSpeaker K)) (rows : List (LiveTurn K))
    (current removedId replacementId : K) : ∃ f : LiveTurn K → LiveTurn K,
      (removeSpeaker speakers rows current removedId replacementId).rows = rows.map f ∧
        ∀ row, Respoken row (f row) := by
  have hsame : ∃ f : LiveTurn K → LiveTurn K, rows = rows.map f ∧ ∀ row, Respoken row (f row) :=
    ⟨fun row => row, (List.map_id _).symm, .refl⟩
  unfold removeSpeaker
  split
  · exact hsame
  · next index hindex =>
    by_cases hneeded : 0 < (rows.filter fun row => row.speaker = removedId).length ∨
        current = removedId ∨ speakers.length = 1
    · simp only [if_pos hneeded]
      exact ⟨_, rfl, respoken_reassign _ _⟩
    · simp only [if_neg hneeded]
      exact hsame

theorem rows_deleteSpeaker (s : Capture K) (id replacementId : K) :
    ∃ f : LiveTurn K → LiveTurn K, (s.deleteSpeaker id replacementId).rows = s.rows.map f ∧
      ∀ row, Respoken row (f row) := by
  obtain ⟨f, hf, hsame⟩ := removeSpeaker_rows s.speakers s.rows s.speaker id replacementId
  refine ⟨f, ?_, hsame⟩
  cases hdraft : s.draft with
  | none => simp [rows, deleteSpeaker, hdraft]
  | some rows =>
    simp only [Capture.rows, deleteSpeaker, hdraft, Option.map_some, Option.getD_some] at hf ⊢
    exact hf

theorem previous_deleteSpeaker (s : Capture K) (id replacementId : K) :
    ∃ g : LiveTurn K → LiveTurn K,
      (s.deleteSpeaker id replacementId).previousSegments = s.previousSegments.map g ∧
        ∀ row, Respoken row (g row) := by
  simp only [deleteSpeaker]
  split
  · exact ⟨fun row => row, (List.map_id _).symm, .refl⟩
  · exact ⟨_, rfl, respoken_reassign _ _⟩

/-- Every step is one of these. -/
theorem change_of_step (h : s.step lower e = some s') : Change s s' e := by
  cases e with
  | start now started restarted => exact .started now started restarted h
  | result i now results => exact .reported i now results rfl h
  | ended seconds =>
    simp only [step] at h
    split_ifs at h
    obtain rfl := Option.some.inj h
    exact change_of_same rfl rfl rfl rfl rfl rfl
  | update id text speaker =>
    simp only [step] at h
    split_ifs at h
    obtain rfl := Option.some.inj h
    obtain ⟨f, g, hmapped⟩ := mapped_update s id text speaker
    exact .mapped f g hmapped
  | delete id =>
    simp only [step] at h
    split_ifs at h with hid
    exact .deleted id rfl hid (Option.some.inj h).symm
  | addTurn => exact .added (Option.some.inj h).symm
  | pickSpeaker id =>
    simp only [step] at h
    split_ifs at h
    obtain rfl := Option.some.inj h
    exact change_of_same rfl rfl rfl rfl rfl rfl
  | addPerson directory person =>
    simp only [step] at h
    split_ifs at h
    · obtain rfl := Option.some.inj h
      exact change_of_same rfl rfl rfl rfl rfl rfl
    · obtain rfl := Option.some.inj h
      exact change_of_same rfl rfl rfl rfl rfl rfl
  | loadProjectPeople directory roster =>
    obtain rfl := Option.some.inj h
    exact change_of_same rfl rfl rfl rfl rfl rfl
  | addLocalSpeaker id name =>
    obtain rfl := Option.some.inj h
    exact change_of_same rfl rfl rfl rfl rfl rfl
  | renameSpeaker id name =>
    obtain rfl := Option.some.inj h
    exact change_of_same rfl rfl rfl rfl rfl rfl
  | deleteSpeaker id replacementId =>
    obtain rfl := Option.some.inj h
    obtain ⟨f, hf, hrows⟩ := rows_deleteSpeaker s id replacementId
    obtain ⟨g, hg, hprevious⟩ := previous_deleteSpeaker s id replacementId
    exact .mapped f g ⟨hf, hg, fun row => ⟨(hrows row).1, .inr (hrows row).2.2⟩,
      fun row => .inl (hrows row).2.1, fun row => (hprevious row).1, rfl, rfl, rfl, rfl⟩

/-- Every event keeps the ids apart. -/
theorem Sound.step (h : s.Sound) (hreports : s.Reports e) (hstep : s.step lower e = some s') :
    s'.Sound := by
  rcases change_of_step hstep with ⟨now, started, restarted, hstep⟩ |
    ⟨i, now, results, rfl, hstep⟩ | ⟨id, -, hid, rfl⟩ | rfl | ⟨f, g, hmapped⟩
  · exact h.start hstep
  · exact h.result hreports hstep
  · exact h.delete hid
  · exact h.addTurn
  · exact h.of_mapped hmapped

/-- What an event makes of a row that holds. -/
structure Follows (s' : Capture K) (e : CaptureEvent K) (row row' : LiveTurn K) : Prop where
  mem : row' ∈ s'.rows
  id : row'.id = row.id
  edited : row.edited = true → row'.edited = true
  text : row.edited = true ∨ row.id < 0 → row'.text = row.text ∨ Writes row.id e
  holds : s'.Holds row'

/-- A row that holds is there after every event, unless its user deletes it. -/
theorem Sound.exists_follows (h : s.Sound) (hreports : s.Reports e)
    (hstep : s.step lower e = some s') {row : LiveTurn K} (hrow : row ∈ s.rows)
    (hholds : s.Holds row) : e = .delete row.id ∨ ∃ row', Follows s' e row row' := by
  rcases change_of_step hstep with ⟨now, started, restarted, hstep⟩ |
    ⟨i, now, results, rfl, hstep⟩ | ⟨id, rfl, hid, rfl⟩ | rfl | ⟨f, g, hmapped⟩
  · obtain ⟨hrows, hprevious, -⟩ := start_eq_some hstep
    refine .inr ⟨row, hrows ▸ hrow, rfl, fun hedited => hedited, fun _ => .inl rfl,
      .inr (.inr (.inl ?_))⟩
    rw [previousIds, hprevious]
    exact List.mem_map_of_mem hrow
  · obtain ⟨row', hmem, hid, hedited, htext, hlater⟩ :=
      h.exists_of_result hreports hstep hrow hholds
    exact .inr ⟨row', hmem, hid, fun howned => hedited.trans howned,
      fun howned => .inl (htext howned), hlater⟩
  · by_cases hsame : row.id = id
    · exact .inl (hsame ▸ rfl)
    · refine .inr ⟨row, ?_, rfl, fun hedited => hedited, fun _ => .inl rfl, hholds⟩
      simp only [rows, rows_filter, List.mem_filter]
      exact ⟨hrow, by simpa using hsame⟩
  · exact .inr ⟨row, List.mem_append_left _ hrow, rfl, fun hedited => hedited, fun _ => .inl rfl,
      hholds⟩
  · obtain ⟨hid, hedited⟩ := hmapped.row row
    refine .inr ⟨f row, hmapped.rows ▸ List.mem_map_of_mem hrow, hid, fun howned => ?_,
      fun _ => hmapped.text row,
      hholds.of_map hid hedited hmapped.previousIds hmapped.sessions⟩
    exact hedited.elim (fun heq => heq) fun heq => heq.2.trans howned

/-- A row that is there and that nothing reported takes away, under an id. -/
def Kept (s : Capture K) (id : Int) : Prop := ∃ row ∈ s.rows, row.id = id ∧ s.Holds row

/-- A row that its user wrote, with its text; or its user deleted it. -/
def Written (s : Capture K) (id : Int) (text : JsString) : Prop :=
  id ∈ s.deletedIds ∨
    ∃ row ∈ s.rows, row.id = id ∧ row.text = text ∧ (row.edited = true ∨ row.id < 0)

theorem deletedIds_of_step (h : s.step lower e = some s') {id : Int} (hid : id ∈ s.deletedIds) :
    id ∈ s'.deletedIds := by
  rcases change_of_step h with ⟨now, started, restarted, hstep⟩ |
    ⟨i, now, results, rfl, hstep⟩ | ⟨id', -, -, rfl⟩ | rfl | ⟨f, g, hmapped⟩
  · exact (start_eq_some hstep).2.2.1 ▸ hid
  · exact (incoming_result hstep).2.1 ▸ hid
  · exact List.mem_append_left _ hid
  · exact hid
  · exact hmapped.deleted ▸ hid

/-- The states of a capture that starts with one speaker. -/
theorem sound_of_reports {first : K} (h : RunOf (step lower) Reports (initial first) s) : s.Sound :=
  h.invariant (fun _ _ _ hs hreports hstep => hs.step hreports hstep) (sound_initial first)

/-- A deleted row does not come back. -/
theorem not_mem_of_deleted {id : Int} (h : s.Sound) (hid : id ∈ s.deletedIds)
    (hrun : RunOf (step lower) Reports s s') : id ∉ s'.rowIds := by
  have hboth : s'.Sound ∧ id ∈ s'.deletedIds :=
    hrun.invariant (P := fun s => s.Sound ∧ id ∈ s.deletedIds) (fun _ _ _ hs hreports hstep =>
      ⟨hs.1.step hreports hstep, deletedIds_of_step hstep hs.2⟩) ⟨h, hid⟩
  exact hboth.1.deleted id hboth.2

theorem Written.step {id : Int} {text : JsString} (h : s.Sound) (hreports : s.Reports e)
    (hwrites : ¬Writes id e) (hstep : s.step lower e = some s') (hwritten : s.Written id text) :
    s'.Written id text := by
  rcases hwritten with hdeleted | ⟨row, hrow, rfl, rfl, howned⟩
  · exact .inl (deletedIds_of_step hstep hdeleted)
  · have hholds : s.Holds row := howned.elim .inl fun hneg => .inr (.inl hneg)
    rcases h.exists_follows hreports hstep hrow hholds with rfl | ⟨row', hfollows⟩
    · simp only [Capture.step] at hstep
      split_ifs at hstep
      obtain rfl := Option.some.inj hstep
      exact .inl (List.mem_append_right _ (List.mem_singleton_self _))
    · refine .inr ⟨row', hfollows.mem, hfollows.id, ?_, ?_⟩
      · exact (hfollows.text howned).resolve_right hwrites
      · exact howned.imp hfollows.edited fun hneg => hfollows.id.symm ▸ hneg

/-- The text of a row that its user wrote is kept while its user does not write it again. -/
theorem text_of_run {row row' : LiveTurn K} (h : s.Sound) (hrow : row ∈ s.rows)
    (howned : row.edited = true ∨ row.id < 0)
    (hrun : RunOf (step lower) (fun s e => s.Reports e ∧ ¬Writes row.id e) s s')
    (hrow' : row' ∈ s'.rows) (hid : row'.id = row.id) : row'.text = row.text := by
  have hboth : s'.Sound ∧ s'.Written row.id row.text :=
    hrun.invariant (P := fun s => s.Sound ∧ s.Written row.id row.text)
      (fun _ _ _ hs hok hstep => ⟨hs.1.step hok.1 hstep, hs.2.step hs.1 hok.1 hok.2 hstep⟩)
      ⟨h, .inr ⟨row, hrow, rfl, rfl, howned⟩⟩
  obtain ⟨hsound, hdeleted | ⟨found, hfound, hsame, htext, -⟩⟩ := hboth
  · exact absurd (List.mem_map_of_mem hrow') (hid ▸ hsound.deleted row.id hdeleted)
  · obtain rfl := List.inj_on_of_nodup_map hsound.nodup hrow' hfound (hid.trans hsame.symm)
    exact htext

theorem Kept.step {id : Int} (h : s.Sound) (hreports : s.Reports e) (hdelete : e ≠ .delete id)
    (hstep : s.step lower e = some s') (hkept : s.Kept id) : s'.Kept id := by
  obtain ⟨row, hrow, rfl, hholds⟩ := hkept
  rcases h.exists_follows hreports hstep hrow hholds with heq | ⟨row', hfollows⟩
  · exact absurd heq hdelete
  · exact ⟨row', hfollows.mem, hfollows.id, hfollows.holds⟩

/-- A row that is final is there while its user does not delete it. -/
theorem mem_of_run {row : LiveTurn K} (h : s.Sound) (hrow : row ∈ s.rows)
    (hfinal : row.isFinal = true)
    (hrun : RunOf (step lower) (fun s e => s.Reports e ∧ e ≠ .delete row.id) s s') :
    row.id ∈ s'.rowIds := by
  have hboth : s'.Sound ∧ s'.Kept row.id :=
    hrun.invariant (P := fun s => s.Sound ∧ s.Kept row.id)
      (fun _ _ _ hs hok hstep => ⟨hs.1.step hok.1 hstep, hs.2.step hs.1 hok.1 hok.2 hstep⟩)
      ⟨h, row, hrow, rfl, h.final row hrow hfinal⟩
  obtain ⟨-, row', hrow', hid, -⟩ := hboth
  exact hid ▸ List.mem_map_of_mem hrow'

/-- What merging keeps, whatever comes after a state of the capture. -/
structure Lossless (lower : JsString → JsString) (s : Capture K) : Prop where
  unique : (s.rows.map fun row => row.id).Nodup
  own : ∀ row ∈ s.rows, row.edited = true ∨ row.id < 0 →
    ∀ s', RunOf (step lower) (fun s e => s.Reports e ∧ ¬Writes row.id e) s s' →
      ∀ row' ∈ s'.rows, row'.id = row.id → row'.text = row.text
  deleted : ∀ id s₁ s₂, s.step lower (.delete id) = some s₁ → RunOf (step lower) Reports s₁ s₂ →
    ∀ row ∈ s₂.rows, row.id ≠ id
  final : ∀ row ∈ s.rows, row.isFinal = true →
    ∀ s', RunOf (step lower) (fun s e => s.Reports e ∧ e ≠ .delete row.id) s s' →
      ∃ row' ∈ s'.rows, row'.id = row.id

/-- Every state of a capture keeps its rows. -/
theorem lossless_of_run (first : K) (h : RunOf (step lower) Reports (initial first) s) :
    s.Lossless lower where
  unique := (sound_of_reports h).nodup
  own row hrow howned s' hrun row' hrow' hid :=
    text_of_run (sound_of_reports h) hrow howned hrun hrow' hid
  deleted id s₁ s₂ hstep hrun row hrow heq := by
    have hsound : s₁.Sound := (sound_of_reports h).step (e := .delete id) trivial hstep
    simp only [Capture.step] at hstep
    split_ifs at hstep
    obtain rfl := Option.some.inj hstep
    have hdeleted : id ∈ s.deletedIds ++ [id] := List.mem_append_right _ (List.mem_singleton_self _)
    exact not_mem_of_deleted hsound hdeleted hrun (heq ▸ List.mem_map_of_mem hrow)
  final row hrow hfinal s' hrun := by
    obtain ⟨row', hrow', hid⟩ := List.mem_map.mp (mem_of_run (sound_of_reports h) hrow hfinal hrun)
    exact ⟨row', hrow', hid⟩

/-- An interim result is edited; it becomes final in a session after which another one starts. -/
theorem lossless_edited : ∃ s : Capture Nat,
    s.rows.map (fun row => (row.id, row.text, row.isFinal)) =
      [(0, codeUnits "b".toList, true), (-1, [], true), (1, codeUnits "c".toList, false)] ∧
    s.Lossless id := by
  have hrun : ∃ s : Capture Nat, RunOf (step id) Reports (initial 0) s ∧
      s.rows.map (fun row => (row.id, row.text, row.isFinal)) =
        [(0, codeUnits "b".toList, true), (-1, [], true), (1, codeUnits "c".toList, false)] := by
    refine ⟨_, .head ⟨.start 0 true false, trivial, rfl⟩
      (.head ⟨.result 0 1 [⟨codeUnits "a".toList, false⟩], ?_, rfl⟩
      (.head ⟨.update 0 (some (codeUnits "b".toList)) none, trivial, rfl⟩
      (.head ⟨.result 0 2 [⟨codeUnits "a ".toList, true⟩], ?_, rfl⟩
      (.head ⟨.addTurn, trivial, rfl⟩
      (.head ⟨.ended 3, trivial, rfl⟩
      (.head ⟨.start 4 true true, trivial, rfl⟩
      (.head ⟨.result 1 5 [⟨codeUnits "c".toList, false⟩], ?_, rfl⟩ .refl))))))), ?_⟩
    · rintro j r hr
      cases hr
    · rintro j r hr hfinal
      cases j with
      | zero =>
        cases hr
        cases hfinal
      | succ j => cases hr
    · rintro j r hr
      cases hr
    · decide
  obtain ⟨s, hrun, hrows⟩ := hrun
  exact ⟨s, hrows, lossless_of_run 0 hrun⟩

end Capture

end Maeglagi.Drafts
