import Mathlib.Data.Nat.Find
import Maeglagi.Context.Merge
import Maeglagi.Context.Timeline
import Maeglagi.Core.Machine
import Maeglagi.PlainRuntime

/-!
# The store and the timeline

The merge and the timeline pass with the position of the event that each item and each row comes
from. They agree when, for every decision, issue and task, the two positions are the same, and when
every decision that a replacement takes out of the store is named by a row.
-/

namespace Maeglagi.Context

open Core Temporal

variable {Id α : Type}

/-- `upsertAll` on items with the position of the event they come from. -/
def upsertTracked (key : α → Text) (kind : EntityKind) (build : ExtractedEvent → α)
    (events : List (ExtractedEvent × Nat)) (items : List (α × Option Nat)) :
    List (α × Option Nat) :=
  events.foldl (fun items event =>
    if event.1.kind = kind then upsert (fun item => key item.1) (build event.1, some event.2) items
    else items) items

/-- The lists of a state with the position of the event that each item comes from; an item that
was there before the merge has none. -/
structure TrackedStore where
  decisions : List (StoreDecision × Option Nat)
  openIssues : List (StoreItem × Option Nat)
  nextActions : List (StoreAction × Option Nat)

/-- `merge_extraction` with positions. -/
def trackedMerge (rt : Runtime Id) (state : ContextStoreState) (result : ExtractionResult)
    (sourceId : Id) : TrackedStore where
  decisions := (upsertTracked (fun d => itemKey rt d.title .decision) .decision
    (storeDecision (rt.str sourceId)) result.events.zipIdx (state.decisions.map (·, none))).filter
    fun d => result.events.all fun event =>
      replacedKey rt event ≠ some (itemKey rt d.1.title .decision)
  openIssues := upsertTracked (fun i => itemKey rt i.title .issue) .issue
    (storeItem · (rt.str sourceId)) result.events.zipIdx (state.openIssues.map (·, none))
  nextActions := upsertTracked (fun a => itemKey rt a.title .task) .task
    (storeAction result (rt.str sourceId)) result.events.zipIdx (state.nextActions.map (·, none))

/-- `timeline_records` with positions. -/
def trackedRecords (rt : Runtime Id) (result : ExtractionResult) (info : TimelineInfo Id) :
    Except PyError (Dict (ContextKind × Text) (ContextRecord Id × Nat)) :=
  result.events.zipIdx.foldlM (recordFirst (fun event => timelineSlot rt event.1)
    fun slot event => (timelineRow rt result info slot event.1).map (·, event.2)) Dict.empty

/-- Forgetting the positions gives the items of an upsert. -/
theorem map_fst_upsertTracked (key : α → Text) (kind : EntityKind) (build : ExtractedEvent → α)
    (events : List (ExtractedEvent × Nat)) (items : List (α × Option Nat)) :
    (upsertTracked key kind build events items).map Prod.fst =
      upsertAll key kind build (events.map Prod.fst) (items.map Prod.fst) := by
  unfold upsertTracked upsertAll
  induction events generalizing items with
  | nil => rfl
  | cons event events ih =>
    rw [List.map_cons, List.foldl_cons, List.foldl_cons, ih]
    split
    · have hkey : ∀ item : α × Option Nat, key item.1 = key item.1 := fun _ => rfl
      rw [map_upsert hkey]
    · rfl

theorem map_fst_upsertTracked_zipIdx (key : α → Text) (kind : EntityKind)
    (build : ExtractedEvent → α) (events : List ExtractedEvent) (items : List α) :
    (upsertTracked key kind build events.zipIdx (items.map (·, none))).map Prod.fst =
      upsertAll key kind build events items := by
  rw [map_fst_upsertTracked, List.zipIdx_map_fst, List.map_map]
  congr
  exact List.map_id items

/-- Forgetting the positions gives the lists of the merge. -/
theorem trackedMerge_erase (rt : Runtime Id) (state : ContextStoreState)
    (result : ExtractionResult) (sourceId : Id) :
    let tracked := trackedMerge rt state result sourceId
    let merged := mergeExtraction rt state result sourceId
    tracked.decisions.map Prod.fst = merged.decisions ∧
      tracked.openIssues.map Prod.fst = merged.openIssues ∧
      tracked.nextActions.map Prod.fst = merged.nextActions := by
  intro tracked merged
  refine ⟨?_, ?_, ?_⟩
  · rw [mergeExtraction_decisions, upsertedDecisions, ← map_fst_upsertTracked_zipIdx,
      List.filter_map]
    rfl
  · rw [mergeExtraction_openIssues, ← map_fst_upsertTracked_zipIdx]
    rfl
  · rw [mergeExtraction_nextActions, ← map_fst_upsertTracked_zipIdx]
    rfl

/-- Forgetting the positions gives the rows of the timeline. -/
theorem trackedRecords_erase (rt : Runtime Id) (result : ExtractionResult)
    (info : TimelineInfo Id) : timelineRecords rt result info =
      (trackedRecords rt result info).map fun rows => rows.values.map Prod.fst := by
  have h := foldlM_recordFirst_map (timelineSlot rt) (timelineRow rt result info)
    result.events.zipIdx Dict.empty
  rw [List.zipIdx_map_fst] at h
  have hempty : ((Dict.empty : Dict (ContextKind × Text) (ContextRecord Id × Nat)).mapValues
      fun _ v => v.1) = Dict.empty := rfl
  rw [timelineRecords, ← hempty, h, ← trackedRecords]
  cases trackedRecords rt result info with
  | error e => rfl
  | ok rows =>
    simp only [Except.map, bind, Except.bind, pure, Except.pure, Dict.values, Dict.mapValues,
      List.map_map]
    rfl

section fresh
variable {key : α → Text} {kind : EntityKind} {build : ExtractedEvent → α}

/-- An item under the key of one before it was there before the merge. -/
def Fresh (key : α → Text) (items : List (α × Option Nat)) : Prop :=
  items.Pairwise fun item later => key item.1 = key later.1 → later.2 = none

theorem Fresh.upsert {items : List (α × Option Nat)} (h : Fresh key items) (new : α × Option Nat) :
    Fresh key (upsert (fun item => key item.1) new items) := by
  induction items with
  | nil => exact List.pairwise_singleton _ _
  | cons item items ih =>
    obtain ⟨hitem, hitems⟩ := List.pairwise_cons.mp h
    rw [Context.upsert]
    split
    · next heq =>
      exact List.pairwise_cons.mpr ⟨fun later hlater hkey =>
        hitem later hlater (heq.trans hkey), hitems⟩
    · next hne =>
      refine List.pairwise_cons.mpr ⟨fun later hlater hkey => ?_, ih hitems⟩
      rcases mem_upsert hlater with rfl | hmem
      · exact absurd hkey hne
      · exact hitem later hmem hkey

/-- An upsert takes out the merged item under its key, which is the first one there. -/
theorem Fresh.mem_upsert {items : List (α × Option Nat)} (h : Fresh key items)
    {item : α} {i : Nat} {new : α × Option Nat} :
    (item, some i) ∈ Context.upsert (fun item => key item.1) new items ↔
      new = (item, some i) ∨ ((item, some i) ∈ items ∧ key new.1 ≠ key item) := by
  induction items with
  | nil => simp [Context.upsert, eq_comm]
  | cons first items ih =>
    obtain ⟨hfirst, hitems⟩ := List.pairwise_cons.mp h
    rw [Context.upsert]
    split
    · next heq =>
      rw [List.mem_cons, List.mem_cons, eq_comm]
      refine or_congr_right ⟨fun hmem => ⟨.inr hmem, fun hkey => ?_⟩, ?_⟩
      · cases hfirst _ hmem (heq.trans hkey)
      · rintro ⟨rfl | hmem, hkey⟩
        · exact absurd heq.symm hkey
        · exact hmem
    · next hne =>
      rw [List.mem_cons, List.mem_cons, ih hitems]
      constructor
      · rintro (rfl | hnew | ⟨hmem, hkey⟩)
        · exact .inr ⟨.inl rfl, fun hkey => hne hkey.symm⟩
        · exact .inl hnew
        · exact .inr ⟨.inr hmem, hkey⟩
      · rintro (hnew | ⟨rfl | hmem, hkey⟩)
        · exact .inr (.inl hnew)
        · exact .inl rfl
        · exact .inr (.inr ⟨hmem, hkey⟩)

/-- The items that a merge puts in the store come from the last event under their keys. -/
theorem mem_upsertTracked {events : List ExtractedEvent} {items : List α} {item : α} {i : Nat} :
    (item, some i) ∈ upsertTracked key kind build events.zipIdx (items.map (·, none)) ↔
      ∃ event, events[i]? = some event ∧ event.kind = kind ∧ build event = item ∧
        ∀ (j : Nat) (later : ExtractedEvent), i < j → events[j]? = some later →
          later.kind = kind → key (build later) ≠ key item := by
  have hstart : Fresh key (items.map (·, none)) := by
    rw [Fresh, List.pairwise_map]
    exact List.pairwise_of_forall fun _ _ _ => rfl
  have hrun : (item, some i) ∈ upsertTracked key kind build events.zipIdx (items.map (·, none)) ↔
      Surviving (fun event : ExtractedEvent × Nat =>
          event.1.kind = kind ∧ (build event.1, some event.2) = (item, some i))
        (fun event => event.1.kind = kind ∧ key (build event.1) = key item) events.zipIdx ∨
      ((item, some i) ∈ items.map (·, (none : Option Nat)) ∧ ∀ event ∈ events.zipIdx,
        ¬(event.1.kind = kind ∧ key (build event.1) = key item)) := by
    refine alive_foldl (Fresh key) (fun items event h => ?_) (fun items => (item, some i) ∈ items)
      _ _ (fun items event h => ?_) _ _ hstart
    · split
      · exact h.upsert _
      · exact h
    · split
      · next hkind => rw [h.mem_upsert]; simp [hkind]
      · next hkind => simp [hkind]
  have hnone : (item, some i) ∉ items.map (·, (none : Option Nat)) := by simp
  rw [hrun, surviving_iff_getElem?]
  simp only [hnone, false_and, or_false, List.getElem?_zipIdx, Nat.zero_add, Option.map_eq_some_iff,
    not_and]
  constructor
  · rintro ⟨k, _, ⟨event, hevent, rfl⟩, ⟨hkind, hbuild⟩, hlast⟩
    obtain ⟨rfl, hk⟩ := Prod.mk.inj hbuild
    obtain rfl := Option.some.inj hk
    exact ⟨event, hevent, hkind, rfl, fun j later hj hlater =>
      hlast j _ hj ⟨later, hlater, rfl⟩⟩
  · rintro ⟨event, hevent, hkind, rfl, hlast⟩
    refine ⟨i, _, ⟨event, hevent, rfl⟩, ⟨hkind, rfl⟩, ?_⟩
    rintro j _ hj ⟨later, hlater, rfl⟩
    exact hlast j later hj hlater

end fresh

variable {rt : Runtime Id} {state : ContextStoreState} {result : ExtractionResult}
  {info : TimelineInfo Id} {rows : Dict (ContextKind × Text) (ContextRecord Id × Nat)}

/-- The row under a kind and a key is the one of the first event under them. -/
theorem get?_trackedRecords (h : trackedRecords rt result info = .ok rows)
    {slot : ContextKind × Text} {row : ContextRecord Id} {i : Nat} :
    rows.get? slot = some (row, i) ↔ ∃ event, result.events[i]? = some event ∧
      timelineSlot rt event = some slot ∧ timelineRow rt result info slot event = .ok row ∧
      ∀ (j : Nat) (earlier : ExtractedEvent), j < i → result.events[j]? = some earlier →
        timelineSlot rt earlier ≠ some slot := by
  have hempty : slot ∉ (Dict.empty : Dict (ContextKind × Text) (ContextRecord Id × Nat)).keys :=
    List.not_mem_nil
  have hrow : ∀ event : ExtractedEvent × Nat,
      (timelineRow rt result info slot event.1).map (·, event.2) = .ok (row, i) ↔
        timelineRow rt result info slot event.1 = .ok row ∧ event.2 = i := by
    intro event
    cases timelineRow rt result info slot event.1 <;> simp [Except.map]
  rw [get?_foldlM_recordFirst h]
  simp only [Dict.get?_empty, reduceCtorEq, false_or, hempty, not_false_eq_true, true_and,
    firstUnder_iff_getElem?, List.getElem?_zipIdx, Nat.zero_add, Option.map_eq_some_iff, hrow]
  constructor
  · rintro ⟨_, ⟨k, ⟨event, hevent, rfl⟩, hslot, hfirst⟩, hmade, rfl⟩
    exact ⟨event, hevent, hslot, hmade, fun j earlier hj hearlier =>
      hfirst j _ hj ⟨earlier, hearlier, rfl⟩⟩
  · rintro ⟨event, hevent, hslot, hmade, hfirst⟩
    refine ⟨_, ⟨i, ⟨event, hevent, rfl⟩, hslot, ?_⟩, hmade, rfl⟩
    rintro j _ hj ⟨earlier, hearlier, rfl⟩
    exact hfirst j earlier hj hearlier

/-- Each item that the merge put in the list comes from the event of its row. -/
def SameEvents (rows : Dict (ContextKind × Text) (ContextRecord Id × Nat)) (kind : ContextKind)
    (key : α → Text) (items : List (α × Option Nat)) : Prop :=
  ∀ item i, (item, some i) ∈ items → ∃ row, rows.get? (kind, key item) = some (row, i)

/-- The timeline of a result has a row for each item of the merge, made from the event the item
comes from, and a row for each decision that the result takes out of the store. -/
structure Agree (rt : Runtime Id) (state : ContextStoreState) (result : ExtractionResult)
    (info : TimelineInfo Id) (rows : Dict (ContextKind × Text) (ContextRecord Id × Nat)) :
    Prop where
  decisions : SameEvents rows .decision (fun d => itemKey rt d.title .decision)
    (trackedMerge rt state result info.sourceId).decisions
  openIssues : SameEvents rows .issue (fun i => itemKey rt i.title .issue)
    (trackedMerge rt state result info.sourceId).openIssues
  nextActions : SameEvents rows .task (fun a => itemKey rt a.title .task)
    (trackedMerge rt state result info.sourceId).nextActions
  removed : ∀ d ∈ upsertedDecisions rt state result info.sourceId,
    d ∉ (mergeExtraction rt state result info.sourceId).decisions →
    ∃ row ∈ rows.values, row.1.metadata.supersedes = some (itemKey rt d.title .decision)

/-- The date of the first event under each kind and key of the timeline is in range. -/
def DatesInRange (rt : Runtime Id) (result : ExtractionResult) : Prop :=
  ∀ slot event, FirstUnder (timelineSlot rt) result.events slot event →
    DateInRange rt event.occurredAt

/-- Two events of one kind have different keys, unless the kind is that of a decision and some
event of the result replaces the key. -/
def StatedOnce (rt : Runtime Id) (result : ExtractionResult) : Prop :=
  ∀ (i j : Nat) (event later : ExtractedEvent), i < j → result.events[i]? = some event →
    result.events[j]? = some later → event.kind ∈ [EntityKind.decision, .issue, .task] →
    later.kind = event.kind →
    itemKey rt later.name event.kind = itemKey rt event.name event.kind →
    event.kind = .decision ∧ Replaces rt result (itemKey rt event.name .decision)

/-- A decision of the state or the result that some event replaces is replaced by the first
event under some kind and key. -/
def ReplacedFirst (rt : Runtime Id) (state : ContextStoreState) (result : ExtractionResult) :
    Prop :=
  ∀ key, Decides rt result key ∨ state.Holds rt key → Replaces rt result key →
    ∃ slot event, FirstUnder (timelineSlot rt) result.events slot event ∧
      replacedKey rt event = some key

theorem exists_trackedRecords : (∃ rows, trackedRecords rt result info = .ok rows) ↔
    DatesInRange rt result := by
  have h : (∃ rows, trackedRecords rt result info = .ok rows) ↔
      ∃ rows, timelineRecords rt result info = .ok rows := by
    rw [trackedRecords_erase]
    cases trackedRecords rt result info <;> simp [Except.map]
  rw [h, exists_timelineRecords]
  simp only [exists_parseInstant, DatesInRange]

/-- Of the events under a key, one is the last. -/
theorem exists_last {events : List ExtractedEvent} {p : ExtractedEvent → Prop} {j : Nat}
    {event : ExtractedEvent} (hevent : events[j]? = some event) (hp : p event) :
    ∃ (k : Nat) (last : ExtractedEvent), j ≤ k ∧ events[k]? = some last ∧ p last ∧
      ∀ (l : Nat) (later : ExtractedEvent), k < l → events[l]? = some later → ¬p later := by
  classical
  let q : Nat → Prop := fun k => ∃ e, events[k]? = some e ∧ p e
  have hle : ∀ {k e}, events[k]? = some e → k ≤ events.length := fun {k e} h => by
    obtain ⟨hlt, -⟩ := List.getElem?_eq_some_iff.mp h
    exact hlt.le
  obtain ⟨last, hlast, hplast⟩ := Nat.findGreatest_spec (P := q) (hle hevent) ⟨event, hevent, hp⟩
  refine ⟨_, last, Nat.le_findGreatest (hle hevent) ⟨event, hevent, hp⟩, hlast, hplast,
    fun l later hl hlater hp' => ?_⟩
  exact Nat.findGreatest_is_greatest hl (hle hlater) ⟨later, hlater, hp'⟩

/-- For one list: its items come from the events of their rows exactly when no two events of its
kind are under one key that the merge keeps. -/
theorem sameEvents_iff (h : trackedRecords rt result info = .ok rows) {kind : EntityKind}
    {slot : ContextKind} (hslot : ∀ k, timelineKind k = some slot ↔ k = kind) (title : α → Text)
    (build : ExtractedEvent → α) (htitle : ∀ event, title (build event) = event.name)
    (items : List α) (keep : Text → Bool) :
    SameEvents rows slot (fun item => itemKey rt (title item) kind)
        ((upsertTracked (fun item => itemKey rt (title item) kind) kind build result.events.zipIdx
          (items.map (·, none))).filter fun item => keep (itemKey rt (title item.1) kind)) ↔
      ∀ (i j : Nat) (event later : ExtractedEvent), i < j → result.events[i]? = some event →
        result.events[j]? = some later → event.kind = kind → later.kind = kind →
        itemKey rt later.name kind = itemKey rt event.name kind →
        keep (itemKey rt event.name kind) = false := by
  have hslotEq : ∀ (event : ExtractedEvent) key,
      timelineSlot rt event = some (slot, key) ↔ event.kind = kind ∧
        itemKey rt event.name kind = key := by
    intro event key
    simp only [timelineSlot, Option.map_eq_some_iff, Prod.mk.injEq]
    constructor
    · rintro ⟨_, hkind, rfl, rfl⟩
      have hkind := (hslot _).mp hkind
      exact ⟨hkind, by rw [hkind]⟩
    · rintro ⟨hkind, rfl⟩
      exact ⟨slot, (hslot _).mpr hkind, rfl, by rw [hkind]⟩
  constructor
  · intro hsame i j event later hij hevent hlater hkind hkind' hkey
    by_contra hkeep
    obtain ⟨k, last, hjk, hlast, ⟨hlastKind, hlastKey⟩, hnone⟩ := exists_last
      (p := fun e => e.kind = kind ∧ itemKey rt e.name kind = itemKey rt event.name kind)
      hlater ⟨hkind', hkey⟩
    have hmem : (build last, some k) ∈ (upsertTracked (fun item => itemKey rt (title item) kind)
        kind build result.events.zipIdx (items.map (·, none))).filter fun item =>
          keep (itemKey rt (title item.1) kind) := by
      refine List.mem_filter.mpr ⟨mem_upsertTracked.mpr ⟨last, hlast, hlastKind, rfl, ?_⟩, ?_⟩
      · intro l e hl he hekind hekey
        rw [htitle, htitle, hlastKey] at hekey
        exact hnone l e hl he ⟨hekind, hekey⟩
      · simpa [htitle, hlastKey] using hkeep
    obtain ⟨row, hrow⟩ := hsame _ _ hmem
    obtain ⟨first, hfirst, -, -, hearliest⟩ := (get?_trackedRecords h).mp hrow
    refine hearliest i event (by omega) hevent ((hslotEq _ _).mpr ⟨hkind, ?_⟩)
    change _ = itemKey rt (title (build last)) kind
    rw [htitle, hlastKey]
  · intro hpairs item i hmem
    obtain ⟨hmem, hkeep⟩ := List.mem_filter.mp hmem
    obtain ⟨event, hevent, hkind, rfl, -⟩ := mem_upsertTracked.mp hmem
    rw [htitle] at hkeep
    have hearliest : ∀ (j : Nat) (earlier : ExtractedEvent), j < i →
        result.events[j]? = some earlier →
        timelineSlot rt earlier ≠ some (slot, itemKey rt event.name kind) := by
      intro j earlier hj hearlier heq
      obtain ⟨hekind, hekey⟩ := (hslotEq _ _).mp heq
      have := hpairs j i earlier event hj hearlier hevent hekind hkind hekey.symm
      rw [hekey, hkeep] at this
      cases this
    have hfirst : FirstUnder (timelineSlot rt) result.events (slot, itemKey rt event.name kind)
        event :=
      firstUnder_iff_getElem?.mpr ⟨i, hevent, (hslotEq _ _).mpr ⟨hkind, rfl⟩, hearliest⟩
    obtain ⟨row, hrow⟩ : ∃ row,
        timelineRow rt result info (slot, itemKey rt event.name kind) event = .ok row :=
      exists_timelineRow.mpr
        (exists_parseInstant.mpr (exists_trackedRecords.mp ⟨rows, h⟩ _ _ hfirst))
    have hkey : (fun item => itemKey rt (title item) kind) (build event) =
        itemKey rt event.name kind := by simp only [htitle]
    refine ⟨row, ?_⟩
    rw [hkey]
    exact (get?_trackedRecords h).mpr
      ⟨event, hevent, (hslotEq _ _).mpr ⟨hkind, rfl⟩, hrow, hearliest⟩

/-- The decision a row says it replaces is the one its event replaces. -/
theorem supersedes_of_timelineRow {slot : ContextKind × Text} {event : ExtractedEvent}
    {row : ContextRecord Id} (hslot : timelineSlot rt event = some slot)
    (h : timelineRow rt result info slot event = .ok row) :
    row.metadata.supersedes = replacedKey rt event := by
  simp only [timelineRow, bind_eq_ok, pure_eq_ok] at h
  obtain ⟨_, -, rfl⟩ := h
  obtain ⟨_, -, rfl⟩ := Option.map_eq_some_iff.mp hslot
  by_cases hkind : event.kind = .decision
  · cases hsupersedes : event.supersedes with
    | none => simp [replaces, replacedKey, hkind, hsupersedes]
    | some supersedes =>
      by_cases hblank : supersedes = []
      · simp [replaces, replacedKey, hkind, hsupersedes, hblank]
      · simp [replaces, replacedKey, hkind, hsupersedes, hblank]
  · simp [replaces, replacedKey, hkind]

/-- The decisions that leave the store are named by rows exactly when each is replaced by a first
event. -/
theorem removed_iff (h : trackedRecords rt result info = .ok rows) (sourceId : Id) :
    (∀ d ∈ upsertedDecisions rt state result sourceId,
      d ∉ (mergeExtraction rt state result sourceId).decisions →
      ∃ row ∈ rows.values, row.1.metadata.supersedes = some (itemKey rt d.title .decision)) ↔
    ReplacedFirst rt state result := by
  have hrow : ∀ key, (∃ row ∈ rows.values, row.1.metadata.supersedes = some key) ↔
      ∃ slot event, FirstUnder (timelineSlot rt) result.events slot event ∧
        replacedKey rt event = some key := by
    intro key
    constructor
    · rintro ⟨⟨row, i⟩, hmem, hkey⟩
      obtain ⟨slot, hget⟩ := Dict.mem_values_iff.mp hmem
      obtain ⟨event, hevent, hslot, hmade, hfirst⟩ := (get?_trackedRecords h).mp hget
      refine ⟨slot, event, firstUnder_iff_getElem?.mpr ⟨i, hevent, hslot, hfirst⟩, ?_⟩
      rw [← supersedes_of_timelineRow hslot hmade, hkey]
    · rintro ⟨slot, event, hunder, hkey⟩
      obtain ⟨i, hevent, hslot, hfirst⟩ := firstUnder_iff_getElem?.mp hunder
      obtain ⟨row, hmade⟩ := exists_timelineRow.mpr
        (exists_parseInstant.mpr (exists_trackedRecords.mp ⟨rows, h⟩ _ _ hunder))
      refine ⟨(row, i), Dict.mem_values_iff.mpr ⟨slot, (get?_trackedRecords h).mpr
        ⟨event, hevent, hslot, hmade, hfirst⟩⟩, ?_⟩
      rw [supersedes_of_timelineRow hslot hmade, hkey]
  have hgone : ∀ d ∈ upsertedDecisions rt state result sourceId,
      d ∉ (mergeExtraction rt state result sourceId).decisions ↔
        Replaces rt result (itemKey rt d.title .decision) := by
    intro d hd
    rw [mergeExtraction_decisions, List.mem_filter, not_and]
    simp only [hd, forall_const, List.all_eq_true, decide_eq_true_eq, not_forall, not_not,
      exists_prop, ne_eq, Replaces]
  constructor
  · intro hnamed key hheld hreplaces
    obtain ⟨d, hd, rfl⟩ := (exists_mem_upsertedDecisions sourceId).mpr hheld
    exact (hrow _).mp (hnamed d hd ((hgone d hd).mpr hreplaces))
  · intro hfirst d hd hleft
    exact (hrow _).mpr (hfirst _ ((exists_mem_upsertedDecisions sourceId).mp ⟨d, hd, rfl⟩)
      ((hgone d hd).mp hleft))

/-- The items of all three lists come from the events of their rows exactly when each item is
stated once. -/
theorem statedOnce_iff (h : trackedRecords rt result info = .ok rows) (sourceId : Id) :
    StatedOnce rt result ↔
      SameEvents rows .decision (fun d => itemKey rt d.title .decision)
          (trackedMerge rt state result sourceId).decisions ∧
        SameEvents rows .issue (fun i => itemKey rt i.title .issue)
          (trackedMerge rt state result sourceId).openIssues ∧
        SameEvents rows .task (fun a => itemKey rt a.title .task)
          (trackedMerge rt state result sourceId).nextActions := by
  have hdecision : ∀ k, timelineKind k = some .decision ↔ k = .decision := fun k => by
    cases k <;> decide
  have hissue : ∀ k, timelineKind k = some .issue ↔ k = .issue := fun k => by cases k <;> decide
  have htask : ∀ k, timelineKind k = some .task ↔ k = .task := fun k => by cases k <;> decide
  have hdecisions := sameEvents_iff h hdecision (fun d : StoreDecision => d.title)
    (storeDecision (rt.str sourceId)) (fun _ => rfl) state.decisions
    fun key => result.events.all fun event => replacedKey rt event ≠ some key
  have hissues := sameEvents_iff h hissue (fun i : StoreItem => i.title)
    (storeItem · (rt.str sourceId)) (fun _ => rfl) state.openIssues fun _ => true
  have hactions := sameEvents_iff h htask (fun a : StoreAction => a.title)
    (storeAction result (rt.str sourceId)) (fun _ => rfl) state.nextActions fun _ => true
  have hkept : ∀ key, (result.events.all fun event => replacedKey rt event ≠ some key) = false ↔
      Replaces rt result key := fun key => by simp [Replaces]
  rw [List.filter_eq_self.mpr fun _ _ => rfl] at hissues hactions
  simp only [hkept] at hdecisions
  simp only [reduceCtorEq, imp_false] at hissues hactions
  rw [trackedMerge, hdecisions, hissues, hactions]
  constructor
  · intro honce
    refine ⟨fun i j event later hij hevent hlater hkind hkind' hkey => ?_,
      fun i j event later hij hevent hlater hkind hkind' hkey => ?_,
      fun i j event later hij hevent hlater hkind hkind' hkey => ?_⟩
    all_goals
      have hboth := honce i j event later hij hevent hlater (by simp [hkind])
        (hkind'.trans hkind.symm) (by rw [hkind]; exact hkey)
    · exact hboth.2
    · cases hkind.symm.trans hboth.1
    · cases hkind.symm.trans hboth.1
  · rintro ⟨hdecisions, hissues, hactions⟩ i j event later hij hevent hlater hkind hsame hkey
    simp only [List.mem_cons, List.not_mem_nil, or_false] at hkind
    rcases hkind with hkind | hkind | hkind <;> rw [hkind] at hsame hkey
    · exact ⟨hkind, hdecisions i j event later hij hevent hlater hkind hsame hkey⟩
    · exact (hissues i j event later hij hevent hlater hkind hsame hkey).elim
    · exact (hactions i j event later hij hevent hlater hkind hsame hkey).elim

/-- The store and the timeline agree on a result exactly when the dates of the timeline are in
range, each item is stated once, and each replaced decision is replaced by a first event. -/
theorem agree_iff (rt : Runtime Id) (state : ContextStoreState) (result : ExtractionResult)
    (info : TimelineInfo Id) :
    (∃ rows, trackedRecords rt result info = .ok rows ∧ Agree rt state result info rows) ↔
      DatesInRange rt result ∧ StatedOnce rt result ∧ ReplacedFirst rt state result := by
  constructor
  · rintro ⟨rows, h, hagree⟩
    have honce := (statedOnce_iff h _).mpr
      ⟨hagree.decisions, hagree.openIssues, hagree.nextActions⟩
    exact ⟨exists_trackedRecords.mp ⟨rows, h⟩, honce, (removed_iff h _).mp hagree.removed⟩
  · rintro ⟨hdates, honce, hreplaced⟩
    obtain ⟨rows, h⟩ := exists_trackedRecords.mpr hdates
    obtain ⟨hdecisions, hissues, hactions⟩ := (statedOnce_iff h _).mp honce
    exact ⟨rows, h, hdecisions, hissues, hactions, (removed_iff h _).mpr hreplaced⟩

/-- One decision stated twice, the second time with the decision it replaces. -/
def restated : ExtractionResult :=
  ⟨[], [plainDecision "Redis" none, plainDecision "redis" (some "Cache")], []⟩

/-- The item of the store comes from the second event, the row from the first. -/
theorem not_agree_restated : ¬∃ rows,
    trackedRecords plainRuntime restated ⟨"w".toList, "o".toList, "s".toList⟩ = .ok rows ∧
      Agree plainRuntime (emptyState []) restated ⟨"w".toList, "o".toList, "s".toList⟩ rows := by
  rintro ⟨rows, h, hagree⟩
  obtain ⟨row, hrow⟩ := hagree.decisions
    (storeDecision "s".toList (plainDecision "redis" (some "Cache"))) 1 (by decide +kernel)
  obtain ⟨event, hevent, -, -, hfirst⟩ := (get?_trackedRecords h).mp hrow
  refine hfirst 0 _ Nat.zero_lt_one rfl ?_
  decide +kernel

end Maeglagi.Context
