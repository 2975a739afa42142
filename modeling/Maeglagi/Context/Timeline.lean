import Maeglagi.Context.Supersedes
import Maeglagi.Context.Updater
import Maeglagi.Core.FirstWins
import Maeglagi.Temporal.Instant

/-!
# Timelines
-/

namespace Maeglagi.Context

/-!
## The timeline of one source

The rows of `contexts` that one extraction gives: one for each decision, issue, task and event,
made from the first extracted event under its key.
-/

section

open Core Temporal

variable {Id : Type}

/-- `_TIMELINE_KIND` -/
def timelineKind : EntityKind → Option ContextKind
  | .decision => some .decision
  | .issue => some .issue
  | .task => some .task
  | .meeting => some .event
  | .event => some .event
  | _ => none

/-- The metadata of a timeline row. -/
structure TimelineMetadata where
  key : Text
  supersedes : Option Text
  dueAt : Option Text
  assignee : Option Text
  sourceRefs : List Text
  deriving DecidableEq, Repr

/-- `ContextRecord` -/
structure ContextRecord (Id : Type) where
  workspaceId : Id
  sourceId : Id
  ownerId : Id
  kind : ContextKind
  title : Text
  body : Text
  occurredAt : Option Instant
  metadata : TimelineMetadata
  deriving DecidableEq, Repr

/-- The longest title of a row. -/
def maxTitleChars : Nat := 255

/-- The key of the decision that an event says it replaces. -/
def replaces (rt : Runtime Id) (event : ExtractedEvent) : Option Text :=
  match event.kind, event.supersedes with
  | .decision, some supersedes =>
    if supersedes = [] then none else some (itemKey rt supersedes .decision)
  | _, _ => none

/-- The kind and the key under which an event is recorded. -/
def timelineSlot (rt : Runtime Id) (event : ExtractedEvent) : Option (ContextKind × Text) :=
  (timelineKind event.kind).map fun kind => (kind, itemKey rt event.name event.kind)

/-- The rows of one source belong to a workspace and an owner. -/
structure TimelineInfo (Id : Type) where
  workspaceId : Id
  ownerId : Id
  sourceId : Id

/-- The row of an event that is recorded under a kind and a key. -/
def timelineRow (rt : Runtime Id) (result : ExtractionResult) (info : TimelineInfo Id)
    (slot : ContextKind × Text) (event : ExtractedEvent) : Except PyError (ContextRecord Id) := do
  let occurredAt ← parseInstant rt event.occurredAt
  return {
    workspaceId := info.workspaceId
    sourceId := info.sourceId
    ownerId := info.ownerId
    kind := slot.1
    title := (strip event.name).take maxTitleChars
    body := orElse (strip event.description) (strip event.name)
    occurredAt := occurredAt
    metadata := {
      key := slot.2
      supersedes := if replaces rt event ≠ some slot.2 then replaces rt event else none
      dueAt := event.dueAt
      assignee := if event.kind = .task then assigneeOf result event.name else none
      sourceRefs := event.sourceRefs } }

/-- `timeline_records` -/
def timelineRecords (rt : Runtime Id) (result : ExtractionResult) (info : TimelineInfo Id) :
    Except PyError (List (ContextRecord Id)) := do
  let records ← result.events.foldlM
    (recordFirst (timelineSlot rt) (timelineRow rt result info)) Dict.empty
  return records.values

/-- A row is made exactly when the date of its event is read. -/
theorem exists_timelineRow {rt : Runtime Id} {result : ExtractionResult} {info : TimelineInfo Id}
    {slot : ContextKind × Text} {event : ExtractedEvent} :
    (∃ row, timelineRow rt result info slot event = .ok row) ↔
      ∃ occurredAt, parseInstant rt event.occurredAt = .ok occurredAt := by
  simp only [timelineRow, bind_eq_ok, pure_eq_ok]
  constructor
  · rintro ⟨_, occurredAt, h, -⟩
    exact ⟨occurredAt, h⟩
  · rintro ⟨occurredAt, h⟩
    exact ⟨_, occurredAt, h, rfl⟩

/-- `timeline_records` returns when the date of the first event under each key is read. -/
theorem exists_timelineRecords {rt : Runtime Id} {result : ExtractionResult}
    {info : TimelineInfo Id} : (∃ rows, timelineRecords rt result info = .ok rows) ↔
      ∀ slot event, FirstUnder (timelineSlot rt) result.events slot event →
        ∃ occurredAt, parseInstant rt event.occurredAt = .ok occurredAt := by
  have hrun : (∃ records, result.events.foldlM
      (recordFirst (timelineSlot rt) (timelineRow rt result info)) Dict.empty = .ok records) ↔
      ∀ slot event, slot ∉ (Dict.empty : Dict (ContextKind × Text) (ContextRecord Id)).keys →
        FirstUnder (timelineSlot rt) result.events slot event →
        ∃ row, timelineRow rt result info slot event = .ok row := exists_foldlM_recordFirst
  have hempty : ∀ slot, slot ∉ (Dict.empty : Dict (ContextKind × Text) (ContextRecord Id)).keys :=
    fun _ => List.not_mem_nil
  simp only [exists_timelineRow, hempty, not_false_eq_true, forall_const] at hrun
  rw [← hrun]
  simp only [timelineRecords, bind_eq_ok, pure_eq_ok]
  constructor
  · rintro ⟨_, records, hrecords, -⟩
    exact ⟨records, hrecords⟩
  · rintro ⟨records, hrecords⟩
    exact ⟨_, records, hrecords, rfl⟩

end

/-!
## The timeline of agents

`AgentKnowledgeService.timeline` finds the successors of a page of records again: the record
created last of those that name a key. It reports the successor of the HTTP timeline
exactly when that record is also the last to occur of those that replace the other.
-/

section

open Core

variable {Id : Type} [DecidableEq Id]

/-- The timeline records of one workspace and its owner, as the HTTP timeline reads them. -/
structure WorkspaceTimeline (Id : Type) extends Timeline Id where
  workspaceId : Id
  ownerId : Id
  belongs : ∀ x ∈ records, x.workspaceId = workspaceId ∧ x.ownerId = ownerId

/-- The successors that the query loads at most. -/
def maxSuccessors : Nat := 500

/-- `str(metadata.get("key"))` -/
def TimelineRecord.printedKey (x : TimelineRecord Id) : Text := x.key.getD "None".toList

/-- The keys of the rows of a page that have one. -/
def pageKeys (page : List (TimelineRecord Id)) : List Text :=
  page.filterMap fun x => x.key.filter fun k => !k.isEmpty

/-- A page of the timeline, and the successors found for its keys: newest first, those
created at one moment in any order, and no more than the query loads. -/
structure Page (t : WorkspaceTimeline Id) where
  rows : List (TimelineRecord Id)
  rows_subset : rows ⊆ t.records
  successors : List (TimelineRecord Id)
  perm : successors.Perm
    (t.records.filter fun y => y.supersedes.any fun k => decide (k ∈ pageKeys rows))
  newestFirst : successors.Pairwise fun a b => b.createdAt ≤ a.createdAt
  few : successors.length ≤ maxSuccessors

/-- `replaced_by.setdefault(...)` -/
def setDefault (replaced : Dict Text Id) (y : TimelineRecord Id) : Dict Text Id :=
  match y.supersedes with
  | none => replaced
  | some k => if k ∈ replaced.keys then replaced else replaced.set k y.id

/-- The `supersededBy` that a row of the page is reported with. -/
def Page.supersededBy {t : WorkspaceTimeline Id} (p : Page t) (x : TimelineRecord Id) : Option Id :=
  ((p.successors.take maxSuccessors).foldl setDefault Dict.empty).get? x.printedKey

/-- The record created last of those that name the key of `x`. -/
def Page.NewestFor {t : WorkspaceTimeline Id} (p : Page t) (x y : TimelineRecord Id) : Prop :=
  p.successors.find? (fun y => decide (y.supersedes = some x.printedKey)) = some y

omit [DecidableEq Id] in
/-- The first successor of each key is kept. -/
theorem get?_setDefault (l : List (TimelineRecord Id)) (replaced : Dict Text Id) (k : Text) :
    (l.foldl setDefault replaced).get? k =
      (replaced.get? k).or ((l.find? fun y => decide (y.supersedes = some k)).map (·.id)) := by
  induction l generalizing replaced with
  | nil => simp
  | cons y l ih =>
    rw [List.foldl_cons, ih]
    cases hy : y.supersedes with
    | none => simp [setDefault, hy]
    | some k' =>
      by_cases hk : k' = k
      · subst hk
        by_cases hmem : k' ∈ replaced.keys
        · obtain ⟨v, hv⟩ := Dict.mem_keys_iff.mp hmem
          simp [setDefault, hy, hmem, hv]
        · have hnone := Dict.get?_eq_none_iff.mpr hmem
          simp [setDefault, hy, hmem, hnone]
      · have hkept : (setDefault replaced y).get? k = replaced.get? k := by
          simp only [setDefault, hy]
          split_ifs
          · rfl
          · exact Dict.get?_set_ne _ _ fun h => hk h.symm
        rw [hkept, List.find?_cons_of_neg (by simp [hy, hk])]

section
variable {t : WorkspaceTimeline Id} {p : Page t} {x y : TimelineRecord Id}

omit [DecidableEq Id] in
theorem Page.supersededBy_eq :
    p.supersededBy x = (p.successors.find? fun y => decide (y.supersedes = some x.printedKey)).map
      (·.id) := by
  rw [Page.supersededBy, List.take_of_length_le p.few, get?_setDefault, Dict.get?_empty,
    Option.none_or]

/-- Every record that replaces a row of the page names the key of the row and is found. -/
theorem Page.found_of_replaces (hx : x ∈ p.rows) (hy : y ∈ t.records)
    (h : replacesRecord y x = true) : y ∈ p.successors ∧ y.supersedes = some x.printedKey := by
  simp only [replacesRecord, TimelineRecord.target, Option.any_eq_true, Option.filter_eq_some_iff,
    Bool.and_eq_true, decide_eq_true_eq] at h
  obtain ⟨k, ⟨hsupersedes, hk⟩, -, hkey⟩ := h
  have hkeys : k ∈ pageKeys p.rows :=
    List.mem_filterMap.mpr ⟨x, hx, by rw [hkey, Option.filter_some, if_pos hk]⟩
  refine ⟨p.perm.mem_iff.mpr (List.mem_filter.mpr ⟨hy, ?_⟩), ?_⟩
  · simpa [hsupersedes] using hkeys
  · rw [hsupersedes, TimelineRecord.printedKey, hkey]
    rfl

end

/-- The two timelines report the same successor of a row exactly when the record created
last of those that name its key is also the last to occur of those that replace it. -/
theorem timelines_agree_iff {t : WorkspaceTimeline Id} (p : Page t) :
    ∀ x ∈ p.rows, (supersededBy t.records).get? x.id = p.supersededBy x ↔
      ∀ y, p.NewestFor x y → LatestFor t.records x y := by
  intro x hx
  have hmem := p.rows_subset hx
  rw [Page.supersededBy_eq]
  cases hnewest : p.successors.find? (fun y => decide (y.supersedes = some x.printedKey)) with
  | none =>
    refine iff_of_true ?_ fun y hy => ?_
    · rw [Option.map_none, Option.eq_none_iff_forall_ne_some]
      intro v hv
      obtain ⟨x', hx', y, hy, hid, -, hlatest⟩ := exists_latestFor hv
      obtain rfl := List.inj_on_of_nodup_map t.ids hx' hmem hid
      obtain ⟨hfound, hnames⟩ := p.found_of_replaces hx hy hlatest.1.2
      exact List.find?_eq_none.mp hnewest y hfound (decide_eq_true hnames)
    · rw [Page.NewestFor, hnewest] at hy
      cases hy
  | some y =>
    have hy : y ∈ t.records :=
      (List.mem_filter.mp (p.perm.mem_iff.mp (List.mem_of_find?_eq_some hnewest))).1
    rw [Option.map_some, get?_supersededBy_iff hmem hy]
    simp only [Page.NewestFor, hnewest, Option.some.injEq, forall_eq']

/-- A decision and two records that replace it, the earlier one created later. -/
def twiceReplaced : WorkspaceTimeline Nat where
  records :=
    [⟨0, 0, 0, some "a".toList, none, some (instantAt 1), instantAt 1⟩,
      ⟨1, 0, 0, some "b".toList, some "a".toList, some (instantAt 3), instantAt 4⟩,
      ⟨2, 0, 0, some "c".toList, some "a".toList, some (instantAt 2), instantAt 5⟩]
  ids := by decide
  workspaceId := 0
  ownerId := 0
  belongs := by decide

/-- Its whole timeline as one page. -/
def twiceReplacedPage : Page twiceReplaced where
  rows := twiceReplaced.records
  rows_subset := List.Subset.refl _
  successors := (twiceReplaced.records.drop 1).reverse
  perm := by decide +kernel
  newestFirst := by decide
  few := by decide

/-- The decision and the record that occurred last of those that replace it. -/
def onceReplaced : WorkspaceTimeline Nat where
  records := twiceReplaced.records.take 2
  ids := by decide
  workspaceId := 0
  ownerId := 0
  belongs := by decide

/-- Its whole timeline as one page. -/
def onceReplacedPage : Page onceReplaced where
  rows := onceReplaced.records
  rows_subset := List.Subset.refl _
  successors := onceReplaced.records.drop 1
  perm := by decide +kernel
  newestFirst := by decide
  few := by decide

/-- Both timelines report the only successor of the decision. -/
theorem timelines_agree_once :
    onceReplaced.records.head?.map (fun x => (supersededBy onceReplaced.records).get? x.id) =
      onceReplaced.records.head?.map onceReplacedPage.supersededBy := by
  refine congrArg some ((timelines_agree_iff onceReplacedPage
    ⟨0, 0, 0, some "a".toList, none, some (instantAt 1), instantAt 1⟩ (by decide)).mpr ?_)
  intro y hy
  obtain rfl := Option.some.inj (hy.symm.trans (show _ = some _ from rfl))
  unfold LatestFor LastOf
  decide +kernel

theorem timelines_disagree :
    ¬ ∀ x ∈ twiceReplacedPage.rows,
      (supersededBy twiceReplaced.records).get? x.id = twiceReplacedPage.supersededBy x := by
  decide +kernel

end

end Maeglagi.Context
