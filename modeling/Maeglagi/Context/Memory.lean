import Maeglagi.Context.Reprocessing
import Maeglagi.Core.MutableLists

/-!
# The merge on objects

`merge_extraction` copies its state deeply and then changes lists of the copy in place. On a
memory of lists it leaves the state it is given as it was, and the copy comes to hold what the
merge of the values is. Items are never assigned to, so they are values here.
-/

namespace Maeglagi.Context

open Core

variable {Id : Type}

/-- The lists that states have. -/
structure Memory where
  openIssues : MutableLists StoreItem
  decisions : MutableLists StoreDecision
  nextActions : MutableLists StoreAction
  sourceIds : MutableLists Text

/-- A `ContextStoreState` object: its lists by address. -/
structure StateObject where
  subject : Text
  summary : Text
  currentState : Text
  openIssues : Nat
  decisions : Nat
  nextActions : Nat
  sourceIds : Nat
  updatedAt : Option Instant

/-- The value of a state object. -/
def Memory.load (m : Memory) (state : StateObject) : ContextStoreState where
  subject := state.subject
  summary := state.summary
  currentState := state.currentState
  openIssues := m.openIssues.get state.openIssues
  decisions := m.decisions.get state.decisions
  nextActions := m.nextActions.get state.nextActions
  sourceIds := m.sourceIds.get state.sourceIds
  updatedAt := state.updatedAt

/-- The lists of a state object are there. -/
structure Memory.Has (m : Memory) (state : StateObject) : Prop where
  openIssues : state.openIssues < m.openIssues.size
  decisions : state.decisions < m.decisions.size
  nextActions : state.nextActions < m.nextActions.size
  sourceIds : state.sourceIds < m.sourceIds.size

/-- `model_copy(deep=True)` -/
def Memory.modelCopy (m : Memory) (state : StateObject) : Memory × StateObject :=
  let issues := m.openIssues.make (m.openIssues.get state.openIssues)
  let decisions := m.decisions.make (m.decisions.get state.decisions)
  let actions := m.nextActions.make (m.nextActions.get state.nextActions)
  let sources := m.sourceIds.make (m.sourceIds.get state.sourceIds)
  (⟨issues.1, decisions.1, actions.1, sources.1⟩,
    { state with
      openIssues := issues.2
      decisions := decisions.2
      nextActions := actions.2
      sourceIds := sources.2 })

/-- `_upsert`: the first item under the key is replaced in place, or a new list is made. -/
def upsertAt {α : Type} (key : α → Text) (new : α) (lists : MutableLists α) (address : Nat) :
    MutableLists α × Nat :=
  let items := lists.get address
  match items.findIdx? fun item => decide (key item = key new) with
  | some i => (lists.assign address (items.set i new), address)
  | none => lists.make (items ++ [new])

/-- One turn of the first loop of `merge_extraction` on the copy. -/
def mergeEventAt (rt : Runtime Id) (result : ExtractionResult) (sid : Text)
    (merged : Memory × StateObject) (event : ExtractedEvent) : Memory × StateObject :=
  let (m, state) := merged
  match event.kind with
  | .decision =>
    let upserted := upsertAt (fun d => itemKey rt d.title .decision)
      ⟨storeItem event sid, event.occurredAt⟩ m.decisions state.decisions
    ({ m with decisions := upserted.1 }, { state with decisions := upserted.2 })
  | .issue =>
    let upserted := upsertAt (fun i => itemKey rt i.title .issue) (storeItem event sid)
      m.openIssues state.openIssues
    ({ m with openIssues := upserted.1 }, { state with openIssues := upserted.2 })
  | .task =>
    let upserted := upsertAt (fun a => itemKey rt a.title .task)
      ⟨storeItem event sid, assigneeOf result event.name, event.dueAt⟩ m.nextActions
      state.nextActions
    ({ m with nextActions := upserted.1 }, { state with nextActions := upserted.2 })
  | _ => merged

/-- One turn of the second loop: the decisions are listed anew. -/
def dropReplacedAt (rt : Runtime Id) (merged : Memory × StateObject) (event : ExtractedEvent) :
    Memory × StateObject :=
  let (m, state) := merged
  match event.kind, event.supersedes with
  | .decision, some supersedes =>
    let replaced := itemKey rt supersedes .decision
    if supersedes ≠ [] ∧ replaced ≠ itemKey rt event.name .decision then
      let kept := m.decisions.make ((m.decisions.get state.decisions).filter fun d =>
        itemKey rt d.title .decision ≠ replaced)
      ({ m with decisions := kept.1 }, { state with decisions := kept.2 })
    else merged
  | _, _ => merged

/-- `merge_extraction` on an object. -/
def mergeExtractionAt (rt : Runtime Id) (m : Memory) (state : StateObject)
    (result : ExtractionResult) (sourceId : Id) : Memory × StateObject :=
  let sid := rt.str sourceId
  let upserted := result.events.foldl (mergeEventAt rt result sid) (m.modelCopy state)
  let (m, merged) := result.events.foldl (dropReplacedAt rt) upserted
  let sources := m.sourceIds.get merged.sourceIds
  if sid ∈ sources then (m, merged)
  else ({ m with sourceIds := m.sourceIds.assign merged.sourceIds (sources ++ [sid]) }, merged)

/-- The lists that were there are as they were, and an object whose lists were made since has
a value. -/
structure Memory.Owns (m m' : Memory) (state : StateObject) (value : ContextStoreState) :
    Prop where
  openIssues : m.openIssues.Owns m'.openIssues state.openIssues value.openIssues
  decisions : m.decisions.Owns m'.decisions state.decisions value.decisions
  nextActions : m.nextActions.Owns m'.nextActions state.nextActions value.nextActions
  sourceIds : m.sourceIds.Owns m'.sourceIds state.sourceIds value.sourceIds
  load : m'.load state = value

section lists
variable {α : Type} {key : α → Text}

/-- An upsert replaces what a scan finds, in place, or adds. -/
theorem upsert_eq_findIdx? (new : α) (items : List α) : upsert key new items =
    match items.findIdx? fun item => decide (key item = key new) with
    | some i => items.set i new
    | none => items ++ [new] := by
  induction items with
  | nil => rfl
  | cons item items ih =>
    rw [upsert, List.findIdx?_cons]
    by_cases h : key item = key new
    · simp [h]
    · rw [if_neg h, ih, if_neg (by simp [h])]
      cases items.findIdx? fun item => decide (key item = key new) <;> rfl

/-- On a list made since, the upsert in place gives the upsert of the value. -/
theorem owns_upsertAt (key : α → Text) {old lists : MutableLists α} {address : Nat} {items : List α}
    (h : old.Owns lists address items) (new : α) :
    old.Owns (upsertAt key new lists address).1 (upsertAt key new lists address).2
      (upsert key new items) := by
  rw [upsertAt, h.items, upsert_eq_findIdx?]
  cases items.findIdx? fun item => decide (key item = key new) with
  | some i => exact h.assign _
  | none => exact h.toKeeps.owns_make _

end lists

section owns
variable {rt : Runtime Id} {old m : Memory} {state : StateObject} {value : ContextStoreState}

/-- The copy has lists of its own and the value of the state. -/
theorem owns_modelCopy (m : Memory) (state : StateObject) :
    m.Owns (m.modelCopy state).1 (m.modelCopy state).2 (m.load state) := by
  have hissues := (MutableLists.Keeps.refl m.openIssues).owns_make (m.openIssues.get state.openIssues)
  have hdecisions := (MutableLists.Keeps.refl m.decisions).owns_make (m.decisions.get state.decisions)
  have hactions :=
    (MutableLists.Keeps.refl m.nextActions).owns_make (m.nextActions.get state.nextActions)
  have hsources := (MutableLists.Keeps.refl m.sourceIds).owns_make (m.sourceIds.get state.sourceIds)
  refine ⟨hissues, hdecisions, hactions, hsources, ?_⟩
  simp only [Memory.load, Memory.modelCopy, hissues.items, hdecisions.items, hactions.items,
    hsources.items]

/-- A turn of the first loop changes own lists only. -/
theorem owns_mergeEventAt (h : old.Owns m state value) (result : ExtractionResult) (sid : Text)
    (event : ExtractedEvent) :
    old.Owns (mergeEventAt rt result sid (m, state) event).1
      (mergeEventAt rt result sid (m, state) event).2 (mergeEvent rt result sid value event) := by
  obtain ⟨hissues, hdecisions, hactions, hsources, rfl⟩ := h
  unfold mergeEventAt mergeEvent
  cases event.kind with
  | decision =>
    have hnew := owns_upsertAt (fun d => itemKey rt d.title .decision) hdecisions
      ⟨storeItem event sid, event.occurredAt⟩
    refine ⟨hissues, hnew, hactions, hsources, ?_⟩
    simp only [Memory.load, hnew.items]
  | issue =>
    have hnew := owns_upsertAt (fun i => itemKey rt i.title .issue) hissues
      (storeItem event sid)
    refine ⟨hnew, hdecisions, hactions, hsources, ?_⟩
    simp only [Memory.load, hnew.items]
  | task =>
    have hnew := owns_upsertAt (fun a => itemKey rt a.title .task) hactions
      ⟨storeItem event sid, assigneeOf result event.name, event.dueAt⟩
    refine ⟨hissues, hdecisions, hnew, hsources, ?_⟩
    simp only [Memory.load, hnew.items]
  | _ => exact ⟨hissues, hdecisions, hactions, hsources, rfl⟩

/-- So does a turn of the second loop. -/
theorem owns_dropReplacedAt (h : old.Owns m state value) (event : ExtractedEvent) :
    old.Owns (dropReplacedAt rt (m, state) event).1 (dropReplacedAt rt (m, state) event).2
      (dropReplaced rt value event) := by
  obtain ⟨hissues, hdecisions, hactions, hsources, rfl⟩ := h
  have hsame : old.Owns m state (m.load state) :=
    ⟨hissues, hdecisions, hactions, hsources, rfl⟩
  unfold dropReplacedAt dropReplaced
  cases event.kind with
  | decision =>
    cases event.supersedes with
    | none => exact hsame
    | some supersedes =>
      dsimp only
      split_ifs
      · have hnew := hdecisions.toKeeps.owns_make ((m.decisions.get state.decisions).filter
          fun d => itemKey rt d.title .decision ≠ itemKey rt supersedes .decision)
        refine ⟨hissues, hnew, hactions, hsources, ?_⟩
        simp only [Memory.load, hnew.items]
      · exact hsame
  | _ => exact hsame

/-- The loops over the events change own lists only. -/
theorem owns_foldl (step : Memory × StateObject → ExtractedEvent → Memory × StateObject)
    {step' : ContextStoreState → ExtractedEvent → ContextStoreState}
    (hstep : ∀ {merged : Memory × StateObject} {value : ContextStoreState} (event : ExtractedEvent),
      old.Owns merged.1 merged.2 value →
        old.Owns (step merged event).1 (step merged event).2 (step' value event))
    (events : List ExtractedEvent) {merged : Memory × StateObject}
    (h : old.Owns merged.1 merged.2 value) :
    old.Owns (events.foldl step merged).1 (events.foldl step merged).2
      (events.foldl step' value) := by
  induction events generalizing merged value with
  | nil => exact h
  | cons event events ih => exact ih (hstep event h)

/-- The source ids of an own state may be changed in place. -/
theorem Memory.Owns.assign_sourceIds (h : old.Owns m state value) (sources : List Text) :
    old.Owns { m with sourceIds := m.sourceIds.assign state.sourceIds sources } state
      { value with sourceIds := sources } := by
  obtain ⟨hissues, hdecisions, hactions, hsources, rfl⟩ := h
  have hnew := hsources.assign sources
  refine ⟨hissues, hdecisions, hactions, hnew, ?_⟩
  simp only [Memory.load, hnew.items]

/-- The merge changes own lists only, and gives the merge of the value. -/
theorem owns_mergeExtractionAt (rt : Runtime Id) (m : Memory) (state : StateObject)
    (result : ExtractionResult) (sourceId : Id) :
    m.Owns (mergeExtractionAt rt m state result sourceId).1
      (mergeExtractionAt rt m state result sourceId).2
      (mergeExtraction rt (m.load state) result sourceId) := by
  have hupserted := owns_foldl (mergeEventAt rt result (rt.str sourceId))
    (fun event h => owns_mergeEventAt h result _ event) result.events (owns_modelCopy m state)
  have hdropped := owns_foldl (dropReplacedAt rt)
    (fun event h => owns_dropReplacedAt h event) result.events hupserted
  unfold mergeExtractionAt mergeExtraction
  dsimp only
  rw [hdropped.sourceIds.items]
  split_ifs
  · exact hdropped
  · exact hdropped.assign_sourceIds _

/-- The lists of an own state are there. -/
theorem Memory.Owns.has (h : old.Owns m state value) : m.Has state :=
  ⟨h.openIssues.lt, h.decisions.lt, h.nextActions.lt, h.sourceIds.lt⟩

/-- What was there has the value it had. -/
theorem Memory.Owns.load_eq {state' : StateObject} (h : old.Owns m state value)
    (hhas : old.Has state') : m.load state' = old.load state' := by
  simp only [Memory.load, h.openIssues.get _ hhas.openIssues, h.decisions.get _ hhas.decisions,
    h.nextActions.get _ hhas.nextActions, h.sourceIds.get _ hhas.sourceIds]

end owns

/-- A merge leaves the state it is given as it was and keeps the keys of each list distinct, and
the same merge of what it gives changes no value. -/
theorem mergeExtractionAt_invariant (rt : Runtime Id) (m : Memory) (state : StateObject)
    (hhas : m.Has state) (hunique : (m.load state).UniqueKeys rt) (result : ExtractionResult)
    (sourceId : Id) :
    let merged := mergeExtractionAt rt m state result sourceId
    let again := mergeExtractionAt rt merged.1 merged.2 result sourceId
    merged.1.load state = m.load state ∧
      (merged.1.load merged.2).UniqueKeys rt ∧
      again.1.load merged.2 = merged.1.load merged.2 ∧
      again.1.load again.2 = merged.1.load merged.2 := by
  intro merged again
  have howns := owns_mergeExtractionAt rt m state result sourceId
  have hagain := owns_mergeExtractionAt rt merged.1 merged.2 result sourceId
  have hvalue : merged.1.load merged.2 = mergeExtraction rt (m.load state) result sourceId :=
    howns.load
  refine ⟨howns.load_eq hhas, ?_, hagain.load_eq howns.has, ?_⟩
  · rw [hvalue]
    exact uniqueKeys_mergeExtraction hunique result sourceId
  · rw [hagain.load, hvalue]
    exact mergeExtraction_replay hunique result sourceId

/-- A decision takes the place of another one, and again. -/
theorem mergeExtractionAt_invariant_cache :
    let old : StoreDecision := storeDecision "s".toList (plainDecision "Redis" none)
    let m : Memory := ⟨⟨[[]]⟩, ⟨[[old]]⟩, ⟨[[]]⟩, ⟨[[]]⟩⟩
    let state : StateObject := ⟨[], [], [], 0, 0, 0, 0, none⟩
    let result : ExtractionResult := ⟨[], [plainDecision "Cache" (some "Redis")], []⟩
    let merged := mergeExtractionAt plainRuntime m state result "t".toList
    let again := mergeExtractionAt plainRuntime merged.1 merged.2 result "t".toList
    (merged.1.load state).decisions = [old] ∧
      (merged.1.load merged.2).decisions.map (·.title) = ["Cache".toList] ∧
      again.1.load again.2 = merged.1.load merged.2 := by
  intro old m state result merged again
  have hhas : m.Has state := by constructor <;> decide
  have hunique : (m.load state).UniqueKeys plainRuntime :=
    ⟨List.nodup_nil, List.nodup_singleton _, List.nodup_nil⟩
  obtain ⟨hkept, -, -, hagain⟩ := mergeExtractionAt_invariant plainRuntime m state hhas hunique
    result "t".toList
  refine ⟨?_, by decide +kernel, hagain⟩
  rw [hkept]
  rfl

end Maeglagi.Context
