import Maeglagi.Context.Store

/-!
# What a merge does

The lists of the Context Store after a merge: each is the old one with the events of its kind
upserted, and the decisions lose those that some event of the result replaces.
-/

namespace Maeglagi.Context

open Core Resolution

section upsert
variable {α β : Type} {key : α → Text}

theorem mem_upsert {new item : α} {items : List α} (h : item ∈ upsert key new items) :
    item = new ∨ item ∈ items := by
  induction items with
  | nil => exact .inl (List.mem_singleton.mp h)
  | cons first items ih =>
    rw [upsert] at h
    split at h
    · exact (List.mem_cons.mp h).imp_right (List.mem_cons_of_mem _)
    · rcases List.mem_cons.mp h with rfl | h
      · exact .inr (List.mem_cons_self ..)
      · exact (ih h).imp_right (List.mem_cons_of_mem _)

/-- An upsert leaves every key in place and adds the new one. -/
theorem exists_mem_upsert {new : α} {items : List α} {k : Text} :
    (∃ item ∈ upsert key new items, key item = k) ↔
      key new = k ∨ ∃ item ∈ items, key item = k := by
  induction items with
  | nil => simp [upsert]
  | cons item items ih =>
    rw [upsert]
    split
    · next h => simp [h]
    · simp only [List.mem_cons, exists_eq_or_imp, ih]
      tauto

/-- Upserting commutes with a map that respects the keys. -/
theorem map_upsert {key' : β → Text} {f : β → α} (hkey : ∀ b, key' b = key (f b)) (new : β)
    (items : List β) : (upsert key' new items).map f = upsert key (f new) (items.map f) := by
  induction items with
  | nil => rfl
  | cons item items ih =>
    rw [List.map_cons, upsert, upsert, hkey, hkey]
    split
    · rfl
    · rw [List.map_cons, ih]

end upsert

variable {Id : Type}

/-- Upsert what the events of a kind become, first to last. -/
def upsertAll {α : Type} (key : α → Text) (kind : EntityKind) (build : ExtractedEvent → α)
    (events : List ExtractedEvent) (items : List α) : List α :=
  events.foldl (fun items event =>
    if event.kind = kind then upsert key (build event) items else items) items

/-- `StoreDecision` of an event. -/
def storeDecision (sid : Text) (event : ExtractedEvent) : StoreDecision :=
  ⟨storeItem event sid, event.occurredAt⟩

/-- `StoreAction` of an event. -/
def storeAction (result : ExtractionResult) (sid : Text) (event : ExtractedEvent) : StoreAction :=
  ⟨storeItem event sid, assigneeOf result event.name, event.dueAt⟩

/-- The key under which an event replaces a decision other than its own. -/
def replacedKey (rt : Runtime Id) (event : ExtractedEvent) : Option Text :=
  match event.kind, event.supersedes with
  | .decision, some supersedes =>
    if supersedes ≠ [] ∧ itemKey rt supersedes .decision ≠ itemKey rt event.name .decision then
      some (itemKey rt supersedes .decision)
    else none
  | _, _ => none

/-- Some event of the result is a decision under the key. -/
def Decides (rt : Runtime Id) (result : ExtractionResult) (key : Text) : Prop :=
  ∃ event ∈ result.events, event.kind = .decision ∧ itemKey rt event.name .decision = key

/-- Some event of the result replaces the decision under the key. -/
def Replaces (rt : Runtime Id) (result : ExtractionResult) (key : Text) : Prop :=
  ∃ event ∈ result.events, replacedKey rt event = some key

/-- The state has a decision under the key. -/
def ContextStoreState.Holds (rt : Runtime Id) (state : ContextStoreState) (key : Text) : Prop :=
  ∃ decision ∈ state.decisions, itemKey rt decision.title .decision = key

theorem mergeEvent_foldl (rt : Runtime Id) (result : ExtractionResult) (sid : Text)
    (events : List ExtractedEvent) (state : ContextStoreState) :
    events.foldl (mergeEvent rt result sid) state = { state with
      decisions := upsertAll (fun d => itemKey rt d.title .decision) .decision
        (storeDecision sid) events state.decisions
      openIssues := upsertAll (fun i => itemKey rt i.title .issue) .issue
        (storeItem · sid) events state.openIssues
      nextActions := upsertAll (fun a => itemKey rt a.title .task) .task
        (storeAction result sid) events state.nextActions } := by
  induction events generalizing state with
  | nil => rfl
  | cons event events ih =>
    rw [List.foldl_cons, ih]
    simp only [upsertAll, List.foldl_cons, mergeEvent]
    cases event.kind <;> rfl

theorem dropReplaced_eq (rt : Runtime Id) (state : ContextStoreState) (event : ExtractedEvent) :
    dropReplaced rt state event = { state with
      decisions := state.decisions.filter fun d =>
        replacedKey rt event ≠ some (itemKey rt d.title .decision) } := by
  unfold dropReplaced
  split
  · next supersedes hkind hsupersedes =>
    have hkey : replacedKey rt event = if supersedes ≠ [] ∧
        itemKey rt supersedes .decision ≠ itemKey rt event.name .decision then
        some (itemKey rt supersedes .decision) else none := by
      simp only [replacedKey, hkind, hsupersedes]
    rw [hkey]
    dsimp only
    split_ifs
    · simp only [Option.some.injEq, ne_eq, decide_not, eq_comm]
    · simp
  · next hother =>
    have hkey : replacedKey rt event = none := by
      unfold replacedKey
      split
      · next supersedes hkind hsupersedes => exact (hother supersedes hkind hsupersedes).elim
      · rfl
    simp [hkey]

theorem dropReplaced_foldl (rt : Runtime Id) (events : List ExtractedEvent)
    (state : ContextStoreState) : events.foldl (dropReplaced rt) state = { state with
      decisions := state.decisions.filter fun d => events.all fun event =>
        replacedKey rt event ≠ some (itemKey rt d.title .decision) } := by
  induction events generalizing state with
  | nil => simp
  | cons event events ih =>
    rw [List.foldl_cons, ih, dropReplaced_eq]
    simp only [List.filter_filter, List.all_cons, Bool.and_comm]

/-- The decisions of a merge before the replaced ones leave. -/
def upsertedDecisions (rt : Runtime Id) (state : ContextStoreState) (result : ExtractionResult)
    (sourceId : Id) : List StoreDecision :=
  upsertAll (fun d => itemKey rt d.title .decision) .decision (storeDecision (rt.str sourceId))
    result.events state.decisions

theorem mergeExtraction_decisions (rt : Runtime Id) (state : ContextStoreState)
    (result : ExtractionResult) (sourceId : Id) :
    (mergeExtraction rt state result sourceId).decisions =
      (upsertedDecisions rt state result sourceId).filter fun d => result.events.all fun event =>
        replacedKey rt event ≠ some (itemKey rt d.title .decision) := by
  unfold mergeExtraction
  simp only [mergeEvent_foldl, dropReplaced_foldl]
  split <;> rfl

theorem mergeExtraction_openIssues (rt : Runtime Id) (state : ContextStoreState)
    (result : ExtractionResult) (sourceId : Id) :
    (mergeExtraction rt state result sourceId).openIssues =
      upsertAll (fun i => itemKey rt i.title .issue) .issue (storeItem · (rt.str sourceId))
        result.events state.openIssues := by
  unfold mergeExtraction
  simp only [mergeEvent_foldl, dropReplaced_foldl]
  split <;> rfl

theorem mergeExtraction_nextActions (rt : Runtime Id) (state : ContextStoreState)
    (result : ExtractionResult) (sourceId : Id) :
    (mergeExtraction rt state result sourceId).nextActions =
      upsertAll (fun a => itemKey rt a.title .task) .task (storeAction result (rt.str sourceId))
        result.events state.nextActions := by
  unfold mergeExtraction
  simp only [mergeEvent_foldl, dropReplaced_foldl]
  split <;> rfl

section upsertAll
variable {α : Type} {key : α → Text} {kind : EntityKind} {build : ExtractedEvent → α}

theorem exists_mem_upsertAll {events : List ExtractedEvent} {items : List α} {k : Text} :
    (∃ item ∈ upsertAll key kind build events items, key item = k) ↔
      (∃ event ∈ events, event.kind = kind ∧ key (build event) = k) ∨
        ∃ item ∈ items, key item = k := by
  unfold upsertAll
  induction events generalizing items with
  | nil => simp
  | cons event events ih =>
    rw [List.foldl_cons, ih]
    split
    · next hkind =>
      rw [exists_mem_upsert, List.exists_mem_cons_iff, or_left_comm, or_assoc]
      simp only [hkind, true_and]
    · next hkind => simp [hkind]

end upsertAll

variable {rt : Runtime Id} {state : ContextStoreState} {result : ExtractionResult} {sourceId : Id}

theorem exists_mem_upsertedDecisions (sourceId : Id) {key : Text} :
    (∃ d ∈ upsertedDecisions rt state result sourceId, itemKey rt d.title .decision = key) ↔
      Decides rt result key ∨ state.Holds rt key :=
  exists_mem_upsertAll

/-- A merge keeps the decisions it has and adds those of the result, less the replaced ones. -/
theorem mergeExtraction_holds {key : Text} :
    (mergeExtraction rt state result sourceId).Holds rt key ↔
      (Decides rt result key ∨ state.Holds rt key) ∧ ¬Replaces rt result key := by
  rw [← exists_mem_upsertedDecisions sourceId, ContextStoreState.Holds,
    mergeExtraction_decisions]
  simp only [List.mem_filter, List.all_eq_true, decide_eq_true_eq, Replaces, not_exists, not_and]
  constructor
  · rintro ⟨d, ⟨hd, hkeep⟩, rfl⟩
    exact ⟨⟨d, hd, rfl⟩, hkeep⟩
  · rintro ⟨⟨d, hd, rfl⟩, hkeep⟩
    exact ⟨d, ⟨hd, hkeep⟩, rfl⟩

end Maeglagi.Context
