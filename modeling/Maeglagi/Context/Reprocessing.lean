import Maeglagi.Context.Merge
import Maeglagi.Context.Updater
import Maeglagi.Core.Machine
import Maeglagi.PlainRuntime

/-!
# Merging a source again

A merge keeps the keys of each list distinct, and the same merge again changes nothing. An item
of a source stays when another analysis of the source no longer states it.
-/

namespace Maeglagi.Context

section

open Core Maeglagi.Resolution

section lists
variable {α : Type} {key : α → Text}

/-- An upsert adds its key, unless it is there. -/
theorem map_key_upsert (new : α) (items : List α) : (upsert key new items).map key =
    if key new ∈ items.map key then items.map key else items.map key ++ [key new] := by
  induction items with
  | nil => rfl
  | cons item items ih =>
    rw [upsert]
    by_cases h : key item = key new
    · rw [if_pos h, if_pos (by simp [h]), List.map_cons, List.map_cons, h]
    · rw [if_neg h, List.map_cons, ih, List.map_cons]
      by_cases hmem : key new ∈ items.map key
      · rw [if_pos hmem, if_pos (List.mem_cons_of_mem _ hmem)]
      · rw [if_neg hmem, if_neg (by simpa [Ne.symm h] using hmem), List.cons_append]

theorem nodup_key_upsert {items : List α} (h : (items.map key).Nodup) (new : α) :
    ((upsert key new items).map key).Nodup := by
  rw [map_key_upsert]
  split_ifs with hmem
  · exact h
  · rw [List.nodup_append_comm, List.singleton_append, List.nodup_cons]
    exact ⟨hmem, h⟩

/-- After an upsert, the first item under its key is the new one. -/
theorem find?_upsert (new : α) (items : List α) (k : Text) :
    (upsert key new items).find? (fun a => decide (key a = k)) =
      if key new = k then some new else items.find? fun a => decide (key a = k) := by
  induction items with
  | nil => by_cases h : key new = k <;> simp [upsert, h]
  | cons item items ih =>
    rw [upsert]
    by_cases hitem : key item = key new
    · rw [if_pos hitem]
      by_cases h : key new = k
      · simp [h]
      · rw [if_neg h, List.find?_cons_of_neg (by simp [h]),
          List.find?_cons_of_neg (by simp [hitem, h])]
    · rw [if_neg hitem]
      by_cases h : key item = k
      · have hne : key new ≠ k := fun heq => hitem (h.trans heq.symm)
        rw [if_neg hne, List.find?_cons_of_pos (by simp [h]), List.find?_cons_of_pos (by simp [h])]
      · rw [List.find?_cons_of_neg (by simp [h]), ih, List.find?_cons_of_neg (by simp [h])]

/-- Lists with the same distinct keys and the same item under each of them are equal. -/
theorem ext_find? {items items' : List α} (hkeys : items.map key = items'.map key)
    (hnodup : (items.map key).Nodup) (hfind : ∀ k,
      items.find? (fun a => decide (key a = k)) = items'.find? fun a => decide (key a = k)) :
    items = items' := by
  induction items generalizing items' with
  | nil => exact (List.map_eq_nil_iff.mp hkeys.symm).symm
  | cons item items ih =>
    cases items' with
    | nil => cases hkeys
    | cons item' items' =>
      obtain ⟨hkey, hrest⟩ := List.cons.inj hkeys
      have hfirst := hfind (key item)
      rw [List.find?_cons_of_pos (by simp), List.find?_cons_of_pos (by simp [hkey])] at hfirst
      obtain rfl := Option.some.inj hfirst
      rw [List.map_cons, List.nodup_cons] at hnodup
      congr 1
      refine ih hrest hnodup.2 fun k => ?_
      by_cases hk : key item = k
      · have hnone : ∀ l : List α, l.map key = items.map key →
            l.find? (fun a => decide (key a = k)) = none := by
          intro l hl
          refine List.find?_eq_none.mpr fun a ha heq => hnodup.1 ?_
          rw [← hl, hk, ← of_decide_eq_true heq]
          exact List.mem_map_of_mem ha
        rw [hnone items rfl, hnone items' hrest.symm]
      · have hstep := hfind k
        rwa [List.find?_cons_of_neg (by simp [hk]), List.find?_cons_of_neg (by simp [hk])] at hstep

/-- Of the items under a key a filter by keys keeps all or none. -/
theorem find?_filter_key (keep : Text → Bool) (items : List α) (k : Text) :
    (items.filter fun a => keep (key a)).find? (fun a => decide (key a = k)) =
      if keep k then items.find? (fun a => decide (key a = k)) else none := by
  induction items with
  | nil => simp
  | cons item items ih =>
    by_cases h : key item = k
    · subst h
      cases hkeep : keep (key item) with
      | true => simp [hkeep]
      | false =>
        rw [List.filter_cons_of_neg (by simp [hkeep]), ih, hkeep]
        simp
    · rw [List.find?_cons_of_neg (by simp [h]), ← ih]
      by_cases hitem : keep (key item) = true
      · rw [List.filter_cons, if_pos hitem, List.find?_cons_of_neg (by simp [h])]
      · rw [List.filter_cons, if_neg hitem]

end lists

section upsertAll
variable {α : Type} {key : α → Text} {kind : EntityKind} {build : ExtractedEvent → α}

/-- An event of the kind has the key. -/
def States (key : α → Text) (kind : EntityKind) (build : ExtractedEvent → α)
    (events : List ExtractedEvent) (k : Text) : Prop :=
  ∃ event ∈ events, event.kind = kind ∧ key (build event) = k

theorem upsertAll_cons (event : ExtractedEvent) (events : List ExtractedEvent) (items : List α) :
    upsertAll key kind build (event :: events) items = upsertAll key kind build events
      (if event.kind = kind then upsert key (build event) items else items) := rfl

theorem nodup_key_upsertAll (events : List ExtractedEvent) {items : List α}
    (h : (items.map key).Nodup) : ((upsertAll key kind build events items).map key).Nodup := by
  induction events generalizing items with
  | nil => exact h
  | cons event events ih =>
    rw [upsertAll_cons]
    split_ifs
    · exact ih (nodup_key_upsert h _)
    · exact ih h

/-- What is under a key depends on nothing else that was there before. -/
theorem find?_upsertAll_congr (events : List ExtractedEvent) {items items' : List α} {k : Text}
    (h : States key kind build events k ∨ items.find? (fun a => decide (key a = k)) =
      items'.find? fun a => decide (key a = k)) :
    (upsertAll key kind build events items).find? (fun a => decide (key a = k)) =
      (upsertAll key kind build events items').find? fun a => decide (key a = k) := by
  induction events generalizing items items' with
  | nil =>
    rcases h with ⟨event, hevent, -⟩ | h
    · cases hevent
    · exact h
  | cons event events ih =>
    rw [upsertAll_cons, upsertAll_cons]
    refine ih ?_
    by_cases hrest : States key kind build events k
    · exact .inl hrest
    · right
      by_cases hkind : event.kind = kind
      · rw [if_pos hkind, if_pos hkind, find?_upsert, find?_upsert]
        by_cases hkey : key (build event) = k
        · rw [if_pos hkey, if_pos hkey]
        · rw [if_neg hkey, if_neg hkey]
          refine h.resolve_left ?_
          rintro ⟨other, hother, hboth⟩
          rcases List.mem_cons.mp hother with rfl | hother
          · exact hkey hboth.2
          · exact hrest ⟨other, hother, hboth⟩
      · rw [if_neg hkind, if_neg hkind]
        refine h.resolve_left ?_
        rintro ⟨other, hother, hboth⟩
        rcases List.mem_cons.mp hother with rfl | hother
        · exact hkind hboth.1
        · exact hrest ⟨other, hother, hboth⟩

/-- An item whose key no event has is still there. -/
theorem find?_upsertAll_of_not {events : List ExtractedEvent} {k : Text}
    (h : ¬States key kind build events k) (items : List α) :
    (upsertAll key kind build events items).find? (fun a => decide (key a = k)) =
      items.find? fun a => decide (key a = k) := by
  induction events generalizing items with
  | nil => rfl
  | cons event events ih =>
    have hrest : ¬States key kind build events k := fun ⟨other, hother, hboth⟩ =>
      h ⟨other, List.mem_cons_of_mem _ hother, hboth⟩
    rw [upsertAll_cons, ih hrest]
    split_ifs with hkind
    · rw [find?_upsert, if_neg fun hkey => h ⟨event, List.mem_cons_self .., hkind, hkey⟩]
    · rfl

/-- Where the kept keys of the events are there already, no kept key is added. -/
theorem map_key_filter_upsertAll (keep : Text → Bool) {events : List ExtractedEvent}
    {items : List α} (h : ∀ k, States key kind build events k → keep k = true → k ∈ items.map key) :
    ((upsertAll key kind build events items).filter fun a => keep (key a)).map key =
      (items.filter fun a => keep (key a)).map key := by
  induction events generalizing items with
  | nil => rfl
  | cons event events ih =>
    rw [upsertAll_cons]
    by_cases hkind : event.kind = kind
    · rw [if_pos hkind, ih]
      · have hfilter : ∀ l : List α, (l.filter fun a => keep (key a)).map key =
            (l.map key).filter keep := fun l => by rw [List.filter_map]; rfl
        rw [hfilter, hfilter, map_key_upsert]
        split_ifs with hmem
        · rfl
        · have hdropped : keep (key (build event)) ≠ true := fun hkeep =>
            hmem (h _ ⟨event, List.mem_cons_self .., hkind, rfl⟩ hkeep)
          simp [hdropped]
      · rintro k ⟨other, hother, hboth⟩ hkeep
        have hold := h k ⟨other, List.mem_cons_of_mem _ hother, hboth⟩ hkeep
        rw [map_key_upsert]
        split_ifs
        · exact hold
        · exact List.mem_append_left _ hold
    · rw [if_neg hkind]
      exact ih fun k ⟨other, hother, hboth⟩ => h k ⟨other, List.mem_cons_of_mem _ hother, hboth⟩

theorem mem_upsert_of_ne {new item : α} {items : List α} (h : item ∈ items)
    (hne : key item ≠ key new) : item ∈ upsert key new items := by
  induction items with
  | nil => cases h
  | cons first items ih =>
    rw [upsert]
    rcases List.mem_cons.mp h with rfl | h
    · rw [if_neg hne]
      exact List.mem_cons_self ..
    · split_ifs
      · exact List.mem_cons_of_mem _ h
      · exact List.mem_cons_of_mem _ (ih h)

/-- An item comes from an event, or it was there before. -/
theorem mem_upsertAll {events : List ExtractedEvent} {items : List α} {item : α}
    (h : item ∈ upsertAll key kind build events items) :
    States key kind build events (key item) ∨ item ∈ items := by
  induction events generalizing items with
  | nil => exact .inr h
  | cons event events ih =>
    rw [upsertAll_cons] at h
    rcases ih h with ⟨other, hother, hboth⟩ | h
    · exact .inl ⟨other, List.mem_cons_of_mem _ hother, hboth⟩
    · split_ifs at h with hkind
      · rcases mem_upsert h with rfl | h
        · exact .inl ⟨event, List.mem_cons_self .., hkind, rfl⟩
        · exact .inr h
      · exact .inr h

/-- An item whose key no event has stays. -/
theorem mem_upsertAll_of_not {events : List ExtractedEvent} {items : List α} {item : α}
    (h : item ∈ items) (hnot : ¬States key kind build events (key item)) :
    item ∈ upsertAll key kind build events items := by
  induction events generalizing items with
  | nil => exact h
  | cons event events ih =>
    rw [upsertAll_cons]
    refine ih ?_ fun ⟨other, hother, hboth⟩ => hnot ⟨other, List.mem_cons_of_mem _ hother, hboth⟩
    split_ifs with hkind
    · exact mem_upsert_of_ne h fun heq => hnot ⟨event, List.mem_cons_self .., hkind, heq.symm⟩
    · exact h

/-- All items of some kind have keys of events after an upsert exactly when those that were
there before have. -/
theorem forall_mem_upsertAll {events : List ExtractedEvent} {items : List α} {p : α → Prop} :
    (∀ item ∈ upsertAll key kind build events items, p item →
        States key kind build events (key item)) ↔
      ∀ item ∈ items, p item → States key kind build events (key item) := by
  constructor
  · intro h item hitem hp
    by_contra hnot
    exact hnot (h item (mem_upsertAll_of_not hitem hnot) hp)
  · intro h item hitem hp
    rcases mem_upsertAll hitem with hstates | hold
    · exact hstates
    · exact h item hold hp

/-- Upserting the same events again into what a filter by keys has kept changes nothing. -/
theorem filter_upsertAll_replay (kind : EntityKind) (build : ExtractedEvent → α)
    (keep : Text → Bool) (events : List ExtractedEvent) {items : List α} (hnodup : (items.map key).Nodup) :
    let kept := (upsertAll key kind build events items).filter fun a => keep (key a)
    (upsertAll key kind build events kept).filter (fun a => keep (key a)) = kept := by
  intro kept
  have hnodupKept : (kept.map key).Nodup :=
    (List.Sublist.map key List.filter_sublist).nodup (nodup_key_upsertAll events hnodup)
  have hstated : ∀ k, States key kind build events k → keep k = true → k ∈ kept.map key := by
    intro k hk hkeep
    have hthere : ∃ item ∈ upsertAll key kind build events items, key item = k :=
      exists_mem_upsertAll.mpr (.inl hk)
    obtain ⟨item, hitem, rfl⟩ := hthere
    exact List.mem_map_of_mem (List.mem_filter.mpr ⟨hitem, hkeep⟩)
  have hfilter : kept.filter (fun a => keep (key a)) = kept := by
    simp only [kept, List.filter_filter, Bool.and_self]
  have hkeys := map_key_filter_upsertAll keep hstated
  rw [hfilter] at hkeys
  refine ext_find? hkeys (hkeys ▸ hnodupKept) fun k => ?_
  rw [find?_filter_key, find?_filter_key]
  split_ifs with hkeep
  · by_cases hk : States key kind build events k
    · exact find?_upsertAll_congr events (.inl hk)
    · rw [find?_upsertAll_of_not hk, find?_filter_key, if_pos hkeep]
  · rfl

theorem upsertAll_replay (events : List ExtractedEvent) {items : List α}
    (hnodup : (items.map key).Nodup) :
    upsertAll key kind build events (upsertAll key kind build events items) =
      upsertAll key kind build events items := by
  have h := filter_upsertAll_replay kind build (fun _ => true) events hnodup
  simpa only [List.filter_true] using h

end upsertAll

section store
variable {Id : Type}

/-- The keys of each list are distinct. -/
structure ContextStoreState.UniqueKeys (rt : Runtime Id) (state : ContextStoreState) : Prop where
  openIssues : (state.openIssues.map fun i => itemKey rt i.title .issue).Nodup
  decisions : (state.decisions.map fun d => itemKey rt d.title .decision).Nodup
  nextActions : (state.nextActions.map fun a => itemKey rt a.title .task).Nodup

/-- The key stays in the current state: no event replaces the decision under it. -/
def keepsKey (rt : Runtime Id) (result : ExtractionResult) (key : Text) : Bool :=
  result.events.all fun event => replacedKey rt event ≠ some key

variable {rt : Runtime Id} {state : ContextStoreState}

/-- A merge keeps the keys of each list distinct. -/
theorem uniqueKeys_mergeExtraction (h : state.UniqueKeys rt) (result : ExtractionResult)
    (sourceId : Id) : (mergeExtraction rt state result sourceId).UniqueKeys rt where
  openIssues := by
    rw [mergeExtraction_openIssues]
    exact nodup_key_upsertAll _ h.openIssues
  decisions := by
    rw [mergeExtraction_decisions]
    exact (List.Sublist.map _ List.filter_sublist).nodup (nodup_key_upsertAll _ h.decisions)
  nextActions := by
    rw [mergeExtraction_nextActions]
    exact nodup_key_upsertAll _ h.nextActions

/-- What a merge makes of the fields it does not touch and of the sources. -/
theorem mergeExtraction_eq (rt : Runtime Id) (state : ContextStoreState)
    (result : ExtractionResult) (sourceId : Id) :
    mergeExtraction rt state result sourceId = { state with
      openIssues := (mergeExtraction rt state result sourceId).openIssues
      decisions := (mergeExtraction rt state result sourceId).decisions
      nextActions := (mergeExtraction rt state result sourceId).nextActions
      sourceIds := if rt.str sourceId ∈ state.sourceIds then state.sourceIds
        else state.sourceIds ++ [rt.str sourceId] } := by
  unfold mergeExtraction
  simp only [mergeEvent_foldl, dropReplaced_foldl]
  split_ifs <;> rfl

/-- The same merge again changes nothing. -/
theorem mergeExtraction_replay (h : state.UniqueKeys rt) (result : ExtractionResult)
    (sourceId : Id) :
    mergeExtraction rt (mergeExtraction rt state result sourceId) result sourceId =
      mergeExtraction rt state result sourceId := by
  have hissues : (mergeExtraction rt (mergeExtraction rt state result sourceId) result
      sourceId).openIssues = (mergeExtraction rt state result sourceId).openIssues := by
    rw [mergeExtraction_openIssues, mergeExtraction_openIssues]
    exact upsertAll_replay _ h.openIssues
  have hactions : (mergeExtraction rt (mergeExtraction rt state result sourceId) result
      sourceId).nextActions = (mergeExtraction rt state result sourceId).nextActions := by
    rw [mergeExtraction_nextActions, mergeExtraction_nextActions]
    exact upsertAll_replay _ h.nextActions
  have hdecisions : (mergeExtraction rt (mergeExtraction rt state result sourceId) result
      sourceId).decisions = (mergeExtraction rt state result sourceId).decisions := by
    rw [mergeExtraction_decisions, upsertedDecisions, mergeExtraction_decisions, upsertedDecisions]
    exact filter_upsertAll_replay .decision _ (keepsKey rt result) _ h.decisions
  have hsources : rt.str sourceId ∈ (mergeExtraction rt state result sourceId).sourceIds := by
    rw [mergeExtraction_eq]
    dsimp only
    split_ifs with hmem
    · exact hmem
    · simp
  rw [mergeExtraction_eq rt (mergeExtraction rt state result sourceId), hissues, hdecisions,
    hactions, if_pos hsources]

/-- An event of the kind in the result has the key. -/
def StatesKey (rt : Runtime Id) (result : ExtractionResult) (kind : EntityKind) (key : Text) :
    Prop :=
  ∃ event ∈ result.events, event.kind = kind ∧ itemKey rt event.name kind = key

/-- Every item of the source has the key of an event of its kind in the result. -/
structure Stated (rt : Runtime Id) (result : ExtractionResult) (sid : Text)
    (state : ContextStoreState) : Prop where
  openIssues : ∀ i ∈ state.openIssues, i.sourceId = some sid →
    StatesKey rt result .issue (itemKey rt i.title .issue)
  decisions : ∀ d ∈ state.decisions, d.sourceId = some sid →
    StatesKey rt result .decision (itemKey rt d.title .decision)
  nextActions : ∀ a ∈ state.nextActions, a.sourceId = some sid →
    StatesKey rt result .task (itemKey rt a.title .task)

/-- Every item of the source has the key of an event of its kind in the result, or is a decision
that an event of the result replaces. -/
structure Restated (rt : Runtime Id) (result : ExtractionResult) (sid : Text)
    (state : ContextStoreState) : Prop where
  openIssues : ∀ i ∈ state.openIssues, i.sourceId = some sid →
    StatesKey rt result .issue (itemKey rt i.title .issue)
  decisions : ∀ d ∈ state.decisions, d.sourceId = some sid →
    StatesKey rt result .decision (itemKey rt d.title .decision) ∨
      Replaces rt result (itemKey rt d.title .decision)
  nextActions : ∀ a ∈ state.nextActions, a.sourceId = some sid →
    StatesKey rt result .task (itemKey rt a.title .task)

theorem mem_mergeExtraction_decisions {result : ExtractionResult} {sourceId : Id}
    {d : StoreDecision} : d ∈ (mergeExtraction rt state result sourceId).decisions ↔
      d ∈ upsertedDecisions rt state result sourceId ∧
        ¬Replaces rt result (itemKey rt d.title .decision) := by
  rw [mergeExtraction_decisions, List.mem_filter]
  simp [Replaces]

/-- After a merge every item of the source is stated by the result exactly when every item it
had before is stated or replaced by the result. -/
theorem mergeExtraction_stated_iff (rt : Runtime Id) (state : ContextStoreState)
    (result : ExtractionResult) (sourceId : Id) :
    Stated rt result (rt.str sourceId) (mergeExtraction rt state result sourceId) ↔
      Restated rt result (rt.str sourceId) state := by
  have hdecisions : (∀ d ∈ (mergeExtraction rt state result sourceId).decisions,
      d.sourceId = some (rt.str sourceId) →
        StatesKey rt result .decision (itemKey rt d.title .decision)) ↔
      ∀ d ∈ state.decisions, d.sourceId = some (rt.str sourceId) →
        StatesKey rt result .decision (itemKey rt d.title .decision) ∨
          Replaces rt result (itemKey rt d.title .decision) := by
    constructor
    · intro h d hd hsource
      by_contra hnot
      rw [not_or] at hnot
      refine hnot.1 (h d (mem_mergeExtraction_decisions.mpr ⟨?_, hnot.2⟩) hsource)
      exact mem_upsertAll_of_not hd hnot.1
    · intro h d hd hsource
      obtain ⟨hd, hkept⟩ := mem_mergeExtraction_decisions.mp hd
      rcases mem_upsertAll hd with hstates | hold
      · exact hstates
      · exact (h d hold hsource).resolve_right hkept
  constructor
  · intro h
    refine ⟨?_, hdecisions.mp h.decisions, ?_⟩
    · have hissues := h.openIssues
      rw [mergeExtraction_openIssues] at hissues
      exact forall_mem_upsertAll.mp hissues
    · have hactions := h.nextActions
      rw [mergeExtraction_nextActions] at hactions
      exact forall_mem_upsertAll.mp hactions
  · intro h
    refine ⟨?_, hdecisions.mpr h.decisions, ?_⟩
    · rw [mergeExtraction_openIssues]
      exact forall_mem_upsertAll.mpr h.openIssues
    · rw [mergeExtraction_nextActions]
      exact forall_mem_upsertAll.mpr h.nextActions

/-- The first analysis of a source states one decision, the second another one, and both stay. -/
theorem not_stated_renamed : ¬∀ state result sourceId, Stated plainRuntime result
    (plainRuntime.str sourceId) (mergeExtraction plainRuntime state result sourceId) := by
  intro h
  have hstated := (h (mergeExtraction plainRuntime ⟨[], [], [], [], [], [], [], none⟩
    ⟨[], [plainDecision "Redis" none], []⟩ "s".toList) ⟨[], [plainDecision "Cache" none], []⟩
    "s".toList).decisions
  have hfirst := hstated (storeDecision "s".toList (plainDecision "Redis" none))
    (by decide +kernel) (by decide +kernel)
  obtain ⟨event, hevent, -, hkey⟩ := hfirst
  obtain rfl : event = plainDecision "Cache" none := by simpa using hevent
  revert hkey
  decide +kernel

end store

end

/-!
## Merging a source again, later

The state that a list of sources builds, and when merging one of them once more puts back a
decision that a source after it has replaced.
-/

section

open Core

variable {Id : Type}

/-- A source as `merge_extraction` reads it. -/
structure MergedSource (Id : Type) where
  result : ExtractionResult
  sourceId : Id

/-- `merge_extraction` of one source after the other. -/
def mergeAll (rt : Runtime Id) (state : ContextStoreState) (sources : List (MergedSource Id)) :
    ContextStoreState :=
  sources.foldl (fun state source => mergeExtraction rt state source.result source.sourceId) state

/-- Merging any source once more adds no decision that a source after it has replaced. -/
def ReplayHarmless (rt : Runtime Id) (subject : Text) (sources : List (MergedSource Id)) : Prop :=
  ∀ before source after, sources = before ++ source :: after →
    ∀ key, (∃ later ∈ after, Replaces rt later.result key) →
      ¬(mergeAll rt (emptyState subject) sources).Holds rt key →
      ¬(mergeExtraction rt (mergeAll rt (emptyState subject) sources) source.result
        source.sourceId).Holds rt key

/-- Some source decides the key for good and no source after it replaces the key. -/
def Standing (rt : Runtime Id) (sources : List (MergedSource Id)) (key : Text) : Prop :=
  Surviving
    (fun source : MergedSource Id => Decides rt source.result key ∧ ¬Replaces rt source.result key)
    (fun source => Replaces rt source.result key) sources

/-- The decisions of a state are those that stand after its sources. -/
theorem mergeAll_holds {rt : Runtime Id} {subject : Text} {sources : List (MergedSource Id)}
    {key : Text} :
    (mergeAll rt (emptyState subject) sources).Holds rt key ↔ Standing rt sources key := by
  have hempty : ¬(emptyState subject).Holds rt key := by
    rintro ⟨decision, hmem, -⟩
    cases hmem
  have hrun : (mergeAll rt (emptyState subject) sources).Holds rt key ↔ Standing rt sources key ∨
      ((emptyState subject).Holds rt key ∧ ∀ source ∈ sources, ¬Replaces rt source.result key) :=
    alive_foldl (fun _ => True) (fun _ _ _ => trivial)
      (fun state : ContextStoreState => state.Holds rt key)
      (fun source : MergedSource Id =>
        Decides rt source.result key ∧ ¬Replaces rt source.result key)
      (fun source => Replaces rt source.result key)
      (fun _ _ _ => by rw [mergeExtraction_holds, or_and_right]) sources _ trivial
  exact ⟨fun h => (hrun.mp h).resolve_right fun h => hempty h.1, fun h => hrun.mpr (.inl h)⟩

/-- A late replay is harmless exactly when each decision that a source makes for good, and a
later source replaces, stands after all sources, because one of them has made it again. -/
theorem replayHarmless_iff (rt : Runtime Id) (subject : Text) (sources : List (MergedSource Id)) :
    ReplayHarmless rt subject sources ↔
      ∀ before source after, sources = before ++ source :: after →
        ∀ key, Decides rt source.result key → ¬Replaces rt source.result key →
          (∃ later ∈ after, Replaces rt later.result key) → Standing rt sources key := by
  constructor
  · intro h before source after hsplit key hdecides hkeeps hlater
    by_contra hgone
    have hback := h before source after hsplit key hlater (mt mergeAll_holds.mp hgone)
    rw [mergeExtraction_holds] at hback
    exact hback ⟨.inl hdecides, hkeeps⟩
  · intro h before source after hsplit key hlater hgone hback
    obtain ⟨hborn, hkeeps⟩ := mergeExtraction_holds.mp hback
    rcases hborn with hdecides | hheld
    · exact hgone (mergeAll_holds.mpr (h before source after hsplit key hdecides hkeeps hlater))
    · exact hgone hheld

/-- The second source replaces the decision of the first; merging the first again restores it. -/
theorem replayed_after_replacement : ¬ReplayHarmless plainRuntime "s".toList
    [⟨⟨[], [plainDecision "Cache" none], []⟩, "1".toList⟩,
      ⟨⟨[], [plainDecision "Redis" (some "Cache")], []⟩, "2".toList⟩] := by
  intro h
  refine h [] _ _ rfl "cache".toList ⟨_, List.mem_singleton_self _, ?_⟩ ?_ ?_
  · exact ⟨_, List.mem_singleton_self _, by decide +kernel⟩
  · unfold ContextStoreState.Holds
    decide +kernel
  · unfold ContextStoreState.Holds
    decide +kernel

end

end Maeglagi.Context
