import Maeglagi.Agent.Validation
import Maeglagi.Context.Store

/-!
# Updates of the Context Store

`ContextStoreService.apply` with its two updaters. The output of the language model is an
argument of the update.
-/

namespace Maeglagi.Context

section

open Core Resolution

variable {Id : Type}

/-- The claim of the model that an open item is finished, with its quotations. -/
structure Resolution where
  title : Text
  sourceRefs : List Text
  deriving DecidableEq, Repr

/-- `ContextUpdateOutput` -/
structure ContextUpdateOutput where
  summary : Text
  currentState : Text
  resolvedIssues : List Resolution
  completedActions : List Resolution
  deriving DecidableEq, Repr

/-- `_grounded`: closing something needs a quotation, and each one stands in the text. -/
def grounded (resolution : Resolution) (text : Text) : Bool :=
  let refs := resolution.sourceRefs.filter fun ref => decide (strip ref ≠ [])
  decide (refs ≠ []) && refs.all fun ref => decide (squash ref <:+: squash text)

section
variable {α : Type} [DecidableEq α]

/-- One turn of the loop of `_close` over the items that remain and the warnings so far. -/
def closeOne (rt : Runtime Id) (title : α → Text) (kind : EntityKind) (text label : Text)
    (acc : List α × List Text) (resolution : Resolution) : List α × List Text :=
  let key := itemKey rt resolution.title kind
  match acc.1.find? fun item => decide (itemKey rt (title item) kind = key) with
  | none =>
    (acc.1, acc.2 ++ [label ++ " 처리할 항목을 찾지 못했습니다: ".toList ++ resolution.title])
  | some target =>
    if grounded resolution text then (acc.1.erase target, acc.2)
    else (acc.1, acc.2 ++
      ["근거가 원문에 없어 ".toList ++ label ++ " 처리를 무시했습니다: ".toList ++ resolution.title])

/-- `_close` -/
def close (rt : Runtime Id) (title : α → Text) (kind : EntityKind) (text label : Text)
    (items : List α) (resolutions : List Resolution) : List α × List Text :=
  resolutions.foldl (closeOne rt title kind text label) (items, [])

end

/-- `unverified_refs` -/
def unverifiedRefs (text : Text) (groups : List StoreItem) : List Text :=
  groups.flatMap fun item =>
    (item.sourceRefs.filter fun ref =>
      decide (squash ref ≠ []) && !decide (squash ref <:+: squash text)).map fun _ =>
        "원문에서 찾지 못한 근거: ".toList ++ item.title

/-- The first text, unless it is empty. -/
def orElse (text other : Text) : Text := if text = [] then other else text

/-- `ContextStoreUpdater.update` on an output of the model. -/
def updateByModel (rt : Runtime Id) (output : ContextUpdateOutput) (now : Instant)
    (state : ContextStoreState) (result : AnalysisResult) (sourceId : Id) (text : Text) :
    ContextStoreState × List Text :=
  let merged := mergeExtraction rt state result.toExtractionResult sourceId
  let issues := close rt (·.title) .issue text "이슈 해결".toList merged.openIssues
    output.resolvedIssues
  let actions := close rt (·.title) .task text "할 일 완료".toList merged.nextActions
    output.completedActions
  let updated := { merged with
    openIssues := issues.1
    nextActions := actions.1
    summary := orElse (strip output.summary) state.summary
    currentState := orElse (strip output.currentState) state.currentState
    updatedAt := some now }
  let items := updated.openIssues ++ updated.decisions.map (·.toStoreItem) ++
    updated.nextActions.map (·.toStoreItem)
  let own := items.filter fun item => decide (item.sourceId = some (rt.str sourceId))
  (updated, unverifiedRefs text own ++ issues.2 ++ actions.2)

/-- The summaries of a result that are not blank. -/
def summaries (result : AnalysisResult) : List Text :=
  (result.contexts.filter fun context =>
    decide (context.kind = .summary) && decide (strip context.body ≠ [])).map fun context =>
      strip context.body

/-- The longest summary that `KeylessContextUpdater` leaves. -/
def maxSummaryChars : Nat := 20000

/-- `KeylessContextUpdater.update` -/
def updateKeyless (rt : Runtime Id) (now : Instant) (state : ContextStoreState)
    (result : AnalysisResult) (sourceId : Id) (sourceTitle : Text) :
    ContextStoreState × List Text :=
  let merged := { mergeExtraction rt state result.toExtractionResult sourceId with
    updatedAt := some now }
  match summaries result with
  | [] => (merged, [])
  | first :: _ =>
    let settled := { merged with
      currentState := if state.currentState = [] then first else merged.currentState }
    if first <:+: state.summary then (settled, [])
    else
      let addition := sourceTitle ++ ": ".toList ++ first
      let combined :=
        if state.summary = [] then addition else state.summary ++ "\n\n".toList ++ addition
      if combined.length ≤ maxSummaryChars then ({ settled with summary := combined }, [])
      else (settled, ["Workspace summary is full; source facts were saved".toList])

/-- The updater a Context Store service works with. -/
inductive Updater where
  | model (output : ContextUpdateOutput)
  | keyless
  deriving DecidableEq, Repr

/-- `ContextStoreRecord` -/
structure ContextStoreRecord (Id : Type) where
  ownerId : Id
  subject : Text
  summary : Text
  currentState : Text
  openIssues : List StoreItem
  decisions : List StoreDecision
  nextActions : List StoreAction
  sourceIds : List Text
  updatedAt : Instant
  deriving DecidableEq

/-- `state_from_record` -/
def stateFromRecord (record : ContextStoreRecord Id) : ContextStoreState where
  subject := record.subject
  summary := record.summary
  currentState := record.currentState
  openIssues := record.openIssues
  decisions := record.decisions
  nextActions := record.nextActions
  sourceIds := record.sourceIds
  updatedAt := some record.updatedAt

/-- The state of a workspace that has no record yet. -/
def emptyState (subject : Text) : ContextStoreState := ⟨subject, [], [], [], [], [], [], none⟩

/-- `ContextStoreService.current_decisions` on the record it loads. -/
def currentDecisions (record : Option (ContextStoreRecord Id)) : List Text :=
  match record with
  | none => []
  | some record => (stateFromRecord record).decisions.map (·.title)

/-- One application of a source's extraction: the arguments of `ContextStoreService.apply`, its
updater and its reading of the clock. -/
structure Application (Id : Type) where
  updater : Updater
  ownerId : Id
  sourceId : Id
  sourceTitle : Text
  subject : Text
  text : Text
  result : AnalysisResult
  now : Instant
  deriving DecidableEq

/-- `updater.update` -/
def Application.update (rt : Runtime Id) (a : Application Id) (state : ContextStoreState) :
    ContextStoreState × List Text :=
  match a.updater with
  | .model output => updateByModel rt output a.now state a.result a.sourceId a.text
  | .keyless => updateKeyless rt a.now state a.result a.sourceId a.sourceTitle

/-- `ContextStoreService.apply` on the record it loads: the record it saves and its warnings. -/
def Application.apply (rt : Runtime Id) (a : Application Id)
    (record : Option (ContextStoreRecord Id)) : ContextStoreRecord Id × List Text :=
  let state := match record with
    | none => emptyState a.subject
    | some record => { stateFromRecord record with subject := a.subject }
  let updated := a.update rt state
  ({ ownerId := match record with
      | none => a.ownerId
      | some record => record.ownerId
     subject := updated.1.subject
     summary := updated.1.summary
     currentState := updated.1.currentState
     openIssues := updated.1.openIssues
     decisions := updated.1.decisions
     nextActions := updated.1.nextActions
     sourceIds := updated.1.sourceIds
     updatedAt := updated.1.updatedAt.getD a.now }, updated.2)

end

/-!
## What the language model may change

The output of the language model closes open items and rewrites the narrative. Whatever it is,
every other item survives, and an item is closed only by a resolution that quotes the source.
-/

section

open Core

variable {Id α : Type}

/-- The resolution has a quotation that is not blank, and every such one stands in the text,
white space aside. -/
def Resolution.Proven (resolution : Resolution) (text : Text) : Prop :=
  (∃ ref ∈ resolution.sourceRefs, strip ref ≠ []) ∧
    ∀ ref ∈ resolution.sourceRefs, strip ref ≠ [] → squash ref <:+: squash text

/-- What resolutions, taken in their order, leave of some items: each one closes at most one
item, the first that is left under its key, and only when it is proven. -/
inductive Closed (rt : Runtime Id) (title : α → Text) (kind : EntityKind) (text : Text) :
    List Resolution → List α → List α → Prop
  | done (items : List α) : Closed rt title kind text [] items items
  | ignored {resolution : Resolution} {rest : List Resolution} {items left : List α}
      (h : Closed rt title kind text rest items left) :
      Closed rt title kind text (resolution :: rest) items left
  | closed {resolution : Resolution} {rest : List Resolution} {before after left : List α}
      {item : α} (hproven : resolution.Proven text)
      (hkey : itemKey rt (title item) kind = itemKey rt resolution.title kind)
      (hfirst : ∀ other ∈ before,
        itemKey rt (title other) kind ≠ itemKey rt resolution.title kind)
      (h : Closed rt title kind text rest (before ++ after) left) :
      Closed rt title kind text (resolution :: rest) (before ++ item :: after) left

theorem Closed.sublist {rt : Runtime Id} {title : α → Text} {kind : EntityKind} {text : Text}
    {resolutions : List Resolution} {items left : List α}
    (h : Closed rt title kind text resolutions items left) : left.Sublist items := by
  induction h with
  | done items => exact List.Sublist.refl items
  | ignored _ ih => exact ih
  | closed _ _ _ _ ih =>
    exact ih.trans ((List.Sublist.refl _).append (List.sublist_cons_self ..))

theorem grounded_iff {resolution : Resolution} {text : Text} :
    grounded resolution text = true ↔ resolution.Proven text := by
  simp only [grounded, Bool.and_eq_true, decide_eq_true_eq, List.all_eq_true, List.mem_filter,
    Resolution.Proven, ne_eq, List.filter_eq_nil_iff, not_forall, not_not, and_imp, exists_prop]

variable [DecidableEq α]

/-- The first item under a key is the one that `remove` takes out. -/
theorem erase_of_find?_eq_some {p : α → Bool} {items : List α} {target : α}
    (h : items.find? p = some target) : ∃ before after, items = before ++ target :: after ∧
      p target = true ∧ (∀ other ∈ before, p other = false) ∧
      items.erase target = before ++ after := by
  obtain ⟨htarget, before, after, rfl, hbefore⟩ := List.find?_eq_some_iff_append.mp h
  have hother : ∀ other ∈ before, p other = false := fun other hmem => by
    simpa using hbefore other hmem
  have hmem : target ∉ before := by
    intro hmem
    rw [hother target hmem] at htarget
    cases htarget
  exact ⟨before, after, rfl, htarget, hother, by
    rw [List.erase_append_right _ hmem, List.erase_cons_head]⟩

/-- `_close` leaves what the resolutions leave. -/
theorem close_closed (rt : Runtime Id) (title : α → Text) (kind : EntityKind)
    (text label : Text) (items : List α) (resolutions : List Resolution) :
    Closed rt title kind text resolutions items
      (close rt title kind text label items resolutions).1 := by
  unfold close
  generalize ([] : List Text) = warnings
  induction resolutions generalizing items warnings with
  | nil => exact .done items
  | cons resolution rest ih =>
    rw [List.foldl_cons, closeOne]
    split
    · exact .ignored (ih items _)
    · next target hfind =>
      split
      · next hgrounded =>
        obtain ⟨before, after, rfl, htarget, hother, herase⟩ := erase_of_find?_eq_some hfind
        rw [herase]
        refine .closed (grounded_iff.mp hgrounded) (of_decide_eq_true htarget) ?_ (ih _ _)
        intro other hmem
        exact of_decide_eq_false (hother other hmem)
      · exact .ignored (ih items _)

theorem orElse_strip (text other : Text) :
    orElse (strip text) other = other ∨ strip (orElse (strip text) other) ≠ [] := by
  unfold orElse
  split
  · exact .inl rfl
  · next h => exact .inr (by rwa [strip_strip])

/-- An update keeps the merged decisions; it takes an issue or an action out of the merged ones
only for a proven resolution of its own; and it never blanks the narrative. -/
theorem update_conserves (rt : Runtime Id) (output : ContextUpdateOutput) (now : Instant)
    (state : ContextStoreState) (result : AnalysisResult) (sourceId : Id) (text : Text) :
    let merged := mergeExtraction rt state result.toExtractionResult sourceId
    let saved := (updateByModel rt output now state result sourceId text).1
    saved.decisions = merged.decisions ∧
      saved.openIssues.Sublist merged.openIssues ∧
      saved.nextActions.Sublist merged.nextActions ∧
      Closed rt StoreItem.title .issue text output.resolvedIssues merged.openIssues
        saved.openIssues ∧
      Closed rt (fun action : StoreAction => action.title) .task text output.completedActions
        merged.nextActions saved.nextActions ∧
      (saved.summary = state.summary ∨ strip saved.summary ≠ []) ∧
      (saved.currentState = state.currentState ∨ strip saved.currentState ≠ []) := by
  intro merged saved
  have hissues : Closed rt StoreItem.title .issue text output.resolvedIssues merged.openIssues
      saved.openIssues := close_closed ..
  have hactions : Closed rt (fun action : StoreAction => action.title) .task text
      output.completedActions merged.nextActions saved.nextActions := close_closed ..
  exact ⟨rfl, hissues.sublist, hactions.sublist, hissues, hactions, orElse_strip ..,
    orElse_strip ..⟩

end

end Maeglagi.Context
