import Maeglagi.Core.Lookups
import Maeglagi.Sources.Review

/-!
# Two confirmations of one review

A meeting of an agent's workflow is confirmed on the web or by the agent. The web checks every
utterance, blank or not, and puts the names of the directory; the agent looks at usable
utterances only, keeps their names, and takes the people of the blank ones and of earlier
associations along.
-/

namespace Maeglagi.Sources

open Core Jobs

variable {Id H : Type} [DecidableEq Id] [DecidableEq H]

/-- The keys of the tables that the confirmations read. -/
structure Keyed (dir : Directory Id) (source : Source Id H) : Prop where
  people : (dir.people.map WorkspacePerson.id).Nodup
  projects : (dir.projects.map WorkspaceProject.id).Nodup
  sourceProjects : source.projects.Nodup

/-- The utterance passes the model. -/
def Valid (u : Utterance Id) : Prop := u.modelValidate = .ok u.stripped

instance (u : Utterance Id) : Decidable (Valid u) :=
  inferInstanceAs (Decidable (u.modelValidate = .ok u.stripped))

/-- The utterances with text. -/
def usable (source : Source Id H) : List (Utterance Id) :=
  source.reviewUtterances.filter fun u => decide (strip u.text ≠ [])

/-- The people of the usable utterances. -/
def speakers (source : Source Id H) : List Id := (usable source).filterMap Utterance.personId

/-- The people of all utterances and of the associations. -/
def involved (source : Source Id H) : List Id :=
  source.reviewUtterances.filterMap Utterance.personId ++ source.people.map Prod.fst

/-- What the web asks of a draft: all utterances valid under distinct ids, and active records,
but for the owners of projects. -/
structure WebReady (dir : Directory Id) (source : Source Id H) : Prop where
  valid : ∀ u ∈ source.reviewUtterances, Valid u
  unique : (source.reviewUtterances.map fun u => strip u.id).Nodup
  text : usable source ≠ []
  people : ∀ id ∈ speakers source, (dir.activePerson id).isSome
  projects : ∀ id ∈ source.projectIds, (dir.activeProject id).isSome
  owners : ∀ id ∈ (source.projectIds.filterMap dir.activeProject).filterMap
    WorkspaceProject.ownerPersonId, (dir.person id).isSome

/-- What the agent's workflow asks of a draft: usable utterances valid, and everyone and every
project involved active, owners included. -/
structure AgentReady (dir : Directory Id) (source : Source Id H) : Prop where
  valid : ∀ u ∈ usable source, Valid u
  text : usable source ≠ []
  people : ∀ id ∈ involved source, (dir.activePerson id).isSome
  projects : ∀ id ∈ source.snapshotProjects, (dir.activeProject id).isSome
  owners : ∀ id ∈ (source.snapshotProjects.filterMap dir.activeProject).filterMap
    WorkspaceProject.ownerPersonId, (dir.activePerson id).isSome

/-- The utterances bear the names of the directory, nobody is involved who does not speak, and
the primary project is among the projects. -/
structure Aligned (dir : Directory Id) (source : Source Id H) : Prop where
  names : ∀ u ∈ usable source, ∀ id, u.personId = some id → ∀ person,
    dir.activePerson id = some person → strip u.speakerName = person.name
  people : ∀ id ∈ involved source, id ∈ speakers source
  projects : source.snapshotProjects = source.projectIds

/-- Two snapshots with the same projects and, in some order, the same people. -/
def SameSnapshot (s t : Snapshot Id) : Prop :=
  s.project = t.project ∧ s.projects = t.projects ∧ s.people.Perm t.people ∧
    s.roster.Perm t.roster

/-- Two rows that were confirmed alike. -/
structure ConfirmedAlike (s t : Source Id H) : Prop where
  utterances : s.reviewUtterances = t.reviewUtterances
  transcript : s.transcriptText = t.transcriptText
  snapshot : ∃ kept kept', s.confirmedSnapshot = some kept ∧ t.confirmedSnapshot = some kept' ∧
    SameSnapshot kept kept'
  people : s.people.Perm t.people
  state : s.reviewState = t.reviewState
  status : s.status = t.status

/-- Both confirmations fail, or both succeed and leave the same. -/
def Agree (web : Except ApiError (Option (Source Id H × Scheduling)))
    (agent : Except ApiError (Source Id H)) : Prop :=
  (∀ result, web ≠ .ok result) ∧ (∀ result, agent ≠ .ok result) ∨
    ∃ s scheduling t, web = .ok (some (s, scheduling)) ∧ agent = .ok t ∧ ConfirmedAlike s t

/-! ## What each confirmation leaves -/

variable {dir : Directory Id} {source : Source Id H} {now : Instant}

omit [DecidableEq Id] in
/-- Utterances pass the model together when each does, and are stripped. -/
theorem mapM_modelValidate_eq_ok {l checked : List (Utterance Id)} :
    l.mapM Utterance.modelValidate = .ok checked ↔
      (∀ u ∈ l, Valid u) ∧ checked = l.map Utterance.stripped := by
  induction l generalizing checked with
  | nil =>
    rw [List.mapM_nil, pure_eq_ok]
    exact ⟨fun h => ⟨by simp, h.symm⟩, fun h => h.2.symm⟩
  | cons u l ih =>
    simp only [List.mapM_cons, bind_eq_ok, pure_eq_ok, ih, List.forall_mem_cons, List.map_cons]
    constructor
    · rintro ⟨v, hv, rest, ⟨hall, rfl⟩, rfl⟩
      obtain ⟨-, -, -, -, rfl⟩ := modelValidate_eq_ok.mp hv
      exact ⟨⟨hv, hall⟩, rfl⟩
    · rintro ⟨⟨hv, hall⟩, rfl⟩
      exact ⟨_, hv, _, ⟨hall, rfl⟩, rfl⟩

omit [DecidableEq Id] in
/-- Stripping the utterances keeps those with text and the people they name. -/
theorem filter_map_stripped (l : List (Utterance Id)) :
    (l.map Utterance.stripped).filter (fun u => decide (u.text ≠ [])) =
      (l.filter fun u => decide (strip u.text ≠ [])).map Utterance.stripped := by
  rw [List.filter_map]
  rfl

omit [DecidableEq Id] in
theorem filterMap_personId_stripped (l : List (Utterance Id)) :
    (l.map Utterance.stripped).filterMap Utterance.personId =
      l.filterMap Utterance.personId := by
  rw [List.filterMap_map]
  rfl

/-- The lookups of people succeed when all are active. -/
theorem referencedPeople_eq_ok {utterances : List (Utterance Id)}
    {people : List (WorkspacePerson Id)} : referencedPeople dir utterances = .ok people ↔
      (∀ id ∈ utterances.filterMap Utterance.personId, (dir.activePerson id).isSome) ∧
        people = (utterances.filterMap Utterance.personId).eraseDups.filterMap dir.activePerson := by
  unfold referencedPeople
  rw [mapM_lookup_eq_ok (f := dir.activePerson) (fun id person h => by simp only [h])
    fun id h => ⟨.http 422 "Invalid person reference", by simp only [h]⟩]
  simp only [List.mem_eraseDups]

theorem referencedProjects_eq_ok {ids : List Id} {projects : List (WorkspaceProject Id)} :
    referencedProjects dir ids = .ok projects ↔
      (∀ id ∈ ids, (dir.activeProject id).isSome) ∧ projects = ids.filterMap dir.activeProject :=
  mapM_lookup_eq_ok (fun id project h => by simp only [h]) fun id h => ⟨_, by simp only [h]; rfl⟩

theorem projectOwners_eq_ok {projects : List (WorkspaceProject Id)}
    {owners : List (WorkspacePerson Id)} : projectOwners dir projects = .ok owners ↔
      (∀ id ∈ projects.filterMap WorkspaceProject.ownerPersonId, (dir.person id).isSome) ∧
        owners = (projects.filterMap WorkspaceProject.ownerPersonId).eraseDups.filterMap
          dir.person := by
  unfold projectOwners
  rw [mapM_lookup_eq_ok (f := dir.person) (fun id person h => by simp only [h])
    fun id h => ⟨.http 422 "Invalid project owner", by simp only [h]⟩]
  simp only [List.mem_eraseDups]

/-- The people of the web's snapshot. -/
def webPeople (dir : Directory Id) (source : Source Id H) : List (WorkspacePerson Id) :=
  (speakers source).eraseDups.filterMap dir.activePerson

/-- The projects of the web's snapshot. -/
def webProjects (dir : Directory Id) (source : Source Id H) : List (WorkspaceProject Id) :=
  source.projectIds.filterMap dir.activeProject

/-- The owners of the web's snapshot. -/
def webOwners (dir : Directory Id) (source : Source Id H) : List (WorkspacePerson Id) :=
  ((webProjects dir source).filterMap WorkspaceProject.ownerPersonId).eraseDups.filterMap dir.person

/-- The draft that the web leaves. -/
def webDraft (dir : Directory Id) (now : Instant) (source : Source Id H) : Source Id H :=
  let confirmed := ((usable source).map Utterance.stripped).map
    (Utterance.named (webPeople dir source))
  { source with
    reviewUtterances := confirmed
    transcriptText := some (transcriptOf confirmed)
    confirmedSnapshot := some (snapshot (webProjects dir source) (webPeople dir source)
      (webOwners dir source) (projectRoster dir (webProjects dir source)))
    people := source.people.filter (fun p => decide (p.2 ≠ .participant)) ++
      (webPeople dir source).map fun person => (person.id, .participant)
    confirmedAt := some now
    associationRevision := source.associationRevision + 1
    reviewState := some .confirmed }

omit [DecidableEq H] in
/-- The web confirms a draft that is ready for it. -/
theorem webDraft_iff {s : Source Id H} :
    confirmDraft dir now source = .ok s ↔ WebReady dir source ∧ s = webDraft dir now source := by
  have hvalidate : ∀ {l checked : List (Utterance Id)}, l.mapM reviewUtterance = .ok checked ↔
      (∀ u ∈ l, Valid u) ∧ checked = l.map Utterance.stripped := mapM_modelValidate_eq_ok
  have hids : (source.reviewUtterances.map Utterance.stripped).map Utterance.id =
      source.reviewUtterances.map fun u => strip u.id := by
    rw [List.map_map]
    rfl
  simp only [confirmDraft, bind_eq_ok, hvalidate, validateUniqueUtterances_eq_ok, require_eq_ok,
    referencedPeople_eq_ok, referencedProjects_eq_ok, projectOwners_eq_ok, pure_eq_ok,
    decide_eq_true_eq]
  constructor
  · rintro ⟨_, ⟨hvalid, rfl⟩, _, hunique, _, htext, _, ⟨hpeople, rfl⟩, _, ⟨hprojects, rfl⟩, _,
      ⟨howners, rfl⟩, rfl⟩
    rw [hids] at hunique
    rw [filter_map_stripped] at htext
    rw [filter_map_stripped, filterMap_personId_stripped] at hpeople
    refine ⟨⟨hvalid, hunique, fun hempty => htext (by rw [← usable, hempty]; rfl), hpeople,
      hprojects, howners⟩, ?_⟩
    simp only [filter_map_stripped, filterMap_personId_stripped]
    rfl
  · rintro ⟨hready, rfl⟩
    refine ⟨_, ⟨hready.valid, rfl⟩, ⟨⟩, hids ▸ hready.unique, ⟨⟩, ?_, webPeople dir source, ?_,
      webProjects dir source, ⟨hready.projects, rfl⟩, webOwners dir source,
      ⟨hready.owners, rfl⟩, ?_⟩
    · rw [filter_map_stripped]
      exact fun hempty => hready.text (List.map_eq_nil_iff.mp hempty)
    · rw [filter_map_stripped, filterMap_personId_stripped]
      exact ⟨hready.people, rfl⟩
    · simp only [filter_map_stripped]
      rfl

/-- The people of the agent's snapshot. -/
def agentPeople (dir : Directory Id) (source : Source Id H) : List (WorkspacePerson Id) :=
  dir.activePeople (involved source).eraseDups

/-- The owners of the agent's snapshot. -/
def agentOwners (dir : Directory Id) (source : Source Id H) : List (WorkspacePerson Id) :=
  dir.activePeople ((dir.activeProjects source.snapshotProjects).filterMap
    WorkspaceProject.ownerPersonId).eraseDups

/-- The projects of the agent's snapshot. -/
def agentRows (dir : Directory Id) (source : Source Id H) : List (ProjectRow Id) :=
  source.snapshotProjects.filterMap fun id =>
    ((dir.activeProjects source.snapshotProjects).find? fun p => decide (p.id = id)).map
      (WorkspaceProject.row (agentOwners dir source))

/-- The snapshot of the agent's workflow. -/
def agentSnapshot (rt : Runtime Id) (dir : Directory Id) (source : Source Id H) : Snapshot Id :=
  ⟨(agentRows dir source).head?, agentRows dir source,
    (sortedPeople rt (agentPeople dir source)).map WorkspacePerson.row,
    (sortedPeople rt (dir.activePeople (dir.memberIds source.snapshotProjects))).map
      WorkspacePerson.row⟩

/-- The row that the agent's workflow leaves. -/
def agentRow (rt : Runtime Id) (dir : Directory Id) (now : Instant) (source : Source Id H) :
    Source Id H :=
  let utterances := (usable source).map Utterance.stripped
  { source with
    transcriptText := some (transcriptOf utterances)
    reviewUtterances := utterances
    confirmedSnapshot := some (agentSnapshot rt dir source)
    confirmedAt := some now
    associationRevision := source.associationRevision + 1
    reviewState := some .confirmed
    status := .awaitingAgent
    processingStage := .awaitingAgent
    people := source.people.filter (fun p => decide (p.2 ≠ .participant)) ++
      ((speakers source).eraseDups.map fun id => (id, .participant)) }

omit [DecidableEq H] in
/-- The projects of a source are distinct, with its primary one. -/
theorem nodup_snapshotProjects (hkeyed : Keyed dir source) : source.snapshotProjects.Nodup := by
  unfold Source.snapshotProjects
  split
  · exact hkeyed.sourceProjects
  · split_ifs with hmem
    · exact hkeyed.sourceProjects
    · exact List.nodup_cons.mpr ⟨hmem, hkeyed.sourceProjects⟩

omit [DecidableEq H] in
/-- The active people under distinct ids are as many as the ids when all are active. -/
theorem length_activePeople_iff (hkeyed : Keyed dir source) {ids : List Id} (hids : ids.Nodup) :
    (dir.activePeople ids).length = ids.length ↔ ∀ id ∈ ids, (dir.activePerson id).isSome :=
  length_filter_mem_eq_iff hkeyed.people (fun person => !person.archived) hids

omit [DecidableEq H] in
/-- The active projects under distinct ids are as many as the ids when all are active. -/
theorem length_activeProjects_iff (hkeyed : Keyed dir source) {ids : List Id} (hids : ids.Nodup) :
    (dir.activeProjects ids).length = ids.length ↔ ∀ id ∈ ids, (dir.activeProject id).isSome :=
  length_filter_mem_eq_iff hkeyed.projects (fun project => !project.archived) hids

omit [DecidableEq H] in
/-- The active projects under distinct ids are what looking the ids up gives. -/
theorem mem_activeProjects_iff (hkeyed : Keyed dir source) {ids : List Id} (hids : ids.Nodup)
    {project : WorkspaceProject Id} :
    project ∈ dir.activeProjects ids ↔ project ∈ ids.filterMap dir.activeProject :=
  (filter_mem_perm_filterMap hkeyed.projects (fun project => !project.archived) hids
    fun _ => Iff.rfl).mem_iff

omit [DecidableEq H] in
/-- The owners of the agent's projects. -/
theorem mem_owners_iff (hkeyed : Keyed dir source) {id : Id} :
    id ∈ ((dir.activeProjects source.snapshotProjects).filterMap
        WorkspaceProject.ownerPersonId).eraseDups ↔
      id ∈ (source.snapshotProjects.filterMap dir.activeProject).filterMap
        WorkspaceProject.ownerPersonId := by
  rw [List.mem_eraseDups, List.mem_filterMap, List.mem_filterMap]
  simp only [mem_activeProjects_iff hkeyed (nodup_snapshotProjects hkeyed)]

omit [DecidableEq H] in
/-- The agent's workflow takes its snapshot when everything involved is active. -/
theorem directorySnapshot_eq_ok {rt : Runtime Id} {kept : Snapshot Id}
    (hkeyed : Keyed dir source) : directorySnapshot rt dir source = .ok kept ↔
      (∀ id ∈ involved source, (dir.activePerson id).isSome) ∧
        (∀ id ∈ source.snapshotProjects, (dir.activeProject id).isSome) ∧
        (∀ id ∈ (source.snapshotProjects.filterMap dir.activeProject).filterMap
          WorkspaceProject.ownerPersonId, (dir.activePerson id).isSome) ∧
        kept = agentSnapshot rt dir source := by
  have hpeople := length_activePeople_iff hkeyed (nodup_eraseDups (involved source))
  have hprojects := length_activeProjects_iff hkeyed (nodup_snapshotProjects hkeyed)
  have howners := length_activePeople_iff hkeyed (nodup_eraseDups
    ((dir.activeProjects source.snapshotProjects).filterMap WorkspaceProject.ownerPersonId))
  simp only [List.mem_eraseDups] at hpeople
  simp only [mem_owners_iff hkeyed] at howners
  simp only [directorySnapshot, bind_eq_ok, require_eq_ok, decide_eq_true_eq, pure_eq_ok]
  constructor
  · rintro ⟨_, hp, _, hq, _, ho, rfl⟩
    exact ⟨hpeople.mp hp, hprojects.mp hq, howners.mp ho, rfl⟩
  · rintro ⟨hp, hq, ho, rfl⟩
    exact ⟨⟨⟩, hpeople.mpr hp, ⟨⟩, hprojects.mpr hq, ⟨⟩, howners.mpr ho, rfl⟩

omit [DecidableEq H] in
/-- The agent's workflow confirms a draft that is ready for it. -/
theorem agentRow_iff {rt : Runtime Id} {s : Source Id H} (hkeyed : Keyed dir source)
    (hkind : source.kind = .meeting) (hmode : source.analysisMode = .agent)
    (hstate : source.reviewState = some .awaitingReview) :
    confirmTranscript rt dir now source source.reviewRevision = .ok s ↔
      AgentReady dir source ∧ s = agentRow rt dir now source := by
  have hguard : requireAgentReview source source.reviewRevision = .ok () := by
    simp [requireAgentReview, hkind, hmode, hstate, require, bind, Except.bind]
  have hvalidate : ∀ {l checked : List (Utterance Id)}, l.mapM agentUtterance = .ok checked ↔
      (∀ u ∈ l, Valid u) ∧ checked = l.map Utterance.stripped := mapM_modelValidate_eq_ok
  simp only [confirmTranscript, bind_eq_ok, hguard, hvalidate, require_eq_ok,
    directorySnapshot_eq_ok hkeyed, decide_eq_true_eq, pure_eq_ok]
  constructor
  · rintro ⟨_, -, _, ⟨hvalid, rfl⟩, _, htext, _, ⟨hpeople, hprojects, howners, rfl⟩, rfl⟩
    refine ⟨⟨hvalid, fun hempty => htext (by rw [← usable, hempty]; rfl), hpeople, hprojects,
      howners⟩, ?_⟩
    simp only [filterMap_personId_stripped]
    rfl
  · rintro ⟨hready, rfl⟩
    refine ⟨⟨⟩, trivial, _, ⟨hready.valid, rfl⟩, ⟨⟩, fun hempty => ?_, _,
      ⟨hready.people, hready.projects, hready.owners, rfl⟩, ?_⟩
    · exact hready.text (List.map_eq_nil_iff.mp hempty)
    · simp only [filterMap_personId_stripped]
      rfl

end Maeglagi.Sources
