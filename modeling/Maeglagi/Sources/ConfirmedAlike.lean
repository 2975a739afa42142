import Maeglagi.PlainSystem
import Maeglagi.Sources.Confirmations

/-!
# Where two confirmations agree

The confirmed rows are the same exactly when the utterances bear the names of the directory,
nobody is involved who does not speak, and the primary project is among the projects.
-/

namespace Maeglagi.Sources

open Core Jobs

variable {Id H : Type} [DecidableEq Id] {dir : Directory Id} {source : Source Id H}
  {now : Instant} {rt : Runtime Id}

omit [DecidableEq Id] in
/-- The speakers are involved. -/
theorem speakers_subset (source : Source Id H) : speakers source ⊆ involved source := by
  intro id hid
  obtain ⟨u, hu, hperson⟩ := List.mem_filterMap.mp hid
  exact List.mem_append_left _ (List.mem_filterMap.mpr ⟨u, (List.mem_filter.mp hu).1, hperson⟩)

/-- The person that is found is the one under the id. -/
theorem id_of_person {id : Id} {person : WorkspacePerson Id} (h : dir.person id = some person) :
    person.id = id := by
  simpa using List.find?_some h

theorem id_of_activePerson {id : Id} {person : WorkspacePerson Id}
    (h : dir.activePerson id = some person) : person.id = id :=
  id_of_person (Option.filter_eq_some_iff.mp h).1

theorem id_of_activeProject {id : Id} {project : WorkspaceProject Id}
    (h : dir.activeProject id = some project) : project.id = id := by
  simpa using List.find?_some (Option.filter_eq_some_iff.mp h).1

/-- An active person is the person under the id. -/
theorem person_of_activePerson {id : Id} (h : (dir.activePerson id).isSome) :
    dir.person id = dir.activePerson id := by
  obtain ⟨person, hactive⟩ := Option.isSome_iff_exists.mp h
  rw [hactive]
  exact (Option.filter_eq_some_iff.mp hactive).1


/-! ## People -/

/-- The people of the agent's snapshot are those involved. -/
theorem mem_agentPeople_iff (hkeyed : Keyed dir source) {person : WorkspacePerson Id} :
    person ∈ agentPeople dir source ↔
      ∃ id ∈ involved source, dir.activePerson id = some person := by
  have hperm := filter_mem_perm_filterMap hkeyed.people (fun person => !person.archived)
    (nodup_eraseDups (involved source)) fun _ => Iff.rfl
  refine hperm.mem_iff.trans (List.mem_filterMap.trans ?_)
  simp only [List.mem_eraseDups]
  rfl

/-- The people of the two snapshots are the same when everyone involved speaks. -/
theorem people_perm (hkeyed : Keyed dir source)
    (hspeak : ∀ id ∈ involved source, id ∈ speakers source) :
    (webPeople dir source).Perm (agentPeople dir source) := by
  refine (filter_mem_perm_filterMap hkeyed.people (fun person => !person.archived)
    (nodup_eraseDups (speakers source)) fun id => ?_).symm
  rw [List.mem_eraseDups, List.mem_eraseDups]
  exact ⟨hspeak id, fun h => speakers_subset source h⟩

/-- Only who speaks is in the web's snapshot. -/
theorem speaks_of_perm (hkeyed : Keyed dir source)
    (hactive : ∀ id ∈ involved source, (dir.activePerson id).isSome)
    (hperm : ((webPeople dir source).map WorkspacePerson.row).Perm
      ((sortedPeople rt (agentPeople dir source)).map WorkspacePerson.row)) :
    ∀ id ∈ involved source, id ∈ speakers source := by
  intro id hid
  obtain ⟨person, hperson⟩ := Option.isSome_iff_exists.mp (hactive id hid)
  have hmem : person ∈ sortedPeople rt (agentPeople dir source) :=
    (List.perm_insertionSort _ _).mem_iff.mpr
      ((mem_agentPeople_iff hkeyed).mpr ⟨id, hid, hperson⟩)
  obtain ⟨other, hother, hrow⟩ :=
    List.mem_map.mp (hperm.mem_iff.mpr (List.mem_map_of_mem hmem))
  obtain ⟨id', hid', hfound⟩ := List.mem_filterMap.mp hother
  have heq : other.id = person.id := congrArg PersonRow.id hrow
  rw [id_of_activePerson hfound, id_of_activePerson hperson] at heq
  rw [← heq]
  exact List.mem_eraseDups.mp hid'

/-- The associations that the two leave are the same. -/
theorem participants_eq (hactive : ∀ id ∈ speakers source, (dir.activePerson id).isSome) :
    ((webPeople dir source).map fun person => (person.id, PersonRole.participant)) =
      (speakers source).eraseDups.map fun id => (id, PersonRole.participant) := by
  have hids : (webPeople dir source).map WorkspacePerson.id = (speakers source).eraseDups :=
    map_key_filterMap_lookup (fun _ _ => id_of_activePerson) fun id hid =>
      hactive id (List.mem_eraseDups.mp hid)
  rw [← hids, List.map_map]
  rfl

/-! ## Names -/

/-- The web puts the name of the directory. -/
theorem named_eq_self_iff {u : Utterance Id} (hu : u ∈ usable source) :
    Utterance.named (webPeople dir source) u.stripped = u.stripped ↔
      ∀ id, u.personId = some id → ∀ person, dir.activePerson id = some person →
        strip u.speakerName = person.name := by
  have hperson : u.stripped.personId = u.personId := rfl
  unfold Utterance.named
  rw [hperson]
  cases hid : u.personId with
  | none => simp
  | some id =>
    have hspeaks : id ∈ (speakers source).eraseDups :=
      List.mem_eraseDups.mpr (List.mem_filterMap.mpr ⟨u, hu, hid⟩)
    have hfind : (webPeople dir source).find? (fun p => decide (p.id = id)) =
        dir.activePerson id := find?_filterMap_lookup (fun _ _ => id_of_activePerson) hspeaks
    simp only [Option.bind_some, hfind, Option.some.injEq, forall_eq']
    cases hfound : dir.activePerson id with
    | none => simp
    | some person =>
      simp only [Option.some.injEq, forall_eq']
      exact ⟨fun h => (congrArg Utterance.speakerName h).symm, fun h => by rw [← h, ← hid]; rfl⟩

/-- The utterances that the two leave are the same when they bear the names. -/
theorem utterances_eq_iff (dir : Directory Id) (source : Source Id H) : ((usable source).map Utterance.stripped).map
      (Utterance.named (webPeople dir source)) = (usable source).map Utterance.stripped ↔
    ∀ u ∈ usable source, ∀ id, u.personId = some id → ∀ person,
      dir.activePerson id = some person → strip u.speakerName = person.name := by
  rw [List.map_map]
  refine List.map_inj_left.trans ?_
  exact forall₂_congr fun u hu => named_eq_self_iff hu

/-! ## Projects -/

/-- The owner that a row of the web shows. -/
theorem find?_webOwners {project : WorkspaceProject Id} (hproject : project ∈ webProjects dir source)
    {id : Id} (hid : project.ownerPersonId = some id) :
    (webOwners dir source).find? (fun p => decide (p.id = id)) = dir.person id :=
  find?_filterMap_lookup (fun _ _ => id_of_person)
    (List.mem_eraseDups.mpr (List.mem_filterMap.mpr ⟨project, hproject, hid⟩))

/-- The owner that a row of the agent shows. -/
theorem find?_agentOwners (hkeyed : Keyed dir source) {project : WorkspaceProject Id}
    (hproject : project ∈ source.snapshotProjects.filterMap dir.activeProject) {id : Id}
    (hid : project.ownerPersonId = some id) :
    (agentOwners dir source).find? (fun p => decide (p.id = id)) = dir.activePerson id :=
  find?_filter_mem hkeyed.people (fun person => !person.archived)
    ((mem_owners_iff hkeyed).mpr (List.mem_filterMap.mpr ⟨project, hproject, hid⟩))

/-- The rows of the agent's projects. -/
theorem agentRows_eq (hkeyed : Keyed dir source) : agentRows dir source =
    (source.snapshotProjects.filterMap dir.activeProject).map
      (WorkspaceProject.row (agentOwners dir source)) := by
  unfold agentRows
  rw [List.map_filterMap]
  refine List.filterMap_congr fun id hid => ?_
  have hfind : (dir.activeProjects source.snapshotProjects).find? (fun p => decide (p.id = id)) =
      dir.activeProject id :=
    find?_filter_mem hkeyed.projects (fun project => !project.archived) hid
  rw [hfind]

/-- The rows of the projects are the same when the projects are. -/
theorem rows_eq_iff (hkeyed : Keyed dir source) (hweb : WebReady dir source)
    (hagent : AgentReady dir source) :
    (webProjects dir source).map (WorkspaceProject.row (webOwners dir source)) =
        agentRows dir source ↔ source.snapshotProjects = source.projectIds := by
  rw [agentRows_eq hkeyed]
  constructor
  · intro h
    have hids := congrArg (List.map ProjectRow.id) h
    rw [List.map_map, List.map_map] at hids
    have hwebIds : (webProjects dir source).map WorkspaceProject.id = source.projectIds :=
      map_key_filterMap_lookup (fun _ _ => id_of_activeProject) hweb.projects
    have hagentIds : (source.snapshotProjects.filterMap dir.activeProject).map
        WorkspaceProject.id = source.snapshotProjects :=
      map_key_filterMap_lookup (fun _ _ => id_of_activeProject) hagent.projects
    exact (hagentIds.symm.trans hids.symm).trans hwebIds
  · intro h
    rw [h]
    refine List.map_congr_left fun project hproject => ?_
    have hagentProject : project ∈ source.snapshotProjects.filterMap dir.activeProject := by
      rw [h]
      exact hproject
    have howner : (project.ownerPersonId.bind fun id =>
          (webOwners dir source).find? fun p => decide (p.id = id)) =
        project.ownerPersonId.bind fun id =>
          (agentOwners dir source).find? fun p => decide (p.id = id) := by
      cases hid : project.ownerPersonId with
      | none => rfl
      | some id =>
        have hactive := hagent.owners id (List.mem_filterMap.mpr ⟨project, hagentProject, hid⟩)
        rw [Option.bind_some, Option.bind_some, find?_webOwners hproject hid,
          find?_agentOwners hkeyed hagentProject hid, person_of_activePerson hactive]
    unfold WorkspaceProject.row
    rw [howner]

/-- The members of the same projects are the same. -/
theorem roster_perm (hkeyed : Keyed dir source) (hweb : WebReady dir source)
    (hsame : source.snapshotProjects = source.projectIds) :
    (projectRoster dir (webProjects dir source)).Perm
      (dir.activePeople (dir.memberIds source.snapshotProjects)) := by
  refine (filter_mem_perm_filterMap hkeyed.people (fun person => !person.archived)
    (nodup_eraseDups _) fun id => ?_).symm
  have hids : (webProjects dir source).map WorkspaceProject.id = source.projectIds :=
    map_key_filterMap_lookup (fun _ _ => id_of_activeProject) hweb.projects
  have hmember : ∀ m : ProjectMember Id,
      ((webProjects dir source).any fun p => decide (p.id = m.projectId)) =
        decide (m.projectId ∈ source.snapshotProjects) := by
    intro m
    rw [hsame, ← hids, Bool.eq_iff_iff]
    simp [List.mem_map]
  rw [List.mem_eraseDups, Directory.memberIds]
  simp only [hmember]

/-! ## The rows -/

/-- The rows that the two leave of a draft that is ready for both. -/
theorem confirmedAlike_iff (hkeyed : Keyed dir source) (hweb : WebReady dir source)
    (hagent : AgentReady dir source) :
    ConfirmedAlike { webDraft dir now source with
        status := .awaitingAgent, processingStage := .awaitingAgent, errorMessage := none }
      (agentRow rt dir now source) ↔ Aligned dir source := by
  constructor
  · rintro ⟨hutterances, -, ⟨kept, kept', hkept, hkept', hsame⟩, -, -, -⟩
    obtain rfl := Option.some.inj hkept
    obtain rfl := Option.some.inj hkept'
    obtain ⟨-, hprojects, hpeople, -⟩ := hsame
    exact ⟨(utterances_eq_iff dir source).mp hutterances, speaks_of_perm hkeyed hagent.people hpeople,
      (rows_eq_iff hkeyed hweb hagent).mp hprojects⟩
  · intro haligned
    have hutterances := (utterances_eq_iff dir source).mpr haligned.names
    have hrows := (rows_eq_iff hkeyed hweb hagent).mpr haligned.projects
    refine ⟨hutterances, congrArg (fun l => some (transcriptOf l)) hutterances,
      ⟨_, _, rfl, rfl, congrArg List.head? hrows, hrows, ?_, ?_⟩, ?_, rfl, rfl⟩
    · exact ((people_perm hkeyed haligned.people).trans
        (List.perm_insertionSort _ _).symm).map WorkspacePerson.row
    · exact ((roster_perm hkeyed hweb haligned.projects).trans
        (List.perm_insertionSort _ _).symm).map WorkspacePerson.row
    · exact List.Perm.of_eq (congrArg (_ ++ ·) (participants_eq hweb.people))

/-- The web submits the draft of an agent's meeting to the agent. -/
theorem confirmReview_iff {executor : Executor} {brokerUp : Bool}
    (hkind : source.kind = .meeting) (hmode : source.analysisMode = .agent)
    (hstate : source.reviewState = some .awaitingReview)
    {result : Option (Source Id H × Scheduling)} :
    confirmReview executor brokerUp dir now source source.reviewRevision = .ok result ↔
      WebReady dir source ∧ result = some ({ webDraft dir now source with
        status := .awaitingAgent, processingStage := .awaitingAgent, errorMessage := none },
        .none) := by
  have hsubmit : submitConfirmed executor brokerUp (webDraft dir now source) =
      ({ webDraft dir now source with
        status := .awaitingAgent, processingStage := .awaitingAgent, errorMessage := none },
        .none) := by
    have hagent : (webDraft dir now source).analysisMode = .agent := hmode
    simp only [submitConfirmed, hagent]
  simp only [confirmReview, bind_eq_ok, require_eq_ok, hkind, decide_true, hstate, webDraft_iff,
    pure_eq_ok]
  constructor
  · rintro ⟨_, -, _, -, _, ⟨hready, rfl⟩, rfl⟩
    exact ⟨hready, by rw [hsubmit]⟩
  · rintro ⟨hready, rfl⟩
    exact ⟨⟨⟩, trivial, ⟨⟩, trivial, _, ⟨hready, rfl⟩, by rw [hsubmit]⟩

/-- The two confirmations of a draft agree exactly when both refuse it, or both accept it, the
utterances bear the names of the directory, nobody is involved who does not speak, and the
primary project is among the projects. -/
theorem confirmations_agree_iff (executor : Executor) (brokerUp : Bool) (rt : Runtime Id)
    (dir : Directory Id) (now : Instant) (source : Source Id H) (hkeyed : Keyed dir source)
    (hkind : source.kind = .meeting) (hmode : source.analysisMode = .agent)
    (hstate : source.reviewState = some .awaitingReview) :
    Agree (confirmReview executor brokerUp dir now source source.reviewRevision)
        (confirmTranscript rt dir now source source.reviewRevision) ↔
      (¬ WebReady dir source ∧ ¬ AgentReady dir source) ∨
        WebReady dir source ∧ AgentReady dir source ∧ Aligned dir source := by
  constructor
  · rintro (⟨hweb, hagent⟩ | ⟨s, scheduling, t, hweb, hagent, halike⟩)
    · exact .inl ⟨fun h => hweb _ ((confirmReview_iff hkind hmode hstate).mpr ⟨h, rfl⟩),
        fun h => hagent _ ((agentRow_iff hkeyed hkind hmode hstate).mpr ⟨h, rfl⟩)⟩
    · obtain ⟨hwebReady, hresult⟩ := (confirmReview_iff hkind hmode hstate).mp hweb
      obtain ⟨hagentReady, rfl⟩ := (agentRow_iff hkeyed hkind hmode hstate).mp hagent
      obtain ⟨rfl, -⟩ := Prod.mk.inj (Option.some.inj hresult)
      exact .inr ⟨hwebReady, hagentReady,
        (confirmedAlike_iff hkeyed hwebReady hagentReady).mp halike⟩
  · rintro (⟨hweb, hagent⟩ | ⟨hweb, hagent, haligned⟩)
    · refine .inl ⟨fun result h => hweb ?_, fun result h => hagent ?_⟩
      · exact ((confirmReview_iff hkind hmode hstate).mp h).1
      · exact ((agentRow_iff hkeyed hkind hmode hstate).mp h).1
    · exact .inr ⟨_, _, _, (confirmReview_iff hkind hmode hstate).mpr ⟨hweb, rfl⟩,
        (agentRow_iff hkeyed hkind hmode hstate).mpr ⟨hagent, rfl⟩,
        (confirmedAlike_iff hkeyed hweb hagent).mpr haligned⟩

/-- An agent's transcript of one sentence by the person `p`, under the name it heard. -/
def heardDraft (speakerName : String) : Source Text PlainDigest :=
  { Source.new plainIds .meeting "Memo".toList "inline:s".toList 8 with
    analysisMode := .agent
    transcriptSource := some .agent
    reviewState := some .awaitingReview
    status := .awaitingReview
    processingStage := .awaitingReview
    reviewUtterances := [⟨"u".toList, some "p".toList, speakerName.toList, "We ship.".toList,
      none, none⟩] }

/-- A directory with one person under the id `p`. -/
def annDirectory : Directory Text :=
  ⟨[⟨"p".toList, "Ann Lee".toList, none, none, [], false⟩], [], []⟩

/-- A draft under the full name is confirmed alike. -/
theorem confirmations_agree_named : Agree
    (confirmReview .postgres true annDirectory 0 (heardDraft "Ann Lee") 0)
    (confirmTranscript plainRuntime annDirectory 0 (heardDraft "Ann Lee") 0) := by
  have hkeyed : Keyed annDirectory (heardDraft "Ann Lee") :=
    ⟨by decide, by decide, by decide⟩
  have hweb : WebReady annDirectory (heardDraft "Ann Lee") :=
    ⟨by decide +kernel, by decide +kernel, by decide +kernel, by decide +kernel, by decide,
      by decide⟩
  have hagent : AgentReady annDirectory (heardDraft "Ann Lee") :=
    ⟨by decide +kernel, by decide +kernel, by decide +kernel, by decide, by decide⟩
  have haligned : Aligned annDirectory (heardDraft "Ann Lee") := by
    refine ⟨?_, by decide +kernel, by decide⟩
    simp only [usable]
    decide +kernel
  exact (confirmations_agree_iff .postgres true plainRuntime annDirectory 0 (heardDraft "Ann Lee")
    hkeyed rfl rfl rfl).mpr (.inr ⟨hweb, hagent, haligned⟩)

/-- The web puts the name of the directory, the agent keeps the name it heard. -/
theorem confirmations_disagree : ¬ Agree
    (confirmReview .postgres true annDirectory 0 (heardDraft "Ann") 0)
    (confirmTranscript plainRuntime annDirectory 0 (heardDraft "Ann") 0) := by
  have hweb : ∃ result,
      confirmReview .postgres true annDirectory 0 (heardDraft "Ann") 0 = .ok (some result) ∧
        result.1.reviewUtterances.map Utterance.speakerName = ["Ann Lee".toList] := by
    refine ⟨_, rfl, ?_⟩
    decide +kernel
  have hagent : ∃ row,
      confirmTranscript plainRuntime annDirectory 0 (heardDraft "Ann") 0 = .ok row ∧
        row.reviewUtterances.map Utterance.speakerName = ["Ann".toList] := by
    refine ⟨_, rfl, ?_⟩
    decide +kernel
  obtain ⟨result, hresult, hnamed⟩ := hweb
  obtain ⟨row, hrow, hheard⟩ := hagent
  rw [hresult, hrow]
  rintro (⟨hfails, -⟩ | ⟨s, scheduling, t, hs, ht, halike⟩)
  · exact hfails _ rfl
  · obtain rfl := Option.some.inj (Except.ok.inj hs)
    obtain rfl := Except.ok.inj ht
    have hnames := congrArg (List.map Utterance.speakerName) halike.utterances
    rw [hnamed, hheard] at hnames
    exact absurd hnames (by decide)

end Maeglagi.Sources
