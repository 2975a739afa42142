import Maeglagi.PlainSystem
import Maeglagi.Sources.Transcription

/-!
# Reviews that can be saved back

A review is shown and taken back under the limits of one model. Every writer of utterances
checks them against it but the end of a transcription and the upload of a transcript, which
puts no bound on their number.
-/

namespace Maeglagi.Sources

open Core Jobs

variable {Id H : Type} [DecidableEq Id] [DecidableEq H]

/-- The review of the source is shown, and what it shows is accepted as an edit that leaves the
utterances as they are, while the projects and people it names are active. -/
def SavesBack (source : Source Id H) : Prop :=
  ∃ review, getReview source = .ok review ∧ ∀ dir projectId,
    projectId = none ∨ projectId = review.projectId →
    (∀ id ∈ review.projectIds, (dir.activeProject id).isSome = true) →
    (∀ u ∈ review.utterances, ∀ id, u.personId = some id → (dir.activePerson id).isSome = true) →
      ∃ saved, saveReview dir source
          ⟨review.revision, projectId, some review.projectIds, review.utterances⟩ = .ok saved ∧
        saved.reviewUtterances = review.utterances ∧
        saved.reviewUtterances = source.reviewUtterances

/-- What is stored for a review is within the limits under which it is read. -/
structure Presentable (source : Source Id H) : Prop where
  utterances : source.reviewState ≠ some .confirmed →
    (∀ u ∈ source.reviewUtterances, u.Clean) ∧
      (source.reviewUtterances.map Utterance.id).Nodup ∧ source.reviewUtterances.length ≤ 1000
  raw : ∀ u ∈ source.rawUtterances, u.Clean
  projects : source.projects.Nodup ∧ source.projectId = source.projects.head?

section
variable {env : Env Id H} {media : Prop} {source source' row session : Source Id H}
  {s s' : State Id H}

omit [DecidableEq Id] [DecidableEq H] in
theorem projectIds_of_primary (h : source.projectId = source.projects.head?) :
    source.projectIds = source.projects := by
  unfold Source.projectIds
  split
  · next hnil =>
    rw [h, hnil]
    rfl
  · rfl

omit [DecidableEq H] in
/-- A presentable review that awaits its confirmation can be saved back. -/
theorem Presentable.savesBack (h : Presentable source) (hkind : source.kind = .meeting)
    (hstate : source.reviewState = some .awaitingReview) : SavesBack source := by
  obtain ⟨hclean, hnodup, hlen⟩ := h.utterances (by rw [hstate]; decide)
  obtain ⟨hprojects, hprimary⟩ := h.projects
  have hids := projectIds_of_primary hprimary
  have hutterances : source.reviewUtterances.mapM reviewUtterance = .ok source.reviewUtterances :=
    mapM_modelValidate_of_clean hclean
  have hraw : source.rawUtterances.mapM reviewUtterance = .ok source.rawUtterances :=
    mapM_modelValidate_of_clean h.raw
  obtain ⟨review, hreview, hshown, hshownIds, hrevision, hshownId⟩ :
      ∃ review, getReview source = .ok review ∧ review.utterances = source.reviewUtterances ∧
        review.projectIds = source.projects ∧ review.revision = source.reviewRevision ∧
        review.projectId = source.projects.head? := by
    unfold getReview reviewPayload
    rw [require_pos (by simp [hkind]), hutterances, hraw]
    exact ⟨_, rfl, rfl, hids, rfl, hprimary⟩
  refine ⟨review, hreview, ?_⟩
  rw [hshown, hshownIds, hrevision, hshownId]
  intro dir projectId hprojectId hactive hpeople
  have hreplaced : replaceProjects dir source source.projects = .ok
      { source with projects := source.projects, projectId := source.projects.head? } := by
    obtain ⟨_, hreferenced⟩ : ∃ projects, referencedProjects dir source.projects = .ok projects := by
      refine exists_mapM_ok fun id hid => ?_
      obtain ⟨project, hproject⟩ := Option.isSome_iff_exists.mp (hactive id hid)
      exact ⟨project, by rw [hproject]⟩
    unfold replaceProjects
    rw [require_pos (by simpa using hprojects), hreferenced]
    rfl
  obtain ⟨_, hreferenced⟩ : ∃ people, referencedPeople dir source.reviewUtterances = .ok people := by
    refine exists_mapM_ok fun id hid => ?_
    rw [List.mem_eraseDups] at hid
    obtain ⟨u, hu, hperson⟩ := List.mem_filterMap.mp hid
    obtain ⟨person, hactive⟩ := Option.isSome_iff_exists.mp (hpeople u hu id hperson)
    exact ⟨person, by rw [hactive]⟩
  have hpatch : ReviewPatch.modelValidate ⟨source.reviewRevision, projectId, some source.projects,
      source.reviewUtterances⟩ = .ok ⟨source.reviewRevision, projectId, some source.projects,
        source.reviewUtterances⟩ := by
    unfold ReviewPatch.modelValidate
    rw [require_pos (by simpa using hlen), hutterances]
    rfl
  have hfirst : (Option.isNone (some source.projects) || projectId.isNone ||
      decide (source.projects.head? = projectId)) = true := by
    rcases hprojectId with rfl | rfl <;> simp
  simp only [saveReview, bind_eq_ok, require_eq_ok, pure_eq_ok, validateUniqueUtterances_eq_ok]
  exact ⟨_, ⟨_, hpatch, (), decide_eq_true hkind, (), decide_eq_true hstate, (), decide_eq_true rfl,
    (), hnodup, (), hfirst, _, hreferenced, _, hreplaced, rfl⟩, rfl, rfl⟩

omit [DecidableEq Id] [DecidableEq H] in
/-- A write of other columns, or one that confirms the review. -/
theorem Presentable.congr (h : Presentable source)
    (hreview : source'.reviewState ≠ some .confirmed → source.reviewState ≠ some .confirmed ∧
      source'.reviewUtterances = source.reviewUtterances)
    (hraw : source'.rawUtterances = source.rawUtterances)
    (hprojects : source'.projects = source.projects ∧ source'.projectId = source.projectId) :
    Presentable source' := by
  refine ⟨fun hopen => ?_, hraw ▸ h.raw, ?_⟩
  · obtain ⟨hbefore, hsame⟩ := hreview hopen
    rw [hsame]
    exact h.utterances hbefore
  · rw [hprojects.1, hprojects.2]
    exact h.projects

omit [DecidableEq Id] [DecidableEq H] in
/-- Every edit checks the utterances that it stores. -/
theorem Presentable.edited {scheduling : Scheduling} {edit : Edit Id} (h : Presentable source)
    (hedit : Edited env source source' scheduling edit) : Presentable source' := by
  have hcongr : source'.reviewState = source.reviewState →
      source'.reviewUtterances = source.reviewUtterances →
      source'.rawUtterances = source.rawUtterances → source'.projects = source.projects ∧
        source'.projectId = source.projectId → Presentable source' :=
    fun hstate hutterances => h.congr fun hopen => ⟨hstate ▸ hopen, hutterances⟩
  cases hedit with
  | saved _ _ hlen hmap hnodup hids hrow =>
    subst hrow
    obtain ⟨hsame, hclean⟩ := clean_of_mapM hmap
    exact ⟨fun _ => ⟨hclean, hnodup, hsame ▸ hlen⟩, h.raw, hids, rfl⟩
  | confirmed _ _ _ hrow =>
    subst hrow
    exact h.congr (fun hopen => absurd rfl hopen) rfl ⟨rfl, rfl⟩
  | submittedAgain _ _ _ _ hrow => subst hrow; exact hcongr rfl rfl rfl ⟨rfl, rfl⟩
  | retried _ _ _ _ hrow => subst hrow; exact hcongr rfl rfl rfl ⟨rfl, rfl⟩
  | recovered _ _ _ _ hmap hlen hnodup hraw hrow =>
    subst hrow
    obtain ⟨-, hclean⟩ := clean_of_mapM hmap
    refine ⟨fun _ => ⟨hclean, hnodup, hlen⟩, ?_, h.projects⟩
    rcases hraw with rfl | rfl
    · exact h.raw
    · exact hclean
  | associated hids hrow =>
    subst hrow
    exact ⟨h.utterances, h.raw, hids, rfl⟩
  | texted _ _ _ hrow => subst hrow; exact hcongr rfl rfl rfl ⟨rfl, rfl⟩
  | transcribed _ _ _ hlen hmap hnodup hraw hrow =>
    subst hrow
    obtain ⟨hsame, hclean⟩ := clean_of_mapM hmap
    refine ⟨fun _ => ⟨hclean, hnodup, hsame ▸ hlen⟩, ?_, h.projects⟩
    rcases hraw with rfl | rfl
    · exact h.raw
    · exact hclean
  | confirmedByAgent _ _ _ hrow =>
    subst hrow
    exact h.congr (fun hopen => absurd rfl hopen) rfl ⟨rfl, rfl⟩

/-- A transcription that ends is within the limits of a review, and fills an empty draft with
no more utterances than a review may have. -/
def Legibly (s : State Id H) (e : Event Id H) : Prop :=
  ∀ body, e = .act (.transcribe body) →
    body.Legible ∧ (s.source.reviewUtterances = [] → body.spoken.length ≤ 1000)

/-- The end of a legible transcription leaves a presentable review. -/
theorem Presentable.transcribed {analyst : Analyst Id H} {body : TranscriptionBody}
    {t : Turn Id H} (h : Presentable row) (hagrees : AgreesFully session row)
    (hstate : session.reviewState = some .transcribing) (hlegible : body.Legible)
    (hshort : row.reviewUtterances = [] → body.spoken.length ≤ 1000)
    (ht : turn env analyst row session .transcribing (.transcribe body) = some t) :
    Presentable t.row := by
  have hopen : row.reviewState ≠ some .confirmed := by
    rw [← hagrees.agrees.reviewState, hstate]
    decide
  simp only [turn] at ht
  split at ht
  · cases ht
  · next response hresponse =>
    split at ht
    · cases ht
    · next hduration =>
      cases ht
      obtain ⟨hclean, hnodup, hlen⟩ := legible_utterances Id hlegible hresponse hduration
      have hstored : ∀ stored : List (Utterance Id), stored = (if session.reviewUtterances = [] then
          response.utterances else session.reviewUtterances) →
          (∀ u ∈ stored, u.Clean) ∧ (stored.map Utterance.id).Nodup ∧ stored.length ≤ 1000 := by
        rintro _ rfl
        rw [hagrees.agrees.reviewUtterances]
        split
        · next hempty =>
          have hfew := hshort hempty
          exact ⟨hclean, hnodup, by omega⟩
        · exact h.utterances hopen
      dsimp only [commitLast]
      rw [flush_of_agreesFully hagrees rfl]
      exact ⟨fun _ => hstored _ rfl, hclean, h.projects⟩

/-- Legible steps keep the review presentable. -/
theorem Presentable.step {e : Event Id H} (h : Presentable s.source) (hs : Coherent media s)
    (hlegibly : Legibly s e) (hstep : Sources.step env s e = some s') :
    Presentable s'.source := by
  have hcongr : ∀ row : Source Id H, row.reviewState = s.source.reviewState →
      row.reviewUtterances = s.source.reviewUtterances →
      row.rawUtterances = s.source.rawUtterances → row.projects = s.source.projects ∧
        row.projectId = s.source.projectId → Presentable row :=
    fun row hstate hutterances => h.congr fun hopen => ⟨hstate ▸ hopen, hutterances⟩
  cases change_of_step hstep with
  | idle _ hrow => exact hrow ▸ h
  | edited edit now scheduling hedit => exact h.edited (edited_of_applyEdit hedit)
  | entered runner _ hrow =>
    rw [hrow]
    rcases beginProcessing_cases s.source with heq | ⟨_, _, _, -, -, heq, -⟩ <;> rw [heq] <;>
      exact hcongr _ rfl rfl rfl ⟨rfl, rfl⟩
  | failed runner error _ hrow =>
    rw [hrow]
    unfold recordFailure updateSource
    split_ifs <;> exact hcongr _ rfl rfl rfl ⟨rfl, rfl⟩
  | admitted dir known request submission t _ hadmitted hrow =>
    obtain ⟨_, _, heq⟩ := started_row hadmitted
    rw [hrow, heq]
    exact hcongr _ rfl rfl rfl ⟨rfl, rfl⟩
  | acted action analyst session point t hworking hturn hrow =>
    have hengaged := hs.engaged _ _ _ hworking
    rw [hrow]
    rcases turn_row hturn with heq | ⟨assigned, heq, rfl | hworked⟩
    · rw [heq]
      exact h
    · obtain ⟨-, hstate, -⟩ : session.kind = .meeting ∧
        session.reviewState = some .transcribing ∧ phase session = none := hengaged.facts
      cases action with
      | transcribe body =>
        obtain ⟨hlegible, hshort⟩ := hlegibly body rfl
        exact h.transcribed (hengaged.fully (hengaged.server rfl)).1 hstate hlegible hshort hturn
      | _ => cases hturn
    · rw [heq, worked_flush hworked s.source]
      exact hcongr _ rfl rfl rfl ⟨rfl, rfl⟩

/-- A transcript that is uploaded has no more utterances than a review may have. -/
def Short (creation : Creation Id) : Prop :=
  ∀ dir body, creation = .transcript dir body →
    ∀ utterances, body.utterances = some utterances → utterances.length ≤ 1000

omit [DecidableEq Id] in
theorem checkedDraft_eq_ok {utterances draft : List (Utterance Id)}
    (h : checkedDraft utterances = .ok draft) :
    draft.length ≤ 1000 ∧ (∀ u ∈ draft, u.Clean) ∧ (draft.map Utterance.id).Nodup := by
  simp only [checkedDraft, bind_eq_ok, require_eq_ok, decide_eq_true_eq] at h
  obtain ⟨-, hlen, h⟩ := h
  split at h
  · next checked hmap =>
    simp only [bind_eq_ok, validateUniqueUtterances_eq_ok, pure_eq_ok] at h
    obtain ⟨-, hnodup, rfl⟩ := h
    obtain ⟨hsame, hclean⟩ := clean_of_mapM hmap
    exact ⟨hsame ▸ hlen, hclean, hnodup⟩
  · cases h

omit [DecidableEq H] in
/-- A new source is presentable. -/
theorem Created.presentable {ids : SourceIds Id} {scheduling : Scheduling}
    {creation : Creation Id} (h : Created env ids source scheduling creation)
    (hshort : Short creation) : Presentable source := by
  have hempty : (∀ u ∈ ([] : List (Utterance Id)), u.Clean) ∧
      (([] : List (Utterance Id)).map Utterance.id).Nodup ∧
      ([] : List (Utterance Id)).length ≤ 1000 := by simp
  cases h with
  | document _ hrow =>
    subst hrow
    exact ⟨fun _ => hempty, hempty.1, List.nodup_nil, rfl⟩
  | recording hdraft hprojects _ hrow =>
    subst hrow
    obtain ⟨hlen, hclean, hnodup⟩ := checkedDraft_eq_ok hdraft
    exact ⟨fun _ => ⟨hclean, hnodup, hlen⟩, hempty.1, hprojects, rfl⟩
  | @transcript dir body path text size utterances _ hmap hnodup hprojects hrow =>
    subst hrow
    obtain ⟨hsame, hclean⟩ := clean_of_mapM hmap
    refine ⟨fun _ => ⟨hclean, hnodup, ?_⟩, hempty.1, hprojects, rfl⟩
    rw [hsame]
    cases hbody : body.utterances with
    | none => exact Nat.le_of_lt (by decide : 1 < 1000)
    | some utterances => exact hshort dir body rfl utterances hbody
  | agentMedia hrow =>
    subst hrow
    exact ⟨fun _ => hempty, hempty.1, List.nodup_nil, rfl⟩
  | agentMeeting hinitial hrow =>
    subst hrow
    refine ⟨fun _ => ⟨?_, List.nodup_singleton _, Nat.succ_le_succ (Nat.zero_le 999)⟩, hempty.1,
      nodup_eraseDups _, rfl⟩
    intro u hu
    rw [List.mem_singleton] at hu
    exact hu ▸ clean_of_modelValidate hinitial
  | agentDocument hrow =>
    subst hrow
    exact ⟨fun _ => hempty, hempty.1, nodup_eraseDups _, rfl⟩

end

/-- Every meeting that awaits review can be saved back as it is shown, in every run from a short
creation in which every transcription that ends is legible. -/
theorem savesBack_of_legibly {env : Env Id H} {ids : SourceIds Id} {creation : Creation Id}
    {source : Source Id H} {scheduling : Scheduling} {now : Nat} {s : State Id H}
    (hcreate : create env ids creation = .ok (source, scheduling)) (hshort : Short creation)
    (hrun : RunOf (step env) Legibly (State.created source scheduling now) s)
    (hkind : s.source.kind = .meeting) (hstate : s.source.reviewState = some .awaitingReview) :
    SavesBack s.source := by
  have hall := RunOf.invariant (P := fun s => Coherent creation.IsMedia s ∧ Presentable s.source)
    ?_ hrun ⟨coherent_created hcreate, ?_⟩
  · exact hall.2.savesBack hkind hstate
  · rintro mid e next ⟨hcoherent, hpresentable⟩ hlegibly hstep
    exact ⟨hcoherent.step hstep, hpresentable.step hcoherent hlegibly hstep⟩
  · unfold State.created
    rw [scheduled_source]
    exact (created_of_create hcreate).presentable hshort

/-- A recording is transcribed into one utterance of two seconds. -/
theorem savesBack_of_legibly_speech : ∃ s : State Text PlainDigest,
    s.source.reviewState = some .awaitingReview ∧ s.source.reviewUtterances.length = 1 ∧
      SavesBack s.source := by
  obtain ⟨source, scheduling, s, hcreate, hlater, hkind, hstate, hlength⟩ :=
    exists_plainReplay (plainEnv .celery true) (plainRecording none)
      [.deliver false, .enter, .act (.transcribe plainSpeech)]
      (fun s => s.source.kind = .meeting ∧ s.source.reviewState = some .awaitingReview ∧
        s.source.reviewUtterances.length = 1) (by decide +kernel)
  have hlegible : plainSpeech.Legible := by
    refine ⟨by decide, ?_, by decide⟩
    intro item hitem
    obtain rfl := List.mem_singleton.mp (List.mem_of_mem_filter hitem)
    exact ⟨by decide, by decide, by decide⟩
  have hrun : RunOf (step (plainEnv .celery true)) Legibly
      (State.created source scheduling 0) s := by
    refine runOf_replay ?_ hlater
    rintro mid e he body rfl
    simp only [List.mem_cons, List.not_mem_nil, or_false, reduceCtorEq, false_or,
      Event.act.injEq, Action.transcribe.injEq] at he
    subst he
    exact ⟨hlegible, fun _ => by decide⟩
  exact ⟨s, hstate, hlength,
    savesBack_of_legibly hcreate (by rintro _ _ ⟨⟩) hrun hkind hstate⟩

omit [DecidableEq H] in
theorem isOk_of_savesBack {source : Source Id H} (h : SavesBack source) :
    (getReview source).isOk = true := by
  obtain ⟨review, hreview, -⟩ := h
  rw [hreview]
  rfl

/-- A segment that ends before it starts makes the review unreadable. -/
theorem not_savesBack_reversed : ¬ ∀ s : State Text PlainDigest,
    Reachable (plainEnv .celery true) s → s.source.kind = .meeting →
    s.source.reviewState = some .awaitingReview → SavesBack s.source := by
  intro h
  obtain ⟨s, -, hreached, hkind, hstate, hunreadable⟩ :=
    exists_plainRun (plainEnv .celery true) (plainRecording none)
      [.deliver false, .enter,
        .act (.transcribe ⟨"We ship.".toList, some 2, [plainSegment "We ship." 2 1]⟩)]
      (fun s => s.source.kind = .meeting ∧ s.source.reviewState = some .awaitingReview ∧
        (getReview s.source).isOk = false) (by decide +kernel)
  have hsaves := h s (reachable_iff.mpr ⟨_, hreached⟩) hkind hstate
  rw [isOk_of_savesBack hsaves] at hunreadable
  cases hunreadable

end Maeglagi.Sources
