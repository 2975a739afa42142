import Maeglagi.Drafts.Merged

/-!
# The speakers of a capture

The list of the speakers is never empty and has no speaker twice, and it has the current speaker
and the speaker of every row, also when speakers are removed and rows are merged again.
-/

namespace Maeglagi.Drafts

open Core

variable {K : Type} [DecidableEq K]

theorem addMember_cases (lower : JsString → JsString)
    (state : List (MeetingSpeaker K) × List K × List JsString) (person : RosterPerson K) :
    addMember lower state person = state ∨
      person.id ∉ state.2.1 ∧ ∃ emails, addMember lower state person =
        (state.1 ++ [⟨person.id, person.name⟩], state.2.1 ++ [person.id], emails) := by
  obtain ⟨next, seen, seenEmails⟩ := state
  simp only [addMember]
  split_ifs with hseen
  · exact .inl rfl
  · rw [not_or] at hseen
    exact .inr ⟨hseen.1, _, rfl⟩

/-- A roster adds speakers behind those of a list, each once. -/
theorem foldl_addMember (lower : JsString → JsString) (roster : List (RosterPerson K))
    (state : List (MeetingSpeaker K) × List K × List JsString)
    (hseen : state.2.1 = state.1.map MeetingSpeaker.id)
    (hnodup : (state.1.map MeetingSpeaker.id).Nodup) :
    state.1 <+: (roster.foldl (addMember lower) state).1 ∧
      ((roster.foldl (addMember lower) state).1.map MeetingSpeaker.id).Nodup := by
  induction roster generalizing state with
  | nil => exact ⟨List.prefix_refl _, hnodup⟩
  | cons person rest ih =>
    rw [List.foldl_cons]
    rcases addMember_cases lower state person with heq | ⟨hnew, emails, heq⟩
    · rw [heq]
      exact ih state hseen hnodup
    · rw [heq]
      have hadded : ((state.1 ++ [(⟨person.id, person.name⟩ : MeetingSpeaker K)]).map
          MeetingSpeaker.id).Nodup := by
        rw [List.map_append, ← hseen, List.nodup_append]
        refine ⟨hseen ▸ hnodup, List.nodup_singleton _, fun a ha b hb heq => hnew ?_⟩
        rw [List.map_singleton, List.mem_singleton] at hb
        have hid : a = person.id := heq.trans hb
        exact hid ▸ ha
      obtain ⟨hstarts, hlater⟩ :=
        ih (state.1 ++ [⟨person.id, person.name⟩], state.2.1 ++ [person.id], emails)
          (by simp [hseen]) hadded
      exact ⟨(List.prefix_append _ _).trans hstarts, hlater⟩

/-- Removing a speaker leaves a list of different speakers that has everyone who is referred to. -/
theorem removeSpeaker_referred {speakers : List (MeetingSpeaker K)} {rows : List (LiveTurn K)}
    {current removedId replacementId : K} (hnodup : (speakers.map MeetingSpeaker.id).Nodup)
    (hcurrent : current ∈ speakers.map MeetingSpeaker.id)
    (hrows : ∀ row ∈ rows, row.speaker ∈ speakers.map MeetingSpeaker.id)
    (hfresh : replacementId ∉ speakers.map MeetingSpeaker.id) :
    let result := removeSpeaker speakers rows current removedId replacementId
    (result.speakers.map MeetingSpeaker.id).Nodup ∧
      result.currentSpeaker ∈ result.speakers.map MeetingSpeaker.id ∧
      ∀ row ∈ result.rows, row.speaker ∈ result.speakers.map MeetingSpeaker.id := by
  unfold removeSpeaker
  split
  · exact ⟨hnodup, hcurrent, hrows⟩
  · next index hindex =>
    dsimp only
    generalize hothers : (speakers.filter fun speaker => speaker.id ≠ removedId) = others
    have hmem : ∀ id, id ∈ others.map MeetingSpeaker.id ↔
        id ∈ speakers.map MeetingSpeaker.id ∧ id ≠ removedId := by
      intro id
      subst hothers
      simp only [List.mem_map, List.mem_filter, decide_eq_true_eq]
      constructor
      · rintro ⟨speaker, ⟨hspeaker, hne⟩, rfl⟩
        exact ⟨⟨speaker, hspeaker, rfl⟩, hne⟩
      · rintro ⟨⟨speaker, hspeaker, rfl⟩, hne⟩
        exact ⟨speaker, ⟨hspeaker, hne⟩, rfl⟩
    have hdistinct : (others.map MeetingSpeaker.id).Nodup :=
      hothers ▸ hnodup.sublist (List.filter_sublist.map _)
    by_cases hneeded : 0 < (rows.filter fun row => row.speaker = removedId).length ∨
        current = removedId ∨ speakers.length = 1
    · rw [if_pos hneeded]
      dsimp only
      have hperm : ((others.take index ++ ⟨replacementId, nextLocalSpeakerName speakers⟩ ::
          others.drop index).map MeetingSpeaker.id).Perm
            (replacementId :: others.map MeetingSpeaker.id) := by
        have hmiddle : (others.take index ++ ⟨replacementId, nextLocalSpeakerName speakers⟩ ::
            others.drop index).Perm (⟨replacementId, nextLocalSpeakerName speakers⟩ ::
              (others.take index ++ others.drop index)) := List.perm_middle
        rw [List.take_append_drop] at hmiddle
        exact hmiddle.map _
      refine ⟨hperm.nodup_iff.mpr (List.nodup_cons.mpr ⟨?_, hdistinct⟩), hperm.mem_iff.mpr ?_,
        fun row hrow => hperm.mem_iff.mpr ?_⟩
      · exact fun hin => hfresh ((hmem _).mp hin).1
      · split_ifs with hsame
        · exact List.mem_cons_self
        · exact List.mem_cons_of_mem _ ((hmem _).mpr ⟨hcurrent, hsame⟩)
      · obtain ⟨before, hbefore, rfl⟩ := List.mem_map.mp hrow
        unfold reassign
        split_ifs with hsame
        · exact List.mem_cons_self
        · exact List.mem_cons_of_mem _ ((hmem _).mpr ⟨hrows before hbefore, hsame⟩)
    · rw [if_neg hneeded]
      rw [not_or, not_or] at hneeded
      obtain ⟨hnone, hother, -⟩ := hneeded
      refine ⟨hdistinct, (hmem _).mpr ⟨hcurrent, hother⟩, fun row hrow => ?_⟩
      refine (hmem _).mpr ⟨hrows row hrow, fun hsame => hnone (List.length_pos_iff.mpr ?_)⟩
      exact List.ne_nil_of_mem (List.mem_filter.mpr ⟨hrow, by simpa using hsame⟩)

namespace Capture

variable {s s' : Capture K} {e : CaptureEvent K}

/-- The speakers differ, and every speaker that is referred to is one of them. -/
structure Referred (s : Capture K) : Prop where
  nodup : s.speakerIds.Nodup
  current : s.speaker ∈ s.speakerIds
  rows : ∀ row ∈ s.rows, row.speaker ∈ s.speakerIds

omit [DecidableEq K] in
theorem referred_initial (first : K) : (initial first).Referred where
  nodup := List.nodup_singleton _
  current := List.mem_singleton_self _
  rows := by simp [initial, Capture.rows]

omit [DecidableEq K] in
/-- More speakers, all different. -/
theorem Referred.of_prefix {speakers : List (MeetingSpeaker K)} (h : s.Referred)
    (hstarts : s.speakers <+: speakers) (hnodup : (speakers.map MeetingSpeaker.id).Nodup) :
    ({ s with speakers } : Capture K).Referred := by
  have hsub : s.speakerIds ⊆ speakers.map MeetingSpeaker.id := (hstarts.map _).subset
  exact ⟨hnodup, hsub h.current, fun row hrow => hsub (h.rows row hrow)⟩

theorem Referred.addRoster (h : s.Referred) (lower : JsString → JsString)
    (roster directory : List (RosterPerson K)) :
    ({ s with speakers := addRoster lower s.speakers roster directory } : Capture K).Referred := by
  obtain ⟨hstarts, hnodup⟩ := foldl_addMember lower roster
    (s.speakers, s.speakers.map MeetingSpeaker.id,
      (directory.filter fun person => person.id ∈ s.speakers.map MeetingSpeaker.id).filterMap
        (emailKey lower)) rfl h.nodup
  exact h.of_prefix hstarts hnodup

omit [DecidableEq K] in
/-- Other rows, whose speakers are in the list. -/
theorem Referred.of_rows (h : s.Referred) (hspeakers : s'.speakers = s.speakers)
    (hspeaker : s'.speaker = s.speaker) (hrows : ∀ row ∈ s'.rows, row.speaker ∈ s.speakerIds) :
    s'.Referred := by
  have hids : s'.speakerIds = s.speakerIds := by rw [speakerIds, speakerIds, hspeakers]
  exact ⟨hids ▸ h.nodup, by rw [hids, hspeaker]; exact h.current, hids ▸ hrows⟩

theorem Referred.deleteSpeaker (h : s.Referred) {id replacementId : K}
    (hfresh : replacementId ∉ s.speakerIds) : (s.deleteSpeaker id replacementId).Referred := by
  obtain ⟨hnodup, hcurrent, hrows⟩ :=
    @removeSpeaker_referred K _ s.speakers s.rows s.speaker id replacementId h.nodup h.current
      h.rows hfresh
  refine ⟨hnodup, hcurrent, fun row hrow => ?_⟩
  cases hdraft : s.draft with
  | none => simp [Capture.rows, Capture.deleteSpeaker, hdraft] at hrow
  | some rows =>
    refine hrows row ?_
    simpa [Capture.rows, Capture.deleteSpeaker, hdraft] using hrow

omit [DecidableEq K] in
theorem speakers_of_start {now : Rat} {started restarted : Bool}
    (h : s.start now started restarted = some s') :
    s'.speakers = s.speakers ∧ s'.speaker = s.speaker := by
  unfold Capture.start at h
  by_cases hbusy : (started && s.listening) = true
  · rw [if_pos hbusy] at h
    cases h
  · rw [if_neg hbusy] at h
    obtain rfl := Option.some.inj h
    exact ⟨rfl, rfl⟩

omit [DecidableEq K] in
/-- A merge gives a new row to the current speaker. -/
theorem Referred.result (h : s.Referred) {i : Nat} {now : Rat} {results : List RecognitionResult}
    (hstep : s.result i now results = some s') : s'.Referred := by
  have hsame : s'.speakers = s.speakers ∧ s'.speaker = s.speaker := by
    simp only [Capture.result, Option.bind_eq_bind, Option.bind_eq_some_iff] at hstep
    obtain ⟨before, -, hstep⟩ := hstep
    obtain rfl := Option.some.inj hstep
    exact ⟨rfl, rfl⟩
  obtain ⟨-, -, -, incoming, hrows, -⟩ := incoming_result hstep
  refine h.of_rows hsame.1 hsame.2 fun row hrow => ?_
  rw [hrows] at hrow
  rcases mem_mergeTranscript hrow with ⟨before, hbefore, hkept⟩ | ⟨-, segment, -, rfl⟩
  · exact (keptTurn_cases hkept).2.1 ▸ h.rows before hbefore
  · exact h.current

/-- Every event keeps the references. -/
theorem Referred.step {lower : JsString → JsString} (h : s.Referred) (hfresh : s.Fresh e)
    (hstep : s.step lower e = some s') : s'.Referred := by
  cases e with
  | start now started restarted =>
    obtain ⟨hrows, -⟩ := start_eq_some hstep
    obtain ⟨hspeakers, hspeaker⟩ := speakers_of_start hstep
    exact h.of_rows hspeakers hspeaker fun row hrow => h.rows row (hrows ▸ hrow)
  | result i now results => exact h.result hstep
  | ended seconds =>
    simp only [Capture.step] at hstep
    split_ifs at hstep
    obtain rfl := Option.some.inj hstep
    exact h.of_rows rfl rfl h.rows
  | update id text speaker =>
    simp only [Capture.step] at hstep
    split_ifs at hstep with hoffered
    obtain rfl := Option.some.inj hstep
    refine h.of_rows rfl rfl fun row hrow => ?_
    rw [rows_update] at hrow
    obtain ⟨before, hbefore, rfl⟩ := List.mem_map.mp hrow
    split_ifs
    · cases speaker with
      | none => exact h.rows before hbefore
      | some k => exact hoffered k rfl
    · exact h.rows before hbefore
  | delete id =>
    simp only [Capture.step] at hstep
    split_ifs at hstep
    obtain rfl := Option.some.inj hstep
    refine h.of_rows rfl rfl fun row hrow => ?_
    simp only [Capture.rows, rows_filter] at hrow
    exact h.rows row (List.mem_filter.mp hrow).1
  | addTurn =>
    obtain rfl := Option.some.inj hstep
    refine h.of_rows rfl rfl fun row hrow => ?_
    rcases List.mem_append.mp hrow with hrow | hrow
    · exact h.rows row hrow
    · exact List.mem_singleton.mp hrow ▸ h.current
  | pickSpeaker id =>
    simp only [Capture.step] at hstep
    split_ifs at hstep with hid
    obtain rfl := Option.some.inj hstep
    exact ⟨h.nodup, hid, h.rows⟩
  | addPerson directory person =>
    simp only [Capture.step] at hstep
    split_ifs at hstep
    · obtain rfl := Option.some.inj hstep
      exact h
    · obtain rfl := Option.some.inj hstep
      exact h.addRoster lower [person] directory
  | loadProjectPeople directory roster =>
    obtain rfl := Option.some.inj hstep
    exact h.addRoster lower roster directory
  | addLocalSpeaker id name =>
    obtain rfl := Option.some.inj hstep
    refine h.of_prefix (List.prefix_append _ _) ?_
    rw [List.map_append, List.nodup_append]
    refine ⟨h.nodup, List.nodup_singleton _, fun a ha b hb heq => hfresh ?_⟩
    rw [List.map_singleton, List.mem_singleton] at hb
    have hid : a = id := heq.trans hb
    exact hid ▸ ha
  | renameSpeaker id name =>
    obtain rfl := Option.some.inj hstep
    have hids : (s.speakers.map fun speaker => if speaker.id = id then { speaker with name }
        else speaker).map MeetingSpeaker.id = s.speakerIds := by
      rw [List.map_map]
      refine List.map_congr_left fun speaker _ => ?_
      simp only [Function.comp_apply]
      split_ifs
      · rfl
      · rfl
    refine ⟨?_, ?_, fun row hrow => ?_⟩
    · simpa only [speakerIds, hids] using h.nodup
    · simpa only [speakerIds, hids] using h.current
    · simpa only [speakerIds, hids] using h.rows row hrow
  | deleteSpeaker id replacementId =>
    obtain rfl := Option.some.inj hstep
    exact h.deleteSpeaker hfresh

omit [DecidableEq K] in
theorem Referred.speakers_ne_nil (h : s.Referred) : s.speakers ≠ [] := by
  intro hnil
  have hcurrent := h.current
  rw [speakerIds, hnil] at hcurrent
  cases hcurrent

/-- In every state of a capture the references to speakers are valid, and removing a speaker
changes no words. -/
theorem referred_of_run {lower : JsString → JsString} (first : K)
    (h : RunOf (Capture.step lower) Fresh (initial first) s) :
    s.speakers ≠ [] ∧ s.Referred ∧ ∀ id replacementId s',
      s.step lower (.deleteSpeaker id replacementId) = some s' →
        s'.rows.map (fun row => (row.id, row.text)) =
          s.rows.map fun row => (row.id, row.text) := by
  have hreferred : s.Referred :=
    h.invariant (fun _ _ _ hs hfresh hstep => hs.step hfresh hstep) (referred_initial first)
  refine ⟨hreferred.speakers_ne_nil, hreferred, fun id replacementId s' hstep => ?_⟩
  obtain rfl := Option.some.inj hstep
  obtain ⟨f, hf, hsame⟩ := rows_deleteSpeaker s id replacementId
  rw [hf, List.map_map]
  refine List.map_congr_left fun row _ => ?_
  obtain ⟨hid, htext, -⟩ := hsame row
  simp only [Function.comp_apply, hid, htext]

/-- A speaker is added and speaks; removing the first one, whose row is edited, leaves a local one. -/
theorem referred_replaced : ∃ s : Capture Nat,
    s.speakerIds = [8, 7] ∧ s.rows.map (fun row => row.speaker) = [8, 7] ∧
      s.speakers ≠ [] ∧ s.Referred ∧ ∀ id replacementId s',
        s.step (fun email => email) (.deleteSpeaker id replacementId) = some s' →
          s'.rows.map (fun row => (row.id, row.text)) =
            s.rows.map fun row => (row.id, row.text) := by
  have hrun : ∃ s : Capture Nat,
      RunOf (Capture.step fun email => email) Fresh (initial 1) s ∧
        s.speakerIds = [8, 7] ∧ s.rows.map (fun row => row.speaker) = [8, 7] := by
    refine ⟨_, .head ⟨.start 0 true false, trivial, rfl⟩
      (.head ⟨.result 0 1 [⟨codeUnits "a".toList, true⟩], trivial, rfl⟩
      (.head ⟨.addPerson [] ⟨7, codeUnits "Lee".toList, none⟩, trivial, rfl⟩
      (.head ⟨.pickSpeaker 7, trivial, rfl⟩
      (.head ⟨.addTurn, trivial, rfl⟩
      (.head ⟨.deleteSpeaker 1 8, ?_, rfl⟩ .refl))))), by decide, by decide⟩
    show 8 ∉ _
    decide
  obtain ⟨s, hrun, hids, hrows⟩ := hrun
  exact ⟨s, hids, hrows, referred_of_run 1 hrun⟩

end Capture

end Maeglagi.Drafts
