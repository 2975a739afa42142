import Maeglagi.Drafts.Dialog
import Maeglagi.Sources.Edits
import Maeglagi.Sources.Transcription

/-!
# The ids of a draft

The rows of a dialog are saved under distinct ids as long as no row is added under a number
whose id a loaded row has. A page that is loaded again counts from the start, so that the first
new row may get the id of a row that was added before.
-/

namespace Maeglagi.Drafts

open Core Sources

variable {Id H : Type} [DecidableEq Id]

/-- Rows of different numbers get different ids. -/
theorem natAbs_eq_of_manualId_eq {a b : Int} (h : manualId a = manualId b) :
    a.natAbs = b.natAbs := by
  have hdigits : Nat.toDigits 10 a.natAbs = Nat.toDigits 10 b.natAbs := List.append_cancel_left h
  rw [← Nat.ofDigitChars_ten_toDigits (n := a.natAbs), hdigits, Nat.ofDigitChars_ten_toDigits]

theorem strip_manualId (id : Int) : strip (manualId id) = manualId id :=
  strip_append_digits (by decide) id.natAbs

omit [DecidableEq Id] in
/-- The number of a row reads the id of its utterance. -/
theorem get?_servedIds (utterances : List (Utterance Id)) (k : Int) :
    (servedIds utterances).get? k =
      if 0 < k then utterances[(k - 1).toNat]?.map Utterance.id else none := by
  induction utterances using List.reverseRecOn with
  | nil => simp [servedIds]
  | append_singleton us u ih =>
    rw [servedIds] at ih ⊢
    rw [List.zipIdx_append, List.foldl_append]
    simp only [List.zipIdx_cons, List.zipIdx_nil, List.foldl_cons, List.foldl_nil, Dict.get?_set, ih]
    by_cases hk : k = (us.length : Int) + 1
    · subst hk
      have hidx : ((us.length : Int) + 1 - 1).toNat = us.length := by omega
      rw [if_pos (by omega), if_pos (by omega), hidx, List.getElem?_append_right (Nat.le_refl _)]
      simp
    · rw [if_neg (by omega)]
      split
      · next hpos =>
        by_cases hlt : (k - 1).toNat < us.length
        · rw [List.getElem?_append_left hlt]
        · rw [List.getElem?_eq_none (by omega), List.getElem?_eq_none (by simp; omega)]
      · rfl

omit [DecidableEq Id] in
/-- Served rows are saved under the ids they were served with. -/
theorem map_utteranceId_servedRows (keyOf : Utterance Id → SpeakerKey Id) (keepPerson : Bool)
    (utterances : List (Utterance Id)) :
    (servedRows keyOf keepPerson utterances).map (utteranceId (servedIds utterances)) =
      utterances.map Utterance.id := by
  refine List.ext_getElem? fun i => ?_
  simp only [servedRows, List.getElem?_map, List.getElem?_mapIdx, Option.map_map]
  cases hu : utterances[i]? with
  | none => rfl
  | some u =>
    have hidx : ((i : Int) + 1 - 1).toNat = i := by omega
    simp only [Option.map_some, Function.comp_apply, utteranceId, get?_servedIds, hidx, hu]
    rw [if_pos (by omega)]
    rfl

/-- The ids of the utterances of a meeting, as the server reads them, are distinct. -/
def Meeting.Distinct (m : Meeting Id H) : Prop :=
  (m.source.reviewUtterances.map fun u => strip u.id).Nodup ∧
    (m.source.rawUtterances.map fun u => strip u.id).Nodup

omit [DecidableEq Id] in
/-- What the server shows of such a meeting has distinct ids without outer blanks. -/
theorem Meeting.Distinct.served {m : Meeting Id H} (h : m.Distinct) {review : ReviewResponse Id}
    (hreview : getReview m.source = .ok review) :
    ((review.utterances.map Utterance.id).Nodup ∧
      ∀ u ∈ review.utterances, strip u.id = u.id) ∧
    (review.rawUtterances.map Utterance.id).Nodup ∧
      ∀ u ∈ review.rawUtterances, strip u.id = u.id := by
  simp only [getReview, reviewPayload, bind_eq_ok, require_eq_ok, pure_eq_ok] at hreview
  obtain ⟨-, -, utterances, hutterances, raw, hraw, rfl⟩ := hreview
  have hlist : ∀ l : List (Utterance Id), (l.map fun u => strip u.id).Nodup →
      ((l.map Utterance.stripped).map Utterance.id).Nodup ∧
        ∀ u ∈ l.map Utterance.stripped, strip u.id = u.id := by
    intro l hl
    refine ⟨by rwa [List.map_map], fun u hu => ?_⟩
    obtain ⟨u, -, rfl⟩ := List.mem_map.mp hu
    exact strip_strip u.id
  rw [eq_map_stripped_of_mapM hutterances, eq_map_stripped_of_mapM hraw]
  exact ⟨hlist _ h.1, hlist _ h.2⟩

namespace Dialog

variable {d : Dialog Id}

/-- The ids under which the rows are saved. -/
def ids (d : Dialog Id) : List Text := d.rows.map (utteranceId d.idMap)

theorem map_id_utterances (d : Dialog Id) : d.utterances.map Utterance.id = d.ids := by
  rw [utterances, reviewUtterances, List.map_map]
  rfl

/-- A row of the dialog was served, or it was added and has a number that was used up. -/
structure Numbered (d : Dialog Id) : Prop where
  next : d.nextId < 0
  served : ∀ k id, d.idMap.get? k = some id → 0 < k ∧ strip id = id
  rows : ∀ row ∈ d.rows, (∃ id, d.idMap.get? row.id = some id) ∨ d.nextId < row.id ∧ row.id < 0
  distinct : d.ids.Nodup
  raw : ∀ review, d.review = some review → (review.rawUtterances.map Utterance.id).Nodup ∧
    ∀ u ∈ review.rawUtterances, strip u.id = u.id

omit [DecidableEq Id] in
theorem numbered_mounted : (mounted : Dialog Id).Numbered := by
  refine ⟨Int.negSucc_lt_zero 0, fun k id h => ?_, by simp [mounted], by simp [mounted, ids],
    fun review h => ?_⟩
  · cases h
  · cases h

omit [DecidableEq Id] in
/-- The rows of served utterances. -/
theorem numbered_served {utterances : List (Utterance Id)} (keyOf : Utterance Id → SpeakerKey Id)
    (keepPerson : Bool) (hnext : d.nextId < 0)
    (hrows : d.rows = servedRows keyOf keepPerson utterances) (hids : d.idMap = servedIds utterances)
    (hdistinct : (utterances.map Utterance.id).Nodup)
    (hstripped : ∀ u ∈ utterances, strip u.id = u.id)
    (hraw : ∀ review, d.review = some review → (review.rawUtterances.map Utterance.id).Nodup ∧
      ∀ u ∈ review.rawUtterances, strip u.id = u.id) : d.Numbered := by
  refine ⟨hnext, fun k id h => ?_, fun row hrow => .inl ?_, ?_, hraw⟩
  · rw [hids, get?_servedIds] at h
    split at h
    · next hpos =>
      obtain ⟨u, hu, rfl⟩ := Option.map_eq_some_iff.mp h
      exact ⟨hpos, hstripped u (List.mem_of_getElem? hu)⟩
    · cases h
  · rw [hrows, servedRows] at hrow
    obtain ⟨i, hi, rfl⟩ := List.mem_mapIdx.mp hrow
    have hidx : ((i : Int) + 1 - 1).toNat = i := by omega
    rw [hids, get?_servedIds, if_pos (by simp)]
    simp only [hidx, List.getElem?_eq_getElem hi, Option.map_some]
    exact ⟨_, rfl⟩
  · rw [ids, hrows, hids, map_utteranceId_servedRows]
    exact hdistinct

omit [DecidableEq Id] in
/-- A new row keeps the ids distinct exactly if no loaded row has the id of its number. -/
theorem Numbered.nodup_add_iff (h : d.Numbered) :
    d.add.ids.Nodup ↔ ∀ row ∈ d.rows, d.idMap.get? row.id ≠ some (manualId d.nextId) := by
  have hnone : d.idMap.get? d.nextId = none := by
    by_contra hsome
    obtain ⟨id, hid⟩ := Option.ne_none_iff_exists'.mp hsome
    have hpos := (h.served _ _ hid).1
    have hneg := h.next
    omega
  have hids : d.add.ids = d.ids ++ [manualId d.nextId] := by
    rw [ids, add, List.map_append, ids]
    simp [utteranceId, hnone]
  rw [hids, List.nodup_append]
  have hmem : manualId d.nextId ∈ d.ids ↔
      ∃ row ∈ d.rows, d.idMap.get? row.id = some (manualId d.nextId) := by
    rw [ids, List.mem_map]
    refine ⟨?_, ?_⟩
    · rintro ⟨row, hrow, heq⟩
      refine ⟨row, hrow, ?_⟩
      rcases h.rows row hrow with ⟨id, hid⟩ | ⟨hlt, hneg⟩
      · rw [utteranceId, hid] at heq
        exact hid.trans (congrArg some heq)
      · have hrownone : d.idMap.get? row.id = none := by
          by_contra hsome
          obtain ⟨id, hid⟩ := Option.ne_none_iff_exists'.mp hsome
          have hpos := (h.served _ _ hid).1
          omega
        rw [utteranceId, hrownone] at heq
        have hnat := natAbs_eq_of_manualId_eq heq
        have hnext := h.next
        omega
    · rintro ⟨row, hrow, heq⟩
      exact ⟨row, hrow, by rw [utteranceId, heq]; rfl⟩
  constructor
  · rintro ⟨-, -, hdisjoint⟩ row hrow heq
    exact hdisjoint _ (hmem.mpr ⟨row, hrow, heq⟩) _ (List.mem_singleton_self _) rfl
  · intro hfresh
    refine ⟨h.distinct, List.nodup_singleton _, fun a ha b hb heq => ?_⟩
    rw [List.mem_singleton] at hb
    obtain ⟨row, hrow, hget⟩ := hmem.mp ((heq.trans hb) ▸ ha)
    exact hfresh row hrow hget

omit [DecidableEq Id] in
theorem Numbered.add (h : d.Numbered)
    (hfresh : ∀ row ∈ d.rows, d.idMap.get? row.id ≠ some (manualId d.nextId)) :
    d.add.Numbered := by
  have hnext := h.next
  refine ⟨?_, h.served, fun row hrow => ?_, h.nodup_add_iff.mpr hfresh, h.raw⟩
  · simp only [Dialog.add]
    omega
  · simp only [Dialog.add, List.mem_append, List.mem_singleton] at hrow ⊢
    rcases hrow with hrow | rfl
    · refine (h.rows row hrow).imp_right fun hnum => ?_
      omega
    · right
      dsimp only
      omega

omit [DecidableEq Id] in
/-- The rows of a dialog are changed under their numbers, or removed. -/
theorem Numbered.of_rows {rows : List (TranscriptTurn Id)} (h : d.Numbered)
    (hids : (rows.map TranscriptTurn.id).Sublist (d.rows.map TranscriptTurn.id)) :
    ({ d with rows, dirty := true } : Dialog Id).Numbered := by
  have hread : ∀ rows : List (TranscriptTurn Id), rows.map (utteranceId d.idMap) =
      (rows.map TranscriptTurn.id).map fun id => (d.idMap.get? id).getD (manualId id) := by
    intro rows
    rw [List.map_map]
    rfl
  refine ⟨h.next, h.served, fun row hrow => ?_, ?_, h.raw⟩
  · obtain ⟨row', hrow', heq⟩ := List.mem_map.mp (hids.subset (List.mem_map_of_mem hrow))
    exact heq ▸ h.rows row' hrow'
  · have hnodup := h.distinct
    simp only [ids, hread] at hnodup ⊢
    exact hnodup.sublist (hids.map _)

omit [DecidableEq Id] in
theorem Numbered.change (h : d.Numbered) (id : Int) (speaker : Option (SpeakerKey Id))
    (text : Option Text) : (d.change id speaker text).Numbered := by
  have hids : (d.rows.map fun row => if row.id = id then
      { row with speaker := speaker.getD row.speaker, text := text.getD row.text } else row).map
      TranscriptTurn.id = d.rows.map TranscriptTurn.id := by
    rw [List.map_map]
    refine List.map_congr_left fun row _ => ?_
    simp only [Function.comp_apply]
    split
    · rfl
    · rfl
  exact h.of_rows (hids ▸ List.Sublist.refl _)

omit [DecidableEq Id] in
theorem Numbered.delete (h : d.Numbered) (id : Int) : (d.delete id).Numbered :=
  h.of_rows (List.filter_sublist.map _)

theorem Numbered.loaded {m : Meeting Id H} {review : ReviewResponse Id} (h : d.Numbered)
    (hm : m.Distinct) (hreview : getReview m.source = .ok review)
    (roster : List (WorkspacePerson Id)) (suggested : List Id) :
    (d.loaded review roster suggested).Numbered := by
  obtain ⟨⟨hids, hstripped⟩, hraw⟩ := hm.served hreview
  refine numbered_served _ true h.next rfl rfl hids hstripped fun review' heq => ?_
  cases heq
  exact hraw

omit [DecidableEq Id] in
theorem Numbered.replaceFromRaw (h : d.Numbered) : d.replaceFromRaw.Numbered := by
  unfold Dialog.replaceFromRaw
  split
  · exact h
  · next review hreview =>
    split
    · exact h
    · obtain ⟨hids, hstripped⟩ := h.raw review hreview
      exact numbered_served _ false h.next rfl rfl hids hstripped h.raw

end Dialog

/-- The proviso: who else writes the meeting stores distinct ids. -/
def SessionEvent.Stores : SessionEvent Id H → Prop
  | .written meeting => meeting.Distinct
  | _ => True

/-- No loaded row has the id that a new row would get. -/
def Session.FreshAdd (s : Session Id H) : SessionEvent Id H → Prop
  | .add => ∀ row ∈ s.dialog.rows, s.dialog.idMap.get? row.id ≠ some (manualId s.dialog.nextId)
  | _ => True

/-- Every version of the meeting has distinct ids, and so have the rows of the dialog. -/
structure Session.Sound (s : Session Id H) : Prop where
  versions : ∀ m ∈ s.meeting :: s.earlier, m.Distinct
  dialog : s.dialog.Numbered

omit [DecidableEq Id] in
theorem eq_validation_of_modelValidate {request : ReviewPatch Id} {e : ApiError}
    (h : request.modelValidate = .error e) : e = .validation := by
  simp only [ReviewPatch.modelValidate, bind_eq_error, require_eq_error] at h
  rcases h with ⟨-, rfl⟩ | ⟨_, -, hmap | ⟨_, -, hdone⟩⟩
  · rfl
  · obtain ⟨u, -, hu⟩ := exists_of_mapM_eq_error hmap
    simp only [reviewUtterance, Utterance.modelValidate] at hu
    split_ifs at hu
    · exact (Except.error.inj hu).symm
    · exact (Except.error.inj hu).symm
  · cases hdone

/-- A draft whose ids are distinct up to outer blanks is not refused for duplicate ids. -/
theorem not_duplicate_of_nodup {dir : Directory Id} {source : Source Id H}
    {request : ReviewPatch Id} (h : (request.utterances.map fun u => strip u.id).Nodup) :
    saveReview dir source request ≠ .error (.http 422 "Duplicate utterance ID") := by
  intro heq
  simp only [saveReview, bind_eq_error, require_eq_error] at heq
  rcases heq with hvalid | ⟨body, hbody, ⟨-, hkind⟩ | ⟨_, -, ⟨-, hstate⟩ | ⟨_, -, ⟨-, hrevision⟩ |
    ⟨_, -, hunique | ⟨_, -, ⟨-, hprimary⟩ | ⟨_, -, hpeople | ⟨_, -, hprojects | ⟨_, -, hdone⟩⟩⟩⟩⟩⟩⟩⟩
  · exact absurd (eq_validation_of_modelValidate hvalid) (by simp)
  · simp at hkind
  · simp at hstate
  · simp at hrevision
  · -- the ids that are compared are the stripped ones
    simp only [ReviewPatch.modelValidate, bind_eq_ok, pure_eq_ok] at hbody
    obtain ⟨-, -, checked, hchecked, rfl⟩ := hbody
    have hnodup : ((request.utterances.map Utterance.stripped).map Utterance.id).Nodup := by
      rwa [List.map_map]
    rw [eq_map_stripped_of_mapM hchecked, validateUniqueUtterances, if_pos hnodup] at hunique
    cases hunique
  · simp at hprimary
  · obtain ⟨id, -, hid⟩ := exists_of_mapM_eq_error hpeople
    split at hid
    · cases hid
    · simp at hid
  · simp only [replaceProjects, bind_eq_error, require_eq_error] at hprojects
    rcases hprojects with ⟨-, hdup⟩ | ⟨_, -, hrefs | ⟨_, -, hdone⟩⟩
    · simp at hdup
    · obtain ⟨id, -, hid⟩ := exists_of_mapM_eq_error hrefs
      split at hid
      · cases hid
      · simp at hid
    · cases hdone
  · cases hdone

namespace Session

variable {s s' : Session Id H}

omit [DecidableEq Id] in
theorem Sound.write (h : s.Sound) {m : Meeting Id H} (hm : m.Distinct) : (s.write m).Sound :=
  ⟨List.forall_mem_cons.mpr ⟨hm, h.versions⟩, h.dialog⟩

omit [DecidableEq Id] in
theorem Sound.of_dialog (h : s.Sound) {d : Dialog Id} (hd : d.Numbered) :
    ({ s with dialog := d } : Session Id H).Sound := ⟨h.versions, hd⟩

/-- A save stores the ids of the request, which are distinct if it is accepted. -/
theorem Sound.save {answered : Bool} (h : s.Sound) (hstep : s.save answered = some s') :
    s'.Sound := by
  simp only [Session.save, Option.bind_eq_bind, Option.bind_eq_some_iff] at hstep
  obtain ⟨request, -, hstep⟩ := hstep
  cases hsave : saveReview s.meeting.directory s.meeting.source request with
  | error error =>
    rw [hsave] at hstep
    dsimp only at hstep
    split at hstep
    · cases hstep
      exact h.of_dialog ⟨h.dialog.next, h.dialog.served, h.dialog.rows, h.dialog.distinct,
        h.dialog.raw⟩
    · cases hstep
      exact h
  | ok source =>
    have hdistinct : Meeting.Distinct { s.meeting with source } := by
      obtain ⟨-, -, -, -, utterances, ids, revision, hmap, hnodup, -, rfl⟩ := saveReview_eq_ok hsave
      refine ⟨?_, (h.versions _ (List.mem_cons_self ..)).2⟩
      have hstripped := eq_map_stripped_of_mapM hmap
      subst hstripped
      simp only [List.map_map] at hnodup ⊢
      convert hnodup using 2
      funext u
      exact strip_strip u.id
    rw [hsave] at hstep
    dsimp only at hstep
    split at hstep
    · next review hreview =>
      cases hstep
      obtain ⟨-, hraw⟩ := hdistinct.served hreview
      refine (h.write hdistinct).of_dialog ⟨h.dialog.next, h.dialog.served, h.dialog.rows,
        h.dialog.distinct, fun review' heq => ?_⟩
      cases heq
      exact hraw
    · cases hstep
      exact h.write hdistinct

/-- Every event keeps the ids distinct while the new rows are fresh. -/
theorem Sound.step {event : SessionEvent Id H} (h : s.Sound) (hstores : event.Stores)
    (hfresh : s.FreshAdd event) (hstep : s.step event = some s') : s'.Sound := by
  have hversion : ∀ {n : Nat} {m : Meeting Id H}, s.version n = some m → m.Distinct :=
    fun hm => h.versions _ (List.mem_of_getElem? hm)
  have hsame : ∀ d : Dialog Id, d.rows = s.dialog.rows → d.idMap = s.dialog.idMap →
      d.nextId = s.dialog.nextId → d.review = s.dialog.review → d.Numbered := by
    intro d hrows hmap hnext hreview
    have hd := h.dialog
    refine ⟨hnext ▸ hd.next, hmap ▸ hd.served, ?_, ?_, hreview ▸ hd.raw⟩
    · rw [hrows, hmap, hnext]
      exact hd.rows
    · rw [Dialog.ids, hrows, hmap]
      exact hd.distinct
  cases event with
  | reloadPage =>
    cases hstep
    exact h.of_dialog Dialog.numbered_mounted
  | otherMeeting adds =>
    cases hstep
    have hnext := h.dialog.next
    have hd : (Dialog.mounted : Dialog Id).Numbered := Dialog.numbered_mounted
    refine h.of_dialog ⟨?_, hd.served, by simp [Dialog.mounted], hd.distinct, hd.raw⟩
    dsimp only
    omega
  | load version suggested =>
    simp only [Session.step, Option.bind_eq_bind, Option.bind_eq_some_iff] at hstep
    obtain ⟨m, hm, hstep⟩ := hstep
    split at hstep
    · next review hreview =>
      cases hstep
      exact h.of_dialog (h.dialog.loaded (hversion hm) hreview _ _)
    · cases hstep
      exact h
  | recovered version =>
    simp only [Session.step, Option.bind_eq_bind, Option.bind_eq_some_iff] at hstep
    obtain ⟨m, hm, hstep⟩ := hstep
    split at hstep
    · next review hreview =>
      cases hstep
      obtain ⟨-, hraw⟩ := (hversion hm).served hreview
      refine h.of_dialog ⟨h.dialog.next, h.dialog.served, h.dialog.rows, h.dialog.distinct,
        fun review' heq => ?_⟩
      cases heq
      exact hraw
    · cases hstep
      exact h
  | add =>
    cases hstep
    exact h.of_dialog (h.dialog.add hfresh)
  | change id speaker text =>
    cases hstep
    exact h.of_dialog (h.dialog.change id speaker text)
  | delete id =>
    cases hstep
    exact h.of_dialog (h.dialog.delete id)
  | replaceFromRaw =>
    cases hstep
    exact h.of_dialog h.dialog.replaceFromRaw
  | pickSpeaker id =>
    cases hstep
    exact h.of_dialog (hsame _ rfl rfl rfl rfl)
  | addSpeaker time name =>
    cases hstep
    refine h.of_dialog ?_
    rw [Dialog.addSpeaker]
    split
    · exact h.dialog
    · exact hsame _ rfl rfl rfl rfl
  | renameSpeaker id name =>
    cases hstep
    exact h.of_dialog (hsame _ rfl rfl rfl rfl)
  | pickProjects ids =>
    cases hstep
    exact h.of_dialog (hsame _ rfl rfl rfl rfl)
  | save answered => exact h.save hstep
  | written m =>
    cases hstep
    exact h.write hstores

/-- While no row is added under a number whose id a loaded row has, the ids of each save request
are distinct and the server does not refuse it for them. The next new row keeps them distinct
exactly under this condition. -/
theorem draft_ids_distinct {meeting : Meeting Id H} (hmeeting : meeting.Distinct)
    (hrun : RunOf Session.step (fun s event => event.Stores ∧ s.FreshAdd event)
      (Session.start meeting) s) :
    (∀ request, s.dialog.saveRequest = some request →
      (request.utterances.map Utterance.id).Nodup ∧
      saveReview s.meeting.directory s.meeting.source request ≠
        .error (.http 422 "Duplicate utterance ID")) ∧
    ((s.dialog.add.utterances.map Utterance.id).Nodup ↔ s.FreshAdd .add) := by
  have hsound : s.Sound :=
    hrun.invariant (fun _ _ _ h hok hstep => h.step hok.1 hok.2 hstep)
      ⟨by simpa [Session.start] using hmeeting, Dialog.numbered_mounted⟩
  refine ⟨fun request hrequest => ?_, ?_⟩
  · have hutterances : request.utterances = s.dialog.utterances := by
      rw [Dialog.saveRequest] at hrequest
      split at hrequest
      · cases hrequest
      · split at hrequest
        · cases hrequest
          rfl
        · cases hrequest
    have hids : request.utterances.map Utterance.id = s.dialog.ids := by
      rw [hutterances, Dialog.map_id_utterances]
    have hstripped : request.utterances.map (fun u => strip u.id) = s.dialog.ids := by
      rw [← hids]
      refine List.map_congr_left fun u hu => ?_
      have hmem : u.id ∈ s.dialog.ids := hids ▸ List.mem_map_of_mem hu
      obtain ⟨row, -, hrow⟩ := List.mem_map.mp hmem
      rw [← hrow, utteranceId]
      cases hget : s.dialog.idMap.get? row.id with
      | none => exact strip_manualId row.id
      | some id => exact (hsound.dialog.served _ _ hget).2
    exact ⟨hids ▸ hsound.dialog.distinct, not_duplicate_of_nodup (hstripped ▸ hsound.dialog.distinct)⟩
  · rw [Dialog.map_id_utterances]
    exact hsound.dialog.nodup_add_iff

end Session

/-- A meeting that awaits its review and has no utterance yet. -/
def emptyDraft : Meeting Text Unit :=
  ⟨{ Source.new ⟨"s".toList, "w".toList, "o".toList⟩ .meeting "Weekly".toList "weekly".toList 1 with
    reviewState := some .awaitingReview }, ⟨[], [], []⟩⟩

theorem distinct_emptyDraft : emptyDraft.Distinct := ⟨List.nodup_nil, List.nodup_nil⟩

namespace Session

/-- The first row of an empty draft is saved under an id of its own. -/
theorem draft_ids_distinct_once : ∃ s, replay Session.step (start emptyDraft) [.load 0 [], .add] =
    some s ∧
    (∀ request, s.dialog.saveRequest = some request →
      (request.utterances.map Utterance.id).Nodup ∧
      saveReview s.meeting.directory s.meeting.source request ≠
        .error (.http 422 "Duplicate utterance ID")) ∧
    ((s.dialog.add.utterances.map Utterance.id).Nodup ↔ s.FreshAdd .add) := by
  have hload : ((start emptyDraft).step (.load 0 [])).map (·.dialog.rows) = some [] := by
    decide +kernel
  obtain ⟨s, hs, hrows⟩ := Option.map_eq_some_iff.mp hload
  have hfresh : s.FreshAdd .add := by simp [FreshAdd, hrows]
  refine ⟨{ s with dialog := s.dialog.add }, by rw [replay, hs]; rfl, ?_⟩
  exact draft_ids_distinct distinct_emptyDraft
    (.tail (.single ⟨.load 0 [], ⟨trivial, trivial⟩, hs⟩) ⟨.add, ⟨trivial, hfresh⟩, rfl⟩)

end Session

/-- A row is added and saved; the page is loaded again, and another row is added. -/
def twoVisits : List (SessionEvent Text Unit) :=
  [.load 0 [], .add, .save true, .reloadPage, .load 0 [], .add]

/-- Both rows are saved under one id, and the server refuses the draft. -/
theorem draft_ids_duplicate :
    ¬∀ (meeting : Meeting Text Unit) (s : Session Text Unit), meeting.Distinct →
      RunOf Session.step (fun _ event => event.Stores) (Session.start meeting) s →
      ∀ request, s.dialog.saveRequest = some request →
        (request.utterances.map Utterance.id).Nodup ∧
        saveReview s.meeting.directory s.meeting.source request ≠
          .error (.http 422 "Duplicate utterance ID") := by
  intro hall
  have hids : (replay Session.step (Session.start emptyDraft) twoVisits).bind
      (fun s => s.dialog.saveRequest.map fun request => request.utterances.map Utterance.id) =
        some ["manual-1".toList, "manual-1".toList] := by decide +kernel
  obtain ⟨s, hs, hrequest⟩ := Option.bind_eq_some_iff.mp hids
  obtain ⟨request, hrequest, hsame⟩ := Option.map_eq_some_iff.mp hrequest
  have hstores : ∀ _ : Session Text Unit, ∀ event ∈ twoVisits, event.Stores := by
    simp [twoVisits, SessionEvent.Stores]
  have hnodup := (hall emptyDraft s distinct_emptyDraft (runOf_replay hstores hs) request hrequest).1
  rw [hsame] at hnodup
  exact absurd hnodup (by decide)

end Maeglagi.Drafts
