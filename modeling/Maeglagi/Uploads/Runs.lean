import Maeglagi.Uploads.Transfers

/-!
# Runs of the upload queue

The uploads as the user starts, cancels, retries and dismisses them, and what the rows show after
any run.
-/

namespace Maeglagi.Uploads

open Core

variable {B J : Type}

/-- A row shows a job exactly when it is uploaded, and an error exactly when it failed. -/
def UploadItem.Settled (item : UploadItem J) : Prop :=
  (item.status = .uploaded ↔ item.job.isSome) ∧
    (item.status = .failed ↔ item.errorMessage.isSome)

namespace Queue

variable {s s' : Queue B J} {i id : ℕ} {waiting : Set ℕ} {content : Content B}

/-! ## Uploads -/

/-- The rows of the documents are new, and their files are kept. -/
theorem Sound.enqueueDocuments (h : s.Sound waiting) (accepted : List (Picked B)) :
    (s.enqueueDocuments accepted).1.Sound
        (waiting ∪ { i | i ∈ (s.enqueueDocuments accepted).2.map Prod.fst }) ∧
      ((s.enqueueDocuments accepted).2.map Prod.fst).Nodup ∧
      (∀ row ∈ (s.enqueueDocuments accepted).2, s.sequence < row.1 ∧
        (s.enqueueDocuments accepted).1.retries row.1 = some (.document row.2)) ∧
      ∀ i ≤ s.sequence, (s.enqueueDocuments accepted).1.retries i = s.retries i := by
  induction accepted generalizing s waiting with
  | nil => exact ⟨by simpa [Queue.enqueueDocuments] using h, List.nodup_nil, nofun, fun _ _ => rfl⟩
  | cons file files ih =>
    obtain ⟨-, -, hrecorded, hapart⟩ := h.next
    have hrow : ((s.enqueue file.name file.size none true).keepRetry (s.sequence + 1)
        (.document file.content)).Sound (insert (s.sequence + 1) waiting) :=
      (h.enqueue file.name file.size none true).keepRetry le_rfl hapart
        fun audio hi => absurd hi (hrecorded audio)
    obtain ⟨hsound, hnodup, hrows, hkept⟩ := ih hrow
    have hold {i : ℕ} (hi : i ≤ s.sequence) :
        ((s.enqueue file.name file.size none true).keepRetry (s.sequence + 1)
          (.document file.content)).retries i = s.retries i := by
      rw [retries_keepRetry, if_neg (by omega)]
      rfl
    refine ⟨?_, List.nodup_cons.mpr ⟨fun hmem => ?_, hnodup⟩, ?_, ?_⟩
    · have hset (ids : List ℕ) : waiting ∪ { i | i ∈ (s.sequence + 1) :: ids } =
          insert (s.sequence + 1) waiting ∪ { i | i ∈ ids } := by
        ext i
        simp only [List.mem_cons, Set.mem_union, Set.mem_insert_iff, Set.mem_ofPred_eq]
        tauto
      exact hset _ ▸ hsound
    · obtain ⟨row, hmem, hrow⟩ := List.mem_map.mp hmem
      have hlt : s.sequence + 1 < row.1 := (hrows row hmem).1
      omega
    · intro row hmem
      rcases List.mem_cons.mp hmem with rfl | hmem
      · exact ⟨Nat.lt_succ_self _, (hkept _ le_rfl).trans (Function.update_self ..)⟩
      · exact ⟨(Nat.lt_succ_self _).trans (hrows row hmem).1, (hrows row hmem).2⟩
    · exact fun i hi => (hkept i (hi.trans (Nat.le_succ _))).trans (hold hi)

/-- Then their transfers begin. -/
theorem Sound.startDocuments {rows : List (ℕ × B)}
    (h : s.Sound { i | i ∈ rows.map Prod.fst }) (hnodup : (rows.map Prod.fst).Nodup)
    (hkept : ∀ row ∈ rows, s.retries row.1 = some (.document row.2)) :
    (s.startDocuments rows).Sound ∅ := by
  induction rows generalizing s with
  | nil => simpa [Queue.startDocuments] using h
  | cons row rows ih =>
    rw [List.map_cons, List.nodup_cons] at hnodup
    obtain ⟨hstatus, hfree, hapart⟩ := h.waiting row.1 (List.mem_cons_self ..)
    have hrecorded (audio : B) (hi : s.recordingItems audio = some row.1) :
        Content.document row.2 = .recording audio :=
      (h.recorded audio row.1 hi).2.2.2 _ (hkept row (List.mem_cons_self ..))
    have hstarted := h.start hstatus hfree hapart hrecorded
    refine ih ?_ hnodup.2 fun row' hmem => hkept row' (List.mem_cons_of_mem _ hmem)
    convert hstarted using 1
    ext i
    simp only [List.map_cons, List.mem_cons, Set.mem_sdiff, Set.mem_ofPred_eq,
      Set.mem_singleton_iff]
    constructor
    · intro hi
      refine ⟨.inr hi, ?_⟩
      rintro rfl
      exact hnodup.1 hi
    · rintro ⟨hi | hi, hne⟩
      · exact absurd hi hne
      · exact hi

theorem Sound.uploadDocuments (h : s.Sound ∅) (accepted : List (Picked B)) :
    (s.uploadDocuments accepted).Sound ∅ := by
  obtain ⟨hsound, hnodup, hrows, -⟩ := h.enqueueDocuments accepted
  rw [Set.empty_union] at hsound
  exact hsound.startDocuments hnodup fun row hmem => (hrows row hmem).2

/-- The audio of a recording is not being sent. -/
def Free (s : Queue B J) (audio : B) : Prop :=
  ∀ id, s.recordingItems audio = some id → s.controllers id = none

theorem Sound.uploadRecording [DecidableEq B] (h : s.Sound ∅) {audio : Picked B}
    (hfree : s.Free audio.content) (durationSeconds : ℕ) (ownedByCaller : Bool) :
    (s.uploadRecording audio durationSeconds ownedByCaller).Sound ∅ := by
  unfold Queue.uploadRecording
  by_cases hsize : audio.size = 0
  · rwa [if_pos hsize]
  rw [if_neg hsize]
  dsimp only
  cases hitem : s.recordingItems audio.content with
  | some id =>
    dsimp only
    obtain ⟨⟨status, hstatus, -⟩, hapart, -⟩ := h.recorded _ id hitem
    have hrecorded (audio' : B) (hi : s.recordingItems audio' = some id) :
        Content.recording audio.content = .recording audio' := by
      rw [h.recordedOnce _ _ id hitem hi]
    have hid : id ≤ s.sequence := h.known id (by rw [hstatus]; exact Option.some_ne_none _)
    rw [← Set.empty_sdiff {id}]
    split_ifs
    · exact h.start hstatus (hfree id hitem) hapart hrecorded
    · exact (h.keepRetry hid hapart hrecorded).start hstatus (hfree id hitem) hapart hrecorded
  | none =>
    dsimp only
    obtain ⟨hsent, hretried, hnone, hapart⟩ := h.next
    have hrow := h.enqueue audio.name audio.size
      (if durationSeconds = 0 then none else some durationSeconds) (!ownedByCaller)
    obtain ⟨hstatus, hcontroller, -⟩ := hrow.waiting _ (Set.mem_insert ..)
    have htaken := hrow.record audio.content hstatus UploadItemStatus.noConfusion
      hsent hretried hnone hapart
    have hrecorded (audio' : B)
        (hi : Function.update s.recordingItems audio.content (some (s.sequence + 1)) audio' =
          some (s.sequence + 1)) :
        Content.recording audio.content = .recording audio' := by
      rw [Function.update_apply] at hi
      split_ifs at hi with heq
      · rw [heq]
      · exact absurd hi (hnone audio')
    have hall : insert (s.sequence + 1) (∅ : Set ℕ) \ {s.sequence + 1} = ∅ := by simp
    rw [← hall]
    cases ownedByCaller
    · exact (htaken.keepRetry le_rfl hapart hrecorded).start hstatus hcontroller hapart hrecorded
    · exact htaken.start hstatus hcontroller hapart hrecorded

theorem Sound.uploadTranscript (h : s.Sound ∅) (fileName : JsString) (sizeBytes : ℕ)
    (durationSeconds : Option ℕ) :
    (s.uploadTranscript fileName sizeBytes durationSeconds).Sound ∅ := by
  unfold Queue.uploadTranscript
  cases hfailed : s.failedTranscriptItem with
  | none =>
    dsimp only
    obtain ⟨hsent, hretried, hrecorded, hapart⟩ := h.next
    have hrow := h.enqueue fileName sizeBytes durationSeconds false
    obtain ⟨hstatus, -⟩ := hrow.waiting _ (Set.mem_insert ..)
    have hidle : ¬ s.Transcribing (s.sequence + 1) := by
      rintro ⟨t, transcript, ht, -, hid⟩
      exact hapart ⟨transcript, List.mem_of_getElem? ht, hid⟩
    have hall : insert (s.sequence + 1) (∅ : Set ℕ) \ {s.sequence + 1} = ∅ := by simp
    rw [← hall]
    refine hrow.transcribe hstatus hsent hretried hrecorded hidle rfl (fun i => ?_) hfailed
    split_ifs with hi
    · exact hi ▸ hstatus
    · rfl
  | some id =>
    dsimp only
    obtain ⟨hstatus, htranscribed⟩ := h.failing id hfailed
    have hsent (transfer : Transfer B) (htransfer : transfer ∈ s.transfers) :
        transfer.id ≠ id := fun hid => h.apart transfer htransfer (hid ▸ htranscribed)
    have hretried : s.retries id = none := by
      cases hkept : s.retries id with
      | none => rfl
      | some content => exact absurd htranscribed (h.retried id content hkept).2
    have hrecorded (audio : B) : s.recordingItems audio ≠ some id := fun hi =>
      (h.recorded audio id hi).2.1 htranscribed
    have hidle : ¬ s.Transcribing id := fun hi => by
      cases hstatus.symm.trans (h.transcribing id hi)
    let change (item : UploadItem J) : UploadItem J := { started item with
      fileName := fileName, sizeBytes := sizeBytes, durationSeconds := durationSeconds }
    have hids : (s.patch id change).items.map (·.id) = s.items.map (·.id) :=
      ids_patch (s := s) fun _ => rfl
    rw [← Set.empty_sdiff {id}]
    refine h.transcribe hstatus hsent hretried hrecorded hidle hids (fun i => ?_) rfl
    have hpatch : (s.patch id change).statusOf i =
        if i = id then (s.statusOf i).map fun _ => .uploading else s.statusOf i :=
      statusOf_patch (fun _ => rfl) fun _ => rfl
    refine hpatch.trans ?_
    split_ifs with hi
    · rw [hi, hstatus, Option.map_some]
    · rfl

theorem Sound.retry (h : s.Sound ∅) (hknown : s.statusOf id ≠ none) :
    (s.retry id).Sound ∅ := by
  unfold Queue.retry
  cases hfree : s.controllers id with
  | some t => exact h
  | none =>
    cases hkept : s.retries id with
    | none => exact h
    | some content =>
      obtain ⟨status, hstatus⟩ := Option.ne_none_iff_exists'.mp hknown
      rw [← Set.empty_sdiff {id}]
      exact h.start hstatus hfree (h.retried id content hkept).2
        fun audio hi => (h.recorded audio id hi).2.2.2 content hkept

/-- Who asks to upload a recording again waits until its transfer ended. -/
def Timely (s : Queue B J) : Happening B J → Prop
  | .recording audio _ _ => s.Free audio.content
  | _ => True

/-- The button that a row shows says what its status is. -/
theorem Sound.shows (h : s.Sound waiting) {allows : UploadItem J → Bool}
    (hshows : s.Shows id allows) :
    ∃ item ∈ s.items, item.id = id ∧ allows item = true ∧ s.statusOf id = some item.status := by
  obtain ⟨item, hmem, rfl, hallows⟩ := hshows
  exact ⟨item, hmem, rfl, hallows, statusOf_item h.nodup hmem⟩

/-! ## What the rows show -/

/-- The rows show what happened, and a row that offers a retry has its task. -/
def Shown (s : Queue B J) : Prop :=
  ∀ item ∈ s.items, item.Settled ∧ (item.canRetry = true → (s.retries item.id).isSome)

theorem shown_patch (h : s.Shown) {change : UploadItem J → UploadItem J}
    (hid : ∀ item, (change item).id = item.id)
    (hretry : ∀ item, (change item).canRetry = item.canRetry)
    (hsettled : ∀ item ∈ s.items, item.id = id → item.Settled → (change item).Settled) :
    (s.patch id change).Shown := by
  intro item hmem
  obtain ⟨before, hbefore, rfl⟩ := List.mem_map.mp hmem
  split_ifs with heq
  · rw [hretry, hid]
    exact ⟨hsettled before hbefore heq (h before hbefore).1, (h before hbefore).2⟩
  · exact h before hbefore

theorem shown_enqueue (h : s.Shown) {fileName : JsString} {sizeBytes : ℕ}
    {durationSeconds : Option ℕ} {canRetry : Bool} {retries : ℕ → Option (Content B)}
    (hkept : ∀ i, (s.retries i).isSome → (retries i).isSome)
    (hnew : canRetry = true → (retries (s.sequence + 1)).isSome) :
    Shown { s.enqueue fileName sizeBytes durationSeconds canRetry with retries := retries } := by
  intro item hmem
  rcases List.mem_cons.mp hmem with rfl | hmem
  · exact ⟨by simp [UploadItem.Settled], hnew⟩
  · exact ⟨(h item hmem).1, fun hretry => hkept _ ((h item hmem).2 hretry)⟩

theorem isSome_keepRetry (h : (s.retries i).isSome) :
    ((s.keepRetry id content).retries i).isSome := by
  rw [retries_keepRetry]
  split_ifs
  · rfl
  · exact h

theorem shown_keepRetry (h : s.Shown) : (s.keepRetry id content).Shown :=
  fun item hmem => ⟨(h item hmem).1, fun hretry => isSome_keepRetry ((h item hmem).2 hretry)⟩

/-- A row whose transfer begins was not uploaded. -/
theorem shown_start (h : s.Shown) (hnodup : (s.items.map (·.id)).Nodup)
    (hunsent : s.statusOf id ≠ some .uploaded) : (s.start id content).Shown := by
  refine shown_patch h (fun _ => rfl) (fun _ => rfl) fun item hmem hid hsettled => ?_
  have hne : item.status ≠ .uploaded := fun heq =>
    hunsent (by rw [← hid, statusOf_item hnodup hmem, heq])
  have hjob : item.job.isSome = false :=
    Bool.eq_false_iff.mpr fun hjob => hne (hsettled.1.mpr hjob)
  constructor <;> simp [started, hjob]

theorem settled_received {item : UploadItem J} {aborted : Bool} {sent : Sent J}
    (h : item.Settled) (huploading : item.status = .uploading) :
    (received aborted sent item).Settled := by
  obtain ⟨hjob, hmessage⟩ := h
  rw [huploading] at hjob hmessage
  have hjob : item.job.isSome = false := Bool.eq_false_iff.mpr fun h => by cases hjob.mpr h
  have hmessage : item.errorMessage.isSome = false :=
    Bool.eq_false_iff.mpr fun h => by cases hmessage.mpr h
  unfold received
  cases sent with
  | resolved job => constructor <;> simp [hmessage]
  | rejected abortError message =>
    dsimp only
    split_ifs
    · constructor <;> simp [hjob]
    · constructor <;> simp [hjob]

theorem shown_enqueueDocuments {accepted : List (Picked B)} (h : s.Shown) :
    (s.enqueueDocuments accepted).1.Shown := by
  induction accepted generalizing s with
  | nil => exact h
  | cons file files ih =>
    refine ih (shown_enqueue h (fun i hkept => ?_) fun _ => ?_)
    · exact isSome_keepRetry (s := s) hkept
    · exact Option.isSome_of_eq_some (Function.update_self ..)

theorem shown_startDocuments {rows : List (ℕ × B)} (h : s.Shown)
    (hnodup : (s.items.map (·.id)).Nodup)
    (hrows : ∀ row ∈ rows, s.statusOf row.1 = some .uploading) :
    (s.startDocuments rows).Shown := by
  induction rows generalizing s with
  | nil => exact h
  | cons row rows ih =>
    have hids : (s.start row.1 (.document row.2)).items.map (·.id) = s.items.map (·.id) :=
      ids_patch (s := s) fun item => (rfl : (started item).id = item.id)
    have hfirst := hrows row (List.mem_cons_self ..)
    refine ih (shown_start h hnodup ?_) (hids ▸ hnodup) fun row' hmem => ?_
    · rw [hfirst]
      exact fun heq => by cases heq
    · rw [statusOf_start, hrows row' (List.mem_cons_of_mem _ hmem)]
      exact ite_self _

theorem shown_uploadDocuments (h : s.Sound ∅) (hshown : s.Shown) (accepted : List (Picked B)) :
    (s.uploadDocuments accepted).Shown := by
  obtain ⟨hsound, -⟩ := h.enqueueDocuments accepted
  refine shown_startDocuments (shown_enqueueDocuments hshown) hsound.nodup fun row hmem => ?_
  exact (hsound.waiting row.1 (.inr (List.mem_map_of_mem hmem))).1

theorem shown_uploadRecording [DecidableEq B] (h : s.Sound ∅) (hshown : s.Shown)
    {audio : Picked B} (durationSeconds : ℕ) (ownedByCaller : Bool) :
    (s.uploadRecording audio durationSeconds ownedByCaller).Shown := by
  unfold Queue.uploadRecording
  by_cases hsize : audio.size = 0
  · rwa [if_pos hsize]
  rw [if_neg hsize]
  dsimp only
  cases hitem : s.recordingItems audio.content with
  | some id =>
    dsimp only
    obtain ⟨⟨status, hstatus, hne⟩, -⟩ := h.recorded _ id hitem
    have hunsent : s.statusOf id ≠ some .uploaded := by
      rw [hstatus]
      exact fun heq => hne (Option.some.inj heq)
    split_ifs
    · exact shown_start hshown h.nodup hunsent
    · exact shown_start (shown_keepRetry hshown) h.nodup hunsent
  | none =>
    dsimp only
    have hrow := h.enqueue audio.name audio.size
      (if durationSeconds = 0 then none else some durationSeconds) (!ownedByCaller)
    have hunsent : (s.enqueue audio.name audio.size
        (if durationSeconds = 0 then none else some durationSeconds)
          (!ownedByCaller)).statusOf (s.sequence + 1) ≠ some .uploaded := by
      rw [statusOf_enqueue, if_pos rfl]
      exact fun heq => by cases heq
    cases ownedByCaller
    · refine shown_start (shown_enqueue hshown (fun i hkept => ?_) fun _ => ?_) hrow.nodup hunsent
      · exact isSome_keepRetry (s := s) hkept
      · exact Option.isSome_of_eq_some (Function.update_self ..)
    · exact shown_start (shown_enqueue hshown (fun _ hkept => hkept) nofun) hrow.nodup hunsent

theorem shown_uploadTranscript (h : s.Sound ∅) (hshown : s.Shown) (fileName : JsString)
    (sizeBytes : ℕ) (durationSeconds : Option ℕ) :
    (s.uploadTranscript fileName sizeBytes durationSeconds).Shown := by
  unfold Queue.uploadTranscript
  cases hfailed : s.failedTranscriptItem with
  | none => exact shown_enqueue hshown (fun _ hkept => hkept) nofun
  | some id =>
    obtain ⟨hstatus, -⟩ := h.failing id hfailed
    refine shown_patch hshown (fun _ => rfl) (fun _ => rfl) fun item hmem hid hsettled => ?_
    have hitem : item.status = .failed := by
      have := statusOf_item h.nodup hmem
      rw [hid, hstatus, Option.some.injEq] at this
      exact this.symm
    have hjob : item.job.isSome = false := Bool.eq_false_iff.mpr fun hjob => by
      cases hitem.symm.trans (hsettled.1.mpr hjob)
    constructor <;> simp [started, hjob]

theorem items_abort : (s.abort id).items = s.items := by
  unfold Queue.abort
  split <;> rfl

theorem retries_abort : (s.abort id).retries = s.retries := by
  unfold Queue.abort
  split <;> rfl

theorem shown_abort (h : s.Shown) : (s.abort id).Shown := by
  unfold Shown
  rw [items_abort, retries_abort]
  exact h

theorem shown_dismiss (h : s.Shown) : (s.dismiss id).Shown := by
  intro item hmem
  obtain ⟨hmem, hne⟩ := List.mem_filter.mp hmem
  refine ⟨(h item hmem).1, fun hretry => ?_⟩
  have hkept : (s.dismiss id).retries item.id = s.retries item.id :=
    Function.update_of_ne (of_decide_eq_true hne) ..
  exact hkept ▸ (h item hmem).2 hretry

theorem shown_finish [DecidableEq B] (h : s.Sound ∅) (hshown : s.Shown) {t : ℕ}
    {transfer : Transfer B} (ht : s.transfers[t]? = some transfer)
    (hlive : transfer.ended = false) (sent : Sent J) : (s.finish t transfer sent).Shown := by
  refine shown_patch hshown (fun _ => received_id) (fun _ => ?_) fun item hmem hid hsettled => ?_
  · unfold received
    split
    · rfl
    · split_ifs <;> rfl
  · have hstatus := statusOf_item h.nodup hmem
    rw [hid, (h.running t transfer ht hlive).2, Option.some.injEq] at hstatus
    exact settled_received hsettled hstatus.symm

theorem shown_finishTranscript (h : s.Sound ∅) (hshown : s.Shown) {t : ℕ}
    {transcript : Transcript} (ht : s.transcripts[t]? = some transcript)
    (hlive : transcript.ended = false) (sent : Sent J) :
    (s.finishTranscript t transcript sent).Shown := by
  have huploading {item : UploadItem J} (hmem : item ∈ s.items) (hid : item.id = transcript.id) :
      item.status = .uploading := by
    have hstatus := statusOf_item h.nodup hmem
    rw [hid, h.transcribing _ ⟨t, transcript, ht, hlive, rfl⟩, Option.some.injEq] at hstatus
    exact hstatus.symm
  unfold Queue.finishTranscript
  cases sent with
  | resolved job =>
    refine shown_patch hshown (fun _ => rfl) (fun _ => rfl) fun item hmem hid hsettled => ?_
    exact (settled_received hsettled (huploading hmem hid) :
      (received false (.resolved job) item).Settled)
  | rejected abortError message =>
    refine shown_patch hshown (fun _ => rfl) (fun _ => rfl) fun item hmem hid hsettled => ?_
    exact (settled_received hsettled (huploading hmem hid) :
      (received false (.rejected false message) item).Settled)

/-! ## Steps -/

variable [DecidableEq B] {e : Happening B J}

/-- What a step can do; the buttons say what the status of their row is. -/
inductive Stepped (s : Queue B J) : Happening B J → Queue B J → Prop
  | documents (accepted : List (Picked B)) :
    Stepped s (.documents accepted) (s.uploadDocuments accepted)
  | recording (audio : Picked B) (durationSeconds : ℕ) (ownedByCaller : Bool) :
    Stepped s (.recording audio durationSeconds ownedByCaller)
      (s.uploadRecording audio durationSeconds ownedByCaller)
  | transcript (fileName : JsString) (sizeBytes : ℕ) (durationSeconds : Option ℕ) :
    Stepped s (.transcript fileName sizeBytes durationSeconds)
      (s.uploadTranscript fileName sizeBytes durationSeconds)
  | cancel (id : ℕ) : Stepped s (.cancel id) (s.abort id)
  | retry {id : ℕ} {item : UploadItem J} (hmem : item ∈ s.items) (hid : item.id = id)
    (hretry : item.canRetry = true) (hstatus : item.status = .failed ∨ item.status = .cancelled) :
    Stepped s (.retry id) (s.retry id)
  | dismiss {id : ℕ} {status : UploadItemStatus} (hstatus : s.statusOf id = some status)
    (hidle : status ≠ .uploading) : Stepped s (.dismiss id) (s.dismiss id)
  | progress {t : ℕ} {transfer : Transfer B} (ratio : Rat)
    (ht : s.transfers[t]? = some transfer) (hlive : transfer.ended = false) :
    Stepped s (.progress t ratio)
      (s.patch transfer.id fun item => { item with progress := ratio })
  | late (t : ℕ) (ratio : Rat) : Stepped s (.progress t ratio) s
  | ends {t : ℕ} {transfer : Transfer B} (sent : Sent J)
    (ht : s.transfers[t]? = some transfer) (hlive : transfer.ended = false) :
    Stepped s (.ends t sent) (s.finish t transfer sent)
  | transcriptEnds {t : ℕ} {transcript : Transcript} (sent : Sent J)
    (ht : s.transcripts[t]? = some transcript) (hlive : transcript.ended = false) :
    Stepped s (.transcriptEnds t sent) (s.finishTranscript t transcript sent)

theorem stepped (hnodup : (s.items.map (·.id)).Nodup) (hstep : s.step e = some s') :
    s.Stepped e s' := by
  cases e with
  | documents accepted =>
    cases hstep
    exact .documents accepted
  | recording audio durationSeconds ownedByCaller =>
    cases hstep
    exact .recording audio durationSeconds ownedByCaller
  | transcript fileName sizeBytes durationSeconds =>
    cases hstep
    exact .transcript fileName sizeBytes durationSeconds
  | cancel id =>
    unfold step at hstep
    dsimp only at hstep
    split_ifs at hstep
    cases hstep
    exact .cancel id
  | retry id =>
    unfold step at hstep
    dsimp only at hstep
    split_ifs at hstep with hshows
    cases hstep
    obtain ⟨item, hmem, hid, hallows⟩ := hshows
    rw [Bool.and_eq_true, Bool.or_eq_true, decide_eq_true_iff, decide_eq_true_iff] at hallows
    exact .retry hmem hid hallows.1 hallows.2
  | dismiss id =>
    unfold step at hstep
    dsimp only at hstep
    split_ifs at hstep with hshows
    cases hstep
    obtain ⟨item, hmem, rfl, hidle⟩ := hshows
    exact .dismiss (statusOf_item hnodup hmem) (of_decide_eq_true hidle)
  | progress t ratio =>
    unfold step at hstep
    dsimp only at hstep
    split at hstep
    · cases hstep
    · rename_i transfer ht
      split_ifs at hstep with hended
      · cases hstep
        exact .progress ratio ht (Bool.eq_false_iff.mpr hended)
      · cases hstep
        exact .late t ratio
  | ends t sent =>
    unfold step at hstep
    dsimp only at hstep
    split at hstep
    · cases hstep
    · rename_i transfer ht
      split_ifs at hstep with hended
      cases hstep
      exact .ends sent ht (Bool.eq_false_iff.mpr hended)
  | transcriptEnds t sent =>
    unfold step at hstep
    dsimp only at hstep
    split at hstep
    · cases hstep
    · rename_i transcript ht
      split_ifs at hstep with hended
      cases hstep
      exact .transcriptEnds sent ht (Bool.eq_false_iff.mpr hended)

theorem Sound.step (h : s.Sound ∅) (htimely : s.Timely e) (hstep : s.step e = some s') :
    s'.Sound ∅ := by
  cases stepped h.nodup hstep with
  | documents accepted => exact h.uploadDocuments accepted
  | recording audio durationSeconds ownedByCaller =>
    exact h.uploadRecording htimely durationSeconds ownedByCaller
  | transcript fileName sizeBytes durationSeconds =>
    exact h.uploadTranscript fileName sizeBytes durationSeconds
  | cancel id => exact h.abort id
  | retry hmem hid hretry hstatus =>
    refine h.retry ?_
    rw [← hid, statusOf_item h.nodup hmem]
    exact Option.some_ne_none _
  | dismiss hstatus hidle =>
    refine h.dismiss fun huploading => hidle ?_
    rwa [hstatus, Option.some.injEq] at huploading
  | progress ratio ht hlive => exact h.progress
  | late t ratio => exact h
  | ends sent ht hlive => exact h.finish ht hlive sent
  | transcriptEnds sent ht hlive => exact h.finishTranscript ht hlive sent

omit [DecidableEq B] in
/-- A row that offers a retry was not uploaded. -/
theorem unsent_of_retry {item : UploadItem J} (hnodup : (s.items.map (·.id)).Nodup)
    (hmem : item ∈ s.items) (hstatus : item.status = .failed ∨ item.status = .cancelled) :
    s.statusOf item.id ≠ some .uploaded := by
  rw [statusOf_item hnodup hmem]
  rcases hstatus with hstatus | hstatus <;> rw [hstatus] <;> exact fun heq => by cases heq

theorem shown_step (h : s.Sound ∅) (hshown : s.Shown) (hstep : s.step e = some s') :
    s'.Shown := by
  cases stepped h.nodup hstep with
  | documents accepted => exact shown_uploadDocuments h hshown accepted
  | recording audio durationSeconds ownedByCaller =>
    exact shown_uploadRecording h hshown durationSeconds ownedByCaller
  | transcript fileName sizeBytes durationSeconds =>
    exact shown_uploadTranscript h hshown fileName sizeBytes durationSeconds
  | cancel id => exact shown_abort hshown
  | retry hmem hid hretry hstatus =>
    unfold Queue.retry
    split
    · exact shown_start hshown h.nodup (hid ▸ unsent_of_retry h.nodup hmem hstatus)
    · exact hshown
  | dismiss hstatus hidle => exact shown_dismiss hshown
  | progress ratio ht hlive =>
    exact shown_patch hshown (fun _ => rfl) (fun _ => rfl) fun _ _ _ hsettled => hsettled
  | late t ratio => exact hshown
  | ends sent ht hlive => exact shown_finish h hshown ht hlive sent
  | transcriptEnds sent ht hlive => exact shown_finishTranscript h hshown ht hlive sent

/-! ## A row that was uploaded -/

omit [DecidableEq B] in
theorem mem_patch {change : UploadItem J → UploadItem J} {item : UploadItem J}
    (hmem : item ∈ s.items) (hne : item.id ≠ id) : item ∈ (s.patch id change).items :=
  List.mem_map.mpr ⟨item, hmem, if_neg hne⟩

omit [DecidableEq B] in
theorem mem_enqueueDocuments {accepted : List (Picked B)} {item : UploadItem J}
    (hmem : item ∈ s.items) : item ∈ (s.enqueueDocuments accepted).1.items := by
  induction accepted generalizing s with
  | nil => exact hmem
  | cons file files ih => exact ih (List.mem_cons_of_mem _ hmem)

omit [DecidableEq B] in
theorem mem_startDocuments {rows : List (ℕ × B)} {item : UploadItem J} (hmem : item ∈ s.items)
    (hne : ∀ row ∈ rows, item.id ≠ row.1) : item ∈ (s.startDocuments rows).items := by
  induction rows generalizing s with
  | nil => exact hmem
  | cons row rows ih =>
    exact ih (mem_patch hmem (hne row (List.mem_cons_self ..)))
      fun row' hrow => hne row' (List.mem_cons_of_mem _ hrow)

/-- An uploaded row stays as it is until it is dismissed. -/
theorem uploaded_step (h : s.Sound ∅) (hstep : s.step e = some s') {item : UploadItem J}
    (hmem : item ∈ s.items) (huploaded : item.status = .uploaded)
    (hkept : e ≠ .dismiss item.id) : item ∈ s'.items := by
  have hstatus : s.statusOf item.id = some .uploaded := by
    rw [statusOf_item h.nodup hmem, huploaded]
  have hne {id : ℕ} (hother : s.statusOf id ≠ some .uploaded) : item.id ≠ id := by
    rintro rfl
    exact hother hstatus
  have hold : item.id ≤ s.sequence :=
    h.known item.id (by rw [hstatus]; exact Option.some_ne_none _)
  cases stepped h.nodup hstep with
  | documents accepted =>
    obtain ⟨-, -, hrows, -⟩ := h.enqueueDocuments accepted
    refine mem_startDocuments (mem_enqueueDocuments hmem) fun row hrow => ?_
    have := (hrows row hrow).1
    omega
  | recording audio durationSeconds ownedByCaller =>
    unfold Queue.uploadRecording
    by_cases hsize : audio.size = 0
    · rwa [if_pos hsize]
    rw [if_neg hsize]
    dsimp only
    cases hitem : s.recordingItems audio.content with
    | some id =>
      obtain ⟨⟨status, hid, hunsent⟩, -⟩ := h.recorded _ id hitem
      have hne := hne (by rw [hid]; exact fun heq => hunsent (Option.some.inj heq))
      dsimp only
      split_ifs <;> exact mem_patch hmem hne
    | none =>
      have hne : item.id ≠ s.sequence + 1 := by omega
      dsimp only
      cases ownedByCaller <;> exact mem_patch (List.mem_cons_of_mem _ hmem) hne
  | transcript fileName sizeBytes durationSeconds =>
    unfold Queue.uploadTranscript
    cases hfailed : s.failedTranscriptItem with
    | none => exact List.mem_cons_of_mem _ hmem
    | some id =>
      refine mem_patch hmem (hne ?_)
      rw [(h.failing id hfailed).1]
      exact fun heq => by cases heq
  | cancel id =>
    rw [items_abort]
    exact hmem
  | retry hretried hid hretry hidle =>
    unfold Queue.retry
    split
    · exact mem_patch hmem (hne (hid ▸ unsent_of_retry h.nodup hretried hidle))
    · exact hmem
  | dismiss hother hidle =>
    refine List.mem_filter.mpr ⟨hmem, decide_eq_true ?_⟩
    exact fun heq => hkept (by rw [heq])
  | progress ratio ht hlive =>
    refine mem_patch hmem (hne ?_)
    rw [(h.running _ _ ht hlive).2]
    exact fun heq => by cases heq
  | late t ratio => exact hmem
  | ends sent ht hlive =>
    refine mem_patch hmem (hne ?_)
    rw [(h.running _ _ ht hlive).2]
    exact fun heq => by cases heq
  | transcriptEnds sent ht hlive =>
    have hother : item.id ≠ _ := hne (by
      rw [h.transcribing _ ⟨_, _, ht, hlive, rfl⟩]
      exact fun heq => by cases heq)
    unfold Queue.finishTranscript
    split <;> exact mem_patch hmem hother

/-! ## Ids -/

/-- The numbers grow, and a row of the second queue is new or was there. -/
def Follows (s s' : Queue B J) : Prop :=
  s.sequence ≤ s'.sequence ∧
    ∀ i ∈ s'.items.map (·.id), i ∈ s.items.map (·.id) ∨ s.sequence < i

omit [DecidableEq B] in
theorem Follows.refl (s : Queue B J) : s.Follows s := ⟨le_rfl, fun _ => .inl⟩

omit [DecidableEq B] in
theorem Follows.trans {s'' : Queue B J} (h : s.Follows s') (h' : s'.Follows s'') :
    s.Follows s'' := by
  refine ⟨h.1.trans h'.1, fun i hi => ?_⟩
  rcases h'.2 i hi with hi | hi
  · exact h.2 i hi
  · exact .inr (h.1.trans_lt hi)

omit [DecidableEq B] in
theorem follows_of_ids (hsequence : s'.sequence = s.sequence)
    (hids : s'.items.map (·.id) = s.items.map (·.id)) : s.Follows s' :=
  ⟨hsequence.ge, fun _ hi => .inl (hids ▸ hi)⟩

omit [DecidableEq B] in
theorem follows_start : s.Follows (s.start id content) :=
  follows_of_ids rfl (ids_patch (s := s) fun item => (rfl : (started item).id = item.id))

omit [DecidableEq B] in
theorem follows_enqueue {fileName : JsString} {sizeBytes : ℕ} {durationSeconds : Option ℕ}
    {canRetry : Bool} :
    s.Follows (s.enqueue fileName sizeBytes durationSeconds canRetry) := by
  refine ⟨Nat.le_succ _, fun i hi => ?_⟩
  rcases List.mem_cons.mp hi with rfl | hi
  · exact .inr (Nat.lt_succ_self _)
  · exact .inl hi

omit [DecidableEq B] in
theorem follows_uploadDocuments {accepted : List (Picked B)} :
    s.Follows (s.uploadDocuments accepted) := by
  have henqueue {s : Queue B J} : s.Follows (s.enqueueDocuments accepted).1 := by
    induction accepted generalizing s with
    | nil => exact .refl s
    | cons file files ih =>
      have hrow : s.Follows ((s.enqueue file.name file.size none true).keepRetry (s.sequence + 1)
          (.document file.content)) := follows_enqueue (s := s)
      exact hrow.trans ih
  have hstart {s : Queue B J} (rows : List (ℕ × B)) : s.Follows (s.startDocuments rows) := by
    induction rows generalizing s with
    | nil => exact .refl s
    | cons row rows ih => exact follows_start.trans ih
  exact henqueue.trans (hstart _)

theorem follows_uploadRecording {audio : Picked B} {durationSeconds : ℕ}
    {ownedByCaller : Bool} :
    s.Follows (s.uploadRecording audio durationSeconds ownedByCaller) := by
  unfold Queue.uploadRecording
  by_cases hsize : audio.size = 0
  · rw [if_pos hsize]
    exact .refl s
  rw [if_neg hsize]
  dsimp only
  cases s.recordingItems audio.content with
  | some id =>
    have hstart : s.Follows (s.start id (.recording audio.content)) := follows_start
    cases ownedByCaller <;> exact hstart
  | none =>
    have hrow : s.Follows (s.enqueue audio.name audio.size
        (if durationSeconds = 0 then none else some durationSeconds) (!ownedByCaller)) :=
      follows_enqueue
    have hstart (s : Queue B J) (id : ℕ) : s.Follows (s.start id (.recording audio.content)) :=
      follows_start
    cases ownedByCaller <;> exact hrow.trans (hstart _ _)

omit [DecidableEq B] in
theorem follows_uploadTranscript {fileName : JsString} {sizeBytes : ℕ}
    {durationSeconds : Option ℕ} :
    s.Follows (s.uploadTranscript fileName sizeBytes durationSeconds) := by
  unfold Queue.uploadTranscript
  cases s.failedTranscriptItem with
  | none => exact follows_enqueue (s := s)
  | some id => exact follows_of_ids rfl (ids_patch (s := s) fun _ => rfl)

omit [DecidableEq B] in
theorem follows_abort : s.Follows (s.abort id) := by
  refine follows_of_ids ?_ (by rw [items_abort])
  unfold Queue.abort
  split <;> rfl

omit [DecidableEq B] in
theorem follows_dismiss : s.Follows (s.dismiss id) := by
  have habort : s.Follows (s.abort id) := follows_abort
  refine ⟨habort.1, fun i hi => .inl ?_⟩
  exact (List.filter_sublist.map _).subset hi

theorem follows_step (h : s.Sound ∅) (hstep : s.step e = some s') : s.Follows s' := by
  cases stepped h.nodup hstep with
  | documents accepted => exact follows_uploadDocuments
  | recording audio durationSeconds ownedByCaller => exact follows_uploadRecording
  | transcript fileName sizeBytes durationSeconds => exact follows_uploadTranscript
  | cancel id => exact follows_abort
  | retry hmem hid hretry hstatus =>
    unfold Queue.retry
    split
    · exact follows_start
    · exact .refl s
  | dismiss hstatus hidle => exact follows_dismiss
  | progress ratio ht hlive => exact follows_of_ids rfl (ids_patch (s := s) fun _ => rfl)
  | late t ratio => exact .refl s
  | ends sent ht hlive => exact follows_of_ids rfl (ids_patch (s := s) fun _ => received_id)
  | transcriptEnds sent ht hlive =>
    unfold Queue.finishTranscript
    split <;> exact follows_of_ids rfl (ids_patch (s := s) fun _ => rfl)

/-! ## Whole runs -/

theorem sound_reached (hrun : RunOf step Timely empty s) : s.Sound ∅ ∧ s.Shown := by
  refine hrun.invariant (P := fun s : Queue B J => s.Sound ∅ ∧ s.Shown) ?_ ⟨sound_empty, nofun⟩
  exact fun s e s' h htimely hstep =>
    ⟨h.1.step htimely hstep, shown_step h.1 h.2 hstep⟩

/-- Whatever was uploaded, cancelled, retried and dismissed so far: the rows have ids of their
own, a row shows as uploading exactly while one transfer or one transcript of it is under way,
its button cancels that transfer, and every retry that is offered begins a new one. -/
theorem rows_of_run (hrun : RunOf step Timely empty s) :
    (s.items.map (·.id)).Nodup ∧
      ∀ item ∈ s.items,
        (item.status = .uploading ↔ s.Sending item.id ∨ s.Transcribing item.id) ∧
        ¬ (s.Sending item.id ∧ s.Transcribing item.id) ∧
        (∀ (t t' : ℕ) (transfer transfer' : Transfer B),
          s.transfers[t]? = some transfer → s.transfers[t']? = some transfer' →
            transfer.ended = false → transfer'.ended = false →
              transfer.id = item.id → transfer'.id = item.id → t = t') ∧
        (∀ (t : ℕ) (transfer : Transfer B), s.transfers[t]? = some transfer →
          transfer.ended = false → transfer.id = item.id →
            ∃ s', s.step (.cancel item.id) = some s' ∧
              s'.transfers[t]? = some { transfer with aborted := true }) ∧
        item.Settled ∧
        (item.canRetry = true → item.status = .failed ∨ item.status = .cancelled →
          ∃ s', s.step (.retry item.id) = some s' ∧ s'.Sending item.id) := by
  obtain ⟨h, hshown⟩ := sound_reached hrun
  refine ⟨h.nodup, fun item hmem => ?_⟩
  have hstatus := statusOf_item h.nodup hmem
  have hsending : s.Sending item.id → item.status = .uploading := by
    rintro ⟨t, transfer, ht, hlive, hid⟩
    have huploading := (h.running t transfer ht hlive).2
    rw [hid, hstatus, Option.some.injEq] at huploading
    exact huploading
  refine ⟨⟨fun huploading => ?_, ?_⟩, ?_, ?_, ?_, (hshown item hmem).1, fun hretry hidle => ?_⟩
  · rw [huploading] at hstatus
    exact (h.uploading item.id hstatus).resolve_left (Set.notMem_empty _)
  · rintro (hi | hi)
    · exact hsending hi
    · exact Option.some.inj (hstatus.symm.trans (h.transcribing item.id hi))
  · rintro ⟨⟨t, transfer, ht, -, hid⟩, ⟨t', transcript, ht', -, hid'⟩⟩
    exact h.apart transfer (List.mem_of_getElem? ht)
      ⟨transcript, List.mem_of_getElem? ht', hid'.trans hid.symm⟩
  · exact fun t t' transfer transfer' ht ht' hlive hlive' hid hid' =>
      h.unique ht ht' hlive hlive' (hid.trans hid'.symm)
  · intro t transfer ht hlive hid
    have hshows : s.Shows item.id fun item => item.status = .uploading :=
      ⟨item, hmem, rfl, decide_eq_true (hsending ⟨t, transfer, ht, hlive, hid⟩)⟩
    refine ⟨s.abort item.id, if_pos hshows, ?_⟩
    have hcontroller := (h.running t transfer ht hlive).1
    rw [hid] at hcontroller
    unfold Queue.abort
    rw [hcontroller]
    dsimp only
    rw [List.getElem?_modify_eq, ht]
    rfl
  · have hshows : s.Shows item.id fun item =>
        item.canRetry && (item.status = .failed || item.status = .cancelled) := by
      refine ⟨item, hmem, rfl, ?_⟩
      rw [Bool.and_eq_true, Bool.or_eq_true, decide_eq_true_iff, decide_eq_true_iff]
      exact ⟨hretry, hidle⟩
    have hfree : s.controllers item.id = none := by
      cases hcontroller : s.controllers item.id with
      | none => rfl
      | some t =>
        obtain ⟨transfer, ht, hid, hlive⟩ := h.controlled item.id t hcontroller
        have huploading := hsending ⟨t, transfer, ht, hlive, hid⟩
        rw [huploading] at hidle
        rcases hidle with hidle | hidle <;> cases hidle
    obtain ⟨content, hkept⟩ := Option.isSome_iff_exists.mp ((hshown item hmem).2 hretry)
    refine ⟨s.start item.id content, (if_pos hshows).trans ?_,
      _, _, List.getElem?_concat_length, rfl, rfl⟩
    unfold Queue.retry
    rw [hfree, hkept]

/-- A recording whose upload failed is offered again. -/
theorem rows_of_run_failed :
    ∃ s s' : Queue ℕ ℕ,
      replay step empty [.recording ⟨9, [], 1⟩ 60 false, .ends 0 (.rejected false [])] = some s ∧
        s.step (.retry 1) = some s' ∧ s'.Sending 1 := by
  let first : Queue ℕ ℕ := empty.uploadRecording ⟨9, [], 1⟩ 60 false
  let failed : Queue ℕ ℕ :=
    first.finish 0 ⟨1, .recording 9, false, false⟩ (.rejected false [])
  have hfirst : RunOf step Timely empty first :=
    .single ⟨.recording ⟨9, [], 1⟩ 60 false, nofun, rfl⟩
  have hfailed : RunOf step Timely empty failed :=
    hfirst.tail ⟨.ends 0 (.rejected false []), trivial, rfl⟩
  obtain ⟨-, -, -, -, -, hretry⟩ :=
    (rows_of_run hfailed).2 ⟨1, [], 1, .failed, 0, some 60, none, some [], true⟩ (by decide)
  obtain ⟨s', hstep, hsending⟩ := hretry rfl (.inl rfl)
  exact ⟨failed, s', rfl, hstep, hsending⟩

/-- A row that was uploaded is there with its job until it is dismissed, and its id never comes
back for another row. -/
theorem uploaded_of_run (hrun : RunOf step Timely empty s) {item : UploadItem J}
    (hmem : item ∈ s.items) (huploaded : item.status = .uploaded) :
    (∀ s', RunOf step (fun s e => s.Timely e ∧ e ≠ .dismiss item.id) s s' → item ∈ s'.items) ∧
      ∀ s', RunOf step Timely s s' → ∀ row ∈ s'.items, row.id = item.id → row = item := by
  obtain ⟨h, -⟩ := sound_reached hrun
  constructor
  · intro s' hlater
    exact (hlater.invariant (P := fun s => s.Sound ∅ ∧ item ∈ s.items)
      (fun s e s' hs hok hstep => ⟨hs.1.step hok.1 hstep,
        uploaded_step hs.1 hstep hs.2 huploaded hok.2⟩) ⟨h, hmem⟩).2
  · intro s' hlater row hrow hid
    have hold : item.id ≤ s.sequence :=
      h.known item.id (by rw [statusOf_item h.nodup hmem]; exact Option.some_ne_none _)
    have hstep (s : Queue B J) (e : Happening B J) (s' : Queue B J)
        (hs : s.Sound ∅ ∧ item.id ≤ s.sequence ∧
          (item ∈ s.items ∨ item.id ∉ s.items.map (·.id)))
        (hok : s.Timely e) (hstep : s.step e = some s') :
        s'.Sound ∅ ∧ item.id ≤ s'.sequence ∧
          (item ∈ s'.items ∨ item.id ∉ s'.items.map (·.id)) := by
      obtain ⟨hs, hle, hkept⟩ := hs
      have hfollows := follows_step hs hstep
      refine ⟨hs.step hok hstep, hle.trans hfollows.1, ?_⟩
      rcases hkept with hkept | hgone
      · by_cases hdismiss : e = .dismiss item.id
        · subst hdismiss
          cases stepped hs.nodup hstep with
          | dismiss hstatus hidle =>
            refine .inr fun hi => ?_
            obtain ⟨row, hrow, hid⟩ := List.mem_map.mp hi
            exact of_decide_eq_true (List.mem_filter.mp hrow).2 hid
        · exact .inl (uploaded_step hs hstep hkept huploaded hdismiss)
      · refine .inr fun hi => ?_
        rcases hfollows.2 _ hi with hi | hi
        · exact hgone hi
        · omega
    obtain ⟨h', -, hkept | hgone⟩ := hlater.invariant hstep ⟨h, hold, .inl hmem⟩
    · exact List.inj_on_of_nodup_map h'.nodup hrow hkept hid
    · exact absurd (hid ▸ List.mem_map_of_mem hrow) hgone

/-- Two documents are added, and the first is uploaded. -/
theorem uploaded_of_run_document :
    ∃ s : Queue ℕ ℕ,
      replay step empty [.documents [⟨7, [], 1⟩, ⟨8, [], 1⟩], .ends 0 (.resolved 5)] = some s ∧
        ∀ s', RunOf step Timely s s' → ∀ row ∈ s'.items, row.id = 1 → row.job = some 5 := by
  have hreplay : replay step (empty : Queue ℕ ℕ)
      [.documents [⟨7, [], 1⟩, ⟨8, [], 1⟩], .ends 0 (.resolved 5)] = some _ := rfl
  refine ⟨_, hreplay, fun s' hlater row hrow hid => ?_⟩
  have hrun : RunOf step Timely (empty : Queue ℕ ℕ) _ := runOf_replay (by simp [Timely]) hreplay
  have hrow := (uploaded_of_run hrun (by decide :
    (⟨1, [], 1, .uploaded, 1, none, some 5, none, true⟩ : UploadItem ℕ) ∈ Queue.items _) rfl).2
      s' hlater row hrow hid
  rw [hrow]

end Queue

end Maeglagi.Uploads
