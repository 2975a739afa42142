import Mathlib.Data.Set.Insert
import Maeglagi.Uploads.Queue

/-!
# The transfers of the upload queue

What holds of the rows, their controllers and what is kept for them, and that no part of a step
breaks it: a row that shows as uploading has exactly one transfer or one transcript under way.
-/

namespace Maeglagi.Uploads

open Core

variable {B J : Type}

namespace Queue

variable {s s' : Queue B J} {i id : ℕ}

/-! ## What every step keeps -/

/-- A transfer of the row is under way. -/
def Sending (s : Queue B J) (i : ℕ) : Prop :=
  ∃ (t : ℕ) (transfer : Transfer B),
    s.transfers[t]? = some transfer ∧ transfer.ended = false ∧ transfer.id = i

/-- A transcript of the row is under way. -/
def Transcribing (s : Queue B J) (i : ℕ) : Prop :=
  ∃ (t : ℕ) (transcript : Transcript),
    s.transcripts[t]? = some transcript ∧ transcript.ended = false ∧ transcript.id = i

/-- The row is of a transcript. -/
def Transcribed (s : Queue B J) (i : ℕ) : Prop := ∃ transcript ∈ s.transcripts, transcript.id = i

/-- The rows and what is kept for them; some rows still wait for their first transfer. -/
structure Sound (waiting : Set ℕ) (s : Queue B J) : Prop where
  nodup : (s.items.map (·.id)).Nodup
  known : ∀ i, s.statusOf i ≠ none → i ≤ s.sequence
  knownTransfer : ∀ transfer ∈ s.transfers, transfer.id ≤ s.sequence
  knownTranscript : ∀ i, s.Transcribed i → i ≤ s.sequence
  running : ∀ (t : ℕ) (transfer : Transfer B), s.transfers[t]? = some transfer →
    transfer.ended = false →
      s.controllers transfer.id = some t ∧ s.statusOf transfer.id = some .uploading
  controlled : ∀ i t, s.controllers i = some t →
    ∃ transfer : Transfer B,
      s.transfers[t]? = some transfer ∧ transfer.id = i ∧ transfer.ended = false
  transcribing : ∀ i, s.Transcribing i → s.statusOf i = some .uploading
  alone : ∀ (t t' : ℕ) (transcript transcript' : Transcript),
    s.transcripts[t]? = some transcript → s.transcripts[t']? = some transcript' →
      transcript.ended = false → transcript'.ended = false → transcript.id = transcript'.id →
        t = t'
  uploading : ∀ i, s.statusOf i = some .uploading → i ∈ waiting ∨ s.Sending i ∨ s.Transcribing i
  waiting : ∀ i ∈ waiting, s.statusOf i = some .uploading ∧ s.controllers i = none ∧
    ¬ s.Transcribed i
  apart : ∀ transfer ∈ s.transfers, ¬ s.Transcribed transfer.id
  retried : ∀ i content, s.retries i = some content → i ≤ s.sequence ∧ ¬ s.Transcribed i
  recorded : ∀ audio i, s.recordingItems audio = some i →
    (∃ status, s.statusOf i = some status ∧ status ≠ .uploaded) ∧ ¬ s.Transcribed i ∧
      (∀ transfer ∈ s.transfers, transfer.id = i → transfer.content = .recording audio) ∧
      ∀ content, s.retries i = some content → content = .recording audio
  recordedOnce : ∀ audio audio' i, s.recordingItems audio = some i →
    s.recordingItems audio' = some i → audio = audio'
  failing : ∀ i, s.failedTranscriptItem = some i →
    s.statusOf i = some .failed ∧ s.Transcribed i

theorem sound_empty : (empty : Queue B J).Sound ∅ where
  nodup := List.nodup_nil
  known _ h := absurd rfl h
  knownTransfer := nofun
  knownTranscript := by
    rintro i ⟨_, h, -⟩
    cases h
  running := nofun
  controlled := nofun
  transcribing := by
    rintro i ⟨t, _, h, -⟩
    cases h
  alone := nofun
  uploading := nofun
  waiting := nofun
  apart := nofun
  retried := nofun
  recorded := nofun
  recordedOnce := nofun
  failing := nofun

variable {waiting : Set ℕ} {content : Content B}

theorem Sound.fresh (h : s.Sound waiting) : s.statusOf (s.sequence + 1) = none := by
  by_contra hne
  exact absurd (h.known _ hne) (Nat.not_succ_le_self _)

/-- A new row waits for its transfer. -/
theorem Sound.enqueue (h : s.Sound waiting) (fileName : JsString) (sizeBytes : ℕ)
    (durationSeconds : Option ℕ) (canRetry : Bool) :
    (s.enqueue fileName sizeBytes durationSeconds canRetry).Sound
      (insert (s.sequence + 1) waiting) := by
  have hfresh := h.fresh
  have hold {i : ℕ} {status : UploadItemStatus} (hi : s.statusOf i = some status) :
      (s.enqueue fileName sizeBytes durationSeconds canRetry).statusOf i = some status := by
    rw [statusOf_enqueue, if_neg, hi]
    rintro rfl
    rw [hfresh] at hi
    cases hi
  refine
    { nodup := ?_, known := ?_, knownTransfer := ?_, knownTranscript := ?_, running := ?_,
      controlled := h.controlled, transcribing := ?_, alone := h.alone, uploading := ?_,
      waiting := ?_, apart := h.apart, retried := ?_, recorded := ?_,
      recordedOnce := h.recordedOnce, failing := ?_ }
  · exact List.nodup_cons.mpr ⟨statusOf_eq_none.mp hfresh, h.nodup⟩
  · intro i hi
    rw [statusOf_enqueue] at hi
    split_ifs at hi with heq
    · exact heq.le
    · exact (h.known i hi).trans (Nat.le_succ _)
  · exact fun transfer htransfer => (h.knownTransfer transfer htransfer).trans (Nat.le_succ _)
  · exact fun i hi => (h.knownTranscript i hi).trans (Nat.le_succ _)
  · intro t transfer ht hlive
    exact ⟨(h.running t transfer ht hlive).1, hold (h.running t transfer ht hlive).2⟩
  · exact fun i hi => hold (h.transcribing i hi)
  · intro i hi
    rw [statusOf_enqueue] at hi
    split_ifs at hi with heq
    · exact .inl (.inl heq)
    · exact (h.uploading i hi).imp_left .inr
  · rintro i (rfl | hi)
    · refine ⟨by rw [statusOf_enqueue, if_pos rfl], ?_, fun htranscribed => ?_⟩
      · cases hcontroller : s.controllers (s.sequence + 1) with
        | none => exact hcontroller
        | some t =>
          obtain ⟨transfer, ht, hid, -⟩ := h.controlled _ t hcontroller
          have := h.knownTransfer transfer (List.mem_of_getElem? ht)
          omega
      · exact absurd (h.knownTranscript _ htranscribed) (Nat.not_succ_le_self _)
    · obtain ⟨hstatus, hcontroller, htranscribed⟩ := h.waiting i hi
      exact ⟨hold hstatus, hcontroller, htranscribed⟩
  · exact fun i content hi => ⟨(h.retried i content hi).1.trans (Nat.le_succ _),
      (h.retried i content hi).2⟩
  · intro audio i hi
    obtain ⟨⟨status, hstatus, hne⟩, hrest⟩ := h.recorded audio i hi
    exact ⟨⟨status, hold hstatus, hne⟩, hrest⟩
  · exact fun i hi => ⟨hold (h.failing i hi).1, (h.failing i hi).2⟩

/-- A row without a transfer gets one. -/
theorem Sound.start (h : s.Sound waiting) {status : UploadItemStatus}
    (hstatus : s.statusOf id = some status) (hfree : s.controllers id = none)
    (hapart : ¬ s.Transcribed id)
    (hrecorded : ∀ audio, s.recordingItems audio = some id → content = .recording audio) :
    (s.start id content).Sound (waiting \ {id}) := by
  have hold {i : ℕ} (hi : i ≠ id) : (s.start id content).statusOf i = s.statusOf i := by
    rw [statusOf_start, if_neg hi]
  have hnew : (s.start id content).statusOf id = some .uploading := by
    rw [statusOf_start, if_pos rfl, hstatus, Option.map_some]
  have hother {t : ℕ} {transfer : Transfer B} (ht : s.transfers[t]? = some transfer)
      (hlive : transfer.ended = false) : transfer.id ≠ id := by
    intro heq
    have := (h.running t transfer ht hlive).1
    rw [heq, hfree] at this
    cases this
  have hid : id ≤ s.sequence := h.known id (by rw [hstatus]; exact Option.some_ne_none _)
  refine
    { nodup := ?_, known := ?_, knownTransfer := ?_, knownTranscript := h.knownTranscript,
      running := ?_, controlled := ?_, transcribing := ?_, alone := h.alone, uploading := ?_,
      waiting := ?_, apart := ?_, retried := h.retried, recorded := ?_,
      recordedOnce := h.recordedOnce, failing := ?_ }
  · have hids : (s.start id content).items.map (·.id) = s.items.map (·.id) :=
      ids_patch (s := s) fun item => (rfl : (started item).id = item.id)
    exact hids ▸ h.nodup
  · intro i hi
    rcases eq_or_ne i id with rfl | hne
    · exact hid
    · exact h.known i (hold hne ▸ hi)
  · intro transfer htransfer
    rcases List.mem_append.mp htransfer with htransfer | htransfer
    · exact h.knownTransfer transfer htransfer
    · rw [List.mem_singleton.mp htransfer]
      exact hid
  · intro t transfer ht hlive
    rcases getElem?_concat ht with ht | ⟨rfl, rfl⟩
    · have hne := hother ht hlive
      obtain ⟨hcontroller, huploading⟩ := h.running t transfer ht hlive
      exact ⟨by rwa [controllers_start, if_neg hne], (hold hne).trans huploading⟩
    · exact ⟨by rw [controllers_start, if_pos rfl], hnew⟩
  · intro i t hcontroller
    rcases eq_or_ne i id with rfl | hne
    · rw [controllers_start, if_pos rfl, Option.some.injEq] at hcontroller
      exact ⟨_, hcontroller ▸ List.getElem?_concat_length, rfl, rfl⟩
    · rw [controllers_start, if_neg hne] at hcontroller
      obtain ⟨transfer, ht, htransfer⟩ := h.controlled i t hcontroller
      have hlt := (List.getElem?_eq_some_iff.mp ht).1
      exact ⟨transfer, (List.getElem?_append_left hlt).trans ht, htransfer⟩
  · intro i hi
    have hne : i ≠ id := by
      rintro rfl
      obtain ⟨t, transcript, ht, -, rfl⟩ := hi
      exact hapart ⟨transcript, List.mem_of_getElem? ht, rfl⟩
    exact (hold hne).trans (h.transcribing i hi)
  · intro i hi
    rcases eq_or_ne i id with rfl | hne
    · exact .inr (.inl ⟨_, _, List.getElem?_concat_length, rfl, rfl⟩)
    · rcases h.uploading i (hold hne ▸ hi) with hwaiting | hsending | htranscribing
      · exact .inl ⟨hwaiting, hne⟩
      · obtain ⟨t, transfer, ht, htransfer⟩ := hsending
        have hlt := (List.getElem?_eq_some_iff.mp ht).1
        exact .inr (.inl ⟨t, transfer, (List.getElem?_append_left hlt).trans ht, htransfer⟩)
      · exact .inr (.inr htranscribing)
  · rintro i ⟨hwaiting, hne⟩
    obtain ⟨huploading, hcontroller, htranscribed⟩ := h.waiting i hwaiting
    have hne : i ≠ id := hne
    exact ⟨(hold hne).trans huploading, by rwa [controllers_start, if_neg hne], htranscribed⟩
  · intro transfer htransfer
    rcases List.mem_append.mp htransfer with htransfer | htransfer
    · exact h.apart transfer htransfer
    · rw [List.mem_singleton.mp htransfer]
      exact hapart
  · intro audio i hi
    obtain ⟨⟨old, hold', hne⟩, htranscribed, hcontent, hretried⟩ := h.recorded audio i hi
    refine ⟨?_, htranscribed, ?_, hretried⟩
    · rcases eq_or_ne i id with rfl | hi
      · exact ⟨_, hnew, UploadItemStatus.noConfusion⟩
      · exact ⟨old, (hold hi).trans hold', hne⟩
    · intro transfer htransfer hid
      rcases List.mem_append.mp htransfer with htransfer | htransfer
      · exact hcontent transfer htransfer hid
      · rw [List.mem_singleton.mp htransfer] at hid ⊢
        have hid : id = i := hid
        exact hrecorded audio (hid ▸ hi)
  · intro i hi
    obtain ⟨hfailed, htranscribed⟩ := h.failing i hi
    have hne : i ≠ id := by
      rintro rfl
      exact hapart htranscribed
    exact ⟨(hold hne).trans hfailed, htranscribed⟩

/-- A task is kept for a row that is no transcript. -/
theorem Sound.keepRetry (h : s.Sound waiting) (hid : id ≤ s.sequence)
    (hapart : ¬ s.Transcribed id)
    (hrecorded : ∀ audio, s.recordingItems audio = some id → content = .recording audio) :
    (s.keepRetry id content).Sound waiting where
  nodup := h.nodup
  known := h.known
  knownTransfer := h.knownTransfer
  knownTranscript := h.knownTranscript
  running := h.running
  controlled := h.controlled
  transcribing := h.transcribing
  alone := h.alone
  uploading := h.uploading
  waiting := h.waiting
  apart := h.apart
  retried i kept hkept := by
    rw [retries_keepRetry] at hkept
    split_ifs at hkept with heq
    · subst heq
      exact ⟨hid, hapart⟩
    · exact h.retried i kept hkept
  recorded audio i hi := by
    obtain ⟨hstatus, htranscribed, hcontent, hretried⟩ := h.recorded audio i hi
    refine ⟨hstatus, htranscribed, hcontent, fun kept hkept => ?_⟩
    rw [retries_keepRetry] at hkept
    split_ifs at hkept with heq
    · rw [Option.some.injEq] at hkept
      exact hkept ▸ hrecorded audio (heq ▸ hi)
    · exact hretried kept hkept
  recordedOnce := h.recordedOnce
  failing := h.failing

/-- A transfer that is cancelled goes on until its request ends. -/
theorem Sound.abort (h : s.Sound waiting) (i : ℕ) : (s.abort i).Sound waiting := by
  unfold Queue.abort
  cases hcontroller : s.controllers i with
  | none => exact h
  | some t =>
    have hold {t' : ℕ} {transfer : Transfer B}
        (ht : (s.transfers.modify t fun transfer => { transfer with aborted := true })[t']? =
          some transfer) :
        ∃ before : Transfer B, s.transfers[t']? = some before ∧ before.id = transfer.id ∧
          before.content = transfer.content ∧ before.ended = transfer.ended := by
      rw [List.getElem?_modify, Option.map_eq_map, Option.map_eq_some_iff] at ht
      obtain ⟨before, hbefore, rfl⟩ := ht
      refine ⟨before, hbefore, ?_⟩
      split_ifs <;> exact ⟨rfl, rfl, rfl⟩
    have hnew {t' : ℕ} {before : Transfer B} (ht : s.transfers[t']? = some before) :
        ∃ transfer : Transfer B,
          (s.transfers.modify t fun transfer => { transfer with aborted := true })[t']? =
            some transfer ∧ transfer.id = before.id ∧ transfer.ended = before.ended := by
      refine ⟨_, by rw [List.getElem?_modify, ht, Option.map_eq_map, Option.map_some], ?_⟩
      split_ifs <;> exact ⟨rfl, rfl⟩
    refine
      { h with
        knownTransfer := ?_, running := ?_, controlled := ?_, uploading := ?_, apart := ?_,
        recorded := ?_ }
    · intro transfer htransfer
      obtain ⟨t', ht⟩ := List.mem_iff_getElem?.mp htransfer
      obtain ⟨before, hbefore, hid, -⟩ := hold ht
      exact hid ▸ h.knownTransfer before (List.mem_of_getElem? hbefore)
    · intro t' transfer ht hlive
      obtain ⟨before, hbefore, hid, -, hended⟩ := hold ht
      exact hid ▸ h.running t' before hbefore (hended.trans hlive)
    · intro i' t' hcontroller'
      obtain ⟨before, hbefore, hid, hlive⟩ := h.controlled i' t' hcontroller'
      obtain ⟨transfer, ht, hid', hended⟩ := hnew hbefore
      exact ⟨transfer, ht, hid'.trans hid, hended.trans hlive⟩
    · intro i' huploading
      rcases h.uploading i' huploading with hwaiting | ⟨t', before, hbefore, hlive, hid⟩ | htr
      · exact .inl hwaiting
      · obtain ⟨transfer, ht, hid', hended⟩ := hnew hbefore
        exact .inr (.inl ⟨t', transfer, ht, hended.trans hlive, hid'.trans hid⟩)
      · exact .inr (.inr htr)
    · intro transfer htransfer
      obtain ⟨t', ht⟩ := List.mem_iff_getElem?.mp htransfer
      obtain ⟨before, hbefore, hid, -⟩ := hold ht
      exact hid ▸ h.apart before (List.mem_of_getElem? hbefore)
    · intro audio i' hi'
      obtain ⟨hstatus, htranscribed, hcontent, hretried⟩ := h.recorded audio i' hi'
      refine ⟨hstatus, htranscribed, fun transfer htransfer hid' => ?_, hretried⟩
      obtain ⟨t', ht⟩ := List.mem_iff_getElem?.mp htransfer
      obtain ⟨before, hbefore, hid, hcontent', -⟩ := hold ht
      rw [← hcontent']
      exact hcontent before (List.mem_of_getElem? hbefore) (hid.trans hid')

/-- The only transfer of a row is the one that its controller belongs to. -/
theorem Sound.unique (h : s.Sound waiting) {t t' : ℕ} {transfer transfer' : Transfer B}
    (ht : s.transfers[t]? = some transfer) (ht' : s.transfers[t']? = some transfer')
    (hlive : transfer.ended = false) (hlive' : transfer'.ended = false)
    (hid : transfer.id = transfer'.id) : t = t' := by
  have hcontroller := (h.running t transfer ht hlive).1
  rw [hid, (h.running t' transfer' ht' hlive').1, Option.some.injEq] at hcontroller
  exact hcontroller.symm

/-- The status of a row whose transfer ended. -/
def outcome (aborted : Bool) : Sent J → UploadItemStatus
  | .resolved _ => .uploaded
  | .rejected abortError _ => if aborted || abortError then .cancelled else .failed

theorem received_id {aborted : Bool} {sent : Sent J} {item : UploadItem J} :
    (received aborted sent item).id = item.id := by
  unfold received
  cases sent
  · rfl
  · dsimp only
    split_ifs <;> rfl

theorem received_status {aborted : Bool} {sent : Sent J} {item : UploadItem J} :
    (received aborted sent item).status = outcome aborted sent := by
  unfold received outcome
  cases sent
  · rfl
  · dsimp only
    split_ifs <;> rfl

theorem outcome_ne_uploading {aborted : Bool} {sent : Sent J} :
    outcome aborted sent ≠ .uploading := by
  unfold outcome
  split
  · exact UploadItemStatus.noConfusion
  · split_ifs <;> exact UploadItemStatus.noConfusion

section Finish

variable [DecidableEq B]

theorem statusOf_finish {t : ℕ} {transfer : Transfer B} {sent : Sent J} :
    (s.finish t transfer sent).statusOf i =
      if i = transfer.id then (s.statusOf i).map fun _ => outcome transfer.aborted sent
      else s.statusOf i :=
  statusOf_patch (s := s) (fun _ => received_id) fun _ => received_status

/-- A recording is forgotten when it is uploaded. -/
theorem recordingItems_finish {t : ℕ} {transfer : Transfer B} {sent : Sent J}
    (hcontent : ∀ audio i, s.recordingItems audio = some i → transfer.id = i →
      transfer.content = .recording audio)
    {audio : B} {i : ℕ} (hi : (s.finish t transfer sent).recordingItems audio = some i) :
    s.recordingItems audio = some i ∧
      (i = transfer.id → outcome transfer.aborted sent ≠ .uploaded) := by
  unfold finish at hi
  dsimp only at hi
  cases sent with
  | resolved job =>
    cases hsent : transfer.content with
    | document file =>
      rw [hsent] at hi
      refine ⟨hi, fun heq => ?_⟩
      have hrecording := hcontent audio i hi heq.symm
      rw [hsent] at hrecording
      cases hrecording
    | recording own =>
      rw [hsent] at hi
      dsimp only at hi
      rw [Function.update_apply] at hi
      split_ifs at hi with hown
      refine ⟨hi, fun heq => ?_⟩
      have hrecording := hcontent audio i hi heq.symm
      rw [hsent, Content.recording.injEq] at hrecording
      exact absurd hrecording.symm hown
  | rejected abortError message =>
    refine ⟨?_, fun _ => ?_⟩
    · cases hsent : transfer.content <;> rwa [hsent] at hi
    · unfold outcome
      dsimp only
      split_ifs <;> exact UploadItemStatus.noConfusion

/-- A transfer ends, and with it the upload of its row. -/
theorem Sound.finish (h : s.Sound waiting) {t : ℕ} {transfer : Transfer B}
    (ht : s.transfers[t]? = some transfer) (hlive : transfer.ended = false) (sent : Sent J) :
    (s.finish t transfer sent).Sound waiting := by
  obtain ⟨hcontroller, huploading⟩ := h.running t transfer ht hlive
  have hmem := List.mem_of_getElem? ht
  have hold {i : ℕ} (hi : i ≠ transfer.id) :
      (s.finish t transfer sent).statusOf i = s.statusOf i := by
    rw [statusOf_finish, if_neg hi]
  have hnew : (s.finish t transfer sent).statusOf transfer.id =
      some (outcome transfer.aborted sent) := by
    rw [statusOf_finish, if_pos rfl, huploading, Option.map_some]
  have hcontrollers (i : ℕ) : (s.finish t transfer sent).controllers i =
      if i = transfer.id then none else s.controllers i := by
    unfold Queue.finish
    dsimp only
    rw [if_pos hcontroller, Function.update_apply]
  have hothers {t' : ℕ} (hne : t ≠ t') :
      (s.finish t transfer sent).transfers[t']? = s.transfers[t']? := List.getElem?_set_ne hne
  have hended {t' : ℕ} {transfer' : Transfer B}
      (ht' : (s.finish t transfer sent).transfers[t']? = some transfer') :
      s.transfers[t']? = some transfer' ∧ t ≠ t' ∨
        transfer' = { transfer with ended := true } ∧ t = t' := by
    rcases eq_or_ne t t' with rfl | hne
    · have hlt := (List.getElem?_eq_some_iff.mp ht).1
      have hset := List.getElem?_set_self (a := { transfer with ended := true }) hlt
      exact .inr ⟨Option.some.inj (ht'.symm.trans hset), rfl⟩
    · exact .inl ⟨(hothers hne).symm.trans ht', hne⟩
  have hrecordings {audio : B} {i : ℕ}
      (hi : (s.finish t transfer sent).recordingItems audio = some i) :
      s.recordingItems audio = some i ∧
        (i = transfer.id → outcome transfer.aborted sent ≠ .uploaded) :=
    recordingItems_finish (fun audio i hi => (h.recorded audio i hi).2.2.1 transfer hmem) hi
  refine
    { nodup := ?_, known := ?_, knownTransfer := ?_, knownTranscript := h.knownTranscript,
      running := ?_, controlled := ?_, transcribing := ?_, alone := h.alone, uploading := ?_,
      waiting := ?_, apart := ?_, retried := h.retried, recorded := ?_,
      recordedOnce := ?_, failing := ?_ }
  · have hids : (s.finish t transfer sent).items.map (·.id) = s.items.map (·.id) :=
      ids_patch (s := s) fun _ => received_id
    exact hids ▸ h.nodup
  · intro i hi
    refine h.known i fun hnone => hi ?_
    rw [statusOf_finish, hnone]
    split_ifs <;> rfl
  · intro transfer' htransfer'
    obtain ⟨t', ht'⟩ := List.mem_iff_getElem?.mp htransfer'
    rcases hended ht' with ⟨ht', -⟩ | ⟨rfl, -⟩
    · exact h.knownTransfer transfer' (List.mem_of_getElem? ht')
    · exact h.knownTransfer transfer hmem
  · intro t' transfer' ht' hlive'
    rcases hended ht' with ⟨ht', hne⟩ | ⟨rfl, -⟩
    · have hid : transfer'.id ≠ transfer.id := fun heq =>
        hne (h.unique ht' ht hlive' hlive heq).symm
      rw [hcontrollers, if_neg hid, hold hid]
      exact h.running t' transfer' ht' hlive'
    · cases hlive'
  · intro i t' hi
    rw [hcontrollers] at hi
    split_ifs at hi with heq
    obtain ⟨transfer', ht', hid, hlive'⟩ := h.controlled i t' hi
    have hne : t ≠ t' := by
      rintro rfl
      rw [ht, Option.some.injEq] at ht'
      exact heq (by rw [ht', hid])
    exact ⟨transfer', (hothers hne).trans ht', hid, hlive'⟩
  · intro i hi
    have hne : i ≠ transfer.id := by
      rintro rfl
      obtain ⟨t', transcript, ht', -, hid⟩ := hi
      exact h.apart transfer hmem ⟨transcript, List.mem_of_getElem? ht', hid⟩
    exact (hold hne).trans (h.transcribing i hi)
  · intro i hi
    rcases eq_or_ne i transfer.id with rfl | hne
    · rw [hnew, Option.some.injEq] at hi
      exact absurd hi outcome_ne_uploading
    · rcases h.uploading i (hold hne ▸ hi) with hwaiting | hsending | htranscribing
      · exact .inl hwaiting
      · obtain ⟨t', transfer', ht', hlive', hid⟩ := hsending
        have hne' : t ≠ t' := by
          rintro rfl
          rw [ht, Option.some.injEq] at ht'
          exact hne (by rw [ht', hid])
        exact .inr (.inl ⟨t', transfer', (hothers hne').trans ht', hlive', hid⟩)
      · exact .inr (.inr htranscribing)
  · intro i hi
    obtain ⟨hstatus, hfree, htranscribed⟩ := h.waiting i hi
    have hne : i ≠ transfer.id := by
      rintro rfl
      rw [hcontroller] at hfree
      cases hfree
    exact ⟨(hold hne).trans hstatus, by rwa [hcontrollers, if_neg hne], htranscribed⟩
  · intro transfer' htransfer'
    obtain ⟨t', ht'⟩ := List.mem_iff_getElem?.mp htransfer'
    rcases hended ht' with ⟨ht', -⟩ | ⟨rfl, -⟩
    · exact h.apart transfer' (List.mem_of_getElem? ht')
    · exact h.apart transfer hmem
  · intro audio i hi
    obtain ⟨hi, hunsent⟩ := hrecordings hi
    obtain ⟨⟨status, hstatus, hne⟩, htranscribed, hcontent, hretried⟩ := h.recorded audio i hi
    refine ⟨?_, htranscribed, fun transfer' htransfer' hid => ?_, hretried⟩
    · rcases eq_or_ne i transfer.id with rfl | hi
      · exact ⟨_, hnew, hunsent rfl⟩
      · exact ⟨status, (hold hi).trans hstatus, hne⟩
    · obtain ⟨t', ht'⟩ := List.mem_iff_getElem?.mp htransfer'
      rcases hended ht' with ⟨ht', -⟩ | ⟨rfl, -⟩
      · exact hcontent transfer' (List.mem_of_getElem? ht') hid
      · exact hcontent transfer hmem hid
  · exact fun audio audio' i hi hi' =>
      h.recordedOnce audio audio' i (hrecordings hi).1 (hrecordings hi').1
  · intro i hi
    obtain ⟨hfailed, htranscribed⟩ := h.failing i hi
    have hne : i ≠ transfer.id := by
      rintro rfl
      exact h.apart transfer hmem htranscribed
    exact ⟨(hold hne).trans hfailed, htranscribed⟩

end Finish

theorem statusOf_finishTranscript {t : ℕ} {transcript : Transcript} {sent : Sent J} :
    (s.finishTranscript t transcript sent).statusOf i =
      if i = transcript.id then (s.statusOf i).map fun _ =>
        match sent with
        | .resolved _ => .uploaded
        | .rejected _ _ => .failed
      else s.statusOf i := by
  unfold finishTranscript
  cases sent with
  | resolved job => exact statusOf_patch (s := s) (fun _ => rfl) fun _ => rfl
  | rejected abortError message => exact statusOf_patch (s := s) (fun _ => rfl) fun _ => rfl

/-- A transcript ends, and with it the upload of its row. -/
theorem Sound.finishTranscript (h : s.Sound waiting) {t : ℕ} {transcript : Transcript}
    (ht : s.transcripts[t]? = some transcript) (hlive : transcript.ended = false)
    (sent : Sent J) : (s.finishTranscript t transcript sent).Sound waiting := by
  have huploading := h.transcribing _ ⟨t, transcript, ht, hlive, rfl⟩
  have hmem : s.Transcribed transcript.id := ⟨transcript, List.mem_of_getElem? ht, rfl⟩
  have hlt := (List.getElem?_eq_some_iff.mp ht).1
  have hset := List.getElem?_set_self (a := { transcript with ended := true }) hlt
  have hold {i : ℕ} (hi : i ≠ transcript.id) :
      (s.finishTranscript t transcript sent).statusOf i = s.statusOf i := by
    rw [statusOf_finishTranscript, if_neg hi]
  have htranscripts : (s.finishTranscript t transcript sent).transcripts =
      s.transcripts.set t { transcript with ended := true } := by
    unfold Queue.finishTranscript
    cases sent <;> rfl
  have hended {t' : ℕ} {transcript' : Transcript}
      (ht' : (s.finishTranscript t transcript sent).transcripts[t']? = some transcript') :
      s.transcripts[t']? = some transcript' ∧ t ≠ t' ∨
        transcript' = { transcript with ended := true } ∧ t = t' := by
    rw [htranscripts] at ht'
    rcases eq_or_ne t t' with rfl | hne
    · exact .inr ⟨Option.some.inj (ht'.symm.trans hset), rfl⟩
    · exact .inl ⟨(List.getElem?_set_ne hne).symm.trans ht', hne⟩
  have htranscribed {i : ℕ} :
      (s.finishTranscript t transcript sent).Transcribed i ↔ s.Transcribed i := by
    constructor
    · rintro ⟨transcript', hmem', rfl⟩
      obtain ⟨t', ht'⟩ := List.mem_iff_getElem?.mp hmem'
      rcases hended ht' with ⟨ht', -⟩ | ⟨rfl, -⟩
      · exact ⟨transcript', List.mem_of_getElem? ht', rfl⟩
      · exact hmem
    · rintro ⟨transcript', hmem', rfl⟩
      obtain ⟨t', ht'⟩ := List.mem_iff_getElem?.mp hmem'
      rcases eq_or_ne t t' with rfl | hne
      · rw [ht, Option.some.injEq] at ht'
        exact ⟨_, List.mem_of_getElem? (htranscripts ▸ hset), by rw [ht']⟩
      · have hother := (List.getElem?_set_ne (a := { transcript with ended := true }) hne).trans ht'
        exact ⟨transcript', List.mem_of_getElem? (htranscripts ▸ hother), rfl⟩
  obtain ⟨hsequence, hcontrollers, hretries, hrecordings, htransfers⟩ :
      (s.finishTranscript t transcript sent).sequence = s.sequence ∧
        (s.finishTranscript t transcript sent).controllers = s.controllers ∧
        (s.finishTranscript t transcript sent).retries = s.retries ∧
        (s.finishTranscript t transcript sent).recordingItems = s.recordingItems ∧
        (s.finishTranscript t transcript sent).transfers = s.transfers := by
    unfold Queue.finishTranscript
    cases sent <;> exact ⟨rfl, rfl, rfl, rfl, rfl⟩
  refine
    { nodup := ?_, known := ?_, knownTransfer := ?_, knownTranscript := ?_, running := ?_,
      controlled := ?_, transcribing := ?_, alone := ?_, uploading := ?_, waiting := ?_,
      apart := ?_, retried := ?_, recorded := ?_, recordedOnce := ?_, failing := ?_ }
  · have hids : (s.finishTranscript t transcript sent).items.map (·.id) = s.items.map (·.id) := by
      unfold Queue.finishTranscript
      cases sent <;> exact ids_patch (s := s) fun _ => rfl
    exact hids ▸ h.nodup
  · intro i hi
    refine hsequence ▸ h.known i fun hnone => hi ?_
    rw [statusOf_finishTranscript, hnone]
    split_ifs <;> rfl
  · rw [htransfers, hsequence]
    exact h.knownTransfer
  · intro i hi
    exact hsequence ▸ h.knownTranscript i (htranscribed.mp hi)
  · intro t' transfer ht' hlive'
    rw [htransfers] at ht'
    have hne : transfer.id ≠ transcript.id := fun heq =>
      h.apart transfer (List.mem_of_getElem? ht') (heq ▸ hmem)
    rw [hcontrollers, hold hne]
    exact h.running t' transfer ht' hlive'
  · rw [hcontrollers, htransfers]
    exact h.controlled
  · rintro i ⟨t', transcript', ht', hlive', rfl⟩
    rcases hended ht' with ⟨ht', hne⟩ | ⟨rfl, -⟩
    · have hid : transcript'.id ≠ transcript.id := fun heq =>
        hne (h.alone t t' transcript transcript' ht ht' hlive hlive' heq.symm)
      exact (hold hid).trans (h.transcribing _ ⟨t', transcript', ht', hlive', rfl⟩)
    · cases hlive'
  · intro t₁ t₂ transcript₁ transcript₂ ht₁ ht₂ hlive₁ hlive₂ hid
    rcases hended ht₁ with ⟨ht₁, -⟩ | ⟨rfl, -⟩
    · rcases hended ht₂ with ⟨ht₂, -⟩ | ⟨rfl, -⟩
      · exact h.alone t₁ t₂ transcript₁ transcript₂ ht₁ ht₂ hlive₁ hlive₂ hid
      · cases hlive₂
    · cases hlive₁
  · intro i hi
    rcases eq_or_ne i transcript.id with rfl | hne
    · rw [statusOf_finishTranscript, if_pos rfl, huploading, Option.map_some,
        Option.some.injEq] at hi
      cases sent <;> cases hi
    · rcases h.uploading i (hold hne ▸ hi) with hwaiting | hsending | htranscribing
      · exact .inl hwaiting
      · unfold Sending
        rw [htransfers]
        exact .inr (.inl hsending)
      · obtain ⟨t', transcript', ht', hlive', rfl⟩ := htranscribing
        have hne' : t ≠ t' := by
          rintro rfl
          rw [ht, Option.some.injEq] at ht'
          exact hne (by rw [ht'])
        have hother :=
          (List.getElem?_set_ne (a := { transcript with ended := true }) hne').trans ht'
        exact .inr (.inr ⟨t', transcript', htranscripts ▸ hother, hlive', rfl⟩)
  · intro i hi
    obtain ⟨hstatus, hfree, hapart⟩ := h.waiting i hi
    have hne : i ≠ transcript.id := by
      rintro rfl
      exact hapart hmem
    exact ⟨(hold hne).trans hstatus, hcontrollers ▸ hfree, fun hi => hapart (htranscribed.mp hi)⟩
  · rw [htransfers]
    exact fun transfer htransfer hi => h.apart transfer htransfer (htranscribed.mp hi)
  · rw [hretries, hsequence]
    exact fun i content hi =>
      ⟨(h.retried i content hi).1, fun hi' => (h.retried i content hi).2 (htranscribed.mp hi')⟩
  · intro audio i hi
    rw [hrecordings] at hi
    obtain ⟨⟨status, hstatus, hne⟩, hapart, hrest⟩ := h.recorded audio i hi
    have hid : i ≠ transcript.id := by
      rintro rfl
      exact hapart hmem
    rw [htransfers, hretries]
    exact ⟨⟨status, (hold hid).trans hstatus, hne⟩, fun hi => hapart (htranscribed.mp hi), hrest⟩
  · rw [hrecordings]
    exact h.recordedOnce
  · intro i hi
    cases sent with
    | resolved job =>
      obtain ⟨hfailed, hi⟩ := h.failing i hi
      have hne : i ≠ transcript.id := by
        rintro rfl
        rw [huploading] at hfailed
        cases hfailed
      exact ⟨(hold hne).trans hfailed, htranscribed.mpr hi⟩
    | rejected abortError message =>
      have hid : transcript.id = i := Option.some.inj hi
      subst hid
      refine ⟨?_, htranscribed.mpr hmem⟩
      rw [statusOf_finishTranscript, if_pos rfl, huploading, Option.map_some]

/-- A row that is not being uploaded is removed, with what was kept for it. -/
theorem Sound.dismiss (h : s.Sound ∅) (hidle : s.statusOf id ≠ some .uploading) :
    (s.dismiss id).Sound ∅ := by
  have hfree : s.controllers id = none := by
    cases hcontroller : s.controllers id with
    | none => rfl
    | some t =>
      obtain ⟨transfer, ht, rfl, hlive⟩ := h.controlled id t hcontroller
      exact absurd (h.running t transfer ht hlive).2 hidle
  obtain ⟨hsequence, hcontrollers, htransfers, htranscripts⟩ :
      (s.dismiss id).sequence = s.sequence ∧ (s.dismiss id).controllers = s.controllers ∧
        (s.dismiss id).transfers = s.transfers ∧ (s.dismiss id).transcripts = s.transcripts := by
    unfold Queue.dismiss Queue.abort
    rw [hfree]
    exact ⟨rfl, rfl, rfl, rfl⟩
  have htranscribed {i : ℕ} : (s.dismiss id).Transcribed i ↔ s.Transcribed i := by
    unfold Transcribed
    rw [htranscripts]
  have hold {i : ℕ} {status : UploadItemStatus} (hi : s.statusOf i = some status) (hne : i ≠ id) :
      (s.dismiss id).statusOf i = some status := by
    rw [statusOf_dismiss, if_neg hne, hi]
  have hkept {i : ℕ} {status : UploadItemStatus}
      (hi : (s.dismiss id).statusOf i = some status) : s.statusOf i = some status := by
    rw [statusOf_dismiss] at hi
    split_ifs at hi
    exact hi
  have hlive {i : ℕ} (hi : s.statusOf i = some .uploading) : i ≠ id := by
    rintro rfl
    exact hidle hi
  have hretries {i : ℕ} {content : Content B} (hi : (s.dismiss id).retries i = some content) :
      s.retries i = some content := by
    unfold Queue.dismiss at hi
    dsimp only at hi
    rw [Function.update_apply] at hi
    split_ifs at hi
    exact hi
  have hrecordings {audio : B} {i : ℕ} (hi : (s.dismiss id).recordingItems audio = some i) :
      s.recordingItems audio = some i ∧ i ≠ id := by
    unfold Queue.dismiss at hi
    dsimp only at hi
    split_ifs at hi with hown
    refine ⟨hi, ?_⟩
    rintro rfl
    exact hown hi
  refine
    { nodup := ?_, known := ?_, knownTransfer := ?_, knownTranscript := ?_, running := ?_,
      controlled := ?_, transcribing := ?_, alone := ?_, uploading := ?_, waiting := nofun,
      apart := ?_, retried := ?_, recorded := ?_, recordedOnce := ?_, failing := ?_ }
  · exact h.nodup.sublist (List.filter_sublist.map _)
  · intro i hi
    obtain ⟨status, hstatus⟩ := Option.ne_none_iff_exists'.mp hi
    exact hsequence ▸ h.known i (by rw [hkept hstatus]; exact Option.some_ne_none _)
  · rw [htransfers, hsequence]
    exact h.knownTransfer
  · exact fun i hi => hsequence ▸ h.knownTranscript i (htranscribed.mp hi)
  · intro t transfer ht hended
    rw [htransfers] at ht
    obtain ⟨hcontroller, huploading⟩ := h.running t transfer ht hended
    exact ⟨hcontrollers ▸ hcontroller, hold huploading (hlive huploading)⟩
  · rw [hcontrollers, htransfers]
    exact h.controlled
  · intro i hi
    unfold Transcribing at hi
    rw [htranscripts] at hi
    have huploading := h.transcribing i hi
    exact hold huploading (hlive huploading)
  · rw [htranscripts]
    exact h.alone
  · intro i hi
    unfold Sending Transcribing
    rw [htransfers, htranscripts]
    exact h.uploading i (hkept hi)
  · rw [htransfers]
    exact fun transfer htransfer hi => h.apart transfer htransfer (htranscribed.mp hi)
  · intro i content hi
    obtain ⟨hle, hapart⟩ := h.retried i content (hretries hi)
    exact ⟨hsequence ▸ hle, fun hi => hapart (htranscribed.mp hi)⟩
  · intro audio i hi
    obtain ⟨hi, hne⟩ := hrecordings hi
    obtain ⟨⟨status, hstatus, hunsent⟩, hapart, hcontent, hretried⟩ := h.recorded audio i hi
    rw [htransfers]
    exact ⟨⟨status, hold hstatus hne, hunsent⟩, fun hi => hapart (htranscribed.mp hi), hcontent,
      fun content hi => hretried content (hretries hi)⟩
  · exact fun audio audio' i hi hi' =>
      h.recordedOnce audio audio' i (hrecordings hi).1 (hrecordings hi').1
  · intro i hi
    unfold Queue.dismiss at hi
    dsimp only at hi
    split_ifs at hi with hown
    obtain ⟨hfailed, hi'⟩ := h.failing i hi
    refine ⟨hold hfailed ?_, htranscribed.mpr hi'⟩
    rintro rfl
    exact hown hi

/-- A row that nothing was ever kept for or sent of becomes the row of a transcript, and a row of
a transcript that failed becomes it again. -/
theorem Sound.transcribe (h : s.Sound waiting) {status : UploadItemStatus}
    (hstatus : s.statusOf id = some status) (hsent : ∀ transfer ∈ s.transfers, transfer.id ≠ id)
    (hretried : s.retries id = none) (hrecorded : ∀ audio, s.recordingItems audio ≠ some id)
    (hidle : ¬ s.Transcribing id) {items : List (UploadItem J)}
    (hids : items.map (·.id) = s.items.map (·.id))
    (hitems : ∀ i, ({ s with items := items } : Queue B J).statusOf i =
      if i = id then some .uploading else s.statusOf i) {failed : Option ℕ}
    (hfailed : failed = none) :
    ({ s with
      items := items
      failedTranscriptItem := failed
      transcripts := s.transcripts ++ [⟨id, false⟩] } : Queue B J).Sound (waiting \ {id}) := by
  have hid : id ≤ s.sequence := h.known id (by rw [hstatus]; exact Option.some_ne_none _)
  have hold {i : ℕ} (hi : i ≠ id) : ({ s with items := items } : Queue B J).statusOf i =
      s.statusOf i := by
    rw [hitems, if_neg hi]
  have hnew : ({ s with items := items } : Queue B J).statusOf id = some .uploading := by
    rw [hitems, if_pos rfl]
  have htranscribed {i : ℕ}
      (hi : ∃ transcript ∈ s.transcripts ++ [⟨id, false⟩], transcript.id = i) :
      s.Transcribed i ∨ i = id := by
    obtain ⟨transcript, hmem, rfl⟩ := hi
    rcases List.mem_append.mp hmem with hmem | hmem
    · exact .inl ⟨transcript, hmem, rfl⟩
    · exact .inr (by rw [List.mem_singleton.mp hmem])
  refine
    { nodup := hids ▸ h.nodup, known := ?_, knownTransfer := h.knownTransfer,
      knownTranscript := ?_, running := ?_, controlled := h.controlled, transcribing := ?_,
      alone := ?_, uploading := ?_, waiting := ?_, apart := ?_, retried := ?_, recorded := ?_,
      recordedOnce := h.recordedOnce, failing := fun i hi => by cases hfailed.symm.trans hi }
  · intro i hi
    rcases eq_or_ne i id with rfl | hne
    · exact hid
    · exact h.known i (hold hne ▸ hi)
  · intro i hi
    rcases htranscribed hi with hi | rfl
    · exact h.knownTranscript i hi
    · exact hid
  · intro t transfer ht hlive
    obtain ⟨hcontroller, huploading⟩ := h.running t transfer ht hlive
    exact ⟨hcontroller, (hold (hsent transfer (List.mem_of_getElem? ht))).trans huploading⟩
  · rintro i ⟨t, transcript, ht, hlive, rfl⟩
    rcases getElem?_concat ht with ht | ⟨rfl, rfl⟩
    · have htranscribing : s.Transcribing transcript.id := ⟨t, transcript, ht, hlive, rfl⟩
      have hne : transcript.id ≠ id := fun heq => hidle (heq ▸ htranscribing)
      exact (hold hne).trans (h.transcribing _ htranscribing)
    · exact hnew
  · intro t₁ t₂ transcript₁ transcript₂ ht₁ ht₂ hlive₁ hlive₂ heq
    rcases getElem?_concat ht₁ with ht₁ | ⟨rfl, rfl⟩
    · rcases getElem?_concat ht₂ with ht₂ | ⟨rfl, rfl⟩
      · exact h.alone t₁ t₂ transcript₁ transcript₂ ht₁ ht₂ hlive₁ hlive₂ heq
      · exact absurd ⟨t₁, transcript₁, ht₁, hlive₁, heq⟩ hidle
    · rcases getElem?_concat ht₂ with ht₂ | ⟨rfl, rfl⟩
      · exact absurd ⟨t₂, transcript₂, ht₂, hlive₂, heq.symm⟩ hidle
      · rfl
  · intro i hi
    rcases eq_or_ne i id with rfl | hne
    · exact .inr (.inr ⟨_, _, List.getElem?_concat_length, rfl, rfl⟩)
    · rcases h.uploading i ((hold hne).symm.trans hi) with hwaiting | hsending | htranscribing
      · exact .inl ⟨hwaiting, hne⟩
      · exact .inr (.inl hsending)
      · obtain ⟨t, transcript, ht, hlive⟩ := htranscribing
        have hlt := (List.getElem?_eq_some_iff.mp ht).1
        exact .inr (.inr ⟨t, transcript, (List.getElem?_append_left hlt).trans ht, hlive⟩)
  · rintro i ⟨hwaiting, hne⟩
    have hne : i ≠ id := hne
    obtain ⟨huploading, hcontroller, hapart⟩ := h.waiting i hwaiting
    refine ⟨(hold hne).trans huploading, hcontroller, fun hi => ?_⟩
    exact (htranscribed hi).elim hapart hne
  · intro transfer htransfer hi
    exact (htranscribed hi).elim (h.apart transfer htransfer) (hsent transfer htransfer)
  · intro i content hi
    obtain ⟨hle, hapart⟩ := h.retried i content hi
    refine ⟨hle, fun htr => (htranscribed htr).elim hapart ?_⟩
    rintro rfl
    cases hretried.symm.trans hi
  · intro audio i hi
    obtain ⟨⟨old, hstatus, hunsent⟩, hapart, hrest⟩ := h.recorded audio i hi
    have hne : i ≠ id := by
      rintro rfl
      exact hrecorded audio hi
    exact ⟨⟨old, (hold hne).trans hstatus, hunsent⟩,
      fun htr => (htranscribed htr).elim hapart hne, hrest⟩

/-- A new row is taken for a recording. -/
theorem Sound.record [DecidableEq B] (h : s.Sound waiting) (audio : B)
    {status : UploadItemStatus} (hstatus : s.statusOf id = some status)
    (hunsent : status ≠ .uploaded) (hsent : ∀ transfer ∈ s.transfers, transfer.id ≠ id)
    (hretried : s.retries id = none) (hrecorded : ∀ audio, s.recordingItems audio ≠ some id)
    (hapart : ¬ s.Transcribed id) :
    ({ s with
      recordingItems := Function.update s.recordingItems audio (some id) } :
        Queue B J).Sound waiting where
  nodup := h.nodup
  known := h.known
  knownTransfer := h.knownTransfer
  knownTranscript := h.knownTranscript
  running := h.running
  controlled := h.controlled
  transcribing := h.transcribing
  alone := h.alone
  uploading := h.uploading
  waiting := h.waiting
  apart := h.apart
  retried := h.retried
  recorded audio' i hi := by
    dsimp only at hi
    rw [Function.update_apply] at hi
    split_ifs at hi with heq
    · rw [Option.some.injEq] at hi
      subst hi
      refine ⟨⟨status, hstatus, hunsent⟩, hapart,
        fun transfer htransfer hid => absurd hid (hsent transfer htransfer), fun content hi => ?_⟩
      cases hretried.symm.trans hi
    · exact h.recorded audio' i hi
  recordedOnce audio₁ audio₂ i h₁ h₂ := by
    dsimp only at h₁ h₂
    rw [Function.update_apply] at h₁ h₂
    split_ifs at h₁ h₂ with heq₁ heq₂ heq₂
    · exact heq₁.trans heq₂.symm
    · exact absurd (h₁ ▸ h₂) (hrecorded audio₂)
    · exact absurd (h₂ ▸ h₁) (hrecorded audio₁)
    · exact h.recordedOnce audio₁ audio₂ i h₁ h₂
  failing := h.failing

/-- Nothing is known of the next id yet. -/
theorem Sound.next (h : s.Sound waiting) :
    (∀ transfer ∈ s.transfers, transfer.id ≠ s.sequence + 1) ∧
      s.retries (s.sequence + 1) = none ∧
      (∀ audio, s.recordingItems audio ≠ some (s.sequence + 1)) ∧
      ¬ s.Transcribed (s.sequence + 1) := by
  refine ⟨fun transfer htransfer hid => ?_, ?_, fun audio hi => ?_, fun hi => ?_⟩
  · have := h.knownTransfer transfer htransfer
    omega
  · cases hkept : s.retries (s.sequence + 1) with
    | none => rfl
    | some content => exact absurd (h.retried _ content hkept).1 (Nat.not_succ_le_self _)
  · obtain ⟨⟨status, hstatus, -⟩, -⟩ := h.recorded audio _ hi
    cases h.fresh.symm.trans hstatus
  · exact absurd (h.knownTranscript _ hi) (Nat.not_succ_le_self _)

/-- A change of the rows that keeps their ids and statuses. -/
theorem Sound.rows (h : s.Sound waiting) {items : List (UploadItem J)}
    (hids : items.map (·.id) = s.items.map (·.id))
    (hitems : ∀ i, ({ s with items := items } : Queue B J).statusOf i = s.statusOf i) :
    ({ s with items := items } : Queue B J).Sound waiting where
  nodup := hids ▸ h.nodup
  known i hi := h.known i (hitems i ▸ hi)
  knownTransfer := h.knownTransfer
  knownTranscript := h.knownTranscript
  running t transfer ht hlive :=
    ⟨(h.running t transfer ht hlive).1, (hitems _).trans (h.running t transfer ht hlive).2⟩
  controlled := h.controlled
  transcribing i hi := (hitems i).trans (h.transcribing i hi)
  alone := h.alone
  uploading i hi := h.uploading i ((hitems i).symm.trans hi)
  waiting i hi := ⟨(hitems i).trans (h.waiting i hi).1, (h.waiting i hi).2⟩
  apart := h.apart
  retried := h.retried
  recorded audio i hi := by
    obtain ⟨⟨status, hstatus, hne⟩, hrest⟩ := h.recorded audio i hi
    exact ⟨⟨status, (hitems i).trans hstatus, hne⟩, hrest⟩
  recordedOnce := h.recordedOnce
  failing i hi := ⟨(hitems i).trans (h.failing i hi).1, (h.failing i hi).2⟩

theorem Sound.progress (h : s.Sound waiting) {ratio : Rat} :
    (s.patch id fun item => { item with progress := ratio }).Sound waiting := by
  let change (item : UploadItem J) : UploadItem J := { item with progress := ratio }
  have hids : (s.patch id change).items.map (·.id) = s.items.map (·.id) :=
    ids_patch (s := s) fun _ => rfl
  refine h.rows hids fun i => ?_
  have hpatch : (s.patch id change).statusOf i =
      if i = id then (s.statusOf i).map fun status => status else s.statusOf i :=
    statusOf_patch (fun _ => rfl) fun _ => rfl
  refine hpatch.trans ?_
  rw [Option.map_id']
  exact ite_self _

end Queue

end Maeglagi.Uploads
