import Maeglagi.Recording.Transcriber

/-!
# A transcriber ends once and honestly

After its last report, and after it was cancelled, nothing is reported. It reports a complete
transcript only of an audio that ended and whose last results were all final, and then it does
not listen any more.
-/

namespace Maeglagi.Recording

open Core

/-- A report of progress. -/
def Entry.isProgress : Entry → Bool
  | .progress _ => true
  | _ => false

/-- A report after which none may follow, or a cancellation. -/
def Entry.closes : Entry → Bool
  | .progress p => p.phase = .complete ∨ p.phase = .incomplete
  | .cancelled => true
  | _ => false

/-- The results that were heard last. -/
def lastResults (log : List Entry) : List Result :=
  log.foldl (fun last entry =>
    match entry with
    | .results results => results
    | _ => last) []

/-- Nothing is reported after a terminal report or a cancellation. -/
def QuietAfter (log : List Entry) : Prop :=
  ∀ earlier entry later, log = earlier ++ entry :: later → entry.closes = true →
    ∀ e ∈ later, e.isProgress = false

/-- Completion is reported after the audio ended, where the last results had final text and no
interim text. -/
def CompletesHonestly (log : List Entry) : Prop :=
  ∀ earlier p later, log = earlier ++ .progress p :: later → p.phase = .complete →
    .ended ∈ earlier ∧ finalTexts (lastResults earlier) ≠ [] ∧
      interimText (lastResults earlier) = []

namespace Transcriber

/-- No track of the captured stream is live. -/
def Silent (s : Transcriber) : Prop := ∀ tracks ∈ s.stream, ∀ live ∈ tracks, live = false

/-- What is asked of a transcriber. -/
structure Sound (s : Transcriber) : Prop where
  quiet : QuietAfter s.log
  honest : CompletesHonestly s.log
  released : (∃ entry ∈ s.log, entry.closes = true) → s.Silent

/-- What every state keeps. -/
structure Kept (s : Transcriber) : Prop where
  quiet : QuietAfter s.log
  honest : CompletesHonestly s.log
  closed : (∃ entry ∈ s.log, entry.closes = true) → s.active = false
  silent : s.active = false → s.Silent
  reached : s.reachedEnd = true → .ended ∈ s.log
  texts : s.active = true → s.finalText = finalTexts (lastResults s.log) ∧
    s.interim = interimText (lastResults s.log)
  handlers : s.active = true → s.recognition = true → s.recognitionHandlers = true

theorem Kept.sound {s : Transcriber} (h : s.Kept) : s.Sound where
  quiet := h.quiet
  honest := h.honest
  released hclosed := h.silent (h.closed hclosed)

end Transcriber

/-- The browser does not throw while `cancel` cleans up. -/
def CleansUp (_ : Transcriber) (e : Occurrence) : Prop :=
  match e with
  | .audioError cleanup | .resume _ cleanup | .notPlayed cleanup | .ended _ cleanup
  | .recognitionError _ cleanup | .recognitionEnd cleanup | .timer _ cleanup
  | .cancel cleanup => cleanup = .completes
  | _ => True

/-! ## The log -/

theorem lastResults_concat (log : List Entry) (entry : Entry) :
    lastResults (log ++ [entry]) =
      match entry with
      | .results results => results
      | _ => lastResults log := by
  rw [lastResults, List.foldl_append]
  rfl

/-- An entry more, which reports nothing where the log is closed. -/
theorem QuietAfter.concat {log : List Entry} (h : QuietAfter log) {entry : Entry}
    (hentry : entry.isProgress = true → ∀ e ∈ log, e.closes = false) :
    QuietAfter (log ++ [entry]) := by
  intro earlier e later heq hcloses
  rcases List.eq_nil_or_concat later with rfl | ⟨later, last, rfl⟩
  · intro e' he'
    cases he'
  · rw [List.concat_eq_append, ← List.cons_append, ← List.append_assoc] at heq
    obtain ⟨rfl, hlast⟩ := List.append_inj' heq rfl
    rw [List.concat_eq_append, List.forall_mem_append, List.forall_mem_singleton]
    refine ⟨h earlier e later rfl hcloses, ?_⟩
    rw [← (List.cons.inj hlast).1]
    by_contra hprogress
    have hopen := hentry (by simpa using hprogress) e (by simp)
    rw [hcloses] at hopen
    cases hopen

theorem CompletesHonestly.concat {log : List Entry} (h : CompletesHonestly log) {entry : Entry}
    (hentry : ∀ p, entry = .progress p → p.phase = .complete → .ended ∈ log ∧
      finalTexts (lastResults log) ≠ [] ∧ interimText (lastResults log) = []) :
    CompletesHonestly (log ++ [entry]) := by
  intro earlier p later heq hphase
  rcases List.eq_nil_or_concat later with rfl | ⟨later, last, rfl⟩
  · obtain ⟨rfl, hlast⟩ := List.append_inj' heq rfl
    exact hentry p (List.cons.inj hlast).1 hphase
  · rw [List.concat_eq_append, ← List.cons_append, ← List.append_assoc] at heq
    obtain ⟨rfl, -⟩ := List.append_inj' heq rfl
    exact h earlier p later rfl hphase

namespace Transcriber

variable {s : Transcriber}

/-- Changes of what nothing depends on. -/
theorem Kept.of_eq {s' : Transcriber} (h : s.Kept) (hlog : s'.log = s.log)
    (hactive : s'.active = s.active) (hstream : s.active = false → s.Silent → s'.Silent)
    (hreached : s'.reachedEnd = s.reachedEnd) (hfinal : s'.finalText = s.finalText)
    (hinterim : s'.interim = s.interim)
    (hhandlers : s.active = true → s'.recognition = true → s'.recognitionHandlers = true) :
    s'.Kept := by
  refine ⟨?_, ?_, ?_, ?_, ?_, ?_, ?_⟩
  · rw [hlog]
    exact h.quiet
  · rw [hlog]
    exact h.honest
  · rw [hlog, hactive]
    exact h.closed
  · rw [hactive]
    exact fun hinactive => hstream hinactive (h.silent hinactive)
  · rw [hlog, hreached]
    exact h.reached
  · rw [hlog, hactive, hfinal, hinterim]
    exact h.texts
  · rw [hactive]
    exact hhandlers

theorem kept_initial : initial.Kept where
  quiet earlier entry later heq := by simp [initial] at heq
  honest earlier p later heq := by simp [initial] at heq
  closed h := by
    obtain ⟨entry, hentry, -⟩ := h
    cases hentry
  silent h := by cases h
  reached h := by cases h
  texts _ := ⟨rfl, rfl⟩
  handlers _ h := by cases h

/-- While the transcriber is active its log is open. -/
theorem Kept.unclosed (h : s.Kept) (ha : s.active = true) : ∀ e ∈ s.log, e.closes = false := by
  intro e he
  by_contra hcloses
  have hinactive := h.closed ⟨e, he, by simpa using hcloses⟩
  rw [ha] at hinactive
  cases hinactive

/-- An entry that neither closes the log nor brings results. -/
theorem Kept.write (h : s.Kept) {entry : Entry}
    (hprogress : entry.isProgress = true → s.active = true)
    (hcloses : entry.closes = true → s.active = false)
    (hresults : lastResults (s.log ++ [entry]) = lastResults s.log)
    (hentry : ∀ p, entry = .progress p → p.phase ≠ .complete) : (s.write entry).Kept where
  quiet := h.quiet.concat fun hp => h.unclosed (hprogress hp)
  honest := h.honest.concat fun p hp hphase => absurd hphase (hentry p hp)
  closed := by
    rintro ⟨e, he, hclosed⟩
    rcases List.mem_append.mp he with he | he
    · exact h.closed ⟨e, he, hclosed⟩
    · rw [List.mem_singleton.mp he] at hclosed
      exact hcloses hclosed
  silent := h.silent
  reached hr := List.mem_append_left _ (h.reached hr)
  texts ha := by
    change s.finalText = finalTexts (lastResults (s.log ++ [entry])) ∧
      s.interim = interimText (lastResults (s.log ++ [entry]))
    rw [hresults]
    exact h.texts ha
  handlers := h.handlers

/-- A report that is not the last one. -/
theorem Kept.emit (h : s.Kept) {phase : Phase} (hphase : phase = .loading ∨ phase = .transcribing)
    (message : Option String) : (s.emit phase message).Kept := by
  unfold Transcriber.emit
  by_cases ha : s.active = true
  · rw [if_neg (not_not.mpr ha)]
    refine h.write (fun _ => ha) (fun hcloses => ?_) (lastResults_concat _ _) ?_
    · rcases hphase with rfl | rfl <;> cases hcloses
    · rintro p ⟨⟩ hcomplete
      change phase = .complete at hcomplete
      rcases hphase with rfl | rfl <;> cases hcomplete
  · rwa [if_pos ha]

theorem cancel_completes (ha : s.active = true) : s.cancel .completes =
    { s.detach with
      recognitionHandlers := false
      stream := s.stream.map fun tracks => tracks.map fun _ => false } := by
  unfold Transcriber.cancel
  rw [if_neg (not_not.mpr ha), if_neg (by simp), if_neg (by simp), if_neg (by simp)]
  rfl

theorem silent_map (stream : Option (List Bool)) :
    ∀ tracks ∈ stream.map fun tracks => tracks.map fun _ => false,
      ∀ live ∈ tracks, live = false := by
  intro tracks htracks live hlive
  obtain ⟨old, -, rfl⟩ := Option.map_eq_some_iff.mp htracks
  obtain ⟨-, -, rfl⟩ := List.mem_map.mp hlive
  rfl

/-- A transcriber that was cancelled is not active. -/
theorem active_cancel (s : Transcriber) : (s.cancel .completes).active = false := by
  by_cases ha : s.active = true
  · rw [cancel_completes ha]
    rfl
  · unfold Transcriber.cancel
    rw [if_pos ha]
    simpa using ha

theorem Kept.cancel (h : s.Kept) : (s.cancel .completes).Kept := by
  by_cases ha : s.active = true
  · rw [cancel_completes ha]
    refine ⟨h.quiet, h.honest, fun _ => rfl, fun _ => silent_map s.stream, h.reached, ?_, ?_⟩
    · rintro ⟨⟩
    · rintro ⟨⟩
  · unfold Transcriber.cancel
    rwa [if_pos ha]

/-- The last report. -/
theorem Kept.finish (h : s.Kept) {phase : Phase} (message : Option String)
    (hcomplete : phase = .complete → s.reachedEnd = true ∧ s.finalText ≠ [] ∧ s.interim = []) :
    (s.finish phase message .completes).Kept := by
  unfold Transcriber.finish
  by_cases ha : s.active = true
  · have hemit : s.emit phase message = s.write (.progress (s.progress phase message)) :=
      if_neg (not_not.mpr ha)
    rw [if_neg (not_not.mpr ha), hemit, cancel_completes (s := s.write _) ha]
    obtain ⟨hfinal, hinterim⟩ := h.texts ha
    refine ⟨h.quiet.concat fun _ => h.unclosed ha, h.honest.concat ?_, fun _ => rfl,
      fun _ => silent_map s.stream, fun hr => List.mem_append_left _ (h.reached hr), ?_, ?_⟩
    · rintro p ⟨⟩ hphase
      obtain ⟨hreached, hne, hempty⟩ := hcomplete hphase
      exact ⟨h.reached hreached, hfinal ▸ hne, hinterim ▸ hempty⟩
    · rintro ⟨⟩
    · rintro ⟨⟩
  · rwa [if_pos ha]

/-- `start` returns after what went wrong was reported. -/
theorem Kept.fail (h : s.Kept) (message : String) : (s.fail message .completes).Kept :=
  (h.finish (some message) (by rintro ⟨⟩)).of_eq rfl rfl (fun _ hsilent => hsilent) rfl rfl rfl
    (h.finish (some message) (by rintro ⟨⟩)).handlers

theorem Kept.start (h : s.Kept) (opening : Opening) : (s.start opening).Kept := by
  unfold Transcriber.start
  by_cases ha : s.active = true
  · have hemit := h.emit (Or.inl rfl) none
    rw [if_neg (not_not.mpr ha)]
    cases opening with
    | waits => exact hemit.of_eq rfl rfl (fun _ hsilent => hsilent) rfl rfl rfl hemit.handlers
    | ready => exact hemit.of_eq rfl rfl (fun _ hsilent => hsilent) rfl rfl rfl hemit.handlers
    | failed => exact hemit.of_eq rfl rfl (fun _ hsilent => hsilent) rfl rfl rfl hemit.handlers
    | throws => exact hemit.of_eq rfl rfl (fun _ hsilent => hsilent) rfl rfl rfl hemit.handlers
  · rw [if_pos ha]
    exact h.of_eq rfl rfl (fun _ hsilent => hsilent) rfl rfl rfl h.handlers

/-- Only what `start` and the timers hold changes. -/
theorem Kept.of_stage {s' : Transcriber} (h : s.Kept) (hlog : s'.log = s.log)
    (hactive : s'.active = s.active) (hstream : s'.stream = s.stream)
    (hreached : s'.reachedEnd = s.reachedEnd) (hfinal : s'.finalText = s.finalText)
    (hinterim : s'.interim = s.interim) (hrecognition : s'.recognition = s.recognition)
    (hhandlers : s'.recognitionHandlers = s.recognitionHandlers) : s'.Kept := by
  refine h.of_eq hlog hactive (fun _ hsilent => ?_) hreached hfinal hinterim ?_
  · unfold Silent
    rwa [hstream]
  · rw [hrecognition, hhandlers]
    exact h.handlers

theorem Kept.canplay (h : s.Kept) : s.canplay.Kept := by
  unfold Transcriber.canplay
  split_ifs
  · exact h.of_stage rfl rfl rfl rfl rfl rfl rfl rfl
  · exact h.of_stage rfl rfl rfl rfl rfl rfl rfl rfl
  · exact h

theorem Kept.loadFailed (h : s.Kept) : s.loadFailed.Kept := by
  unfold Transcriber.loadFailed
  split_ifs
  · exact h.of_stage rfl rfl rfl rfl rfl rfl rfl rfl
  · exact h.of_stage rfl rfl rfl rfl rfl rfl rfl rfl
  · exact h

theorem Kept.audioError (h : s.Kept) : (s.audioError .completes).Kept := by
  unfold Transcriber.audioError
  split_ifs
  · exact h.loadFailed.finish _ (by rintro ⟨⟩)
  · exact h.loadFailed

/-- A stream is captured while the transcriber is active. -/
theorem Kept.capture (h : s.Kept) (ha : s.active = true) (tracks : ℕ) :
    (s.capture tracks).Kept := by
  refine h.of_eq rfl rfl (fun hinactive => ?_) rfl rfl rfl h.handlers
  rw [ha] at hinactive
  cases hinactive

theorem Kept.attach (h : s.Kept) : s.attach.Kept :=
  h.of_eq rfl rfl (fun _ hsilent => hsilent) rfl rfl rfl fun _ _ => rfl

theorem Kept.listen (h : s.Kept) (ha : s.active = true) (capture : Capture) :
    (s.listen capture .completes).Kept := by
  have hset : Kept { s with errorHandler := true } :=
    h.of_stage rfl rfl rfl rfl rfl rfl rfl rfl
  unfold Transcriber.listen
  cases capture with
  | unsupported => exact hset.fail _
  | refused => exact hset.fail _
  | noTrack tracks => exact (hset.capture ha tracks).fail _
  | unreadable tracks => exact (hset.capture ha tracks).fail _
  | notConstructed tracks => exact (hset.capture ha tracks).fail _
  | notStarted tracks => exact (hset.capture ha tracks).attach.fail _
  | started tracks =>
    exact (hset.capture ha tracks).attach.of_stage rfl rfl rfl rfl rfl rfl rfl rfl

/-- The audio ended: `reachedEnd` says so from now on. -/
theorem Kept.audioEnded (h : s.Kept) (stopThrows : Bool) :
    ((s.write .ended).audioEnded stopThrows .completes).Kept := by
  have hwrite : (s.write .ended).Kept :=
    h.write (by rintro ⟨⟩) (by rintro ⟨⟩) (lastResults_concat _ _) (by rintro p ⟨⟩)
  have hended : .ended ∈ (s.write .ended).log :=
    List.mem_append_right _ (List.mem_singleton_self _)
  have hreached : (s.write .ended).reachEnd.Kept :=
    ⟨hwrite.quiet, hwrite.honest, hwrite.closed, hwrite.silent, fun _ => hended, hwrite.texts,
      hwrite.handlers⟩
  unfold Transcriber.audioEnded
  split_ifs
  · exact hreached.finish _ (by rintro ⟨⟩)
  · exact hreached
  · exact hwrite

/-- Results are heard as long as the transcriber is active. -/
theorem Kept.heard (h : s.Kept) (hrecognition : s.recognition = true) (results : List Result) :
    ((s.write (.results results)).heard results).Kept := by
  have hquiet : QuietAfter (s.log ++ [.results results]) := h.quiet.concat (by rintro ⟨⟩)
  have hhonest : CompletesHonestly (s.log ++ [.results results]) :=
    h.honest.concat (by rintro p ⟨⟩)
  have hclosed : (∃ entry ∈ s.log ++ [.results results], entry.closes = true) →
      s.active = false := by
    rintro ⟨e, he, hcloses⟩
    rcases List.mem_append.mp he with he | he
    · exact h.closed ⟨e, he, hcloses⟩
    · rw [List.mem_singleton.mp he] at hcloses
      cases hcloses
  have hended (hr : s.reachedEnd = true) : .ended ∈ s.log ++ [.results results] :=
    List.mem_append_left _ (h.reached hr)
  unfold Transcriber.heard
  by_cases ha : s.active = true
  · have hboth : ((s.write (.results results)).recognitionHandlers &&
        (s.write (.results results)).active) = true :=
      Bool.and_eq_true_iff.mpr ⟨h.handlers ha hrecognition, ha⟩
    rw [if_neg (not_not.mpr hboth)]
    have hlast : lastResults (s.log ++ [.results results]) = results := lastResults_concat _ _
    have hheard : Kept { s.write (.results results) with
        finalText := finalTexts results
        interim := interimText results } := by
      refine ⟨hquiet, hhonest, hclosed, h.silent, hended, fun _ => ?_, h.handlers⟩
      change finalTexts results = finalTexts (lastResults (s.log ++ [.results results])) ∧
        interimText results = interimText (lastResults (s.log ++ [.results results]))
      rw [hlast]
      exact ⟨rfl, rfl⟩
    exact hheard.emit (Or.inr rfl) none
  · have hnot : ¬ ((s.write (.results results)).recognitionHandlers &&
        (s.write (.results results)).active) = true :=
      fun hboth => ha (Bool.and_eq_true_iff.mp hboth).2
    rw [if_pos hnot]
    exact ⟨hquiet, hhonest, hclosed, h.silent, hended, fun hactive => absurd hactive ha,
      h.handlers⟩

theorem Kept.recognitionEnd (h : s.Kept) : (s.recognitionEnd .completes).Kept := by
  unfold Transcriber.recognitionEnd
  split_ifs with hhandled hcomplete
  · exact h.finish _ fun _ => hcomplete
  · exact h.finish _ (by rintro ⟨⟩)
  · exact h.finish _ (by rintro ⟨⟩)
  · exact h

/-- A cancellation closes the log. -/
theorem Kept.cancelled (h : s.Kept) : ((s.cancel .completes).write .cancelled).Kept :=
  h.cancel.write (by rintro ⟨⟩) (fun _ => active_cancel s) (lastResults_concat _ _)
    (by rintro p ⟨⟩)

theorem Kept.trackEnded (h : s.Kept) (track : ℕ) :
    Kept { s with stream := s.stream.map fun tracks => tracks.set track false } := by
  refine h.of_eq rfl rfl (fun _ hsilent => ?_) rfl rfl rfl h.handlers
  intro tracks htracks live hlive
  obtain ⟨old, hold, rfl⟩ := Option.map_eq_some_iff.mp htracks
  rcases List.mem_or_eq_of_mem_set hlive with hmem | rfl
  · exact hsilent old hold live hmem
  · rfl

theorem kept_of_step {s' : Transcriber} {e : Occurrence} (h : s.Kept) (hok : CleansUp s e)
    (hs : transcribe s e = some s') : s'.Kept := by
  cases e with
  | start opening =>
    simp only [transcribe, Option.ite_none_right_eq_some, Option.some.injEq] at hs
    exact hs.2 ▸ h.start opening
  | canplay => exact Option.some.inj hs ▸ h.canplay
  | audioError cleanup =>
    obtain rfl : cleanup = .completes := hok
    exact Option.some.inj hs ▸ h.audioError
  | resume capture cleanup =>
    obtain rfl : cleanup = .completes := hok
    unfold transcribe at hs
    dsimp only at hs
    split at hs
    · obtain rfl := Option.some.inj hs
      split_ifs with ha
      · exact h.listen (by simpa using ha) capture
      · exact h.of_stage rfl rfl rfl rfl rfl rfl rfl rfl
    · exact Option.some.inj hs ▸ h.fail _
    · cases hs
  | played =>
    simp only [transcribe, Option.ite_none_right_eq_some, Option.some.injEq] at hs
    exact hs.2 ▸ (h.emit (Or.inr rfl) none).of_stage rfl rfl rfl rfl rfl rfl rfl rfl
  | notPlayed cleanup =>
    obtain rfl : cleanup = .completes := hok
    simp only [transcribe, Option.ite_none_right_eq_some, Option.some.injEq] at hs
    exact hs.2 ▸ h.fail _
  | timeupdate =>
    obtain rfl := Option.some.inj hs
    split_ifs
    · exact h.emit (Or.inr rfl) none
    · exact h
  | ended stopThrows cleanup =>
    obtain rfl : cleanup = .completes := hok
    exact Option.some.inj hs ▸ h.audioEnded stopThrows
  | result results =>
    simp only [transcribe, Option.ite_none_right_eq_some, Option.some.injEq] at hs
    exact hs.2 ▸ h.heard hs.1 results
  | recognitionError code cleanup =>
    obtain rfl : cleanup = .completes := hok
    obtain rfl := Option.some.inj hs
    split_ifs
    · exact h.finish _ (by rintro ⟨⟩)
    · exact h
  | recognitionEnd cleanup =>
    obtain rfl : cleanup = .completes := hok
    exact Option.some.inj hs ▸ h.recognitionEnd
  | timer id cleanup =>
    obtain rfl : cleanup = .completes := hok
    simp only [transcribe, Option.ite_none_right_eq_some, Option.some.injEq] at hs
    obtain ⟨-, rfl⟩ := hs
    have herase : Kept { s with timers := s.timers.erase id } :=
      h.of_stage rfl rfl rfl rfl rfl rfl rfl rfl
    exact herase.finish _ (by rintro ⟨⟩)
  | cancel cleanup =>
    obtain rfl : cleanup = .completes := hok
    exact Option.some.inj hs ▸ h.cancelled
  | clock currentTime duration =>
    exact Option.some.inj hs ▸ h.of_stage rfl rfl rfl rfl rfl rfl rfl rfl
  | trackEnded track => exact Option.some.inj hs ▸ h.trackEnded track

/-- Where the browser does not throw while `cancel` cleans up, every state of a run is sound. -/
theorem ends_honestly (h : RunOf transcribe CleansUp initial s) : s.Sound :=
  (h.invariant (P := Kept) (fun _ _ _ hkept hok hs => kept_of_step hkept hok hs)
    kept_initial).sound

/-- A recording that is heard to its end. -/
def heardRecording : List Occurrence :=
  [.start .waits, .canplay, .resume (.started 1) .completes, .played,
    .result [⟨false, codeUnits "hel".toList⟩], .result [⟨true, codeUnits " hello ".toList⟩],
    .ended false .completes, .recognitionEnd .completes, .timeupdate, .cancel .completes]

theorem ends_honestly_heard : ∃ s, replay transcribe initial heardRecording = some s ∧
    (∃ p, Entry.progress p ∈ s.log ∧ p.phase = .complete ∧
      p.utterances = [⟨"browser-1", "화자 1", codeUnits "hello".toList⟩]) ∧ s.Silent := by
  have hrun : ∃ s, replay transcribe initial heardRecording = some s ∧
      (∃ p, Entry.progress p ∈ s.log ∧ p.phase = .complete ∧
        p.utterances = [⟨"browser-1", "화자 1", codeUnits "hello".toList⟩]) :=
    ⟨_, rfl, ⟨_, List.mem_of_getElem? (i := 7) rfl, rfl, by decide⟩⟩
  obtain ⟨s, hreplay, p, hp, hcomplete, htext⟩ := hrun
  have hok : ∀ s, ∀ e ∈ heardRecording, CleansUp s e := by
    intro s
    simp [heardRecording, CleansUp]
  have hsound := ends_honestly (runOf_replay hok hreplay)
  refine ⟨s, hreplay, ⟨p, hp, hcomplete, htext⟩, hsound.released ⟨_, hp, ?_⟩⟩
  rw [Entry.closes, hcomplete]
  decide

/-- A transcriber that is cancelled while `abort` of its recognition throws. -/
def cancelThrowing : List Occurrence :=
  [.start .ready, .resume (.started 1) .completes, .played, .cancel .abort]

/-- The track of the captured stream stays live after the cancellation. -/
theorem not_released_cancelled : ∃ s, RunOf transcribe anyEvent initial s ∧
    Entry.cancelled ∈ s.log ∧ ¬ s.Silent := by
  have hrun : ∃ s, replay transcribe initial cancelThrowing = some s ∧
      Entry.cancelled ∈ s.log ∧ s.stream = some [true] := ⟨_, rfl, by decide, rfl⟩
  obtain ⟨s, hreplay, hcancelled, hstream⟩ := hrun
  refine ⟨s, runOf_replay (fun _ _ _ => trivial) hreplay, hcancelled, fun hsilent => ?_⟩
  cases hsilent [true] hstream true (List.mem_singleton_self _)

end Transcriber

end Maeglagi.Recording
