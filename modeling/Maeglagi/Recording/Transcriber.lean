import Mathlib.Tactic.SplitIfs
import Maeglagi.Core.Doubles
import Maeglagi.Core.JsStrings
import Maeglagi.Core.Machine

/-!
# The transcriber of saved recordings

`SavedRecordingTranscriber`: what it holds, where its `start` waits, and what happened so far. An
event says what the browser objects throw while it is handled.
-/

namespace Maeglagi.Recording

open Core

/-- A result of a recognition. -/
structure Result where
  isFinal : Bool
  transcript : JsString
  deriving DecidableEq

/-- `MeetingUtterance` -/
structure Utterance where
  id : String
  speakerName : String
  text : JsString
  deriving DecidableEq

/-- `RecordingProgress["phase"]`, where `incomplete` is `"partial"`. -/
inductive Phase where
  | loading | transcribing | complete | incomplete
  deriving DecidableEq

/-- `RecordingProgress` -/
structure RecordingProgress where
  phase : Phase
  seconds : JsNumber
  duration : JsNumber
  utterances : List Utterance
  interim : JsString
  message : Option String
  deriving DecidableEq

/-- What happened: what was reported, calls of `cancel`, and events of the browser. -/
inductive Entry where
  | progress (p : RecordingProgress)
  | cancelled
  | ended
  | results (results : List Result)
  deriving DecidableEq

/-- Where `start` stands. -/
inductive Stage where
  | constructed
  /-- It waits for the audio. -/
  | loading
  | loaded
  | rejected (message : String)
  /-- It waits for `play`. -/
  | playing
  | returned
  deriving DecidableEq

/-- `SavedRecordingTranscriber` with its audio, its recognition and its timers. -/
structure Transcriber where
  active : Bool
  reachedEnd : Bool
  finalText : List JsString
  interim : JsString
  stage : Stage
  /-- The listeners that wait for the audio are there. -/
  finishLoading : Bool
  recognition : Bool
  /-- `audio.onerror` is set. -/
  errorHandler : Bool
  /-- `audio.ontimeupdate` and `audio.onended` are set. -/
  audioHandlers : Bool
  recognitionHandlers : Bool
  /-- The tracks of the captured stream, which are live or not. -/
  stream : Option (List Bool)
  stopTimer : Option ℕ
  timers : List ℕ
  nextTimer : ℕ
  currentTime : JsNumber
  duration : JsNumber
  log : List Entry

/-- Where the browser throws while `cancel` cleans up, if it comes that far. -/
inductive Cleanup where
  | completes
  | removeListeners
  | pause
  | load
  | abort
  | stopTrack (track : ℕ)
  deriving DecidableEq

/-- How the audio begins to load. -/
inductive Opening where
  | waits | ready | failed | throws
  deriving DecidableEq

/-- How the rest of `start` goes, up to the call of `play`. -/
inductive Capture where
  /-- There is no `captureStream`. -/
  | unsupported
  | refused
  /-- The stream has no live audio track. -/
  | noTrack (tracks : ℕ)
  /-- `getAudioTracks` throws. -/
  | unreadable (tracks : ℕ)
  /-- The constructor of the recognition throws. -/
  | notConstructed (tracks : ℕ)
  /-- `recognition.start` throws. -/
  | notStarted (tracks : ℕ)
  | started (tracks : ℕ)
  deriving DecidableEq

/-- What happens to a transcriber. -/
inductive Occurrence where
  | start (opening : Opening)
  | canplay
  | audioError (cleanup : Cleanup)
  /-- The promise of the audio is settled, and `start` goes on. -/
  | resume (capture : Capture) (cleanup : Cleanup)
  | played
  | notPlayed (cleanup : Cleanup)
  | timeupdate
  | ended (stopThrows : Bool) (cleanup : Cleanup)
  | result (results : List Result)
  | recognitionError (code : String) (cleanup : Cleanup)
  | recognitionEnd (cleanup : Cleanup)
  | timer (id : ℕ) (cleanup : Cleanup)
  | cancel (cleanup : Cleanup)
  | clock (currentTime duration : JsNumber)
  | trackEnded (track : ℕ)

/-- `recognitionErrorReason` -/
def recognitionErrorReason (code : String) : String :=
  if code = "network" then "네트워크 연결이 끊겨 받아쓰기가 중단됐습니다."
  else if code = "not-allowed" ∨ code = "service-not-allowed" then
    "브라우저가 받아쓰기를 허용하지 않아 중단됐습니다."
  else if code = "audio-capture" then "녹음 소리를 읽지 못해 받아쓰기가 중단됐습니다."
  else if code = "no-speech" then "음성이 감지되지 않아 받아쓰기가 중단됐습니다."
  else if code = "language-not-supported" then
    "이 브라우저가 한국어 받아쓰기를 지원하지 않아 중단됐습니다."
  else "받아쓰기가 중단됐습니다."

/-- The trimmed transcripts of some results that are not empty. -/
def transcripts (results : List Result) : List JsString :=
  (results.map fun result => trim result.transcript).filter (· ≠ [])

/-- `finalText` after some results -/
def finalTexts (results : List Result) : List JsString :=
  transcripts (results.filter (·.isFinal))

/-- `interim` after some results -/
def interimText (results : List Result) : JsString :=
  (transcripts (results.filter (!·.isFinal))).intersperse [0x20] |>.flatten

/-- `Number.isFinite(n) ? n : 0` -/
def finiteOrZero : JsNumber → JsNumber
  | .finite d => .finite d
  | _ => .finite ⟨false, 0, zero_nonneg, nearest_zero⟩

namespace Transcriber

/-- The transcriber when it is constructed. -/
def initial : Transcriber where
  active := true
  reachedEnd := false
  finalText := []
  interim := []
  stage := .constructed
  finishLoading := false
  recognition := false
  errorHandler := false
  audioHandlers := false
  recognitionHandlers := false
  stream := none
  stopTimer := none
  timers := []
  nextTimer := 0
  currentTime := .nan
  duration := .nan
  log := []

def write (s : Transcriber) (entry : Entry) : Transcriber := { s with log := s.log ++ [entry] }

/-- `utterances` -/
def utterances (s : Transcriber) : List Utterance :=
  s.finalText.mapIdx fun index text =>
    { id := "browser-" ++ toString (index + 1), speakerName := "화자 1", text := text }

/-- What `emit` reports. -/
def progress (s : Transcriber) (phase : Phase) (message : Option String) : RecordingProgress where
  phase := phase
  seconds := finiteOrZero s.currentTime
  duration := finiteOrZero s.duration
  utterances := s.utterances
  interim := s.interim
  message := message

/-- `emit` -/
def emit (s : Transcriber) (phase : Phase) (message : Option String) : Transcriber :=
  if ¬ s.active then s else s.write (.progress (s.progress phase message))

/-- The tracks after some of them were stopped. -/
def stopTracks (tracks : List Bool) : Cleanup → List Bool
  | .stopTrack k => tracks.mapIdx fun i live => if i < k then false else live
  | _ => tracks.map fun _ => false

/-- The first half of `cancel`, up to the call of `pause`. -/
def detach (s : Transcriber) : Transcriber :=
  { s with
    active := false
    stage := if s.stage = .loading then .loaded else s.stage
    finishLoading := false
    timers := s.timers.filter fun id => s.stopTimer ≠ some id
    audioHandlers := false
    errorHandler := false }

/-- `cancel` -/
def cancel (s : Transcriber) (cleanup : Cleanup) : Transcriber :=
  if ¬ s.active then s
  else if s.finishLoading ∧ cleanup = .removeListeners then
    { s with active := false, finishLoading := false }
  else if cleanup = .pause ∨ cleanup = .load then s.detach
  else if s.recognition ∧ cleanup = .abort then { s.detach with recognitionHandlers := false }
  else
    { s.detach with
      recognitionHandlers := false
      stream := s.stream.map fun tracks => stopTracks tracks cleanup }

/-- `finish` -/
def finish (s : Transcriber) (phase : Phase) (message : Option String) (cleanup : Cleanup) :
    Transcriber :=
  if ¬ s.active then s else (s.emit phase message).cancel cleanup

/-- `start`, up to the promise of the audio. -/
def start (s : Transcriber) (opening : Opening) : Transcriber :=
  if ¬ s.active then { s with stage := .returned }
  else
    let s := s.emit .loading none
    match opening with
    | .waits => { s with stage := .loading, finishLoading := true }
    | .ready => { s with stage := .loaded }
    | .failed => { s with stage := .rejected "저장된 녹음을 재생하지 못했습니다." }
    | .throws =>
      { s with
        stage := .rejected "저장된 녹음의 받아쓰기를 시작하지 못했습니다."
        finishLoading := true }

/-- The `canplay` event of the audio. -/
def canplay (s : Transcriber) : Transcriber :=
  if s.finishLoading then
    { s with
      stage := if s.stage = .loading then .loaded else s.stage
      finishLoading := false }
  else s

/-- The `error` event of the audio, for the listener that waits for the audio. -/
def loadFailed (s : Transcriber) : Transcriber :=
  if s.finishLoading then
    { s with
      stage :=
        if s.stage = .loading then .rejected "저장된 녹음을 재생하지 못했습니다." else s.stage
      finishLoading := false }
  else s

/-- The `error` event of the audio. -/
def audioError (s : Transcriber) (cleanup : Cleanup) : Transcriber :=
  if s.errorHandler then
    s.loadFailed.finish .incomplete
      (some "녹음 재생이 중단됐습니다. 부분 대본은 저장되지 않습니다.") cleanup
  else s.loadFailed

/-- The captured stream. -/
def capture (s : Transcriber) (tracks : ℕ) : Transcriber :=
  { s with stream := some (List.replicate tracks true) }

/-- The handlers of the recognition and of the audio are set. -/
def attach (s : Transcriber) : Transcriber :=
  { s with recognition := true, recognitionHandlers := true, audioHandlers := true }

/-- The `catch` of `start`. -/
def fail (s : Transcriber) (message : String) (cleanup : Cleanup) : Transcriber :=
  { s.finish .incomplete (some message) cleanup with stage := .returned }

/-- `start`, from the audio on that was loaded. -/
def listen (s : Transcriber) (capture : Capture) (cleanup : Cleanup) : Transcriber :=
  let failure := "저장된 녹음의 받아쓰기를 시작하지 못했습니다."
  let s := { s with errorHandler := true }
  match capture with
  | .unsupported => s.fail "이 브라우저에서는 저장된 녹음을 받아쓸 수 없습니다." cleanup
  | .refused => s.fail failure cleanup
  | .noTrack tracks => (s.capture tracks).fail "저장된 녹음의 소리를 읽지 못했습니다." cleanup
  | .unreadable tracks => (s.capture tracks).fail failure cleanup
  | .notConstructed tracks => (s.capture tracks).fail failure cleanup
  | .notStarted tracks => (s.capture tracks).attach.fail failure cleanup
  | .started tracks => { (s.capture tracks).attach with stage := .playing }

/-- The audio ended: the recognition has some seconds left. -/
def reachEnd (s : Transcriber) : Transcriber :=
  { s with
    reachedEnd := true
    stopTimer := some s.nextTimer
    timers := s.timers ++ [s.nextTimer]
    nextTimer := s.nextTimer + 1 }

/-- `audio.onended` -/
def audioEnded (s : Transcriber) (stopThrows : Bool) (cleanup : Cleanup) : Transcriber :=
  if ¬ (s.audioHandlers && s.active) then s
  else if stopThrows then
    s.reachEnd.finish .incomplete
      (some "받아쓰기가 끝났는지 확인하지 못했습니다. 부분 대본은 저장되지 않습니다.") cleanup
  else s.reachEnd

/-- `recognition.onresult` -/
def heard (s : Transcriber) (results : List Result) : Transcriber :=
  if ¬ (s.recognitionHandlers && s.active) then s
  else
    { s with finalText := finalTexts results, interim := interimText results }.emit
      .transcribing none

/-- `recognition.onend` -/
def recognitionEnd (s : Transcriber) (cleanup : Cleanup) : Transcriber :=
  if ¬ (s.recognitionHandlers && s.active) then s
  else if s.reachedEnd = true ∧ s.finalText ≠ [] ∧ s.interim = [] then
    s.finish .complete none cleanup
  else
    s.finish .incomplete
      (some (if s.reachedEnd then "완성된 대본이 없습니다. 다시 시도해 주세요."
        else "녹음이 끝나기 전에 받아쓰기가 중단됐습니다. 부분 대본은 저장되지 않습니다."))
      cleanup

end Transcriber

/-- A step of a transcriber, whose `start` is called once. -/
def transcribe (s : Transcriber) : Occurrence → Option Transcriber
  | .start opening => if s.stage = .constructed then some (s.start opening) else none
  | .canplay => some s.canplay
  | .audioError cleanup => some (s.audioError cleanup)
  | .resume capture cleanup =>
    match s.stage with
    | .loaded =>
      some (if ¬ s.active then { s with stage := .returned } else s.listen capture cleanup)
    | .rejected message => some (s.fail message cleanup)
    | _ => none
  | .played =>
    if s.stage = .playing then some { s.emit .transcribing none with stage := .returned }
    else none
  | .notPlayed cleanup =>
    if s.stage = .playing then
      some (s.fail "저장된 녹음의 받아쓰기를 시작하지 못했습니다." cleanup)
    else none
  | .timeupdate => some (if s.audioHandlers then s.emit .transcribing none else s)
  | .ended stopThrows cleanup => some ((s.write .ended).audioEnded stopThrows cleanup)
  | .result results =>
    if s.recognition then some ((s.write (.results results)).heard results) else none
  | .recognitionError code cleanup =>
    some
      (if s.recognitionHandlers then
        s.finish .incomplete
          (some (recognitionErrorReason code ++ " 부분 대본은 저장되지 않습니다.")) cleanup
      else s)
  | .recognitionEnd cleanup => some (s.recognitionEnd cleanup)
  | .timer id cleanup =>
    if id ∈ s.timers then
      some ({ s with timers := s.timers.erase id }.finish .incomplete
        (some "받아쓰기가 끝났는지 확인하지 못했습니다. 부분 대본은 저장되지 않습니다.") cleanup)
    else none
  | .cancel cleanup => some ((s.cancel cleanup).write .cancelled)
  | .clock currentTime duration => some { s with currentTime := currentTime, duration := duration }
  | .trackEnded track =>
    some { s with stream := s.stream.map fun tracks => tracks.set track false }

end Maeglagi.Recording
