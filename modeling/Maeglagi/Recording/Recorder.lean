import Mathlib.Algebra.Order.Ring.Rat
import Mathlib.Data.Rat.Defs
import Mathlib.Tactic.SplitIfs
import Maeglagi.Core.Machine

/-!
# The recorder

`useAudioRecorder`: what its refs and states hold, the streams and the recorders that the browser
gave it, and what it reported. A stream or a recorder is named by its place; what a browser object
throws is part of the event in which it throws.
-/

namespace Maeglagi.Recording

open Core

/-- `RecorderStatus` -/
inductive RecorderStatus where
  | idle | requesting | recording | stopping | denied | unsupported | error
  deriving DecidableEq

/-- A `MediaStream`, of which each track is live or was stopped. -/
structure MediaStream where
  live : List Bool

/-- `getTracks().forEach((track) => track.stop())` -/
def MediaStream.stopTracks (stream : MediaStream) : MediaStream where
  live := stream.live.map fun _ => false

/-- `Blob` -/
structure Blob where
  content : List UInt8
  type : String
  deriving DecidableEq

/-- A `MediaRecorder` with the chunks that its listeners collect. -/
structure MediaRecorder where
  stream : ℕ
  /-- `state !== "inactive"` -/
  recording : Bool
  mimeType : String
  chunks : List (List UInt8)

/-- `new Blob(chunks, { type: recorder.mimeType })` -/
def MediaRecorder.audio (m : MediaRecorder) : Blob where
  content := m.chunks.flatten
  type := m.mimeType

/-- What happened, in the order in which it happened; a recording is named by its recorder. -/
inductive Report where
  | started (recorder : ℕ)
  | completed (recorder : ℕ) (audio : Blob) (seconds : ℚ)
  | failed (recorder : ℕ)
  | unmounted
  deriving DecidableEq

/-- The hook and the browser. -/
structure World where
  status : RecorderStatus
  elapsedSeconds : ℕ
  errorMessage : Option String
  startedAt : ℤ
  active : Bool
  mounted : Bool
  recorder : Option ℕ
  stream : Option ℕ
  timer : Bool
  /-- The permission requests that have no result yet. -/
  requests : ℕ
  streams : List MediaStream
  recorders : List MediaRecorder
  reports : List Report

/-- What the browser offers. -/
structure Browser where
  getUserMedia : Bool
  mediaRecorder : Bool
  isTypeSupported : String → Bool

/-- How `stop` of a recorder ends: where it throws, the recorder may have become inactive. -/
inductive Stopping where
  | returns
  | throws (inactive : Bool)
  deriving DecidableEq

/-- How a recorder is made for a stream. -/
inductive Making where
  /-- The constructor throws. -/
  | refused
  /-- `start` throws. -/
  | notStarted (mimeType : String)
  | started (mimeType : String) (now : ℤ)
  deriving DecidableEq

/-- What happens to the hook: calls, results of permission requests and events of the browser. -/
inductive Event where
  | start (browser : Browser)
  | denied (name : String)
  | granted (tracks : ℕ) (making : Making)
  | stop (stopping : Stopping)
  | unmount (stopping : Stopping)
  | dataavailable (recorder : ℕ) (data : List UInt8)
  | stopped (recorder : ℕ) (now : ℤ)
  | failed (recorder : ℕ) (stopping : Stopping)
  /-- A recorder becomes inactive by itself. -/
  | inactivated (recorder : ℕ)
  /-- A track ends by itself. -/
  | ended (stream track : ℕ)
  | tick

/-- `PREFERRED_MIME_TYPES` -/
def preferredMimeTypes : List String := ["audio/webm;codecs=opus", "audio/webm", "audio/mp4"]

/-- `pickMimeType` -/
def pickMimeType (browser : Browser) : Option String :=
  preferredMimeTypes.find? browser.isTypeSupported

/-- What is said about a permission request that failed. -/
def refusal (name : String) : RecorderStatus × String :=
  if name = "NotAllowedError" ∨ name = "SecurityError" then
    (.denied, "마이크 권한이 거부됐습니다. 브라우저 주소창의 자물쇠 아이콘에서 " ++
      "마이크를 허용한 뒤 다시 시도해 주세요.")
  else if name = "NotFoundError" then (.error, "사용할 수 있는 마이크를 찾지 못했습니다.")
  else (.error, "마이크를 열지 못했습니다.")

namespace World

/-- The hook when it is mounted. -/
def initial : World where
  status := .idle
  elapsedSeconds := 0
  errorMessage := none
  startedAt := 0
  active := false
  mounted := true
  recorder := none
  stream := none
  timer := false
  requests := 0
  streams := []
  recorders := []
  reports := []

/-- `setStatus` and `setErrorMessage` -/
def say (w : World) (status : RecorderStatus) (message : String) : World :=
  { w with status := status, errorMessage := some message }

def report (w : World) (entry : Report) : World := { w with reports := w.reports ++ [entry] }

/-- `releaseMic` -/
def releaseMic (w : World) : World :=
  { w with
    streams :=
      match w.stream with
      | none => w.streams
      | some i => w.streams.modify i MediaStream.stopTracks
    stream := none
    timer := false }

/-- The recorder is not inactive. -/
def isRecording (w : World) (r : ℕ) : Bool := (w.recorders[r]?).any (·.recording)

/-- `recorder.stop()`, where a recorder becomes inactive unless it throws. -/
def stopRecorder (w : World) (r : ℕ) (stopping : Stopping) : World :=
  match stopping with
  | .throws false => w
  | _ => { w with recorders := w.recorders.modify r fun m => { m with recording := false } }

/-- `start`, up to the permission request. -/
def start (w : World) (browser : Browser) : World :=
  if w.active then w
  else if ¬ browser.getUserMedia then w.say .unsupported "이 브라우저는 녹음을 지원하지 않습니다."
  else if ¬ browser.mediaRecorder ∨ pickMimeType browser = none then
    w.say .unsupported "이 브라우저에서 지원하는 녹음 형식이 없습니다."
  else
    { w with
      active := true
      status := .requesting
      errorMessage := none
      requests := w.requests + 1 }

/-- `start`, where the permission request failed. -/
def denied (w : World) (name : String) : World :=
  let w := { w with requests := w.requests - 1, active := false }
  if ¬ w.mounted then w else w.say (refusal name).1 (refusal name).2

/-- A recorder for a stream. -/
def addRecorder (w : World) (stream : ℕ) (mimeType : String) (recording : Bool) : World :=
  { w with
    recorders := w.recorders ++
      [{ stream := stream, recording := recording, mimeType := mimeType, chunks := [] }] }

/-- A new stream with live tracks. -/
def obtain (w : World) (tracks : ℕ) : World :=
  { w with requests := w.requests - 1, streams := w.streams ++ [⟨List.replicate tracks true⟩] }

/-- `start`, from `streamRef.current = stream` on, with the recorder that is made next. -/
def record (w : World) (i : ℕ) (making : Making) : World :=
  let r := w.recorders.length
  match making with
  | .refused =>
    { w with stream := some i, active := false }.releaseMic.say .error "녹음을 시작하지 못했습니다."
  | .notStarted mimeType =>
    ({ w.addRecorder i mimeType false with
      stream := some i
      active := false
      recorder := none }.releaseMic.say .error "녹음을 시작하지 못했습니다.").report (.failed r)
  | .started mimeType now =>
    { w.addRecorder i mimeType true with
      stream := some i
      recorder := some r
      startedAt := now
      elapsedSeconds := 0
      status := .recording
      timer := true }.report (.started r)

/-- `start`, from the stream on that was obtained. -/
def granted (w : World) (tracks : ℕ) (making : Making) : World :=
  let i := w.streams.length
  if ¬ w.mounted then
    { w.obtain tracks with
      streams := (w.obtain tracks).streams.modify i MediaStream.stopTracks }
  else (w.obtain tracks).record i making

/-- `stop` -/
def stop (w : World) (stopping : Stopping) : World :=
  match w.recorder with
  | none => w
  | some r =>
    if w.isRecording r then { w with status := .stopping }.stopRecorder r stopping else w

/-- The refs when the hook is unmounted. -/
def leave (w : World) : World := { w with mounted := false, active := false }.report .unmounted

/-- What the effect does when the hook is unmounted. An exception of `recorder.stop` leaves it. -/
def unmount (w : World) (stopping : Stopping) : World :=
  match w.recorder with
  | none => w.leave.releaseMic
  | some r =>
    if w.isRecording r then
      match stopping with
      | .returns => (w.leave.stopRecorder r .returns).releaseMic
      | .throws inactive => w.leave.stopRecorder r (.throws inactive)
    else w.leave.releaseMic

/-- The listener of `dataavailable` -/
def dataavailable (w : World) (r : ℕ) (data : List UInt8) : World :=
  if 0 < data.length then
    { w with recorders := w.recorders.modify r fun m => { m with chunks := m.chunks ++ [data] } }
  else w

/-- The refs when the current recording ends. -/
def forget (w : World) : World := { w with active := false, recorder := none }

/-- The listener of `stop` -/
def stopped (w : World) (r : ℕ) (m : MediaRecorder) (now : ℤ) : World :=
  if w.recorder ≠ some r then w
  else if ¬ (w.active && w.mounted) then w.releaseMic.forget
  else
    { w.releaseMic.forget with elapsedSeconds := 0, status := .idle }.report
      (.completed r m.audio (max 0 ((now - w.startedAt) / 1000)))

/-- The listener of `error` -/
def failed (w : World) (r : ℕ) (stopping : Stopping) : World :=
  if w.recorder ≠ some r ∨ ¬ w.mounted then w
  else
    let stopped := if w.isRecording r then w.forget.stopRecorder r stopping else w.forget
    (stopped.releaseMic.say .error "녹음이 중단됐습니다.").report (.failed r)

end World

/-- A step of the hook. A permission request has one result, and only a recorder has events. -/
def step (w : World) : Event → Option World
  | .start browser => some (w.start browser)
  | .denied name => if w.requests = 0 then none else some (w.denied name)
  | .granted tracks making => if w.requests = 0 then none else some (w.granted tracks making)
  | .stop stopping => some (w.stop stopping)
  | .unmount stopping => some (w.unmount stopping)
  | .dataavailable r data =>
    if r < w.recorders.length then some (w.dataavailable r data) else none
  | .stopped r now => (w.recorders[r]?).map fun m => w.stopped r m now
  | .failed r stopping => if r < w.recorders.length then some (w.failed r stopping) else none
  | .inactivated r =>
    if r < w.recorders.length then some (w.stopRecorder r .returns) else none
  | .ended i track =>
    if i < w.streams.length then
      some { w with
        streams := w.streams.modify i fun stream => ⟨stream.live.set track false⟩ }
    else none
  | .tick => if w.timer then some { w with elapsedSeconds := w.elapsedSeconds + 1 } else none

end Maeglagi.Recording
