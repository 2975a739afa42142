import Mathlib.Data.List.Nodup
import Maeglagi.Recording.Recorder

/-!
# The microphone is not left on

Live tracks belong to the stream of the recorder that is current, the hook asks for permission
once at a time, and what it reports about a recording ends with one report.
-/

namespace Maeglagi.Recording

open Core

/-- All tracks of a stream were stopped or ended. -/
def MediaStream.Stopped (stream : MediaStream) : Prop := ∀ live ∈ stream.live, live = false

/-- No recording runs or stops, and no permission request waits for its result. -/
def Idle (w : World) : Prop :=
  w.requests = 0 ∧ (w.mounted = true → w.status ≠ .recording ∧ w.status ≠ .stopping)

/-- The recorder records a stream that has a live track. -/
def Active (w : World) (r : ℕ) : Prop :=
  ∃ m stream, w.recorders[r]? = some m ∧ m.recording = true ∧
    w.streams[m.stream]? = some stream ∧ ¬ stream.Stopped

/-- A recording is completed once, after it was started, and neither after it failed nor after the
hook was unmounted. -/
def CompletesOnce (reports : List Report) : Prop :=
  ∀ earlier later r audio seconds, reports = earlier ++ .completed r audio seconds :: later →
    .started r ∈ earlier ∧ (∀ audio seconds, .completed r audio seconds ∉ earlier) ∧
      .failed r ∉ earlier ∧ .unmounted ∉ earlier

/-- What is asked of a recorder. -/
structure Sound (w : World) : Prop where
  released : Idle w → ∀ stream ∈ w.streams, stream.Stopped
  single : ∀ r r', Active w r → Active w r' → r = r'
  once : CompletesOnce w.reports

/-- The recorder's `stop` does not throw where the unmounted hook calls it. -/
def StopsOnUnmount (w : World) (e : Event) : Prop :=
  ∀ inactive r, e = .unmount (.throws inactive) → w.recorder = some r → w.isRecording r = false

/-! ## What is kept -/

/-- While the hook is mounted it waits for a permission or has a recorder where it is active. -/
structure Control (w : World) : Prop where
  requests : w.mounted = true → w.requests = if w.active = true ∧ w.recorder = none then 1 else 0
  recorder : w.mounted = true → ∀ r, w.recorder = some r →
    w.active = true ∧ (w.status = .recording ∨ w.status = .stopping)

/-- A live track belongs to the current stream, and each recorder has a stream of its own. -/
structure Owned (w : World) : Prop where
  live : ∀ i stream, w.streams[i]? = some stream → ¬ stream.Stopped →
    w.stream = some i ∧ w.mounted = true ∧ w.recorder ≠ none
  distinct : (w.recorders.map (·.stream)).Nodup
  known : ∀ i ∈ w.recorders.map (·.stream), i < w.streams.length

/-- The recorder that a report is about. -/
def Report.recorder? : Report → Option ℕ
  | .started r | .completed r _ _ | .failed r => some r
  | .unmounted => none

/-- The current recording was started and has no other report yet. -/
structure Logged (w : World) : Prop where
  named : ∀ entry ∈ w.reports, ∀ r ∈ entry.recorder?, r < w.recorders.length
  current : ∀ r, w.recorder = some r → .started r ∈ w.reports ∧
    (∀ audio seconds, .completed r audio seconds ∉ w.reports) ∧ .failed r ∉ w.reports
  gone : .unmounted ∈ w.reports → w.mounted = false
  once : CompletesOnce w.reports

/-! ## Control -/

theorem control_initial : Control World.initial where
  requests _ := rfl
  recorder _ r h := by cases h

/-- Only these fields count for the control. -/
theorem Control.of_eq {w w' : World} (h : Control w) (hmounted : w'.mounted = w.mounted)
    (hactive : w'.active = w.active) (hrecorder : w'.recorder = w.recorder)
    (hrequests : w'.requests = w.requests)
    (hstatus : w'.status = w.status ∨ w'.status = .stopping) : Control w' := by
  refine ⟨?_, ?_⟩
  · rw [hmounted, hactive, hrecorder, hrequests]
    exact h.requests
  · rw [hmounted, hactive, hrecorder]
    intro hm r hr
    refine ⟨(h.recorder hm r hr).1, ?_⟩
    rcases hstatus with hstatus | hstatus
    · rw [hstatus]
      exact (h.recorder hm r hr).2
    · exact Or.inr hstatus

/-- Where the hook is idle there is no recorder. -/
theorem Control.of_inactive {w : World} (hrecorder : w.recorder = none) (hactive : w.active = false)
    (hrequests : w.mounted = true → w.requests = 0) : Control w := by
  refine ⟨fun hm => ?_, fun _ r hr => ?_⟩
  · rw [hrequests hm, hactive]
    rfl
  · rw [hrecorder] at hr
    cases hr

theorem Control.of_unmounted {w : World} (h : w.mounted = false) : Control w := by
  refine ⟨fun hm => ?_, fun hm => ?_⟩
  · rw [h] at hm
    cases hm
  · rw [h] at hm
    cases hm

/-- A permission that was asked for is the only one, and nothing is recorded meanwhile. -/
theorem Control.waiting {w : World} (h : Control w) (hm : w.mounted = true) (hr : w.requests ≠ 0) :
    w.requests = 1 ∧ w.recorder = none := by
  have hrequests := h.requests hm
  by_cases hwait : w.active = true ∧ w.recorder = none
  · rw [if_pos hwait] at hrequests
    exact ⟨hrequests, hwait.2⟩
  · rw [if_neg hwait] at hrequests
    exact absurd hrequests hr

/-- A mounted hook that is not active has neither a recorder nor a request. -/
theorem Control.inactive {w : World} (h : Control w) (hm : w.mounted = true)
    (ha : w.active = false) : w.recorder = none ∧ w.requests = 0 := by
  have hrequests := h.requests hm
  rw [ha] at hrequests
  refine ⟨Option.eq_none_iff_forall_not_mem.mpr fun r hr => ?_, hrequests⟩
  have hactive := (h.recorder hm r hr).1
  rw [ha] at hactive
  cases hactive

/-- What is said while the hook is not active changes nothing. -/
theorem Control.say {w : World} (h : Control w) (ha : w.active = false) (status : RecorderStatus)
    (message : String) : Control (w.say status message) := by
  cases hm : w.mounted with
  | true =>
    obtain ⟨hrecorder, hrequests⟩ := h.inactive hm ha
    exact Control.of_inactive hrecorder ha fun _ => hrequests
  | false => exact Control.of_unmounted hm

theorem map_modify_stream (recorders : List MediaRecorder) (r : ℕ)
    (f : MediaRecorder → MediaRecorder) (hf : ∀ m, (f m).stream = m.stream) :
    (recorders.modify r f).map (·.stream) = recorders.map (·.stream) := by
  induction recorders generalizing r with
  | nil => simp
  | cons m more ih =>
    cases r with
    | zero => simp [hf]
    | succ r => simp [ih]

/-- Stopping a recorder changes no more than the recorders. -/
theorem stopRecorder_eq (w : World) (r : ℕ) (stopping : Stopping) :
    ∃ recorders, w.stopRecorder r stopping = { w with recorders := recorders } ∧
      recorders.map (·.stream) = w.recorders.map (·.stream) := by
  have hmodify : (w.recorders.modify r fun m => { m with recording := false }).map (·.stream) =
      w.recorders.map (·.stream) := map_modify_stream _ _ _ fun m => rfl
  cases stopping with
  | returns => exact ⟨_, rfl, hmodify⟩
  | throws inactive =>
    cases inactive with
    | true => exact ⟨_, rfl, hmodify⟩
    | false => exact ⟨w.recorders, rfl, rfl⟩

theorem Control.start {w : World} (h : Control w) (browser : Browser) :
    Control (w.start browser) := by
  unfold World.start
  by_cases hactive : w.active = true
  · rwa [if_pos hactive]
  have ha : w.active = false := by simpa using hactive
  rw [if_neg hactive]
  by_cases hmedia : browser.getUserMedia = true
  · rw [if_neg (not_not.mpr hmedia)]
    by_cases htype : ¬ browser.mediaRecorder = true ∨ pickMimeType browser = none
    · rw [if_pos htype]
      exact h.say ha _ _
    · rw [if_neg htype]
      refine ⟨fun hm => ?_, fun hm r hr => ?_⟩
      · obtain ⟨hrecorder, hrequests⟩ := h.inactive hm ha
        simp [hrecorder, hrequests]
      · rw [(h.inactive hm ha).1] at hr
        cases hr
  · rw [if_pos hmedia]
    exact h.say ha _ _

theorem Control.denied {w : World} (h : Control w) (hr : w.requests ≠ 0) (name : String) :
    Control (w.denied name) := by
  unfold World.denied
  dsimp only
  cases hm : w.mounted with
  | false =>
    rw [if_pos (by decide)]
    exact Control.of_unmounted rfl
  | true =>
    obtain ⟨hone, hrecorder⟩ := h.waiting hm hr
    rw [if_neg (by decide)]
    refine Control.of_inactive hrecorder rfl fun _ => ?_
    change w.requests - 1 = 0
    omega

theorem Control.granted {w : World} (h : Control w) (hr : w.requests ≠ 0) (tracks : ℕ)
    (making : Making) : Control (w.granted tracks making) := by
  unfold World.granted
  dsimp only
  cases hm : w.mounted with
  | false =>
    rw [if_pos (by decide)]
    exact Control.of_unmounted hm
  | true =>
    obtain ⟨hone, hrecorder⟩ := h.waiting hm hr
    have hzero : w.requests - 1 = 0 := by omega
    rw [if_neg (by decide)]
    cases making with
    | refused => exact Control.of_inactive hrecorder rfl fun _ => hzero
    | notStarted mimeType => exact Control.of_inactive rfl rfl fun _ => hzero
    | started mimeType now =>
      have hactive := h.requests hm
      by_cases hwait : w.active = true ∧ w.recorder = none
      · refine ⟨fun _ => hzero.trans (if_neg ?_).symm, fun _ r _ => ⟨hwait.1, Or.inl rfl⟩⟩
        rintro ⟨-, ⟨⟩⟩
      · rw [if_neg hwait] at hactive
        exact absurd hactive hr

theorem Control.stop {w : World} (h : Control w) (stopping : Stopping) :
    Control (w.stop stopping) := by
  unfold World.stop
  split
  · exact h
  · rename_i r hr
    split_ifs
    · obtain ⟨recorders, heq, -⟩ := stopRecorder_eq { w with status := .stopping } r stopping
      rw [heq]
      exact h.of_eq rfl rfl rfl rfl (Or.inr rfl)
    · exact h

theorem Control.unmount {w : World} (stopping : Stopping) : Control (w.unmount stopping) := by
  refine Control.of_unmounted ?_
  unfold World.unmount
  split
  · rfl
  · rename_i r hr
    split_ifs
    · cases stopping with
      | returns => rfl
      | throws inactive => cases inactive <;> rfl
    · rfl

theorem Control.stopped {w : World} (h : Control w) (r : ℕ) (m : MediaRecorder) (now : ℤ) :
    Control (w.stopped r m now) := by
  unfold World.stopped
  by_cases hr : w.recorder = some r
  · rw [if_neg (not_not.mpr hr)]
    have hrequests : w.mounted = true → w.requests = 0 := by
      intro hm
      rw [h.requests hm, hr]
      simp
    split_ifs
    · exact Control.of_inactive rfl rfl hrequests
    · exact Control.of_inactive rfl rfl hrequests
  · rwa [if_pos hr]

theorem Control.failed {w : World} (h : Control w) (r : ℕ) (stopping : Stopping) :
    Control (w.failed r stopping) := by
  unfold World.failed
  by_cases hr : w.recorder ≠ some r ∨ ¬ w.mounted = true
  · rwa [if_pos hr]
  · rw [if_neg hr]
    obtain ⟨hr, hm⟩ := not_or.mp hr
    have hrequests : w.requests = 0 := by
      rw [h.requests (not_not.mp hm), not_not.mp hr]
      simp
    dsimp only
    split_ifs
    · obtain ⟨recorders, heq, -⟩ := stopRecorder_eq w.forget r stopping
      rw [heq]
      exact Control.of_inactive rfl rfl fun _ => hrequests
    · exact Control.of_inactive rfl rfl fun _ => hrequests

theorem control_of_step {w w' : World} {e : Event} (h : Control w) (hs : step w e = some w') :
    Control w' := by
  cases e with
  | start browser => exact Option.some.inj hs ▸ h.start browser
  | denied name =>
    simp only [step, Option.ite_none_left_eq_some, Option.some.injEq] at hs
    exact hs.2 ▸ h.denied hs.1 name
  | granted tracks making =>
    simp only [step, Option.ite_none_left_eq_some, Option.some.injEq] at hs
    exact hs.2 ▸ h.granted hs.1 tracks making
  | stop stopping => exact Option.some.inj hs ▸ h.stop stopping
  | unmount stopping => exact Option.some.inj hs ▸ Control.unmount stopping
  | dataavailable r data =>
    simp only [step, Option.ite_none_right_eq_some, Option.some.injEq] at hs
    obtain ⟨-, rfl⟩ := hs
    unfold World.dataavailable
    split_ifs
    · exact h.of_eq rfl rfl rfl rfl (Or.inl rfl)
    · exact h
  | stopped r now =>
    obtain ⟨m, -, rfl⟩ := Option.map_eq_some_iff.mp hs
    exact h.stopped r m now
  | failed r stopping =>
    simp only [step, Option.ite_none_right_eq_some, Option.some.injEq] at hs
    exact hs.2 ▸ h.failed r stopping
  | inactivated r =>
    simp only [step, Option.ite_none_right_eq_some, Option.some.injEq] at hs
    obtain ⟨-, rfl⟩ := hs
    exact h.of_eq rfl rfl rfl rfl (Or.inl rfl)
  | ended i track =>
    simp only [step, Option.ite_none_right_eq_some, Option.some.injEq] at hs
    obtain ⟨-, rfl⟩ := hs
    exact h.of_eq rfl rfl rfl rfl (Or.inl rfl)
  | tick =>
    simp only [step, Option.ite_none_right_eq_some, Option.some.injEq] at hs
    obtain ⟨-, rfl⟩ := hs
    exact h.of_eq rfl rfl rfl rfl (Or.inl rfl)

/-! ## Streams -/

theorem stopped_stopTracks (stream : MediaStream) : stream.stopTracks.Stopped := by
  intro live hlive
  obtain ⟨-, -, rfl⟩ := List.mem_map.mp hlive
  rfl

/-- Where only the current stream has live tracks, none has after the microphone is released. -/
theorem stopped_releaseMic {w : World} (h : ∀ i stream, w.streams[i]? = some stream →
    ¬ stream.Stopped → w.stream = some i) : ∀ stream ∈ w.releaseMic.streams, stream.Stopped := by
  intro stream hmem
  obtain ⟨i, hi⟩ := List.mem_iff_getElem?.mp hmem
  by_contra hlive
  unfold World.releaseMic at hi
  cases hcurrent : w.stream with
  | none =>
    simp only [hcurrent] at hi
    have hsome := h i stream hi hlive
    rw [hcurrent] at hsome
    cases hsome
  | some j =>
    simp only [hcurrent, List.getElem?_modify] at hi
    obtain ⟨old, hold, rfl⟩ := Option.map_eq_some_iff.mp hi
    by_cases hij : j = i
    · rw [if_pos hij] at hlive
      exact hlive (stopped_stopTracks old)
    · rw [if_neg hij] at hlive
      have hsome := h i old hold hlive
      rw [hcurrent] at hsome
      exact hij (Option.some.inj hsome)

theorem length_releaseMic (w : World) : w.releaseMic.streams.length = w.streams.length := by
  unfold World.releaseMic
  cases hcurrent : w.stream <;> simp

/-- Where every stream is stopped no track has to belong to the current one. -/
theorem Owned.of_stopped {w : World} (h : ∀ stream ∈ w.streams, stream.Stopped)
    (hdistinct : (w.recorders.map (·.stream)).Nodup)
    (hknown : ∀ i ∈ w.recorders.map (·.stream), i < w.streams.length) : Owned w where
  live _ stream hi hlive := absurd (h stream (List.mem_of_getElem? hi)) hlive
  distinct := hdistinct
  known := hknown

/-- Live tracks stay where they were. -/
theorem Owned.of_live {w w' : World} (h : Owned w)
    (hlive : ∀ (i : ℕ) (stream' : MediaStream), w'.streams[i]? = some stream' →
      ¬ stream'.Stopped → ∃ stream : MediaStream, w.streams[i]? = some stream ∧ ¬ stream.Stopped)
    (hlength : w.streams.length ≤ w'.streams.length)
    (hrecorders : w'.recorders.map (·.stream) = w.recorders.map (·.stream))
    (hstream : w'.stream = w.stream) (hmounted : w'.mounted = w.mounted)
    (hrecorder : w'.recorder = w.recorder) : Owned w' := by
  refine ⟨fun i stream' hi hl => ?_, ?_, ?_⟩
  · obtain ⟨stream, hold, hl⟩ := hlive i stream' hi hl
    rw [hstream, hmounted, hrecorder]
    exact h.live i stream hold hl
  · rw [hrecorders]
    exact h.distinct
  · rw [hrecorders]
    exact fun i hi => (h.known i hi).trans_le hlength

/-- Nothing changes for the streams. -/
theorem Owned.of_eq {w w' : World} (h : Owned w) (hstreams : w'.streams = w.streams)
    (hrecorders : w'.recorders.map (·.stream) = w.recorders.map (·.stream))
    (hstream : w'.stream = w.stream) (hmounted : w'.mounted = w.mounted)
    (hrecorder : w'.recorder = w.recorder) : Owned w' := by
  refine h.of_live ?_ (le_of_eq (congrArg List.length hstreams.symm)) hrecorders hstream hmounted hrecorder
  intro i stream' hi hl
  rw [hstreams] at hi
  exact ⟨stream', hi, hl⟩

/-- The microphone is released, whatever else changes apart from the streams. -/
theorem Owned.released {w w' : World} (h : Owned w)
    (hstreams : w'.streams = w.releaseMic.streams)
    (hrecorders : w'.recorders.map (·.stream) = w.recorders.map (·.stream)) : Owned w' := by
  have hall := stopped_releaseMic fun i stream hi hl => (h.live i stream hi hl).1
  refine Owned.of_stopped ?_ ?_ ?_
  · rwa [hstreams]
  · rw [hrecorders]
    exact h.distinct
  · rw [hrecorders, hstreams, length_releaseMic]
    exact h.known

theorem owned_initial : Owned World.initial where
  live i stream hi := by cases hi
  distinct := List.nodup_nil
  known i hi := by cases hi

theorem Owned.start {w : World} (h : Owned w) (browser : Browser) : Owned (w.start browser) := by
  unfold World.start
  split_ifs
  · exact h
  · exact h.of_eq rfl rfl rfl rfl rfl
  · exact h.of_eq rfl rfl rfl rfl rfl
  · exact h.of_eq rfl rfl rfl rfl rfl

theorem Owned.denied {w : World} (h : Owned w) (name : String) : Owned (w.denied name) := by
  unfold World.denied
  dsimp only
  split_ifs
  · exact h.of_eq rfl rfl rfl rfl rfl
  · exact h.of_eq rfl rfl rfl rfl rfl

theorem modify_last (streams : List MediaStream) (last : MediaStream) :
    (streams ++ [last]).modify streams.length MediaStream.stopTracks =
      streams ++ [last.stopTracks] := by
  induction streams with
  | nil => rfl
  | cons stream streams ih =>
    rw [List.cons_append, List.length_cons, List.modify_succ_cons, ih, List.cons_append]

/-- After one more stream that is stopped at once all streams are stopped. -/
theorem stopped_concat {streams : List MediaStream} (h : ∀ stream ∈ streams, stream.Stopped)
    (last : MediaStream) : ∀ stream ∈ streams ++ [last.stopTracks], stream.Stopped := by
  rw [List.forall_mem_append, List.forall_mem_singleton]
  exact ⟨h, stopped_stopTracks last⟩

/-- While a permission request waits, every stream is stopped. -/
theorem Owned.waiting {w : World} (h : Owned w)
    (hrecorder : w.mounted = true → w.recorder = none) : ∀ stream ∈ w.streams, stream.Stopped := by
  intro stream hmem
  obtain ⟨i, hi⟩ := List.mem_iff_getElem?.mp hmem
  by_contra hlive
  obtain ⟨-, hmounted, hsome⟩ := h.live i stream hi hlive
  exact hsome (hrecorder hmounted)

/-- A recorder for a new stream has a stream of its own. -/
theorem Owned.concat {w : World} (h : Owned w) :
    (w.recorders.map (·.stream) ++ [w.streams.length]).Nodup := by
  rw [List.nodup_append]
  refine ⟨h.distinct, List.nodup_singleton _, fun i hi j hj => ?_⟩
  rw [List.mem_singleton.mp hj]
  exact (h.known i hi).ne

theorem Owned.granted {w : World} (h : Owned w) (hcontrol : Control w) (hr : w.requests ≠ 0)
    (tracks : ℕ) (making : Making) : Owned (w.granted tracks making) := by
  have hall := h.waiting fun hm => (hcontrol.waiting hm hr).2
  have hknown (i) (hi : i ∈ w.recorders.map (·.stream)) : i < w.streams.length + 1 :=
    (h.known i hi).trans (Nat.lt_succ_self _)
  have hknown' (i) (hi : i ∈ w.recorders.map (·.stream) ++ [w.streams.length]) :
      i < w.streams.length + 1 := by
    rcases List.mem_append.mp hi with hi | hi
    · exact hknown i hi
    · rw [List.mem_singleton.mp hi]
      exact Nat.lt_succ_self _
  -- the streams once the new one is stopped, and the streams while it is live
  have hlength : (w.obtain tracks).streams.length = w.streams.length + 1 := List.length_append
  have hreleased : ∀ stream ∈ (w.obtain tracks).streams.modify w.streams.length
      MediaStream.stopTracks, stream.Stopped := by
    unfold World.obtain
    rw [modify_last]
    exact stopped_concat hall _
  have hlength' : ((w.obtain tracks).streams.modify w.streams.length
      MediaStream.stopTracks).length = w.streams.length + 1 := by
    rw [List.length_modify, hlength]
  have hrecorders (mimeType : String) (recording : Bool) :
      ((w.obtain tracks).addRecorder w.streams.length mimeType recording).recorders.map
        (·.stream) = w.recorders.map (·.stream) ++ [w.streams.length] := List.map_append
  unfold World.granted
  dsimp only
  by_cases hm : w.mounted = true
  · rw [if_neg (not_not.mpr hm)]
    cases making with
    | refused =>
      exact Owned.of_stopped hreleased h.distinct fun i hi => (hknown i hi).trans_eq hlength'.symm
    | notStarted mimeType =>
      refine Owned.of_stopped hreleased ?_ fun i hi => ?_
      · exact (hrecorders mimeType false).symm ▸ h.concat
      · exact (hknown' i (hrecorders mimeType false ▸ hi)).trans_eq hlength'.symm
    | started mimeType now =>
      refine ⟨fun i stream hi hlive => ?_, ?_, fun i hi => ?_⟩
      · change (w.streams ++ [_])[i]? = some stream at hi
        by_cases hlast : i < w.streams.length
        · rw [List.getElem?_append_left hlast] at hi
          exact absurd (hall stream (List.mem_of_getElem? hi)) hlive
        · have hbound := (List.getElem?_eq_some_iff.mp hi).1
          rw [List.length_append, List.length_singleton] at hbound
          have hi : i = w.streams.length := by omega
          exact ⟨congrArg some hi.symm, hm, Option.some_ne_none _⟩
      · exact (hrecorders mimeType true).symm ▸ h.concat
      · exact (hknown' i (hrecorders mimeType true ▸ hi)).trans_eq hlength.symm
  · rw [if_pos hm]
    exact Owned.of_stopped hreleased h.distinct fun i hi => (hknown i hi).trans_eq hlength'.symm

theorem Owned.stop {w : World} (h : Owned w) (stopping : Stopping) : Owned (w.stop stopping) := by
  unfold World.stop
  split
  · exact h
  · rename_i r hr
    split_ifs
    · obtain ⟨recorders, heq, hrecorders⟩ :=
        stopRecorder_eq { w with status := .stopping } r stopping
      rw [heq]
      exact h.of_eq rfl hrecorders rfl rfl rfl
    · exact h

theorem Owned.unmount {w : World} (h : Owned w) {stopping : Stopping}
    (hok : StopsOnUnmount w (.unmount stopping)) : Owned (w.unmount stopping) := by
  unfold World.unmount
  split
  · exact h.released rfl rfl
  · rename_i r hr
    split_ifs with hrecording
    · cases stopping with
      | returns =>
        obtain ⟨recorders, heq, hrecorders⟩ := stopRecorder_eq w.leave r .returns
        dsimp only
        rw [heq]
        exact h.released rfl hrecorders
      | throws inactive =>
        have hnot := hok inactive r rfl hr
        rw [hrecording] at hnot
        cases hnot
    · exact h.released rfl rfl

theorem Owned.stopped {w : World} (h : Owned w) (r : ℕ) (m : MediaRecorder) (now : ℤ) :
    Owned (w.stopped r m now) := by
  unfold World.stopped
  split_ifs
  · exact h
  · exact h.released rfl rfl
  · exact h.released rfl rfl

theorem Owned.failed {w : World} (h : Owned w) (r : ℕ) (stopping : Stopping) :
    Owned (w.failed r stopping) := by
  unfold World.failed
  split_ifs
  · exact h
  · obtain ⟨recorders, heq, hrecorders⟩ := stopRecorder_eq w.forget r stopping
    dsimp only
    rw [heq]
    exact h.released rfl hrecorders
  · exact h.released rfl rfl

/-- A track that ends leaves the others as they were. -/
theorem stopped_set {stream : MediaStream} (h : stream.Stopped) (track : ℕ) :
    MediaStream.Stopped ⟨stream.live.set track false⟩ := by
  intro live hlive
  rcases List.mem_or_eq_of_mem_set hlive with hmem | rfl
  · exact h live hmem
  · rfl

theorem owned_of_step {w w' : World} {e : Event} (h : Owned w) (hcontrol : Control w)
    (hok : StopsOnUnmount w e) (hs : step w e = some w') : Owned w' := by
  cases e with
  | start browser => exact Option.some.inj hs ▸ h.start browser
  | denied name =>
    simp only [step, Option.ite_none_left_eq_some, Option.some.injEq] at hs
    exact hs.2 ▸ h.denied name
  | granted tracks making =>
    simp only [step, Option.ite_none_left_eq_some, Option.some.injEq] at hs
    exact hs.2 ▸ h.granted hcontrol hs.1 tracks making
  | stop stopping => exact Option.some.inj hs ▸ h.stop stopping
  | unmount stopping => exact Option.some.inj hs ▸ h.unmount hok
  | dataavailable r data =>
    simp only [step, Option.ite_none_right_eq_some, Option.some.injEq] at hs
    obtain ⟨-, rfl⟩ := hs
    unfold World.dataavailable
    split_ifs
    · exact h.of_eq rfl (map_modify_stream _ _ _ fun m => rfl) rfl rfl rfl
    · exact h
  | stopped r now =>
    obtain ⟨m, -, rfl⟩ := Option.map_eq_some_iff.mp hs
    exact h.stopped r m now
  | failed r stopping =>
    simp only [step, Option.ite_none_right_eq_some, Option.some.injEq] at hs
    exact hs.2 ▸ h.failed r stopping
  | inactivated r =>
    simp only [step, Option.ite_none_right_eq_some, Option.some.injEq] at hs
    obtain ⟨-, rfl⟩ := hs
    exact h.of_eq rfl (map_modify_stream _ _ _ fun m => rfl) rfl rfl rfl
  | ended i track =>
    simp only [step, Option.ite_none_right_eq_some, Option.some.injEq] at hs
    obtain ⟨-, rfl⟩ := hs
    refine h.of_live (fun j stream' hj hlive => ?_) (by simp) rfl rfl rfl rfl
    change (w.streams.modify i _)[j]? = some stream' at hj
    rw [List.getElem?_modify] at hj
    obtain ⟨stream, hold, rfl⟩ := Option.map_eq_some_iff.mp hj
    refine ⟨stream, hold, fun hstopped => hlive ?_⟩
    split_ifs
    · exact stopped_set hstopped track
    · exact hstopped
  | tick =>
    simp only [step, Option.ite_none_right_eq_some, Option.some.injEq] at hs
    obtain ⟨-, rfl⟩ := hs
    exact h.of_eq rfl rfl rfl rfl rfl

/-! ## Reports -/

/-- One report more, which completes a recording that is current or none. -/
theorem CompletesOnce.concat {reports : List Report} (h : CompletesOnce reports) {entry : Report}
    (hentry : ∀ r audio seconds, entry = .completed r audio seconds → .started r ∈ reports ∧
      (∀ audio seconds, .completed r audio seconds ∉ reports) ∧ .failed r ∉ reports ∧
        .unmounted ∉ reports) : CompletesOnce (reports ++ [entry]) := by
  intro earlier later r audio seconds heq
  rcases List.eq_nil_or_concat later with rfl | ⟨later, last, rfl⟩
  · obtain ⟨rfl, hlast⟩ := List.append_inj' heq rfl
    exact hentry r audio seconds (List.cons.inj hlast).1
  · rw [List.concat_eq_append, ← List.cons_append, ← List.append_assoc] at heq
    obtain ⟨rfl, -⟩ := List.append_inj' heq rfl
    exact h earlier later r audio seconds rfl

theorem logged_initial : Logged World.initial where
  named entry hentry := by cases hentry
  current r hr := by cases hr
  gone h := by cases h
  once earlier later r audio seconds heq := by simp [World.initial] at heq

/-- Nothing is reported, and no other recorder becomes current. -/
theorem Logged.of_eq {w w' : World} (h : Logged w) (hreports : w'.reports = w.reports)
    (hrecorders : w.recorders.length ≤ w'.recorders.length)
    (hrecorder : ∀ r, w'.recorder = some r → w.recorder = some r)
    (hmounted : w'.mounted = w.mounted) : Logged w' := by
  refine ⟨?_, ?_, ?_, ?_⟩
  · rw [hreports]
    exact fun entry hentry r hr => (h.named entry hentry r hr).trans_le hrecorders
  · rw [hreports]
    exact fun r hr => h.current r (hrecorder r hr)
  · rw [hreports, hmounted]
    exact h.gone
  · rw [hreports]
    exact h.once

/-- One report more. -/
theorem Logged.concat {w w' : World} (h : Logged w) {entry : Report}
    (hreports : w'.reports = w.reports ++ [entry])
    (hrecorders : w.recorders.length ≤ w'.recorders.length)
    (hnamed : ∀ r ∈ entry.recorder?, r < w'.recorders.length)
    (hcurrent : ∀ r, w'.recorder = some r → .started r ∈ w.reports ++ [entry] ∧
      (∀ audio seconds, .completed r audio seconds ∉ w.reports ++ [entry]) ∧
        .failed r ∉ w.reports ++ [entry])
    (hgone : entry = .unmounted ∨ w.mounted = false → w'.mounted = false)
    (honce : ∀ r audio seconds, entry = .completed r audio seconds → .started r ∈ w.reports ∧
      (∀ audio seconds, .completed r audio seconds ∉ w.reports) ∧ .failed r ∉ w.reports ∧
        .unmounted ∉ w.reports) : Logged w' := by
  refine ⟨?_, ?_, ?_, ?_⟩
  · rw [hreports, List.forall_mem_append, List.forall_mem_singleton]
    exact ⟨fun entry hentry r hr => (h.named entry hentry r hr).trans_le hrecorders, hnamed⟩
  · rw [hreports]
    exact hcurrent
  · rw [hreports, List.mem_append, List.mem_singleton]
    rintro (hmem | hentry)
    · exact hgone (Or.inr (h.gone hmem))
    · exact hgone (Or.inl hentry.symm)
  · rw [hreports]
    exact h.once.concat honce

/-- A recorder that is not there yet was not reported. -/
theorem Logged.fresh {w : World} (h : Logged w) {entry : Report}
    (hentry : w.recorders.length ∈ entry.recorder?) : entry ∉ w.reports :=
  fun hmem => lt_irrefl _ (h.named entry hmem _ hentry)

theorem Logged.granted {w : World} (h : Logged w) (tracks : ℕ) (making : Making) :
    Logged (w.granted tracks making) := by
  have hlength (mimeType : String) (recording : Bool) :
      ((w.obtain tracks).addRecorder w.streams.length mimeType recording).recorders.length =
        w.recorders.length + 1 := List.length_append
  have hle (mimeType : String) (recording : Bool) : w.recorders.length ≤
      ((w.obtain tracks).addRecorder w.streams.length mimeType recording).recorders.length :=
    (Nat.le_succ _).trans_eq (hlength mimeType recording).symm
  have hlt (mimeType : String) (recording : Bool) : w.recorders.length <
      ((w.obtain tracks).addRecorder w.streams.length mimeType recording).recorders.length :=
    (Nat.lt_succ_self _).trans_eq (hlength mimeType recording).symm
  unfold World.granted
  dsimp only
  by_cases hm : w.mounted = true
  · have hgone {entry : Report} (hentry : entry ≠ .unmounted) :
        entry = .unmounted ∨ w.mounted = false → w.mounted = false := by
      rintro (heq | hfalse)
      · exact absurd heq hentry
      · exact hfalse
    rw [if_neg (not_not.mpr hm)]
    cases making with
    | refused => exact h.of_eq rfl le_rfl (fun r hr => hr) rfl
    | notStarted mimeType =>
      refine h.concat rfl (hle mimeType false) ?_ ?_ (hgone (by simp)) ?_
      · rintro r ⟨⟩
        exact hlt mimeType false
      · rintro r ⟨⟩
      · rintro r audio seconds ⟨⟩
    | started mimeType now =>
      refine h.concat rfl (hle mimeType true) ?_ ?_ (hgone (by simp)) ?_
      · rintro r ⟨⟩
        exact hlt mimeType true
      · rintro r ⟨⟩
        refine ⟨List.mem_append_right _ (List.mem_singleton_self _), fun audio seconds hmem => ?_,
          fun hmem => ?_⟩
        · rcases List.mem_append.mp hmem with hmem | hmem
          · exact h.fresh rfl hmem
          · cases List.mem_singleton.mp hmem
        · rcases List.mem_append.mp hmem with hmem | hmem
          · exact h.fresh rfl hmem
          · cases List.mem_singleton.mp hmem
      · rintro r audio seconds ⟨⟩
  · rw [if_pos hm]
    exact h.of_eq rfl le_rfl (fun r hr => hr) rfl

theorem Logged.start {w : World} (h : Logged w) (browser : Browser) : Logged (w.start browser) := by
  unfold World.start
  split_ifs
  · exact h
  · exact h.of_eq rfl le_rfl (fun r hr => hr) rfl
  · exact h.of_eq rfl le_rfl (fun r hr => hr) rfl
  · exact h.of_eq rfl le_rfl (fun r hr => hr) rfl

theorem Logged.denied {w : World} (h : Logged w) (name : String) : Logged (w.denied name) := by
  unfold World.denied
  dsimp only
  split_ifs
  · exact h.of_eq rfl le_rfl (fun r hr => hr) rfl
  · exact h.of_eq rfl le_rfl (fun r hr => hr) rfl

/-- Stopping a recorder reports nothing and leaves as many recorders. -/
theorem length_stopRecorder (w : World) (r : ℕ) (stopping : Stopping) :
    ∃ recorders, w.stopRecorder r stopping = { w with recorders := recorders } ∧
      w.recorders.length = recorders.length := by
  obtain ⟨recorders, heq, hmap⟩ := stopRecorder_eq w r stopping
  have hlength := congrArg List.length hmap
  rw [List.length_map, List.length_map] at hlength
  exact ⟨recorders, heq, hlength.symm⟩

theorem Logged.stop {w : World} (h : Logged w) (stopping : Stopping) :
    Logged (w.stop stopping) := by
  unfold World.stop
  split
  · exact h
  · rename_i r hr
    split_ifs
    · obtain ⟨recorders, heq, hlength⟩ :=
        length_stopRecorder { w with status := .stopping } r stopping
      rw [heq]
      exact h.of_eq rfl hlength.le (fun r hr => hr) rfl
    · exact h

/-- The refs of a hook that is unmounted. -/
theorem Logged.leave {w : World} (h : Logged w) : Logged w.leave := by
  refine h.concat rfl le_rfl ?_ (fun r hr => ?_) (fun _ => rfl) ?_
  · rintro r ⟨⟩
  · obtain ⟨hstarted, hcompleted, hfailed⟩ := h.current r hr
    refine ⟨List.mem_append_left _ hstarted, fun audio seconds hmem => ?_, fun hmem => ?_⟩
    · rcases List.mem_append.mp hmem with hmem | hmem
      · exact hcompleted audio seconds hmem
      · cases List.mem_singleton.mp hmem
    · rcases List.mem_append.mp hmem with hmem | hmem
      · exact hfailed hmem
      · cases List.mem_singleton.mp hmem
  · rintro r audio seconds ⟨⟩

theorem Logged.unmount {w : World} (h : Logged w) (stopping : Stopping) :
    Logged (w.unmount stopping) := by
  have hleave := h.leave
  unfold World.unmount
  split
  · exact hleave.of_eq rfl le_rfl (fun r hr => hr) rfl
  · rename_i r hr
    split_ifs
    · obtain ⟨recorders, heq, hlength⟩ := length_stopRecorder w.leave r stopping
      cases stopping with
      | returns =>
        dsimp only
        rw [heq]
        exact hleave.of_eq rfl hlength.le (fun r hr => hr) rfl
      | throws inactive =>
        dsimp only
        rw [heq]
        exact hleave.of_eq rfl hlength.le (fun r hr => hr) rfl
    · exact hleave.of_eq rfl le_rfl (fun r hr => hr) rfl

theorem Logged.stopped {w : World} (h : Logged w) {r : ℕ} (hr : r < w.recorders.length)
    (m : MediaRecorder) (now : ℤ) : Logged (w.stopped r m now) := by
  unfold World.stopped
  by_cases hcurrent : w.recorder = some r
  · rw [if_neg (not_not.mpr hcurrent)]
    by_cases hcomplete : (w.active && w.mounted) = true
    · rw [if_neg (not_not.mpr hcomplete)]
      have hm : w.mounted = true := (Bool.and_eq_true_iff.mp hcomplete).2
      refine h.concat rfl le_rfl ?_ ?_ ?_ ?_
      · rintro r ⟨⟩
        exact hr
      · rintro r ⟨⟩
      · rintro (hentry | hfalse)
        · cases hentry
        · exact hfalse
      · rintro _ audio seconds ⟨⟩
        obtain ⟨hstarted, hcompleted, hfailed⟩ := h.current r hcurrent
        refine ⟨hstarted, hcompleted, hfailed, fun hgone => ?_⟩
        rw [h.gone hgone] at hm
        cases hm
    · rw [if_pos hcomplete]
      exact h.of_eq rfl le_rfl (fun r hr => by cases hr) rfl
  · rwa [if_pos hcurrent]

theorem Logged.failed {w : World} (h : Logged w) {r : ℕ} (hr : r < w.recorders.length)
    (stopping : Stopping) : Logged (w.failed r stopping) := by
  unfold World.failed
  by_cases hcurrent : w.recorder ≠ some r ∨ ¬ w.mounted = true
  · rwa [if_pos hcurrent]
  · rw [if_neg hcurrent]
    have hstopped : ∃ recorders, (if w.isRecording r then w.forget.stopRecorder r stopping
        else w.forget) = { w.forget with recorders := recorders } ∧
          w.recorders.length = recorders.length := by
      split_ifs
      · exact length_stopRecorder w.forget r stopping
      · exact ⟨w.recorders, rfl, rfl⟩
    obtain ⟨recorders, heq, hlength⟩ := hstopped
    dsimp only
    rw [heq]
    refine h.concat rfl hlength.le ?_ ?_ ?_ ?_
    · rintro r ⟨⟩
      exact hr.trans_eq hlength
    · rintro r ⟨⟩
    · rintro (hentry | hfalse)
      · cases hentry
      · exact hfalse
    · rintro r audio seconds ⟨⟩

theorem logged_of_step {w w' : World} {e : Event} (h : Logged w) (hs : step w e = some w') :
    Logged w' := by
  cases e with
  | start browser => exact Option.some.inj hs ▸ h.start browser
  | denied name =>
    simp only [step, Option.ite_none_left_eq_some, Option.some.injEq] at hs
    exact hs.2 ▸ h.denied name
  | granted tracks making =>
    simp only [step, Option.ite_none_left_eq_some, Option.some.injEq] at hs
    exact hs.2 ▸ h.granted tracks making
  | stop stopping => exact Option.some.inj hs ▸ h.stop stopping
  | unmount stopping => exact Option.some.inj hs ▸ h.unmount stopping
  | dataavailable r data =>
    simp only [step, Option.ite_none_right_eq_some, Option.some.injEq] at hs
    obtain ⟨-, rfl⟩ := hs
    unfold World.dataavailable
    split_ifs
    · exact h.of_eq rfl (by simp) (fun r hr => hr) rfl
    · exact h
  | stopped r now =>
    obtain ⟨m, hm, rfl⟩ := Option.map_eq_some_iff.mp hs
    exact h.stopped (List.getElem?_eq_some_iff.mp hm).1 m now
  | failed r stopping =>
    simp only [step, Option.ite_none_right_eq_some, Option.some.injEq] at hs
    exact hs.2 ▸ h.failed hs.1 stopping
  | inactivated r =>
    simp only [step, Option.ite_none_right_eq_some, Option.some.injEq] at hs
    obtain ⟨-, rfl⟩ := hs
    obtain ⟨recorders, heq, hlength⟩ := length_stopRecorder w r .returns
    rw [heq]
    exact h.of_eq rfl hlength.le (fun r hr => hr) rfl
  | ended i track =>
    simp only [step, Option.ite_none_right_eq_some, Option.some.injEq] at hs
    obtain ⟨-, rfl⟩ := hs
    exact h.of_eq rfl le_rfl (fun r hr => hr) rfl
  | tick =>
    simp only [step, Option.ite_none_right_eq_some, Option.some.injEq] at hs
    obtain ⟨-, rfl⟩ := hs
    exact h.of_eq rfl le_rfl (fun r hr => hr) rfl

/-! ## Runs -/

/-- What every state keeps. -/
structure Kept (w : World) : Prop where
  control : Control w
  owned : Owned w
  logged : Logged w

theorem kept_initial : Kept World.initial := ⟨control_initial, owned_initial, logged_initial⟩

theorem kept_of_step {w w' : World} {e : Event} (h : Kept w) (hok : StopsOnUnmount w e)
    (hs : step w e = some w') : Kept w' where
  control := control_of_step h.control hs
  owned := owned_of_step h.owned h.control hok hs
  logged := logged_of_step h.logged hs

theorem Kept.sound {w : World} (h : Kept w) : Sound w where
  released hidle := by
    refine h.owned.waiting fun hm => ?_
    by_contra hsome
    obtain ⟨r, hr⟩ := Option.ne_none_iff_exists'.mp hsome
    rcases (h.control.recorder hm r hr).2 with hstatus | hstatus
    · exact (hidle.2 hm).1 hstatus
    · exact (hidle.2 hm).2 hstatus
  single := by
    rintro r r' ⟨m, stream, hm, -, hstream, hlive⟩ ⟨m', stream', hm', -, hstream', hlive'⟩
    have hcurrent := (h.owned.live m.stream stream hstream hlive).1
    have hcurrent' := (h.owned.live m'.stream stream' hstream' hlive').1
    have hsame : m.stream = m'.stream := Option.some.inj (hcurrent.symm.trans hcurrent')
    have hr : (w.recorders.map (·.stream))[r]? = some m.stream := by
      rw [List.getElem?_map, hm]
      rfl
    have hr' : (w.recorders.map (·.stream))[r']? = some m.stream := by
      rw [List.getElem?_map, hm', hsame]
      rfl
    have hlt := (List.getElem?_eq_some_iff.mp hr).1
    exact (List.getElem?_inj hlt h.owned.distinct).mp (hr.trans hr'.symm)
  once := h.logged.once

/-- In a run in which the recorder's `stop` does not throw on unmount, every state is sound. -/
theorem released_of_run {w : World} (h : RunOf step StopsOnUnmount World.initial w) : Sound w :=
  (h.invariant (P := Kept) (fun _ _ _ hkept hok hs => kept_of_step hkept hok hs)
    kept_initial).sound

/-- A browser that records whatever it is asked to. -/
def allBrowser : Browser := ⟨true, true, fun _ => true⟩

/-- A recording that is stopped and completed, and another one that is left. -/
def twoRecordings : List Event :=
  [.start allBrowser, .granted 1 (.started "audio/webm" 0), .stop .returns,
    .dataavailable 0 [1, 2], .stopped 0 3000, .start allBrowser,
    .granted 1 (.started "audio/webm" 4000), .unmount .returns, .dataavailable 1 [3],
    .stopped 1 5000]

theorem released_of_run_left : ∃ w, replay step World.initial twoRecordings = some w ∧
    w.reports = [.started 0, .completed 0 ⟨[1, 2], "audio/webm"⟩ 3, .started 1, .unmounted] ∧
      ∀ stream ∈ w.streams, stream.Stopped := by
  have hrun : ∃ w, replay step World.initial twoRecordings = some w ∧ Idle w ∧
      w.reports = [.started 0, .completed 0 ⟨[1, 2], "audio/webm"⟩ 3, .started 1, .unmounted] :=
    ⟨_, rfl, ⟨rfl, by decide⟩, by decide +kernel⟩
  obtain ⟨w, hreplay, hidle, hreports⟩ := hrun
  have hok : ∀ w, ∀ e ∈ twoRecordings, StopsOnUnmount w e := by
    rintro w e he inactive r rfl
    simp [twoRecordings] at he
  exact ⟨w, hreplay, hreports, (released_of_run (runOf_replay hok hreplay)).released hidle⟩

/-- A hook that is unmounted while `stop` of its recorder throws. -/
def unmountThrowing : List Event :=
  [.start allBrowser, .granted 1 (.started "audio/webm" 0), .unmount (.throws true)]

/-- The track stays live though nothing is recorded any more. -/
theorem not_released : ∃ w, RunOf step anyEvent World.initial w ∧ Idle w ∧
    w.isRecording 0 = false ∧ ∃ stream ∈ w.streams, ¬ stream.Stopped := by
  have hrun : ∃ w, replay step World.initial unmountThrowing = some w ∧ Idle w ∧
      w.isRecording 0 = false ∧ w.streams = [⟨[true]⟩] :=
    ⟨_, rfl, ⟨rfl, by decide⟩, rfl, rfl⟩
  obtain ⟨w, hreplay, hidle, hrecording, hstreams⟩ := hrun
  refine ⟨w, runOf_replay (fun _ _ _ => trivial) hreplay, hidle, hrecording, ⟨[true]⟩, ?_, ?_⟩
  · rw [hstreams]
    exact List.mem_singleton_self _
  · intro hstopped
    cases hstopped true (List.mem_singleton_self _)

end Maeglagi.Recording
