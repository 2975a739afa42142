import Maeglagi.PlainRuntime
import Maeglagi.Sources.Beginning

/-!
# A plain environment for sources

Digests are replaced by the data they are taken of, the freest injective ones, for the
concrete runs that accompany the general results.
-/

namespace Maeglagi

open Core Sources

/-- The data that a digest is taken of. -/
inductive PlainDigest where
  | decisions (decisions : List Text)
  | analysis (title text : Text) (reviewRevision : Nat) (directory : Option (Snapshot Text))
  | source (title text : Text) (reviewRevision associationRevision : Nat)
      (directory : Snapshot Text)
  | context (source : PlainDigest) (decisions : List Text)
  | result (result : AnalysisResult)
  deriving DecidableEq

/-- Digests as the data they are taken of. -/
def plainDigests : Digests Text PlainDigest where
  decisions := .decisions
  analysis := .analysis
  source := .source
  context := .context
  result := .result
  result_injective := fun _ _ h => PlainDigest.result.inj h

/-- An environment with an executor, with or without a graph store. -/
def plainEnv (processingExecutor : Executor) (neo4jEnabled : Bool) : Env Text PlainDigest :=
  ⟨plainRuntime, plainDigests, ⟨processingExecutor, 1000000, neo4jEnabled⟩⟩

/-- The ids of the source `s` of the workspace `w`. -/
def plainIds : SourceIds Text := ⟨"s".toList, "w".toList, "o".toList⟩

/-- A directory without people and projects. -/
def emptyDirectory : Directory Text := ⟨[], [], []⟩

/-- The state after some events, from the creation of a source. -/
def plainRun (env : Env Text PlainDigest) (creation : Creation Text)
    (events : List (Event Text PlainDigest)) : Option (State Text PlainDigest) :=
  match create env plainIds creation with
  | .ok (source, scheduling) => replay (step env) (State.created source scheduling 0) events
  | .error _ => none

/-- The states of plain runs are reachable. -/
theorem reachedFrom_plainRun {env : Env Text PlainDigest} {creation : Creation Text}
    {events : List (Event Text PlainDigest)} {s : State Text PlainDigest}
    (h : plainRun env creation events = some s) : ReachedFrom env creation s := by
  unfold plainRun at h
  split at h
  · next source scheduling hcreate => exact ⟨_, _, _, _, hcreate, runOf_replay (fun _ _ _ => trivial) h⟩
  · cases h

/-- A plain run of no events ends where it began. -/
theorem created_plainRun {env : Env Text PlainDigest} {creation : Creation Text}
    {s : State Text PlainDigest} (h : plainRun env creation [] = some s) :
    ∃ source scheduling, create env plainIds creation = .ok (source, scheduling) ∧
      s = State.created source scheduling 0 := by
  unfold plainRun at h
  split at h
  · next source scheduling hcreate =>
    cases h
    exact ⟨_, _, hcreate, rfl⟩
  · cases h

/-- A plain run that ends in a state with some property. -/
theorem exists_plainRun (env : Env Text PlainDigest) (creation : Creation Text)
    (events : List (Event Text PlainDigest)) (p : State Text PlainDigest → Prop)
    [DecidablePred p] (h : (plainRun env creation events).any (fun s => decide (p s)) = true) :
    ∃ s, plainRun env creation events = some s ∧ ReachedFrom env creation s ∧ p s := by
  cases hrun : plainRun env creation events with
  | none =>
    rw [hrun] at h
    cases h
  | some s =>
    rw [hrun] at h
    exact ⟨s, rfl, reachedFrom_plainRun hrun, of_decide_eq_true h⟩

/-- A plain run and a replay after it that end in states with some property. -/
theorem exists_plainRuns (env : Env Text PlainDigest) (creation : Creation Text)
    (events later : List (Event Text PlainDigest))
    (p : State Text PlainDigest → State Text PlainDigest → Prop) [∀ s, DecidablePred (p s)]
    (h : (plainRun env creation events).any (fun s =>
      (replay (step env) s later).any fun s' => decide (p s s')) = true) :
    ∃ s s', ReachedFrom env creation s ∧ replay (step env) s later = some s' ∧ p s s' := by
  obtain ⟨s, -, hreached, hlater⟩ := exists_plainRun env creation events
    (fun s => (replay (step env) s later).any (fun s' => decide (p s s')) = true) (by simpa using h)
  cases hrun : replay (step env) s later with
  | none =>
    rw [hrun] at hlater
    cases hlater
  | some s' =>
    rw [hrun] at hlater
    exact ⟨s, s', hreached, hrun, of_decide_eq_true hlater⟩

/-- A replay from the creation of a source that ends in a state with some property. -/
theorem exists_plainReplay (env : Env Text PlainDigest) (creation : Creation Text)
    (events : List (Event Text PlainDigest)) (p : State Text PlainDigest → Prop)
    [DecidablePred p] (h : (plainRun env creation []).any (fun s =>
      (replay (step env) s events).any fun s' => decide (p s')) = true) :
    ∃ source scheduling s', create env plainIds creation = .ok (source, scheduling) ∧
      replay (step env) (State.created source scheduling 0) events = some s' ∧ p s' := by
  obtain ⟨s, hplain, -, hlater⟩ := exists_plainRun env creation []
    (fun s => (replay (step env) s events).any (fun s' => decide (p s')) = true)
    (by simpa using h)
  cases hrun : replay (step env) s events with
  | none =>
    rw [hrun] at hlater
    cases hlater
  | some s' =>
    rw [hrun] at hlater
    obtain ⟨source, scheduling, hcreate, rfl⟩ := created_plainRun hplain
    exact ⟨source, scheduling, s', hcreate, hrun, of_decide_eq_true hlater⟩

/-- The upload of a short recording by an agent. -/
def plainMedia : Creation Text := .agentMedia .meeting ⟨"call.mp3".toList, 1⟩

/-- A recording of a meeting with a live draft of it. -/
def plainRecording (liveDraft : Option (List (Utterance Text))) : Creation Text :=
  .recording true emptyDirectory ⟨"call.mp3".toList, 1⟩ liveDraft []

/-- A segment of speech over some seconds. -/
def plainSegment (text : String) (start finish : Rat) : SegmentBody :=
  ⟨text.toList, some start, some finish⟩

/-- A transcription of a few seconds. -/
def plainSpeech : TranscriptionBody := ⟨"We ship.".toList, some 2, [plainSegment "We ship." 0 2]⟩

/-- A short document, from an agent. -/
def plainDocument : Creation Text :=
  .agentText emptyDirectory "Memo".toList "We ship on Friday.".toList .document []

/-- A result with some contexts and nothing else. -/
def plainResult (contexts : List ExtractedContext) : AnalysisResult where
  classification := ⟨.report, [], []⟩
  entities := []
  events := []
  relations := []
  contexts := contexts
  warnings := []
  usage := []

/-- The submission of a result for the short document as it was created. -/
def plainRequest (result : AnalysisResult) : SubmissionRequest PlainDigest :=
  ⟨0, .context (.source "Memo".toList "We ship on Friday.".toList 0 0 ⟨none, [], [], []⟩) [],
    ⟨1000, some result⟩⟩

/-- The steps of a submission up to the merge, after which its checkpoint exists. -/
def plainSubmission (result : AnalysisResult) : List (Event Text PlainDigest) :=
  [.submit (plainRequest result), .receive emptyDirectory [], .act (.extract result []),
    .act (.merge [])]

end Maeglagi
