import Maeglagi.Provider.Streams

/-!
# Complete streams

After which streams the three adapters return or raise a `ProviderError`, and return only behind
the terminal marker. A body that just ends is noticed by the adapters for Anthropic and Ollama
only; a frame that cannot be read escapes from the OpenAI-compatible one, and a line that is
nested too deep from each.
-/

namespace Maeglagi.Provider

open Core

namespace OpenAICompatibleAdapter

/-- A chunk whose first choice, if it has choices, can be read. -/
def ChunkReadable (chunk : Json) : Prop :=
  chunk.IsObj ∧ ∀ choices, chunk.field? "choices" = some choices → choices.truthy = true →
    ∃ choice rest, choices = .arr (choice :: rest) ∧ choice.IsObj ∧ choice.Field "delta" Json.IsObj

/-- The data of the line, if it has any, ends the stream, is no JSON or is a readable chunk. -/
def LineReadable (lib : Decoder) (line : Text) : Prop :=
  ∀ data, frameData line = some data → data = doneMark ∨
    lib.loads data = .error .jsonDecodeError ∨
      ∃ chunk, lib.loads data = .ok chunk ∧ ChunkReadable chunk

/-- The line ends the stream. -/
def EndsStream (line : Text) : Prop := frameData line = some doneMark

end OpenAICompatibleAdapter

namespace AnthropicAdapter

/-- The event is the last that is read: it ends the stream or says no text. -/
def EndsStream (lib : Decoder) (payload : Text) : Prop :=
  ∀ event, lib.loads payload = .ok event → event.IsObj →
    hasType event "error" = true ∨ hasType event "message_stop" = true ∨
      ∃ content, block event = some content ∧ ¬((content.field? "text").getD .null).IsStr

end AnthropicAdapter

namespace OllamaAdapter

/-- The chunk is the last that is read: it is done, reports an error or says no text. -/
def EndsStream (lib : Decoder) (line : Text) : Prop :=
  strip line ≠ [] ∧ ∀ chunk, lib.loads line = .ok chunk → chunk.IsObj →
    isSet chunk "error" = true ∨ badMessage chunk = true ∨
      (content chunk).truthy = true ∧ ¬(content chunk).IsStr ∨ isDone chunk = true

end OllamaAdapter

/-- The key fits, and the reply is one whose body is read. -/
def Opened (apiKey : Text) (x : StreamExchange) (r : StreamReply) : Prop :=
  KeyFits apiKey ∧ x = .reply r ∧ r.response.isSuccess = true

/-- The stream of a good reply can be read, and an OpenAI-compatible one is not cut off
unnoticed. -/
def Adapter.StreamReads (lib : Decoder) (adapter : Adapter) (model apiKey : Text)
    (w : StreamExchanges) : Prop :=
  match adapter with
  | .openAICompatible a => ∀ r, Opened apiKey w.reply r →
      UpTo OpenAICompatibleAdapter.EndsStream (OpenAICompatibleAdapter.LineReadable lib) r.lines ∧
        (r.broken = true ∨ (Adapter.openAICompatible a).Marked lib r.lines)
  | .anthropic => ∀ r, Opened apiKey w.reply r →
      UpTo (AnthropicAdapter.EndsStream lib) (fun p => lib.loads p ≠ .error .recursionError)
        (AnthropicAdapter.payloads [] r.lines)
  | .ollama => OllamaAdapter.Prepared lib model w.lookups ∧
      (OllamaAdapter.Asked lib model w.lookups → ∀ r, w.reply = .reply r →
        r.response.isSuccess = true → UpTo (OllamaAdapter.EndsStream lib)
          (fun line => strip line ≠ [] → lib.loads line ≠ .error .recursionError) r.lines)

/-- The exception passes a handler and is no `ProviderError`. -/
def Escapes (caught : PyException → Bool) (e : PyException) : Prop :=
  caught e = false ∧ ¬e.Expected False

variable {lib : Decoder}

/-- What a handler makes of an exception is expected unless the exception escapes it. -/
theorem expected_handled_iff {caught : PyException → Bool} {m : String} {e : PyException} :
    (if caught e then providerError m none else e).Expected False ↔ ¬Escapes caught e := by
  cases hcaught : caught e with
  | true => simp [Escapes, hcaught, providerError, PyException.Expected]
  | false => simp [Escapes, hcaught]

theorem handled_eq_ok {caught : PyException → Bool} {m : String} {s : Streamed} :
    (s.handled caught m).2 = .ok () ↔ s.2 = .ok () := handling_eq_ok

theorem raisesOnly_handled {caught : PyException → Bool} {m : String} {s : Streamed} :
    RaisesOnly (PyException.Expected False) (s.handled caught m).2 ↔
      RaisesOnly (fun e => ¬Escapes caught e) s.2 := by
  unfold Streamed.handled
  rw [raisesOnly_handling]
  exact forall_congr' fun e => imp_congr_right fun _ => expected_handled_iff

theorem not_escapes_providerError {caught : PyException → Bool} {m : String} :
    ¬Escapes caught (providerError m none) :=
  fun h => h.2 trivial

theorem not_escapes_of_caught {caught : PyException → Bool} {e : PyException}
    (h : caught e = true) : ¬Escapes caught e :=
  fun hescapes => Bool.noConfusion (h.symm.trans hescapes.1)

/-- A failure of the transport behind the last line is caught. -/
theorem raisesOnly_atEnd {caught : PyException → Bool} (hcaught : caught .httpError = true)
    (r : StreamReply) {outcome : Except PyException Unit}
    (h : RaisesOnly (fun e => ¬Escapes caught e) outcome) :
    RaisesOnly (fun e => ¬Escapes caught e) (r.atEnd outcome) := by
  unfold StreamReply.atEnd
  split_ifs
  · exact raisesOnly_error.mpr (not_escapes_of_caught hcaught)
  · exact h

namespace OpenAICompatibleAdapter

theorem field_isObj_iff {v : Json} {key : String} :
    ((v.field? key).getD (.obj [])).IsObj ↔ v.Field key Json.IsObj := by
  unfold Json.Field
  cases v.field? key with
  | none => simp [Json.IsObj]
  | some w => simp

theorem first_isObj_iff {choices choice : Json} : choices.first = .ok choice ∧ choice.IsObj ↔
    ∃ rest, choices = .arr (choice :: rest) ∧ choice.IsObj := by
  constructor
  · rintro ⟨h, hobj⟩
    unfold Json.first at h
    split at h
    · next item rest =>
      obtain rfl := Except.ok.inj h
      exact ⟨rest, rfl, hobj⟩
    · obtain rfl := Except.ok.inj h
      exact hobj.elim
    all_goals cases h
  · rintro ⟨rest, rfl, hobj⟩
    exact ⟨rfl, hobj⟩

theorem exists_readDelta_iff {chunk : Json} :
    (∃ delta, readDelta chunk = .ok delta) ↔ ChunkReadable chunk := by
  have hchoice : (∃ delta, readDelta chunk = .ok delta) ↔ chunk.IsObj ∧ ∃ choice,
      ((if ((chunk.field? "choices").getD .null).truthy then (chunk.field? "choices").getD .null
        else .arr [.obj []]).first = .ok choice ∧ choice.IsObj) ∧
          choice.Field "delta" Json.IsObj := by
    simp only [readDelta, bind_eq_ok, Json.get_eq_ok, ← field_isObj_iff]
    constructor
    · rintro ⟨delta, choices, ⟨hobj, rfl⟩, choice, hfirst, _, ⟨hchoice, rfl⟩, hdelta, -⟩
      exact ⟨hobj, choice, ⟨hfirst, hchoice⟩, hdelta⟩
    · rintro ⟨hobj, choice, ⟨hfirst, hchoice⟩, hdelta⟩
      exact ⟨_, _, ⟨hobj, rfl⟩, choice, hfirst, _, ⟨hchoice, rfl⟩, hdelta, rfl⟩
  have hempty : ∃ choice, ((Json.arr [.obj []]).first = .ok choice ∧ choice.IsObj) ∧
      choice.Field "delta" Json.IsObj := by
    refine ⟨.obj [], ⟨rfl, trivial⟩, ?_⟩
    intro delta hdelta
    cases hdelta
  rw [hchoice, ChunkReadable]
  refine and_congr_right fun _ => ?_
  cases hchoices : chunk.field? "choices" with
  | none => simpa [Json.truthy] using hempty
  | some choices =>
    rw [Option.getD_some]
    by_cases htruthy : choices.truthy = true
    · rw [if_pos htruthy]
      simp only [first_isObj_iff, Option.some.injEq, forall_eq', htruthy, forall_const]
      constructor
      · rintro ⟨choice, ⟨rest, hlist, hobj⟩, hdelta⟩
        exact ⟨choice, rest, hlist, hobj, hdelta⟩
      · rintro ⟨choice, rest, hlist, hobj, hdelta⟩
        exact ⟨choice, ⟨rest, hlist, hobj⟩, hdelta⟩
    · rw [if_neg htruthy]
      refine iff_of_true hempty fun choices' hsame htrue => ?_
      obtain rfl := Option.some.inj hsame
      exact absurd htrue htruthy

/-- What reading a chunk raises is not handled. -/
theorem readDelta_escapes (chunk : Json) :
    RaisesOnly (Escapes PyException.isHttpError) (readDelta chunk) := by
  have hattribute : Escapes PyException.isHttpError .attributeError := ⟨rfl, not_false⟩
  have hfirst : ∀ v : Json, RaisesOnly (Escapes PyException.isHttpError) v.first := by
    intro v
    unfold Json.first
    split <;> simp [Escapes, PyException.isHttpError, PyException.Expected]
  unfold readDelta
  simp only [raisesOnly_bind]
  refine ⟨Json.raisesOnly_get hattribute _ _ _, fun _ _ => ⟨hfirst _, fun _ _ => ?_⟩⟩
  exact ⟨Json.raisesOnly_get hattribute _ _ _, fun _ _ => Json.raisesOnly_get hattribute _ _ _⟩

/-- A turn raises something that is not handled exactly at a line that cannot be read. -/
theorem lineTurn_readable (line : Text) : (∀ r, (lineTurn lib line).ended = some r →
    RaisesOnly (fun e => ¬Escapes PyException.isHttpError e) r) ↔ LineReadable lib line := by
  unfold lineTurn LineReadable
  cases frameData line with
  | none => simp [skip]
  | some data =>
    by_cases hdone : data = doneMark
    · simp [hdone]
    · cases hloads : lib.loads data with
      | error failure =>
        cases failure <;>
          simp [hdone, hloads, skip, raising, Escapes, LoadsFailure.exception,
            PyException.isHttpError, PyException.Expected]
      | ok chunk =>
        simp only [hdone, hloads, if_false, Option.some.injEq, forall_eq', reduceCtorEq, false_or,
          Except.ok.injEq, exists_eq_left']
        rw [← exists_readDelta_iff]
        cases hdelta : readDelta chunk with
        | error e => simpa [raising] using readDelta_escapes chunk e hdelta
        | ok delta => simp

/-- A line that can be read ends the generator exactly when it is the last one. -/
theorem lineTurn_ends {line : Text} (h : LineReadable lib line) :
    (lineTurn lib line).ended ≠ none ↔ EndsStream line := by
  unfold lineTurn EndsStream
  cases hframe : frameData line with
  | none => simp [skip]
  | some data =>
    by_cases hdone : data = doneMark
    · simp [hdone]
    · rcases h data hframe with h | h | ⟨chunk, hchunk, hreadable⟩
      · exact absurd h hdone
      · simp [hdone, h, skip]
      · obtain ⟨delta, hdelta⟩ := exists_readDelta_iff.mpr hreadable
        simp [hdone, hchunk, hdelta]

/-- Only the last line makes the generator return. -/
theorem endsStream_of_returns {line : Text} (h : (lineTurn lib line).ended = some (.ok ())) :
    EndsStream line := by
  have hreadable : LineReadable lib line := by
    rw [← lineTurn_readable]
    rintro r hr
    rw [Option.some.inj (hr.symm.trans h)]
    exact raisesOnly_ok
  exact (lineTurn_ends hreadable).mp (by rw [h]; exact Option.some_ne_none _)

end OpenAICompatibleAdapter

namespace AnthropicAdapter

/-- An event ends the generator by a return behind the last one, or by a `ProviderError`. -/
theorem eventTurn_ended {event : Json} {r : Except PyException Unit}
    (h : (eventTurn event).ended = some r) :
    r = .ok () ∧ hasType event "message_stop" = true ∨ ∃ m, r = .error (providerError m none) := by
  unfold eventTurn at h
  split at h
  · exact .inr ⟨_, (Option.some.inj h).symm⟩
  · split at h
    · next hstop => exact .inl ⟨(Option.some.inj h).symm, hstop⟩
    · split at h
      · cases h
      · split at h
        · cases h
        · exact .inr ⟨_, (Option.some.inj h).symm⟩

theorem eventTurn_ends {event : Json} : (eventTurn event).ended ≠ none ↔
    hasType event "error" = true ∨ hasType event "message_stop" = true ∨
      ∃ content, block event = some content ∧ ¬((content.field? "text").getD .null).IsStr := by
  unfold eventTurn
  by_cases herror : hasType event "error" = true
  · simp [herror, raising]
  · by_cases hstop : hasType event "message_stop" = true
    · simp [herror, hstop]
    · cases hblock : block event with
      | none => simp [herror, hstop, skip]
      | some content =>
        simp only [herror, hstop, false_or, Option.some.injEq, exists_eq_left', ite_false,
          Bool.false_eq_true]
        rcases hfield : content.field? "text" with _ | (_ | _ | _ | _ | _ | _ | _) <;>
          simp [raising, Json.IsStr]

/-- A turn raises something that is not handled exactly at a text that is nested too deep. -/
theorem payloadTurn_readable (payload : Text) : (∀ r, (payloadTurn lib payload).ended = some r →
    RaisesOnly (fun e => ¬Escapes PyException.isHttpError e) r) ↔
      lib.loads payload ≠ .error .recursionError := by
  unfold payloadTurn
  have hprovider : ∀ m, ¬Escapes PyException.isHttpError (providerError m none) :=
    fun _ => not_escapes_providerError
  have hdeep : Escapes PyException.isHttpError .recursionError := ⟨rfl, not_false⟩
  rcases hloads : lib.loads payload with failure | event
  · cases failure <;> simp [raising, invalidStream, hprovider, hdeep]
  · cases event with
    | obj fields =>
      refine iff_of_true (fun r hr => ?_) nofun
      rcases eventTurn_ended hr with ⟨rfl, -⟩ | ⟨m, rfl⟩
      · exact raisesOnly_ok
      · exact raisesOnly_error.mpr (hprovider m)
    | _ => simp [raising, invalidStream, hprovider]

/-- A text that can be decoded ends the generator exactly when it is the last one. -/
theorem payloadTurn_ends {payload : Text} (h : lib.loads payload ≠ .error .recursionError) :
    (payloadTurn lib payload).ended ≠ none ↔ EndsStream lib payload := by
  unfold payloadTurn EndsStream
  rcases hloads : lib.loads payload with failure | event
  · cases failure
    · simp [raising]
    · simp [raising]
    · exact absurd hloads h
  · cases event with
    | obj fields => simpa [Json.IsObj] using eventTurn_ends
    | _ => simp [raising, Json.IsObj]

theorem marked_of_returns {payload : Text} (h : (payloadTurn lib payload).ended = some (.ok ())) :
    ∃ event, lib.loads payload = .ok event ∧ hasType event "message_stop" = true := by
  unfold payloadTurn at h
  split at h
  · cases h
  · cases h
  · next fields hloads =>
    rcases eventTurn_ended h with ⟨-, hstop⟩ | ⟨m, hm⟩
    · exact ⟨_, hloads, hstop⟩
    · cases hm
  · cases h

end AnthropicAdapter

namespace OllamaAdapter

/-- A chunk ends the generator by a return behind the last one, or by a `ProviderError`. -/
theorem chunkTurn_ended {chunk : Json} {r : Except PyException Unit}
    (h : (chunkTurn chunk).ended = some r) :
    r = .ok () ∧ isDone chunk = true ∨ ∃ m, r = .error (providerError m none) := by
  have hdone : (if isDone chunk then some (.ok ()) else none) = some r →
      r = .ok () ∧ isDone chunk = true := by
    intro hr
    split_ifs at hr with hd
    exact ⟨(Option.some.inj hr).symm, hd⟩
  unfold chunkTurn at h
  dsimp only at h
  split at h
  · exact .inr ⟨_, (Option.some.inj h).symm⟩
  · split at h
    · exact .inr ⟨_, (Option.some.inj h).symm⟩
    · split at h
      · split at h
        · exact .inl (hdone h)
        · exact .inr ⟨_, (Option.some.inj h).symm⟩
      · exact .inl (hdone h)

theorem chunkTurn_ends {chunk : Json} : (chunkTurn chunk).ended ≠ none ↔
    isSet chunk "error" = true ∨ badMessage chunk = true ∨
      (content chunk).truthy = true ∧ ¬(content chunk).IsStr ∨ isDone chunk = true := by
  unfold chunkTurn
  dsimp only
  by_cases herror : isSet chunk "error" = true
  · simp [herror, raising]
  · by_cases hmessage : badMessage chunk = true
    · simp [herror, hmessage, raising]
    · by_cases htruthy : (content chunk).truthy = true
      · rcases hcontent : content chunk with _ | _ | _ | _ | _ | _ | _ <;>
          rw [hcontent] at htruthy <;>
          simp [herror, hmessage, htruthy, raising, Json.IsStr]
      · simp [herror, hmessage, htruthy]

/-- A turn raises something that is not handled exactly at a line that is nested too deep. -/
theorem lineTurn_readable (line : Text) : (∀ r, (lineTurn lib line).ended = some r →
    RaisesOnly (fun e => ¬Escapes streamCaught e) r) ↔
      (strip line ≠ [] → lib.loads line ≠ .error .recursionError) := by
  have hprovider : ∀ m, ¬Escapes streamCaught (providerError m none) :=
    fun _ => not_escapes_providerError
  have hdeep : Escapes streamCaught .recursionError := ⟨rfl, not_false⟩
  unfold lineTurn
  by_cases hblank : strip line = []
  · simp [hblank, skip]
  · rcases hloads : lib.loads line with failure | chunk
    · cases failure <;> simp [hblank, raising, invalidStream, hprovider, hdeep]
    · cases chunk with
      | obj fields =>
        rw [if_neg hblank]
        refine iff_of_true (fun r hr => ?_) fun _ => nofun
        rcases chunkTurn_ended hr with ⟨rfl, -⟩ | ⟨m, rfl⟩
        · exact raisesOnly_ok
        · exact raisesOnly_error.mpr (hprovider m)
      | _ => simp [hblank, raising, invalidStream, hprovider]

/-- A line that can be decoded ends the generator exactly when it is the last one. -/
theorem lineTurn_ends {line : Text}
    (h : strip line ≠ [] → lib.loads line ≠ .error .recursionError) :
    (lineTurn lib line).ended ≠ none ↔ EndsStream lib line := by
  unfold lineTurn EndsStream
  by_cases hblank : strip line = []
  · simp [hblank, skip]
  · rw [if_neg hblank]
    rcases hloads : lib.loads line with failure | chunk
    · cases failure
      · simp [hblank, raising]
      · simp [hblank, raising]
      · exact absurd hloads (h hblank)
    · cases chunk with
      | obj fields => simpa [hblank, Json.IsObj] using chunkTurn_ends
      | _ => simp [hblank, raising, Json.IsObj]

theorem marked_of_returns {line : Text} (h : (lineTurn lib line).ended = some (.ok ())) :
    ∃ chunk, lib.loads line = .ok chunk ∧ isDone chunk = true := by
  unfold lineTurn at h
  split at h
  · cases h
  · split at h
    · cases h
    · cases h
    · next fields hloads =>
      rcases chunkTurn_ended h with ⟨-, hdone⟩ | ⟨m, hm⟩
      · exact ⟨_, hloads, hdone⟩
      · cases hm
    · cases h

end OllamaAdapter

/-! ## When a stream is complete -/

section complete

variable {adapter : Adapter} {model apiKey : Text} {w : StreamExchanges}

/-- A stream that is refused with a `ProviderError` is not taken for an answer. -/
theorem Complete.of_raises {cls : ProviderErrorClass} {m : Text} {status : Option Nat}
    (h : (adapter.stream lib model apiKey w).2 = .error (.providerError cls m status)) :
    Complete lib adapter model apiKey w := by
  refine ⟨fun hok => ?_, ?_⟩
  · rw [h] at hok
    cases hok
  · rw [h, raisesOnly_error]
    exact ⟨_, _, _, rfl⟩

/-- A generator behind a handler is complete when it raises what the handler or the caller
expects, and returns only behind the marker. -/
theorem complete_iff {caught : PyException → Bool} {m : String} {s : Streamed} {r : StreamReply}
    (hreply : w.reply = .reply r)
    (h : (adapter.stream lib model apiKey w).2 = (s.handled caught m).2) :
    Complete lib adapter model apiKey w ↔ RaisesOnly (fun e => ¬Escapes caught e) s.2 ∧
      (s.2 = .ok () → adapter.Marked lib r.lines) := by
  have htyped : IsProviderError = PyException.Expected False :=
    funext fun e => propext isProviderError_iff
  rw [← raisesOnly_handled (m := m), ← h]
  constructor
  · rintro ⟨hmarked, hraises⟩
    refine ⟨htyped ▸ hraises, fun hok => ?_⟩
    obtain ⟨r', hr', hlines⟩ := hmarked (h.trans (handled_eq_ok.mpr hok))
    rw [hreply] at hr'
    cases hr'
    exact hlines
  · rintro ⟨hraises, hmarked⟩
    exact ⟨fun hok => ⟨r, hreply, hmarked (handled_eq_ok.mp (h.symm.trans hok))⟩,
      htyped ▸ hraises⟩

/-- A key either fits or is refused with a `ProviderError`. -/
theorem keyedHeaders_cases (build : Text → List (String × Text)) (apiKey : Text) :
    (KeyFits apiKey ∧ ∃ headers, keyedHeaders build apiKey = .ok headers) ∨
      ¬KeyFits apiKey ∧ ∃ m, keyedHeaders build apiKey = .error (providerError m none) := by
  unfold keyedHeaders KeyFits
  cases apiKeyFormatError apiKey with
  | none => exact .inl ⟨rfl, _, rfl⟩
  | some m => exact .inr ⟨nofun, m, rfl⟩

/-- A body is read, or the request is refused with a `ProviderError`. -/
theorem OpenAICompatibleAdapter.stream_cases (lib : Decoder) (apiKey : Text) (x : StreamExchange) :
    (∃ r, Opened apiKey x r ∧ stream lib apiKey x =
      Streamed.handled PyException.isHttpError "Provider에 연결하지 못했습니다."
        (drained (lineTurn lib) (r.atEnd (.ok ())) r.lines)) ∨
    (∀ r, ¬Opened apiKey x r) ∧
      ∃ cls m status, (stream lib apiKey x).2 = .error (.providerError cls m status) := by
  have hheaders : (KeyFits apiKey ∧ ∃ sent, headers apiKey = .ok sent) ∨
      ¬KeyFits apiKey ∧ ∃ m, headers apiKey = .error (providerError m none) :=
    keyedHeaders_cases _ apiKey
  unfold stream
  rcases hheaders with ⟨hkey, sent, hsent⟩ | ⟨hkey, m, hm⟩
  · rw [hsent]
    cases x with
    | httpError => exact .inr ⟨fun r h => StreamExchange.noConfusion h.2.1, _, _, _, rfl⟩
    | reply r =>
      by_cases hsuccess : r.response.isSuccess = true
      · exact .inl ⟨r, ⟨hkey, rfl, hsuccess⟩, by simp only [hsuccess, if_true]⟩
      · refine .inr ⟨?_, ?_⟩
        · rintro r' ⟨-, hr, hsuccess'⟩
          cases hr
          exact hsuccess hsuccess'
        · dsimp only
          rw [if_neg hsuccess, StreamReply.atEnd]
          cases r.broken with
          | false => exact ⟨_, _, _, rfl⟩
          | true => exact ⟨_, _, _, rfl⟩
  · rw [hm]
    exact .inr ⟨fun r h => hkey h.1, _, _, _, rfl⟩

theorem OpenAICompatibleAdapter.complete_iff (a : OpenAICompatibleAdapter) :
    Complete lib (.openAICompatible a) model apiKey w ↔
      (Adapter.openAICompatible a).StreamReads lib model apiKey w := by
  rcases stream_cases lib apiKey w.reply with ⟨r, hopened, hstream⟩ | ⟨hclosed, _, _, _, hraises⟩
  swap
  · exact iff_of_true (Complete.of_raises hraises) fun r hr => absurd hr (hclosed r)
  have hreads : (Adapter.openAICompatible a).StreamReads lib model apiKey w ↔
      UpTo EndsStream (LineReadable lib) r.lines ∧
        (r.broken = true ∨ (Adapter.openAICompatible a).Marked lib r.lines) := by
    refine ⟨fun h => h r hopened, fun h r' hr' => ?_⟩
    cases hopened.2.1.symm.trans hr'.2.1
    exact h
  have hended : ((Adapter.openAICompatible a).stream lib model apiKey w).2 = _ :=
    congrArg Prod.snd hstream
  rw [hreads, Provider.complete_iff hopened.2.1 hended, raisesOnly_drained_iff lineTurn_readable
    (fun line => lineTurn_ends) (raisesOnly_atEnd rfl r raisesOnly_ok)]
  refine and_congr_right fun hupTo => ⟨fun h => ?_, fun h hok => ?_⟩
  · by_contra hnot
    rw [not_or, Bool.not_eq_true] at hnot
    -- the lines are read to their end without the marker, and the body just ends
    have hnone : ∀ line ∈ r.lines, ¬EndsStream line :=
      fun line hline hends => hnot.2 ⟨line, hline, hends⟩
    have hgoes : ∀ line ∈ r.lines, (lineTurn lib line).ended = none := by
      intro line hline
      by_contra hended
      exact hnone line hline ((lineTurn_ends (hupTo.forall_mem hnone line hline)).mp hended)
    refine hnot.2 (h ?_)
    rw [drained_ended, List.findSome?_eq_none_iff.mpr hgoes, StreamReply.atEnd, hnot.1]
    rfl
  · rcases returned_of_drained hok with ⟨line, hline, hreturns⟩ | ⟨hend, -⟩
    · exact ⟨line, hline, endsStream_of_returns hreturns⟩
    · rcases h with hbroken | hmarked
      · rw [StreamReply.atEnd, if_pos hbroken] at hend
        cases hend
      · exact hmarked

/-- A body is read, or the request is refused with a `ProviderError`. -/
theorem AnthropicAdapter.stream_cases (lib : Decoder) (apiKey : Text) (x : StreamExchange) :
    (∃ r, Opened apiKey x r ∧ stream lib apiKey x =
      Streamed.handled PyException.isHttpError "Provider에 연결하지 못했습니다."
        (drained (payloadTurn lib) (r.atEnd (.error (providerError
          "Provider 답변 스트림이 완료 전에 종료됐습니다." none))) (payloads [] r.lines))) ∨
    (∀ r, ¬Opened apiKey x r) ∧
      ∃ cls m status, (stream lib apiKey x).2 = .error (.providerError cls m status) := by
  have hheaders : (KeyFits apiKey ∧ ∃ sent, headers apiKey = .ok sent) ∨
      ¬KeyFits apiKey ∧ ∃ m, headers apiKey = .error (providerError m none) :=
    keyedHeaders_cases _ apiKey
  unfold stream
  rcases hheaders with ⟨hkey, sent, hsent⟩ | ⟨hkey, m, hm⟩
  · rw [hsent]
    cases x with
    | httpError => exact .inr ⟨fun r h => StreamExchange.noConfusion h.2.1, _, _, _, rfl⟩
    | reply r =>
      by_cases hsuccess : r.response.isSuccess = true
      · exact .inl ⟨r, ⟨hkey, rfl, hsuccess⟩, by simp only [hsuccess, if_true]⟩
      · refine .inr ⟨?_, ?_⟩
        · rintro r' ⟨-, hr, hsuccess'⟩
          cases hr
          exact hsuccess hsuccess'
        · dsimp only
          rw [if_neg hsuccess]
          exact ⟨_, _, _, rfl⟩
  · rw [hm]
    exact .inr ⟨fun r h => hkey h.1, _, _, _, rfl⟩

theorem AnthropicAdapter.complete_iff : Complete lib .anthropic model apiKey w ↔
    Adapter.anthropic.StreamReads lib model apiKey w := by
  rcases stream_cases lib apiKey w.reply with ⟨r, hopened, hstream⟩ | ⟨hclosed, _, _, _, hraises⟩
  swap
  · exact iff_of_true (Complete.of_raises hraises) fun r hr => absurd hr (hclosed r)
  have hreads : Adapter.anthropic.StreamReads lib model apiKey w ↔
      UpTo (EndsStream lib) (fun p => lib.loads p ≠ .error .recursionError)
        (payloads [] r.lines) := by
    refine ⟨fun h => h r hopened, fun h r' hr' => ?_⟩
    cases hopened.2.1.symm.trans hr'.2.1
    exact h
  have hended : (Adapter.anthropic.stream lib model apiKey w).2 = _ := congrArg Prod.snd hstream
  rw [hreads, Provider.complete_iff hopened.2.1 hended,
    raisesOnly_drained_iff payloadTurn_readable (fun payload => payloadTurn_ends)
      (raisesOnly_atEnd rfl r (raisesOnly_error.mpr not_escapes_providerError))]
  refine and_iff_left fun hok => ?_
  rcases returned_of_drained hok with ⟨payload, hpayload, hreturns⟩ | ⟨hreturns, -⟩
  · exact ⟨payload, hpayload, marked_of_returns hreturns⟩
  · unfold StreamReply.atEnd at hreturns
    split_ifs at hreturns

namespace OllamaAdapter

/-- A model that was looked up was looked up as expected. -/
theorem raisesOnly_lookup (lib : Decoder) (model : Text) {w : Exchanges}
    (hconnected : w.connected = true) :
    RaisesOnly (fun e => ¬Escapes streamCaught e) (requireLocalModel lib model w) ↔
      Prepared lib model w := by
  rw [raisesOnly_requireLocalModel (fun _ => not_escapes_providerError)
    fun h => h ⟨rfl, not_false⟩]
  exact ⟨fun h _ => h, fun h => h hconnected⟩

/-- A body is read, or the exception ahead of it is a `ProviderError` where the model was looked
up as expected. -/
theorem stream_cases (lib : Decoder) (model : Text) (w : StreamExchanges) :
    (∃ r, w.reply = .reply r ∧ r.response.isSuccess = true ∧ Asked lib model w.lookups ∧
      Prepared lib model w.lookups ∧
      stream lib model w = Streamed.handled streamCaught "Ollama 서버에 연결하지 못했습니다."
        (drained (lineTurn lib) (r.atEnd (.error (providerError
          "Ollama 응답 스트림이 완료 전에 종료됐습니다." none))) r.lines)) ∨
    (∀ r, w.reply = .reply r → r.response.isSuccess = true → ¬Asked lib model w.lookups) ∧
      ∃ e, (stream lib model w).2 = .error e ∧
        (e.Expected False ↔ Prepared lib model w.lookups) := by
  unfold stream
  by_cases hconnected : w.connected = true
  swap
  · rw [if_neg hconnected]
    refine .inr ⟨fun r _ _ hasked => hconnected hasked.1, _, rfl, ?_⟩
    exact iff_of_true trivial fun h => absurd h hconnected
  rw [if_pos hconnected]
  have hlookup := raisesOnly_lookup lib model (w := w.lookups) hconnected
  cases hrequire : requireLocalModel lib model w.lookups with
  | error e =>
    rw [hrequire, raisesOnly_error] at hlookup
    refine .inr ⟨fun r _ _ hasked => ?_, _, rfl, expected_handled_iff.trans hlookup⟩
    have hfound : requireLocalModel lib model w.lookups = .ok () :=
      requireLocalModel_eq_ok.mpr hasked.2
    rw [hrequire] at hfound
    cases hfound
  | ok u =>
    have hasked : Asked lib model w.lookups := ⟨hconnected, requireLocalModel_eq_ok.mp hrequire⟩
    have hprepared : Prepared lib model w.lookups := hlookup.mp (hrequire ▸ raisesOnly_ok)
    cases hreply : w.reply with
    | httpError =>
      exact .inr ⟨fun r hr => StreamExchange.noConfusion hr, _, rfl, iff_of_true trivial hprepared⟩
    | reply r =>
      by_cases hsuccess : r.response.isSuccess = true
      · exact .inl ⟨r, rfl, hsuccess, hasked, hprepared, by simp only [hsuccess, if_true]⟩
      · refine .inr ⟨fun r' hr hsuccess' => ?_, ?_⟩
        · cases hr
          exact absurd hsuccess' hsuccess
        · dsimp only
          rw [if_neg hsuccess]
          exact ⟨_, rfl, iff_of_true trivial hprepared⟩

theorem complete_iff : Complete lib .ollama model apiKey w ↔
    Adapter.ollama.StreamReads lib model apiKey w := by
  rcases stream_cases lib model w with
    ⟨r, hreply, hsuccess, hasked, hprepared, hstream⟩ | ⟨hclosed, e, he, hexpected⟩
  · have hreads : Adapter.ollama.StreamReads lib model apiKey w ↔ UpTo (EndsStream lib)
        (fun line => strip line ≠ [] → lib.loads line ≠ .error .recursionError) r.lines := by
      refine ⟨fun h => h.2 hasked r hreply hsuccess, fun h => ⟨hprepared, fun _ r' hr' _ => ?_⟩⟩
      cases hreply.symm.trans hr'
      exact h
    have hended : (Adapter.ollama.stream lib model apiKey w).2 = _ := congrArg Prod.snd hstream
    rw [hreads, Provider.complete_iff hreply hended,
      raisesOnly_drained_iff lineTurn_readable (fun line => lineTurn_ends)
        (raisesOnly_atEnd rfl r (raisesOnly_error.mpr not_escapes_providerError))]
    refine and_iff_left fun hok => ?_
    rcases returned_of_drained hok with ⟨line, hline, hreturns⟩ | ⟨hreturns, -⟩
    · exact ⟨line, hline, marked_of_returns hreturns⟩
    · unfold StreamReply.atEnd at hreturns
      split_ifs at hreturns
  · have hended : (Adapter.ollama.stream lib model apiKey w).2 = .error e := he
    constructor
    · intro h
      have htyped := h.typed
      rw [hended, raisesOnly_error, isProviderError_iff] at htyped
      refine ⟨hexpected.mp htyped, fun hasked r hr hsuccess => ?_⟩
      exact absurd hasked (hclosed r hr hsuccess)
    · rintro ⟨hprepared, -⟩
      refine ⟨fun hok => ?_, ?_⟩
      · rw [hended] at hok
        cases hok
      · rw [hended, raisesOnly_error, isProviderError_iff]
        exact hexpected.mpr hprepared

end OllamaAdapter

end complete

/-- A stream is never taken for a complete answer when it is not, and fails with a
`ProviderError`, exactly when its lines can be read up to the last that counts and an
OpenAI-compatible body without the marker does not just end. -/
theorem stream_complete_iff (lib : Decoder) (adapter : Adapter) (model apiKey : Text)
    (w : StreamExchanges) :
    Complete lib adapter model apiKey w ↔ adapter.StreamReads lib model apiKey w := by
  cases adapter with
  | openAICompatible a => exact OpenAICompatibleAdapter.complete_iff a
  | anthropic => exact AnthropicAdapter.complete_iff
  | ollama => exact OllamaAdapter.complete_iff

/-- A chunk of a streamed answer. -/
def greeting : Text := "\x7b\"choices\":[\x7b\"delta\":\x7b\"content\":\"hi\"\x7d\x7d]\x7d".toList

/-- Library functions that also decode this chunk. -/
def greetingDecoder : Decoder where
  loads t :=
    if t = greeting then .ok (.obj [("choices".toList, .arr [.obj [("delta".toList,
      .obj [("content".toList, .str "hi".toList)])]])])
    else plainDecoder.loads t
  intOfText := plainDecoder.intOfText
  floatOfText := plainDecoder.floatOfText
  floatOfInt := plainDecoder.floatOfInt
  printed := plainDecoder.printed
  lower := plainDecoder.lower
  asFloat := plainDecoder.asFloat

/-- A good reply whose body ends after one chunk. -/
def cutOff : StreamExchanges where
  connected := true
  tags := .httpError
  details := .httpError
  reply := .reply ⟨⟨200, .error .jsonDecodeError, none⟩, ["data: ".toList ++ greeting, []], false⟩

/-- A body that ends without `[DONE]` is a complete answer to the OpenAI-compatible adapter. -/
theorem not_complete_cutOff :
    plainAdapter.stream greetingDecoder "m".toList "k".toList cutOff =
      ([.str "hi".toList], .ok ()) ∧
    ¬Complete greetingDecoder plainAdapter "m".toList "k".toList cutOff := by
  have hstream : plainAdapter.stream greetingDecoder "m".toList "k".toList cutOff =
      ([.str "hi".toList], .ok ()) := rfl
  refine ⟨hstream, fun h => ?_⟩
  obtain ⟨r, hr, line, hline, hmark⟩ := h.marked (congrArg Prod.snd hstream)
  cases hr
  rw [List.mem_cons, List.mem_singleton] at hline
  rcases hline with rfl | rfl
  · exact absurd hmark (by decide +kernel)
  · exact absurd hmark (by decide +kernel)

end Maeglagi.Provider
