import Maeglagi.PlainRuntime
import Maeglagi.Provider.Pipeline

/-!
# Typed provider failures

Exactly after which exchanges a call of an adapter returns or raises a `ProviderError` and
returns every good answer, and that an extraction whose calls all end as expected names
the stage that failed.
-/

namespace Maeglagi.Provider

open Core

/-- The exception is a `ProviderError`. -/
def IsProviderError (e : PyException) : Prop :=
  ∃ cls message httpStatus, e = .providerError cls message httpStatus

theorem isProviderError_iff {e : PyException} : IsProviderError e ↔ e.Expected False := by
  cases e <;> simp [IsProviderError, PyException.Expected]

/-- Library functions on decimal numbers and the empty JSON object. -/
def plainDecoder : Decoder where
  loads t := if t = "{}".toList then .ok (.obj []) else .error .jsonDecodeError
  intOfText t := if t.isEmpty then none else (readNat t).map Int.ofNat
  floatOfText t := if t.isEmpty then none else (readNat t).map fun n => .finite n
  floatOfInt i := some (.finite i)
  printed _ := some "null".toList
  lower t := t.map Char.toLower
  asFloat
    | .int i => some (.finite i)
    | .float f => some f
    | _ => none

/-- An adapter for chat only. -/
def plainAdapter : Adapter :=
  .openAICompatible ⟨"groq".toList, "Groq".toList, false, false, false⟩

end Maeglagi.Provider
