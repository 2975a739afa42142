import Maeglagi.Core.Dict
import Maeglagi.Core.Fallible
import Maeglagi.Runtime

/-!
# Decoded replies

The values of `json.loads`, the operations that the adapters apply to them without
looking at their type first, and the exceptions these raise. `Expected` tells the
exceptions that a caller is prepared for from the others: an adapter answers with
`ProviderError`, and a stage is also prepared for a value that pydantic refuses.
-/

namespace Maeglagi.Provider

open Core

/-- A value that `json.loads` returns. -/
inductive Json where
  | null
  | bool (b : Bool)
  | int (i : Int)
  | float (f : PyFloat)
  | str (t : Text)
  | arr (items : List Json)
  | obj (fields : List (Text × Json))

/-- The stages of an extraction. -/
inductive Stage where
  | classification | entity | event | relation | context
  deriving DecidableEq, Repr

/-- `ProviderError` and its subclasses. -/
inductive ProviderErrorClass where
  | providerError | providerCapabilityError | unsupportedStructuredFormatError
  deriving DecidableEq, Repr

/-- The exceptions of a provider call and of a stage. -/
inductive PyException where
  | providerError (cls : ProviderErrorClass) (message : Text) (httpStatus : Option Nat)
  | extractionError (stage : Stage) (message : Text)
  | validationError (errorCount : Nat)
  | httpError
  | jsonDecodeError
  | valueError
  | typeError
  | attributeError
  | keyError
  | indexError
  | overflowError
  | recursionError
  deriving DecidableEq, Repr

/-- `raise ProviderError(message)` -/
def providerError (message : String) (httpStatus : Option Nat) : PyException :=
  .providerError .providerError message.toList httpStatus

/-- `raise ProviderCapabilityError(message)` -/
def capabilityError (message : Text) : PyException :=
  .providerError .providerCapabilityError message none

namespace PyException

/-- `except httpx.HTTPError` -/
def isHttpError : PyException → Bool
  | .httpError => true
  | _ => false

/-- `except ValueError`: decoding and validation errors are value errors. -/
def isValueError : PyException → Bool
  | .valueError | .jsonDecodeError | .validationError _ => true
  | _ => false

/-- `except TypeError` -/
def isTypeError : PyException → Bool
  | .typeError => true
  | _ => false

/-- `except AttributeError` -/
def isAttributeError : PyException → Bool
  | .attributeError => true
  | _ => false

/-- `except KeyError` -/
def isKeyError : PyException → Bool
  | .keyError => true
  | _ => false

/-- A `ProviderError`, and a `ValidationError` when the caller handles it. -/
def Expected (lax : Prop) : PyException → Prop
  | .providerError .. => True
  | .validationError _ => lax
  | _ => False

end PyException

/-- How `json.loads` fails: no JSON, an integer of too many digits or bytes that are no
text, or a value nested too deep. -/
inductive LoadsFailure where
  | jsonDecodeError | valueError | recursionError
  deriving DecidableEq, Repr

/-- The exception of a failure. -/
def LoadsFailure.exception : LoadsFailure → PyException
  | .jsonDecodeError => .jsonDecodeError
  | .valueError => .valueError
  | .recursionError => .recursionError

/-- What `json.loads` returns or raises. -/
def loaded (x : Except LoadsFailure Json) : Except PyException Json :=
  match x with
  | .ok v => .ok v
  | .error failure => .error failure.exception

@[simp] theorem loaded_eq_ok {x : Except LoadsFailure Json} {v : Json} :
    loaded x = .ok v ↔ x = .ok v := by
  cases x <;> simp [loaded]

/-- The library functions that read a decoded reply. -/
structure Decoder where
  /-- `json.loads` -/
  loads : Text → Except LoadsFailure Json
  /-- `int` of a text, without a result where it raises `ValueError` -/
  intOfText : Text → Option Int
  /-- `float` of a text, without a result where it raises `ValueError` -/
  floatOfText : Text → Option PyFloat
  /-- `float` of an integer, without a result where it raises `OverflowError` -/
  floatOfInt : Int → Option PyFloat
  /-- `str` of a value that is no text, without a result where it raises `RecursionError` -/
  printed : Json → Option Text
  /-- `str.lower` -/
  lower : Text → Text
  /-- pydantic's `float`, without a result where it refuses the value -/
  asFloat : Json → Option PyFloat

namespace Json

/-- The value is a dictionary. -/
def IsObj : Json → Prop
  | .obj _ => True
  | _ => False

/-- The value is a text. -/
def IsStr : Json → Prop
  | .str _ => True
  | _ => False

/-- The value is the text `t`. -/
def isText (v : Json) (t : String) : Bool :=
  match v with
  | .str s => decide (s = t.toList)
  | _ => false

/-- `bool(value)` -/
def truthy : Json → Bool
  | .null => false
  | .bool b => b
  | .int i => decide (i ≠ 0)
  | .float (.finite q) => decide (q ≠ 0)
  | .float _ => true
  | .str t => !t.isEmpty
  | .arr items => !items.isEmpty
  | .obj fields => !fields.isEmpty

/-- The value of a key of a dictionary. -/
def field? (v : Json) (key : String) : Option Json :=
  match v with
  | .obj fields => Dict.read fields key.toList
  | _ => none

/-- The field `key` is absent or has the property. -/
def Field (v : Json) (key : String) (P : Json → Prop) : Prop :=
  ∀ w, v.field? key = some w → P w

/-- `value.get(key, default)` -/
def get (v : Json) (key : String) (default : Json) : Except PyException Json :=
  match v with
  | .obj fields => .ok ((Dict.read fields key.toList).getD default)
  | _ => .error .attributeError

/-- `value[0]` -/
def first : Json → Except PyException Json
  | .arr (item :: _) => .ok item
  | .str (c :: _) => .ok (.str [c])
  | .arr [] | .str [] => .error .indexError
  | .obj _ => .error .keyError
  | _ => .error .typeError

/-- `for item in value` -/
def iter : Json → Except PyException (List Json)
  | .arr items => .ok items
  | .str t => .ok (t.map fun c => .str [c])
  | .obj fields => .ok (fields.map fun e => .str e.1)
  | _ => .error .typeError

/-- `value.items()` -/
def items : Json → Except PyException (List (Text × Json))
  | .obj fields => .ok fields
  | _ => .error .attributeError

/-- `value.strip()` -/
def stripped : Json → Except PyException Text
  | .str t => .ok (strip t)
  | _ => .error .attributeError

/-- The value of an `int`; a `bool` is one. -/
def int? : Json → Option Int
  | .bool b => some (if b then 1 else 0)
  | .int i => some i
  | _ => none

/-- pydantic's `str`: the text, if it is one. -/
def str? : Json → Option Text
  | .str t => some t
  | _ => none

@[simp] theorem get_eq_ok {v : Json} {key : String} {default w : Json} :
    v.get key default = .ok w ↔ v.IsObj ∧ (v.field? key).getD default = w := by
  cases v <;> simp [get, IsObj, field?]

theorem raisesOnly_get {p : PyException → Prop} (hp : p .attributeError) (v : Json)
    (key : String) (default : Json) : RaisesOnly p (v.get key default) := by
  cases v <;> simp [get, hp]

@[simp] theorem items_eq_ok {v : Json} {fields : List (Text × Json)} :
    v.items = .ok fields ↔ v = .obj fields := by
  cases v <;> simp [items]

theorem isStr_iff {v : Json} : v.IsStr ↔ ∃ t, v.str? = some t := by
  cases v <;> simp [IsStr, str?]

/-- A value that is no dictionary has no field. -/
theorem field?_of_not_isObj {v : Json} (h : ¬ v.IsObj) (key : String) : v.field? key = none := by
  cases v <;> simp_all [IsObj, field?]

variable (lib : Decoder)

/-- `int(value)` -/
def toInt : Json → Except PyException Int
  | .bool b => .ok (if b then 1 else 0)
  | .int i => .ok i
  | .float (.finite q) => .ok (q.num.tdiv q.den)
  | .float (.infinity _) => .error .overflowError
  | .float .nan => .error .valueError
  | .str t =>
    match lib.intOfText t with
    | some i => .ok i
    | none => .error .valueError
  | _ => .error .typeError

/-- `float(value)` -/
def toFloat : Json → Except PyException PyFloat
  | .bool b => .ok (.finite (if b then 1 else 0))
  | .int i =>
    match lib.floatOfInt i with
    | some f => .ok f
    | none => .error .overflowError
  | .float f => .ok f
  | .str t =>
    match lib.floatOfText t with
    | some f => .ok f
    | none => .error .valueError
  | _ => .error .typeError

/-- `str(value)` -/
def toText (v : Json) : Except PyException Text :=
  match v with
  | .str t => .ok t
  | _ =>
    match lib.printed v with
    | some t => .ok t
    | none => .error .recursionError

/-- `json.loads(value)` -/
def parsed : Json → Except PyException Json
  | .str t => loaded (lib.loads t)
  | _ => .error .typeError

/-- `int` accepts the value: a number that is finite, or a text that writes one. -/
def Countable : Json → Prop
  | .bool _ | .int _ => True
  | .float f => ∃ q, f = .finite q
  | .str t => ∃ i, lib.intOfText t = some i
  | _ => False

theorem exists_toInt_iff {v : Json} : (∃ i, v.toInt lib = .ok i) ↔ v.Countable lib := by
  rcases v with _ | _ | _ | (_ | _ | _) | t | _ | _
  case str => cases ht : lib.intOfText t <;> simp [toInt, Countable, ht]
  all_goals simp [toInt, Countable]

@[simp] theorem toText_str (t : Text) : (Json.str t).toText lib = .ok t := rfl

end Json

end Maeglagi.Provider
