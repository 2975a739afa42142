import Mathlib.Data.Rat.Defs
import Mathlib.Logic.Function.Basic
import Mathlib.Order.Fin.Basic
import Maeglagi.Core.Text

/-!
# The Python runtime the program relies on

Datetimes, UUIDs and the Unicode tables. A datetime is its wall-clock reading with
an optional offset; an instant is a datetime in UTC, in microseconds since the
earliest datetime. `Runtime` collects the library functions the program calls with
the documented facts the development uses: `uuid5` is taken injective on names,
UUIDs and UTC datetimes print injectively, and a printed UUID has no colon.
-/

namespace Maeglagi

section

open Core

/-- The number of microseconds from `datetime.min` to past `datetime.max`. -/
abbrev instantCount : Nat := 315537897600000000

/-- A datetime in UTC; `0` is `datetime.min`. -/
abbrev Instant : Type := Fin instantCount

instance : LinearOrder Instant := Fin.instLinearOrder

/-- The instant some microseconds after the first one. -/
def instantAt (micros : Nat) : Instant := Fin.ofNat instantCount micros

instance : OrderBot Instant := Fin.instBoundedOrder.toOrderBot

/-- A datetime: wall-clock microseconds and the UTC offset, if it is aware. -/
structure DateTime where
  wall : Instant
  offset : Option Int
  deriving DecidableEq, Repr

/-- The exceptions the modelled functions let escape. -/
inductive PyError where
  | overflowError
  deriving DecidableEq, Repr

/-- A UTC instant as a datetime. -/
def Instant.toDateTime (i : Instant) : DateTime := ⟨i, some 0⟩

/-- `replace(tzinfo=UTC)` on a naive datetime, `astimezone(UTC)` on an aware one. -/
def DateTime.toUtc (d : DateTime) : Except PyError Instant :=
  match d.offset with
  | none => .ok d.wall
  | some offset =>
    let utc : Int := d.wall.val - offset
    if h : 0 ≤ utc ∧ utc.toNat < instantCount then .ok ⟨utc.toNat, h.2⟩
    else .error .overflowError

/-- A `float`. -/
inductive PyFloat where
  | finite (value : Rat)
  | infinity (negative : Bool)
  | nan
  deriving DecidableEq, Repr

/-- `int` of a float, without a result where it raises. -/
def PyFloat.toInt : PyFloat → Option Int
  | .finite value => some (value.num.tdiv value.den)
  | .infinity _ => none
  | .nan => none

/-- The library functions of the Python runtime. -/
structure Runtime (Id : Type) where
  /-- `unicodedata.normalize("NFKC", _)` -/
  nfkc : Text → Text
  /-- `str.casefold` -/
  casefold : Text → Text
  /-- `datetime.fromisoformat`, without a result where it raises `ValueError` -/
  fromisoformat : Text → Option DateTime
  /-- `datetime.isoformat` on a UTC datetime -/
  isoformat : Instant → Text
  /-- `uuid5(NAMESPACE_URL, _)` -/
  uuid5 : Text → Id
  /-- `str` of a UUID -/
  str : Id → Text
  uuid5_injective : Function.Injective uuid5
  str_injective : Function.Injective str
  colon_notMem_str : ∀ i, ':' ∉ str i
  isoformat_injective : Function.Injective isoformat
  isoformat_ne_nil : ∀ i, isoformat i ≠ []

/-- The printed form of an optional datetime: empty when there is none. -/
def Runtime.printed {Id : Type} (rt : Runtime Id) (d : Option Instant) : Text :=
  match d with
  | none => []
  | some i => rt.isoformat i

theorem Runtime.printed_injective {Id : Type} (rt : Runtime Id) :
    Function.Injective rt.printed := by
  rintro (_ | a) (_ | b) h
  · rfl
  · exact absurd h.symm (rt.isoformat_ne_nil b)
  · exact absurd h (rt.isoformat_ne_nil a)
  · exact congrArg some (rt.isoformat_injective h)

end

/-!
## The order of floats

`<` of two floats and of two pairs of them. Nothing is less or greater than `NaN`.
-/

/-- `a < b` of two floats. -/
def PyFloat.less : PyFloat → PyFloat → Bool
  | .finite a, .finite b => decide (a < b)
  | .finite _, .infinity negative => !negative
  | .infinity negative, .finite _ => negative
  | .infinity a, .infinity b => a && !b
  | _, _ => false

/-- `p < q` of two pairs of floats other than `NaN`. -/
def PyFloat.lessPair (p q : PyFloat × PyFloat) : Bool :=
  if p.1 = q.1 then p.2.less q.2 else p.1.less q.1

@[simp] theorem PyFloat.less_finite (a b : Rat) :
    (PyFloat.finite a).less (.finite b) = decide (a < b) := rfl

end Maeglagi
