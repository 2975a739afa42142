import Mathlib.Data.Nat.Bitwise
import Maeglagi.Resolution.Resolve
import Maeglagi.Runtime

/-!
# A concrete runtime for ASCII text

On ASCII text NFKC changes nothing and case folding is lower casing, and dates of the
form `YYYY-MM-DD` are read through the Gregorian calendar. Hashing is replaced by the
identity, the freest injective `uuid5`: a UUID is the name it was made from, printed
with its colons escaped, and an instant prints as its bits.
-/

namespace Maeglagi

section

open Core

/-- The value of a decimal digit. -/
def digitValue (c : Char) : Option Nat := if c.isDigit then some (c.toNat - 48) else none

/-- The number written by decimal digits. -/
def readNat (t : Text) : Option Nat :=
  t.foldl (fun acc c => do return 10 * (← acc) + (← digitValue c)) (some 0)

/-- A leap year of the Gregorian calendar. -/
def isLeap (y : Nat) : Bool := y % 4 = 0 && (y % 100 ≠ 0 || y % 400 = 0)

/-- The lengths of the months of a year. -/
def monthLengths (y : Nat) : List Nat :=
  [31, if isLeap y then 29 else 28, 31, 30, 31, 30, 31, 31, 30, 31, 30, 31]

/-- The days before a date, counted from 0001-01-01. -/
def daysBefore (y m d : Nat) : Nat :=
  365 * (y - 1) + (y - 1) / 4 - (y - 1) / 100 + (y - 1) / 400 +
    ((monthLengths y).take (m - 1)).sum + (d - 1)

/-- `datetime.fromisoformat` on `YYYY-MM-DD`: midnight without an offset. -/
def readIsoDate (t : Text) : Option DateTime := do
  guard (t.length = 10 ∧ t[4]? = some '-' ∧ t[7]? = some '-')
  let y ← readNat (t.take 4)
  let m ← readNat ((t.drop 5).take 2)
  let d ← readNat (t.drop 8)
  guard (1 ≤ y ∧ 1 ≤ m ∧ m ≤ 12 ∧ 1 ≤ d ∧ d ≤ ((monthLengths y)[m - 1]?).getD 0)
  let micros := daysBefore y m d * 86400000000
  if h : micros < instantCount then some ⟨⟨micros, h⟩, none⟩ else none

/-- An instant as its bits, lowest first. -/
def instantBits (i : Instant) : Text :=
  (List.range 59).map fun k => if i.val.testBit k then '1' else '0'

theorem instantBits_injective : Function.Injective instantBits := by
  intro a b h
  apply Fin.ext
  apply Nat.eq_of_testBit_eq
  intro k
  by_cases hk : k < 59
  · have hget := List.map_inj_left.mp h k (List.mem_range.mpr hk)
    revert hget
    cases a.val.testBit k <;> cases b.val.testBit k <;> simp
  · have hpow : instantCount ≤ 2 ^ k :=
      le_trans (by decide : instantCount ≤ 2 ^ 59) (Nat.pow_le_pow_right (by decide) (Nat.le_of_not_lt hk))
    rw [Nat.testBit_lt_two_pow (a.isLt.trans_le hpow),
      Nat.testBit_lt_two_pow (b.isLt.trans_le hpow)]

/-- A text with its colons escaped. -/
def escapeColon : Text → Text
  | [] => []
  | c :: t =>
    (if c = ':' then ['%', 'c'] else if c = '%' then ['%', '%'] else [c]) ++ escapeColon t

theorem escapeColon_injective : Function.Injective escapeColon := by
  intro a
  induction a with
  | nil =>
    rintro (_ | ⟨c, t⟩) h
    · rfl
    · simp only [escapeColon] at h
      split_ifs at h <;> simp at h
  | cons c s ih =>
    rintro (_ | ⟨d, t⟩) h
    · simp only [escapeColon] at h
      split_ifs at h <;> simp at h
    · simp only [escapeColon] at h
      have hrest : ∀ u, escapeColon s = escapeColon u → s = u := fun u hu => ih hu
      split_ifs at h <;> simp only [List.cons_append, List.nil_append, List.cons.injEq] at h <;>
        grind

theorem colon_notMem_escapeColon (t : Text) : ':' ∉ escapeColon t := by
  induction t with
  | nil => simp [escapeColon]
  | cons c t ih =>
    simp only [escapeColon]
    split_ifs with h₁ h₂ <;> simp_all [eq_comm]

/-- The runtime on ASCII text with names for UUIDs. -/
def plainRuntime : Runtime Text where
  nfkc := id
  casefold := List.map Char.toLower
  fromisoformat := readIsoDate
  isoformat := instantBits
  uuid5 := id
  str := escapeColon
  uuid5_injective := Function.injective_id
  str_injective := escapeColon_injective
  colon_notMem_str := colon_notMem_escapeColon
  isoformat_injective := instantBits_injective
  isoformat_ne_nil i := by simp [instantBits]

example : readIsoDate "2026-09-12".toList =
    some ⟨⟨63924768000000000, by decide⟩, none⟩ := by decide +kernel

end

/-!
## Plain inputs

Extracted records and source information written in ASCII text, for the concrete
runs that accompany the general results.
-/

section

open Core Resolution

/-- A person with identifiers and no other spellings. -/
def plainPerson (name : String) (identifiers : List String) : ExtractedEntity :=
  ⟨name.toList, .person, [], identifiers.map String.toList, []⟩

/-- A decision without a date that may replace another one. -/
def plainDecision (name : String) (supersedes : Option String) : ExtractedEvent :=
  ⟨name.toList, .decision, [], none, none, supersedes.map String.toList, []⟩

/-- An assignment of one name to another, with ISO dates. -/
def plainAssignment (source target : String) (validFrom validTo : Option String) :
    ExtractedRelation :=
  ⟨source.toList, target.toList, .assignedTo, validFrom.map String.toList,
    validTo.map String.toList, []⟩

/-- An undated source of the workspace `w` without a directory. -/
def plainSource (sourceId : String) : SourceInfo Text :=
  ⟨"w".toList, sourceId.toList, none, none, []⟩

/-- The graph of an extraction from such a source; without entities if it raises. -/
def plainGraph (result : ExtractionResult) (sourceId : String) : ResolvedGraph Text :=
  match resolveExtraction plainRuntime result (plainSource sourceId) with
  | .ok graph => graph
  | .error _ => ⟨[], [], [], []⟩

end

end Maeglagi
