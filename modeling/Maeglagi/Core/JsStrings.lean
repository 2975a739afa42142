import Mathlib.Algebra.Group.Nat.Defs
import Maeglagi.Core.Text

/-!
# Strings of JavaScript

A string is a list of sixteen-bit code units. A unit need not be part of a character: half of a
surrogate pair may stand alone.
-/

namespace Maeglagi.Core

/-- A code unit of UTF-16. -/
abbrev CodeUnit := UInt16

/-- A string, which is any list of code units. -/
abbrev JsString := List CodeUnit

instance : LawfulBEq JsString := inferInstance

/-- `UTF16EncodeCodePoint` -/
def utf16 (c : Char) : JsString :=
  if c.toNat < 0x10000 then [.ofNat c.toNat]
  else [.ofNat (0xD800 + (c.toNat - 0x10000) / 0x400), .ofNat (0xDC00 + (c.toNat - 0x10000) % 0x400)]

/-- The code units of a text. -/
def codeUnits (t : Text) : JsString := t.flatMap utf16

/-- The value of a hexadecimal digit. -/
def hexValue (c : CodeUnit) : Option Nat :=
  if 48 ≤ c ∧ c ≤ 57 then some (c.toNat - 48)
  else if 65 ≤ c ∧ c ≤ 70 then some (c.toNat - 55)
  else if 97 ≤ c ∧ c ≤ 102 then some (c.toNat - 87)
  else none

/-- `\n` -/
abbrev newline : CodeUnit := 10

/-- `\s`, and what `trim` removes. -/
def isJsSpace (c : CodeUnit) : Bool :=
  (9 ≤ c && c ≤ 13) || c = 0x20 || c = 0xA0 || c = 0x1680 || (0x2000 ≤ c && c ≤ 0x200A) ||
    c = 0x2028 || c = 0x2029 || c = 0x202F || c = 0x205F || c = 0x3000 || c = 0xFEFF

/-- `trim` -/
def trim (s : JsString) : JsString :=
  ((s.dropWhile isJsSpace).reverse.dropWhile isJsSpace).reverse

/-- A unit that `.` does not match. -/
def isLineTerminator (c : CodeUnit) : Bool := c = newline || c = 13 || c = 0x2028 || c = 0x2029

/-- `\d` -/
def isJsDigit (c : CodeUnit) : Bool := 48 ≤ c && c ≤ 57

/-- `slice`, for positions within the string that are in order. -/
def slice (s : JsString) (first last : Nat) : JsString := (s.drop first).take (last - first)

/-- `split("\n")` -/
def lines : JsString → List JsString
  | [] => [[]]
  | c :: rest =>
    if c = newline then [] :: lines rest
    else
      match lines rest with
      | [] => [[c]]
      | line :: more => (c :: line) :: more

/-- `join("\n")` -/
def joinLines : List JsString → JsString
  | [] => []
  | [line] => line
  | line :: more => line ++ newline :: joinLines more

/-- The double nearest to a natural number, of two equally near ones the even; without a value
where it is infinite. -/
def nearestDouble (n : Nat) : Option Nat :=
  let scale := 2 ^ (n.log2 - 52)
  let high := n / scale
  let low := n % scale
  let rounded :=
    if scale < 2 * low ∨ (scale = 2 * low ∧ high % 2 = 1) then (high + 1) * scale else high * scale
  if rounded < 2 ^ 1024 then some rounded else none

/-- `Number` of a run of decimal digits. -/
def numberOf (digits : JsString) : Option Nat :=
  nearestDouble (digits.foldl (fun value c => 10 * value + (c.toNat - 48)) 0)

theorem lines_ne_nil (s : JsString) : lines s ≠ [] := by
  cases s with
  | nil => simp [lines]
  | cons c rest =>
    unfold lines
    split_ifs
    · simp
    · split
      · simp
      · simp

theorem joinLines_cons (line : JsString) {more : List JsString} (h : more ≠ []) :
    joinLines (line :: more) = line ++ newline :: joinLines more := by
  cases more with
  | nil => exact absurd rfl h
  | cons next more => rfl

/-- The lines of a string, joined, are the string. -/
theorem joinLines_lines (s : JsString) : joinLines (lines s) = s := by
  induction s with
  | nil => rfl
  | cons c rest ih =>
    unfold lines
    split_ifs with hc
    · rw [joinLines_cons _ (lines_ne_nil rest), ih, hc, List.nil_append]
    · cases hl : lines rest with
      | nil => exact absurd hl (lines_ne_nil rest)
      | cons line more =>
        rw [hl] at ih
        cases more with
        | nil =>
          rw [← ih]
          rfl
        | cons next more =>
          rw [← ih]
          rfl

/-- A line more is joined behind a newline. -/
theorem joinLines_concat {lines : List JsString} (h : lines ≠ []) (line : JsString) :
    joinLines (lines ++ [line]) = joinLines lines ++ newline :: line := by
  induction lines with
  | nil => exact absurd rfl h
  | cons first more ih =>
    cases more with
    | nil => rfl
    | cons next more =>
      rw [List.cons_append, joinLines_cons _ (by simp), joinLines_cons _ (by simp),
        ih (by simp), List.append_assoc, List.cons_append]

end Maeglagi.Core
