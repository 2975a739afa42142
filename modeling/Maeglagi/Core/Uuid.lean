import Mathlib.Algebra.GroupWithZero.Nat
import Maeglagi.Core.Text

/-!
# UUIDs of hexadecimal digits

A UUID is printed as five groups of lower-case digits. It is read from more spellings: upper
case, without or with other dashes, in braces, and with a URN prefix.
-/

namespace Maeglagi.Core

/-- The 128 bits as 32 hexadecimal digits. -/
abbrev Uuid := {digits : List (Fin 16) // digits.length = 32}

instance neZero_sixteen : NeZero 16 := ⟨by decide⟩

/-- A lower-case hexadecimal digit. -/
def printDigit (d : Fin 16) : Char :=
  if d.val < 10 then Char.ofNat ('0'.toNat + d.val) else Char.ofNat ('a'.toNat + d.val - 10)

/-- A hexadecimal digit of either case. -/
def readDigit (c : Char) : Option (Fin 16) :=
  let n := c.toNat
  if 48 ≤ n ∧ n ≤ 57 then some (Fin.ofNat 16 (n - 48))
  else if 97 ≤ n ∧ n ≤ 102 then some (Fin.ofNat 16 (n - 87))
  else if 65 ≤ n ∧ n ≤ 70 then some (Fin.ofNat 16 (n - 55))
  else none

theorem readDigit_printDigit (d : Fin 16) : readDigit (printDigit d) = some d := by
  revert d
  decide

/-- `str.replace(pattern, "")`; the fuel is the length of the text. -/
def removeAll (pattern : Text) : Nat → Text → Text
  | 0, t => t
  | _ + 1, [] => []
  | fuel + 1, c :: t =>
    if pattern.isPrefixOf (c :: t) then removeAll pattern fuel ((c :: t).drop pattern.length)
    else c :: removeAll pattern fuel t

/-- A text without the first character of the pattern stays as it is. -/
theorem removeAll_of_not_mem {c : Char} {pattern : Text} (fuel : Nat) {t : Text} (h : c ∉ t) :
    removeAll (c :: pattern) fuel t = t := by
  induction fuel generalizing t with
  | zero => rfl
  | succ fuel ih =>
    cases t with
    | nil => rfl
    | cons d t =>
      have hne : c ≠ d := fun heq => h (heq ▸ List.mem_cons_self ..)
      have hstarts : (c :: pattern).isPrefixOf (d :: t) = false := by
        simp [List.isPrefixOf, hne]
      rw [removeAll, if_neg (by simp [hstarts]), ih fun hmem => h (List.mem_cons_of_mem _ hmem)]

/-- `str.strip("\x7b\x7d")` -/
def stripBraces (t : Text) : Text :=
  let brace : Char → Bool := fun c => c.toNat = 123 || c.toNat = 125
  ((t.dropWhile brace).reverse.dropWhile brace).reverse

/-- A text without braces stays as it is. -/
theorem stripBraces_of_forall {t : Text} (h : ∀ c ∈ t, c.toNat ≠ 123 ∧ c.toNat ≠ 125) :
    stripBraces t = t := by
  have hdrop : ∀ l : Text, (∀ c ∈ l, c.toNat ≠ 123 ∧ c.toNat ≠ 125) →
      l.dropWhile (fun c => c.toNat = 123 || c.toNat = 125) = l := by
    intro l hl
    cases l with
    | nil => rfl
    | cons c l => rw [List.dropWhile_cons_of_neg (by simp [hl c (List.mem_cons_self ..)])]
  show ((t.dropWhile _).reverse.dropWhile _).reverse = t
  rw [hdrop t h, hdrop t.reverse fun c hc => h c (List.mem_reverse.mp hc), List.reverse_reverse]

namespace Uuid

/-- `UUID(_)`, of the texts whose digits are plain hexadecimal digits. -/
def parse (t : Text) : Option Uuid :=
  let t := removeAll "urn:".toList t.length t
  let t := removeAll "uuid:".toList t.length t
  match ((stripBraces t).filter (· ≠ '-')).mapM readDigit with
  | some digits => if h : digits.length = 32 then some ⟨digits, h⟩ else none
  | none => none

/-- `str(_)` -/
def str (u : Uuid) : Text :=
  let digits := u.val.map printDigit
  digits.take 8 ++ '-' :: (digits.drop 8).take 4 ++ '-' :: (digits.drop 12).take 4 ++
    '-' :: (digits.drop 16).take 4 ++ '-' :: digits.drop 20

/-- A printed UUID consists of digits and dashes. -/
theorem mem_str {u : Uuid} {c : Char} (h : c ∈ str u) : c = '-' ∨ ∃ d, c = printDigit d := by
  have hdigit : ∀ {l : Text}, l ⊆ u.val.map printDigit → c ∈ l → ∃ d, c = printDigit d := by
    intro l hl hc
    obtain ⟨d, -, hd⟩ := List.mem_map.mp (hl hc)
    exact ⟨d, hd.symm⟩
  have htake : ∀ n m, ((u.val.map printDigit).drop n).take m ⊆ u.val.map printDigit :=
    fun _ _ _ hc => List.drop_subset _ _ (List.take_subset _ _ hc)
  simp only [str, List.append_assoc, List.cons_append, List.mem_append, List.mem_cons] at h
  rcases h with h | h | h | h | h | h | h | h | h
  · exact .inr (hdigit (List.take_subset ..) h)
  · exact .inl h
  · exact .inr (hdigit (htake 8 4) h)
  · exact .inl h
  · exact .inr (hdigit (htake 12 4) h)
  · exact .inl h
  · exact .inr (hdigit (htake 16 4) h)
  · exact .inl h
  · exact .inr (hdigit (List.drop_subset ..) h)

/-- What is left of a printed UUID without its dashes. -/
theorem filter_str (u : Uuid) : (str u).filter (· ≠ '-') = u.val.map printDigit := by
  have hdigit : ∀ d, (printDigit d ≠ '-') := by decide
  have hkeep : ∀ l : List (Fin 16), (l.map printDigit).filter (· ≠ '-') = l.map printDigit := by
    intro l
    refine List.filter_eq_self.mpr fun c hc => ?_
    obtain ⟨d, -, rfl⟩ := List.mem_map.mp hc
    exact decide_eq_true (hdigit d)
  have hsplit : ∀ n m, (u.val.drop n).take m ++ u.val.drop (n + m) = u.val.drop n := fun n m => by
    rw [← List.drop_drop, List.take_append_drop]
  have hwhole : u.val.take 8 ++ ((u.val.drop 8).take 4 ++ ((u.val.drop 12).take 4 ++
      ((u.val.drop 16).take 4 ++ u.val.drop 20))) = u.val := by
    rw [hsplit 16 4, hsplit 12 4, hsplit 8 4, List.take_append_drop]
  simp only [str, ← List.map_take, ← List.map_drop, List.append_assoc, List.filter_append,
    List.cons_append, List.filter_cons_of_neg, hkeep, ne_eq, not_true_eq_false, decide_false,
    Bool.false_eq_true, not_false_eq_true, ← List.map_append]
  rw [hwhole]

/-- A printed UUID reads as itself. -/
theorem parse_str (u : Uuid) : parse (str u) = some u := by
  have hchar : ∀ c ∈ str u, c ≠ 'u' ∧ c.toNat ≠ 123 ∧ c.toNat ≠ 125 := by
    have hdigit : ∀ d, printDigit d ≠ 'u' ∧ (printDigit d).toNat ≠ 123 ∧
        (printDigit d).toNat ≠ 125 := by decide
    intro c hc
    rcases mem_str hc with rfl | ⟨d, rfl⟩
    · decide
    · exact hdigit d
  have hu : 'u' ∉ str u := fun hmem => (hchar 'u' hmem).1 rfl
  have hurn : ∀ fuel, removeAll "urn:".toList fuel (str u) = str u := fun fuel =>
    removeAll_of_not_mem fuel hu
  have huuid : ∀ fuel, removeAll "uuid:".toList fuel (str u) = str u := fun fuel =>
    removeAll_of_not_mem fuel hu
  have hread : (u.val.map printDigit).mapM readDigit = some u.val := by
    induction u.val with
    | nil => rfl
    | cons d l ih =>
      rw [List.map_cons, List.mapM_cons, readDigit_printDigit, ih]
      rfl
  simp only [parse, hurn, huuid, stripBraces_of_forall fun c hc => (hchar c hc).2, filter_str,
    hread, u.property, dite_true]

end Uuid

end Maeglagi.Core
