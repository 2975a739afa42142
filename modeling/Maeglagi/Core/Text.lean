import Mathlib.Data.Char
import Mathlib.Data.List.Dedup
import Mathlib.Data.List.Infix
import Mathlib.Data.List.Lex
import Mathlib.Data.List.Sort

/-!
# Text and text sets

Texts are lists of code points, compared code point by code point. A set of texts
is a list whose order and repetitions do not matter; `sortedSet` is its canonical
form. Names joined by colons split uniquely while the parts before the last contain
no colon.
-/

namespace Maeglagi.Core

/-- A text, code point by code point. -/
abbrev Text := List Char

instance : LawfulBEq Text := inferInstance

/-- The white space that `str.strip` removes and that `\s` matches. -/
def isSpace (c : Char) : Bool :=
  let n := c.toNat
  (9 ≤ n && n ≤ 13) || (28 ≤ n && n ≤ 32) || n = 133 || n = 160 || n = 5760 ||
    (8192 ≤ n && n ≤ 8202) || n = 8232 || n = 8233 || n = 8239 || n = 8287 || n = 12288

/-- A text without its leading and trailing white space. -/
def strip (t : Text) : Text := ((t.dropWhile isSpace).reverse.dropWhile isSpace).reverse

/-- A property of the characters of a text, checked one by one. -/
theorem forall_of_all {p : Char → Prop} [DecidablePred p] {t : Text}
    (h : (t.all fun c => decide (p c)) = true) : ∀ c ∈ t, p c :=
  fun c hc => of_decide_eq_true (List.all_eq_true.mp h c hc)

theorem length_strip_le (t : Text) : (strip t).length ≤ t.length := by
  unfold strip
  rw [List.length_reverse]
  calc ((t.dropWhile isSpace).reverse.dropWhile isSpace).length
      ≤ (t.dropWhile isSpace).reverse.length := (List.dropWhile_sublist _).length_le
    _ = (t.dropWhile isSpace).length := List.length_reverse
    _ ≤ t.length := (List.dropWhile_sublist _).length_le

/-- A text that starts and ends without white space is its own strip. -/
theorem strip_eq_self {t : Text} (hfirst : ∀ c ∈ t.head?, isSpace c = false)
    (hlast : ∀ c ∈ t.getLast?, isSpace c = false) : strip t = t := by
  have hdrop : ∀ l : Text, (∀ c ∈ l.head?, isSpace c = false) → l.dropWhile isSpace = l := by
    intro l hl
    cases l with
    | nil => rfl
    | cons c l => rw [List.dropWhile_cons_of_neg (by simp [hl c rfl])]
  unfold strip
  rw [hdrop t hfirst, hdrop t.reverse (by rwa [List.head?_reverse]), List.reverse_reverse]

/-- What is left does not start with white space. -/
theorem isSpace_head?_dropWhile (t : Text) :
    ∀ c ∈ (t.dropWhile isSpace).head?, isSpace c = false := by
  intro c hc
  have hhead := List.head?_dropWhile_not isSpace t
  rw [Option.mem_def.mp hc] at hhead
  simpa using hhead

/-- A stripped text does not start with white space. -/
theorem isSpace_head?_strip (t : Text) : ∀ c ∈ (strip t).head?, isSpace c = false := by
  intro c hc
  unfold strip at hc
  rw [List.head?_reverse] at hc
  -- the last character is the last one before the trailing white space went
  have hsuffix := List.dropWhile_suffix isSpace (l := (t.dropWhile isSpace).reverse)
  have hne : (t.dropWhile isSpace).reverse.dropWhile isSpace ≠ [] := by
    intro hnil
    rw [hnil] at hc
    cases hc
  obtain ⟨lead, hlead⟩ := hsuffix
  have hlast : (t.dropWhile isSpace).reverse.getLast? = some c := by
    rw [← hlead, List.getLast?_append_of_ne_nil _ hne]
    exact hc
  rw [List.getLast?_reverse] at hlast
  exact isSpace_head?_dropWhile t c hlast

/-- A stripped text does not end with white space. -/
theorem isSpace_getLast?_strip (t : Text) : ∀ c ∈ (strip t).getLast?, isSpace c = false := by
  intro c hc
  unfold strip at hc
  rw [List.getLast?_reverse] at hc
  exact isSpace_head?_dropWhile _ c hc

@[simp] theorem strip_strip (t : Text) : strip (strip t) = strip t :=
  strip_eq_self (isSpace_head?_strip t) (isSpace_getLast?_strip t)

/-- A text is its strip between white space. -/
theorem exists_strip (t : Text) : ∃ trail, t.takeWhile isSpace ++ strip t ++ trail = t ∧
    ∀ c ∈ trail, isSpace c = true := by
  refine ⟨((t.dropWhile isSpace).reverse.takeWhile isSpace).reverse, ?_,
    fun c hc => List.all_eq_true.mp List.all_takeWhile c (List.mem_reverse.mp hc)⟩
  rw [strip, List.append_assoc, ← List.reverse_append, List.takeWhile_append_dropWhile,
    List.reverse_reverse, List.takeWhile_append_dropWhile]

/-- A text without the given prefix, when it has it. -/
def removePrefix (p t : Text) : Text := if p.isPrefixOf t then t.drop p.length else t

/-- Two sets of texts have a member in common. -/
def meets (a b : List Text) : Bool := a.any fun x => decide (x ∈ b)

@[simp] theorem meets_iff {a b : List Text} : meets a b = true ↔ ∃ x ∈ a, x ∈ b := by
  simp [meets]

theorem meets_eq_false_iff {a b : List Text} : meets a b = false ↔ ∀ x ∈ a, x ∉ b := by
  simp [meets]

/-- The members of a set in increasing order, each once. -/
def sortedSet {α : Type} [LinearOrder α] (s : List α) : List α :=
  s.dedup.insertionSort (· ≤ ·)

@[simp] theorem mem_sortedSet {α : Type} [LinearOrder α] {s : List α} {x : α} :
    x ∈ sortedSet s ↔ x ∈ s := by
  rw [sortedSet, List.mem_insertionSort, List.mem_dedup]

theorem nodup_sortedSet {α : Type} [LinearOrder α] (s : List α) : (sortedSet s).Nodup := by
  rw [sortedSet, (List.perm_insertionSort _ _).nodup_iff]
  exact List.nodup_dedup s

/-- What is left of a list without its repetitions has none. -/
theorem nodup_eraseDups {α : Type} [BEq α] [LawfulBEq α] (l : List α) : l.eraseDups.Nodup := by
  induction hn : l.length using Nat.strong_induction_on generalizing l with
  | _ n ih =>
    cases l with
    | nil => exact List.nodup_nil
    | cons a l =>
      rw [List.eraseDups_cons, List.nodup_cons]
      refine ⟨by simp [List.mem_eraseDups], ih _ ?_ _ rfl⟩
      have hle := List.length_filter_le (fun b => !b == a) l
      rw [← hn, List.length_cons]
      omega

/-- Parts joined by colons. -/
def joinColon : List Text → Text
  | [] => []
  | [t] => t
  | t :: rest => t ++ ':' :: joinColon rest

/-- A part without a mark is determined by the text that the mark ends it in. -/
theorem append_cons_inj {a b s t : Text} {x : Char} (ha : x ∉ a) (hb : x ∉ b)
    (h : a ++ x :: s = b ++ x :: t) : a = b ∧ s = t := by
  rcases List.append_eq_append_iff.mp h with ⟨c, rfl, hc⟩ | ⟨c, rfl, hc⟩
  · cases c with
    | nil => simpa using hc
    | cons y c =>
      obtain ⟨rfl, -⟩ := List.cons.inj hc
      simp at hb
  · cases c with
    | nil => simpa using hc.symm
    | cons y c =>
      obtain ⟨rfl, -⟩ := List.cons.inj hc
      simp at ha

/-- A part without a character of some kind is determined by the text that goes on with one. -/
theorem append_inj_of_head {p : Char → Bool} {a b s t : Text} (ha : ∀ c ∈ a, p c = false)
    (hb : ∀ c ∈ b, p c = false) (hs : ∀ c ∈ s.head?, p c = true) (ht : ∀ c ∈ t.head?, p c = true)
    (h : a ++ s = b ++ t) : a = b ∧ s = t := by
  have htake : ∀ {a s : Text}, (∀ c ∈ a, p c = false) → (∀ c ∈ s.head?, p c = true) →
      (a ++ s).takeWhile (fun c => !p c) = a := by
    intro a s ha hs
    rw [List.takeWhile_append_of_pos fun c hc => by rw [ha c hc, Bool.not_false]]
    cases s with
    | nil => exact List.append_nil _
    | cons c s =>
      rw [List.takeWhile_cons_of_neg (by rw [hs c rfl, Bool.not_true]; exact Bool.false_ne_true),
        List.append_nil]
  have hab : a = b := by rw [← htake ha hs, h, htake hb ht]
  subst hab
  exact ⟨rfl, List.append_cancel_left h⟩

/-- A colon-free first part is determined by the joined text. -/
theorem append_colon_inj {a b s t : Text} (ha : ':' ∉ a) (hb : ':' ∉ b)
    (h : a ++ ':' :: s = b ++ ':' :: t) : a = b ∧ s = t := append_cons_inj ha hb h

end Maeglagi.Core
