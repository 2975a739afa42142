import Mathlib.Algebra.GroupWithZero.Nat
import Maeglagi.Core.Text

/-!
# The citation filter

`CitationFilter` of `answer.py`. It reads the answer one character at a time and holds back what
may become a citation. The states between characters are described by what was read alone, so
the output of a text does not depend on how it was cut into tokens.
-/

namespace Maeglagi.Answer

open Core

/-- The Unicode tables of digits. -/
structure Digits where
  /-- `str.isdigit` of one character -/
  isdigit : Char → Bool
  /-- The value of a character that `\d` matches. -/
  decimal : Char → Option Nat
  isdigit_of_decimal : ∀ c n, decimal c = some n → isdigit c = true
  isdigit_ascii : ∀ c, c.toNat < 128 → isdigit c = c.isDigit

variable (digits : Digits)

/-- `re.findall(r"\d+", _)` -/
def numbers (text : Text) : List Text :=
  (text.splitOnP fun c => (digits.decimal c).isNone).filter fun run => decide (run ≠ [])

/-- `int` of a run of decimal digits. -/
def intOf (run : Text) : Nat :=
  run.foldl (fun acc c => 10 * acc + (digits.decimal c).getD 0) 0

/-- `", ".join(_)` -/
def joined (parts : List Text) : Text := (", ".toList).intercalate parts

/-- A character that may stand inside a citation. -/
def cites (c : Char) : Bool := digits.isdigit c || decide (c = ',') || decide (c = ' ')

/-- `CitationFilter` -/
structure CitationFilter where
  valid : List Nat
  pending : Text
  deriving DecidableEq

/-- `CitationFilter._MAX_PENDING` -/
def maxPending : Nat := 16

/-- `CitationFilter._resolve` -/
def resolve (valid : List Nat) (candidate : Text) : Text :=
  let found := numbers digits candidate
  if found = [] then candidate
  else
    let kept := found.filter fun run => decide (intOf digits run ∈ valid)
    if kept.length = found.length then candidate
    else if kept = [] then [] else '[' :: joined kept ++ [']']

/-- One turn of the loop of `CitationFilter.feed`: the text it emits and the filter after it. -/
def feedChar (f : CitationFilter) (c : Char) : Text × CitationFilter :=
  if f.pending ≠ [] then
    let pending := f.pending ++ [c]
    if c = ']' then (resolve digits f.valid pending, { f with pending := [] })
    else if c = '[' then (f.pending, { f with pending := [c] })
    else if ¬cites digits c = true ∨ maxPending < pending.length then
      (pending, { f with pending := [] })
    else ([], { f with pending })
  else if c = '[' then ([], { f with pending := [c] })
  else ([c], f)

/-- `CitationFilter.feed` -/
def feed (f : CitationFilter) : Text → Text × CitationFilter
  | [] => ([], f)
  | c :: text =>
    let turn := feedChar digits f c
    let rest := feed turn.2 text
    (turn.1 ++ rest.1, rest.2)

/-- What the filter emits over a stream of tokens. -/
def feedAll (f : CitationFilter) : List Text → Text × CitationFilter
  | [] => ([], f)
  | piece :: pieces =>
    let fed := feed digits f piece
    let rest := feedAll fed.2 pieces
    (fed.1 ++ rest.1, rest.2)

theorem feed_append (f : CitationFilter) (s t : Text) : feed digits f (s ++ t) =
    ((feed digits f s).1 ++ (feed digits (feed digits f s).2 t).1,
      (feed digits (feed digits f s).2 t).2) := by
  induction s generalizing f with
  | nil => rfl
  | cons c s ih => simp only [List.cons_append, feed, ih, List.append_assoc]

/-- Feeding tokens is feeding the text they make up. -/
theorem feedAll_eq (f : CitationFilter) (pieces : List Text) :
    feedAll digits f pieces = feed digits f pieces.flatten := by
  induction pieces generalizing f with
  | nil => rfl
  | cons piece pieces ih => simp only [feedAll, ih, List.flatten_cons, feed_append]

/-- What a filter that holds nothing back emits for a text. -/
def filtered (valid : List Nat) (text : Text) : Text := (feed digits ⟨valid, []⟩ text).1

variable {digits}

theorem cites_bracket : cites digits '[' = false ∧ cites digits ']' = false := by
  simp [cites, digits.isdigit_ascii]

theorem ne_bracket_of_cites {c : Char} (h : cites digits c = true) : c ≠ '[' ∧ c ≠ ']' := by
  refine ⟨?_, ?_⟩
  · rintro rfl
    rw [cites_bracket.1] at h
    cases h
  · rintro rfl
    rw [cites_bracket.2] at h
    cases h

/-- The text between the brackets of a citation that the filter resolves. -/
def Short (digits : Digits) (body : Text) : Prop :=
  (∀ c ∈ body, cites digits c = true) ∧ body.length < maxPending

theorem Short.left {q t : Text} (h : Short digits (q ++ t)) : Short digits q := by
  refine ⟨fun c hc => h.1 c (List.mem_append_left _ hc), ?_⟩
  have hlen := h.2
  rw [List.length_append] at hlen
  omega

/-- Reading on from a held back start: a character that leaves it short is held back too. -/
theorem feed_cons_of_short (valid : List Nat) {q : Text} {c : Char} (t : Text)
    (h : Short digits (q ++ [c])) :
    feed digits ⟨valid, '[' :: q⟩ (c :: t) = feed digits ⟨valid, '[' :: (q ++ [c])⟩ t := by
  have hc : cites digits c = true := h.1 c (by simp)
  have hlen := h.2
  rw [List.length_append, List.length_singleton] at hlen
  have hfits : ¬maxPending < q.length + 1 + 1 := by omega
  obtain ⟨hopen, hclose⟩ := ne_bracket_of_cites hc
  simp [feed, feedChar, hopen, hclose, hc, hfits]

/-- A short citation is resolved. -/
theorem feed_short (valid : List Nat) {q body : Text} (rest : Text)
    (h : Short digits (q ++ body)) :
    feed digits ⟨valid, '[' :: q⟩ (body ++ ']' :: rest) =
      (resolve digits valid ('[' :: (q ++ body) ++ [']']) ++ (feed digits ⟨valid, []⟩ rest).1,
        (feed digits ⟨valid, []⟩ rest).2) := by
  induction body generalizing q with
  | nil => simp [feed, feedChar]
  | cons c body ih =>
    have hsplit : q ++ c :: body = q ++ [c] ++ body := by simp
    rw [hsplit] at h ⊢
    rw [List.cons_append, feed_cons_of_short valid _ h.left]
    exact ih h

/-- A citation that the text leaves unfinished is held back. -/
theorem feed_unfinished (valid : List Nat) {q body : Text} (h : Short digits (q ++ body)) :
    feed digits ⟨valid, '[' :: q⟩ body = ([], ⟨valid, '[' :: (q ++ body)⟩) := by
  induction body generalizing q with
  | nil => simp [feed]
  | cons c body ih =>
    have hsplit : q ++ c :: body = q ++ [c] ++ body := by simp
    rw [hsplit] at h ⊢
    rw [feed_cons_of_short valid _ h.left]
    exact ih h

/-- Any other start is emitted as it is, and the filter goes on as if nothing was held back. -/
theorem feed_raw (valid : List Nat) {q t : Text} (hq : Short digits q)
    (hclosed : ∀ body rest, t = body ++ ']' :: rest → ¬Short digits (q ++ body))
    (hopen : ¬Short digits (q ++ t)) :
    feed digits ⟨valid, '[' :: q⟩ t =
      ('[' :: q ++ (feed digits ⟨valid, []⟩ t).1, (feed digits ⟨valid, []⟩ t).2) := by
  induction t generalizing q with
  | nil => exact absurd (by simpa using hq) hopen
  | cons c t ih =>
    have hsplit : ∀ u, q ++ c :: u = q ++ [c] ++ u := by simp
    by_cases hshort : Short digits (q ++ [c])
    · -- still short: the character is held back, and would have been emitted on its own
      obtain ⟨hne, -⟩ := ne_bracket_of_cites (hshort.1 c (by simp))
      rw [feed_cons_of_short valid _ hshort, ih hshort]
      · simp [feed, feedChar, hne]
      · intro body rest ht
        rw [← hsplit]
        exact hclosed (c :: body) rest (by rw [ht, List.cons_append])
      · rwa [← hsplit]
    · by_cases hclose : c = ']'
      · exact absurd (by simpa using hq) (hclosed [] t (by rw [hclose, List.nil_append]))
      · by_cases hbracket : c = '['
        · simp [feed, feedChar, hbracket]
        · -- not a citation after all, or too long for one
          have hflush : ¬cites digits c = true ∨ maxPending < (('[' :: q) ++ [c]).length := by
            by_contra hnot
            rw [not_or, not_not, Nat.not_lt] at hnot
            refine hshort ⟨?_, ?_⟩
            · intro d hd
              rcases List.mem_append.mp hd with hd | hd
              · exact hq.1 d hd
              · rw [List.mem_singleton.mp hd]
                exact hnot.1
            · have hlen := hnot.2
              simp only [List.length_append, List.length_cons, List.length_nil] at hlen ⊢
              omega
          rw [feed, feedChar, if_pos (List.cons_ne_nil _ _), if_neg hclose, if_neg hbracket,
            if_pos hflush]
          simp [feed, feedChar, hbracket]

section filtered

variable (valid : List Nat)

@[simp] theorem filtered_nil : filtered digits valid [] = [] := rfl

/-- Text outside brackets passes through. -/
theorem filtered_cons {c : Char} (hc : c ≠ '[') (t : Text) :
    filtered digits valid (c :: t) = c :: filtered digits valid t := by
  simp [filtered, feed, feedChar, hc]

theorem filtered_open (t : Text) :
    filtered digits valid ('[' :: t) = (feed digits ⟨valid, ['[']⟩ t).1 := by
  simp [filtered, feed, feedChar]

/-- A short citation is replaced by what it resolves to. -/
theorem filtered_short {body : Text} (h : Short digits body) (rest : Text) :
    filtered digits valid ('[' :: body ++ ']' :: rest) =
      resolve digits valid ('[' :: body ++ [']']) ++ filtered digits valid rest := by
  rw [List.cons_append, filtered_open, feed_short valid rest (q := []) h]
  rfl

/-- An unfinished citation at the end is not shown. -/
theorem filtered_unfinished {t : Text} (h : Short digits t) :
    filtered digits valid ('[' :: t) = [] := by
  rw [filtered_open, feed_unfinished valid (q := []) h]

/-- Any other bracket passes through. -/
theorem filtered_raw {t : Text}
    (hclosed : ∀ body rest, t = body ++ ']' :: rest → ¬Short digits body)
    (hopen : ¬Short digits t) :
    filtered digits valid ('[' :: t) = '[' :: filtered digits valid t := by
  have hnil : Short digits [] := ⟨nofun, by decide⟩
  rw [filtered_open, feed_raw valid hnil hclosed hopen]
  rfl

end filtered

end Maeglagi.Answer
