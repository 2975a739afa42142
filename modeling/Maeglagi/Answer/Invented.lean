import Maeglagi.Answer.Citations
import Maeglagi.PlainRuntime

/-!
# Citations of evidence that does not exist

Which texts make the filter emit a citation with a number that is not valid. A citation that is
short and stands alone never survives; one that is too long to be held back, or that only comes
about when the citations inside it are dropped, does.
-/

namespace Maeglagi.Answer

open Core

section

variable (digits : Digits)

/-- A citation in brackets with a number that is not valid. -/
def Invented (valid : List Nat) (group : Text) : Prop :=
  (∃ body, (∀ c ∈ body, cites digits c = true) ∧ group = '[' :: body ++ [']']) ∧
    ∃ run ∈ numbers digits group, intOf digits run ∉ valid

/-- What stands between two brackets: a character of a citation, or a short citation. -/
inductive Piece where
  | char (c : Char)
  | group (body : Text)

/-- The text of a piece. -/
def Piece.text : Piece → Text
  | .char c => [c]
  | .group body => '[' :: body ++ [']']

/-- What remains of a piece when the citation it may be is dropped. -/
def Piece.shown : Piece → Text
  | .char c => [c]
  | .group _ => []

/-- The piece may stand inside a citation, or is a citation that the filter drops. -/
def Piece.Vanishing (valid : List Nat) : Piece → Prop
  | .char c => cites digits c = true
  | .group body => Short digits body ∧ resolve digits valid ('[' :: body ++ [']']) = []

/-- Two brackets with vanishing pieces between them, other than a short citation, read as a
citation with valid numbers only. -/
def Sound (valid : List Nat) (text : Text) : Prop :=
  ∀ (before : Text) (inner : List Piece) (after : Text),
    text = before ++ '[' :: inner.flatMap Piece.text ++ ']' :: after →
    (∀ piece ∈ inner, piece.Vanishing digits valid) →
    ¬Short digits (inner.flatMap Piece.text) →
    ¬Invented digits valid ('[' :: inner.flatMap Piece.shown ++ [']'])

variable {digits}

section numbers

theorem numbers_append_cons (s t : Text) {c : Char} (hc : digits.decimal c = none) :
    numbers digits (s ++ c :: t) = numbers digits s ++ numbers digits t := by
  unfold numbers
  rw [List.splitOnP_append_cons s t (by simp [hc]), List.filter_append]

theorem numbers_run {run : Text} (hrun : ∀ c ∈ run, (digits.decimal c).isNone = false)
    (hne : run ≠ []) : numbers digits run = [run] := by
  unfold numbers
  rw [List.splitOnP_eq_singleton hrun]
  simp [hne]

theorem run_of_mem_splitOnP {p : Char → Bool} {text run : Text} (h : run ∈ text.splitOnP p) :
    ∀ c ∈ run, p c = false := by
  induction text generalizing run with
  | nil =>
    rw [List.splitOnP_nil, List.mem_singleton] at h
    subst h
    exact nofun
  | cons x text ih =>
    rw [List.splitOnP_cons_eq_if_modifyHead] at h
    split at h
    · rcases List.mem_cons.mp h with rfl | h
      · exact nofun
      · exact ih h
    · next hx =>
      cases hsplit : text.splitOnP p with
      | nil => exact absurd hsplit (List.splitOnP_ne_nil p text)
      | cons head rest =>
        rw [hsplit, List.modifyHead_cons] at h
        rcases List.mem_cons.mp h with rfl | h
        · intro c hc
          rcases List.mem_cons.mp hc with rfl | hc
          · simpa using hx
          · exact ih (hsplit ▸ List.mem_cons_self ..) c hc
        · exact ih (hsplit ▸ List.mem_cons_of_mem _ h)

/-- A number is a run of decimal digits. -/
theorem run_of_mem_numbers {text run : Text} (h : run ∈ numbers digits text) :
    (∀ c ∈ run, (digits.decimal c).isNone = false) ∧ run ≠ [] := by
  obtain ⟨hmem, hne⟩ := List.mem_filter.mp h
  exact ⟨run_of_mem_splitOnP hmem, of_decide_eq_true hne⟩

theorem decimal_eq_none {c : Char} (hascii : c.toNat < 128) (hc : c.isDigit = false) :
    digits.decimal c = none := by
  cases h : digits.decimal c with
  | none => rfl
  | some n =>
    have hdigit := digits.isdigit_of_decimal c n h
    rw [digits.isdigit_ascii c hascii, hc] at hdigit
    cases hdigit

/-- The numbers of a rewritten citation are the ones that were kept. -/
theorem numbers_joined {kept : List Text}
    (hkept : ∀ run ∈ kept, (∀ c ∈ run, (digits.decimal c).isNone = false) ∧ run ≠ []) :
    numbers digits ('[' :: joined kept ++ [']']) = kept := by
  have hopen : digits.decimal '[' = none := decimal_eq_none (by decide) rfl
  have hclose : digits.decimal ']' = none := decimal_eq_none (by decide) rfl
  have hcomma : digits.decimal ',' = none := decimal_eq_none (by decide) rfl
  have hspace : digits.decimal ' ' = none := decimal_eq_none (by decide) rfl
  have hnil : numbers digits [] = [] := by simp [numbers]
  have hjoined : numbers digits (joined kept) = kept := by
    induction kept with
    | nil => exact hnil
    | cons run rest ih =>
      obtain ⟨hrun, hne⟩ := hkept run (List.mem_cons_self ..)
      have htail := ih fun r hr => hkept r (List.mem_cons_of_mem _ hr)
      cases rest with
      | nil =>
        rw [joined, List.intercalate_singleton, numbers_run hrun hne]
      | cons next rest =>
        have hsplit : joined (run :: next :: rest) =
            run ++ ',' :: ([] ++ ' ' :: joined (next :: rest)) := by
          rw [joined, List.intercalate_cons_cons, ← joined]
          simp
        rw [hsplit, numbers_append_cons _ _ hcomma, numbers_append_cons _ _ hspace, hnil, htail,
          numbers_run hrun hne]
        rfl
  have hwhole : '[' :: joined kept ++ [']'] = [] ++ '[' :: (joined kept ++ ']' :: []) := by simp
  rw [hwhole, numbers_append_cons _ _ hopen, numbers_append_cons _ _ hclose, hjoined, hnil,
    List.append_nil, List.nil_append]

end numbers

variable {valid : List Nat}

theorem ne_bracket_of_isSome {c : Char} (h : (digits.decimal c).isNone = false) :
    c ≠ '[' ∧ c ≠ ']' := by
  cases hc : digits.decimal c with
  | none => simp [hc] at h
  | some n =>
    have hcites : cites digits c = true := by simp [cites, digits.isdigit_of_decimal c n hc]
    exact ne_bracket_of_cites hcites

theorem ne_bracket_of_mem_joined {kept : List Text}
    (hkept : ∀ run ∈ kept, ∀ c ∈ run, c ≠ '[' ∧ c ≠ ']') :
    ∀ c ∈ joined kept, c ≠ '[' ∧ c ≠ ']' := by
  induction kept with
  | nil => exact nofun
  | cons run rest ih =>
    have hrest := ih fun r hr => hkept r (List.mem_cons_of_mem _ hr)
    cases rest with
    | nil =>
      rw [joined, List.intercalate_singleton]
      exact hkept run (List.mem_cons_self ..)
    | cons next rest =>
      intro c hc
      rw [joined, List.intercalate_cons_cons, ← joined, List.mem_append, List.mem_append] at hc
      rcases hc with (hc | hc) | hc
      · exact hkept run (List.mem_cons_self ..) c hc
      · rcases List.mem_pair.mp hc with rfl | rfl <;> decide
      · exact hrest c hc

/-- A short citation is dropped, or replaced by a citation that is not invented. -/
theorem resolve_cases (valid : List Nat) {body : Text} (h : Short digits body) :
    resolve digits valid ('[' :: body ++ [']']) = [] ∨
      ∃ shown, resolve digits valid ('[' :: body ++ [']']) = '[' :: shown ++ [']'] ∧
        (∀ c ∈ shown, c ≠ '[' ∧ c ≠ ']') ∧
        ¬Invented digits valid ('[' :: shown ++ [']']) := by
  have hbody : ∀ c ∈ body, c ≠ '[' ∧ c ≠ ']' := fun c hc => ne_bracket_of_cites (h.1 c hc)
  unfold resolve
  simp only
  split
  · next hnone =>
    refine .inr ⟨body, rfl, hbody, ?_⟩
    rintro ⟨-, run, hrun, -⟩
    rw [hnone] at hrun
    cases hrun
  · split
    · next hall =>
      refine .inr ⟨body, rfl, hbody, ?_⟩
      rintro ⟨-, run, hrun, hinvalid⟩
      exact hinvalid (of_decide_eq_true (List.length_filter_eq_length_iff.mp hall run hrun))
    · split
      · exact .inl rfl
      · have hruns : ∀ run ∈ (numbers digits ('[' :: body ++ [']'])).filter
            (fun run => decide (intOf digits run ∈ valid)),
            (∀ c ∈ run, (digits.decimal c).isNone = false) ∧ run ≠ [] :=
          fun run hrun => run_of_mem_numbers (List.mem_filter.mp hrun).1
        refine .inr ⟨_, rfl, ?_, ?_⟩
        · exact ne_bracket_of_mem_joined fun run hrun c hc =>
            ne_bracket_of_isSome ((hruns run hrun).1 c hc)
        · rintro ⟨-, run, hrun, hinvalid⟩
          rw [numbers_joined hruns] at hrun
          exact hinvalid (of_decide_eq_true (List.mem_filter.mp hrun).2)

/-- What the filter may do with a bracket. -/
theorem open_cases (digits : Digits) (t : Text) :
    (∃ body rest, t = body ++ ']' :: rest ∧ Short digits body) ∨ Short digits t ∨
      (∀ body rest, t = body ++ ']' :: rest → ¬Short digits body) ∧ ¬Short digits t := by
  by_cases hclosed : ∃ body rest, t = body ++ ']' :: rest ∧ Short digits body
  · exact .inl hclosed
  · by_cases hopen : Short digits t
    · exact .inr (.inl hopen)
    · exact .inr (.inr ⟨fun body rest ht hshort => hclosed ⟨body, rest, ht, hshort⟩, hopen⟩)

/-- A bracket that opens neither a short citation nor an unfinished one stands in the output. -/
theorem vanishing_of_filtered {t seen post : Text}
    (h : filtered digits valid t = seen ++ ']' :: post)
    (hseen : ∀ c ∈ seen, cites digits c = true) : ∃ (inner : List Piece) (after : Text),
      t = inner.flatMap Piece.text ++ ']' :: after ∧
      (∀ piece ∈ inner, piece.Vanishing digits valid) ∧ inner.flatMap Piece.shown = seen := by
  induction hn : t.length using Nat.strong_induction_on generalizing t seen with
  | _ n ih =>
    -- neither the citation characters nor the closing bracket after them is an opening bracket
    have hhead : ∀ u, seen ++ ']' :: post ≠ '[' :: u := by
      intro u heq
      cases seen with
      | nil => cases heq
      | cons c seen =>
        obtain ⟨rfl, -⟩ := List.cons.inj heq
        exact (ne_bracket_of_cites (hseen '[' (List.mem_cons_self ..))).1 rfl
    cases t with
    | nil => simp at h
    | cons c t =>
      rw [List.length_cons] at hn
      by_cases hc : c = '['
      · subst hc
        rcases open_cases digits t with ⟨body, rest, rfl, hshort⟩ | hshort | ⟨hclosed, hopen⟩
        · rw [← List.cons_append, filtered_short valid hshort] at h
          rcases resolve_cases valid hshort with hdropped | ⟨shown, hshown, -, -⟩
          · rw [hdropped, List.nil_append] at h
            rw [List.length_append, List.length_cons] at hn
            obtain ⟨inner, after, rfl, hinner, rfl⟩ := ih rest.length (by omega) h hseen rfl
            refine ⟨.group body :: inner, after, ?_, ?_, rfl⟩
            · simp [Piece.text]
            · intro piece hpiece
              rcases List.mem_cons.mp hpiece with rfl | hpiece
              · exact ⟨hshort, hdropped⟩
              · exact hinner piece hpiece
          · rw [hshown, List.cons_append] at h
            exact absurd h.symm (hhead _)
        · rw [filtered_unfinished valid hshort] at h
          simp at h
        · rw [filtered_raw valid hclosed hopen] at h
          exact absurd h.symm (hhead _)
      · rw [filtered_cons valid hc] at h
        cases seen with
        | nil =>
          obtain ⟨rfl, -⟩ := List.cons.inj h
          exact ⟨[], t, rfl, fun _ hpiece => absurd hpiece List.not_mem_nil, rfl⟩
        | cons d seen =>
          rw [List.cons_append] at h
          obtain ⟨rfl, hrest⟩ := List.cons.inj h
          obtain ⟨inner, after, rfl, hinner, rfl⟩ := ih t.length (by omega) hrest
            (fun e he => hseen e (List.mem_cons_of_mem _ he)) rfl
          refine ⟨.char c :: inner, after, rfl, ?_, rfl⟩
          intro piece hpiece
          rcases List.mem_cons.mp hpiece with rfl | hpiece
          · exact hseen c (List.mem_cons_self ..)
          · exact hinner piece hpiece

/-- Vanishing pieces up to a closing bracket leave their characters. -/
theorem filtered_flatMap {inner : List Piece} (after : Text)
    (hinner : ∀ piece ∈ inner, piece.Vanishing digits valid) :
    filtered digits valid (inner.flatMap Piece.text ++ ']' :: after) =
      inner.flatMap Piece.shown ++ ']' :: filtered digits valid after := by
  induction inner with
  | nil => exact filtered_cons valid (by decide) after
  | cons piece inner ih =>
    have hrest := ih fun p hp => hinner p (List.mem_cons_of_mem _ hp)
    have hpiece := hinner piece (List.mem_cons_self ..)
    cases piece with
    | char c =>
      rw [List.flatMap_cons, Piece.text, List.append_assoc, List.singleton_append,
        filtered_cons valid (ne_bracket_of_cites hpiece).1, hrest]
      rfl
    | group body =>
      obtain ⟨hshort, hdropped⟩ := hpiece
      have hsplit : (Piece.group body :: inner).flatMap Piece.text ++ ']' :: after =
          '[' :: body ++ ']' :: (inner.flatMap Piece.text ++ ']' :: after) := by
        simp [Piece.text]
      rw [hsplit, filtered_short valid hshort, hdropped, hrest]
      rfl

/-- What stands before an opening bracket and after a text without one comes after the mark that
ends that text. -/
theorem split_before_open {a b s t : Text} (hb : '[' ∉ b) (h : a ++ '[' :: s = b ++ ']' :: t) :
    ∃ c, a = b ++ ']' :: c ∧ t = c ++ '[' :: s := by
  rcases List.append_eq_append_iff.mp h with ⟨c, rfl, hc⟩ | ⟨c, rfl, hc⟩
  · cases c with
    | nil => simp at hc
    | cons y c =>
      obtain ⟨rfl, -⟩ := List.cons.inj hc
      simp at hb
  · cases c with
    | nil => simp at hc
    | cons y c =>
      obtain ⟨rfl, rfl⟩ := List.cons.inj hc
      exact ⟨c, rfl, rfl⟩

theorem not_mem_of_short {body : Text} (h : Short digits body) : '[' ∉ body ∧ ']' ∉ body :=
  ⟨fun hmem => (ne_bracket_of_cites (h.1 _ hmem)).1 rfl,
    fun hmem => (ne_bracket_of_cites (h.1 _ hmem)).2 rfl⟩

/-- A citation that was not in the text comes from brackets with vanishing pieces between them. -/
theorem split_of_invented {t pre seen post : Text}
    (h : filtered digits valid t = pre ++ '[' :: seen ++ ']' :: post)
    (hseen : ∀ c ∈ seen, cites digits c = true)
    (hinvented : Invented digits valid ('[' :: seen ++ [']'])) :
    ∃ (before : Text) (inner : List Piece) (after : Text),
      t = before ++ '[' :: inner.flatMap Piece.text ++ ']' :: after ∧
      (∀ piece ∈ inner, piece.Vanishing digits valid) ∧
      ¬Short digits (inner.flatMap Piece.text) ∧ inner.flatMap Piece.shown = seen := by
  induction hn : t.length using Nat.strong_induction_on generalizing t pre with
  | _ n ih =>
    cases t with
    | nil => simp at h
    | cons c t =>
      rw [List.length_cons] at hn
      by_cases hc : c = '['
      · subst hc
        rcases open_cases digits t with ⟨body, rest, rfl, hshort⟩ | hshort | ⟨hclosed, hopen⟩
        · rw [List.length_append, List.length_cons] at hn
          -- the rest of the output is searched, with the citation before it put back
          have hgo : ∀ pre', filtered digits valid rest = pre' ++ '[' :: seen ++ ']' :: post →
              ∃ (before : Text) (inner : List Piece) (after : Text),
                '[' :: (body ++ ']' :: rest) =
                  before ++ '[' :: inner.flatMap Piece.text ++ ']' :: after ∧
                (∀ piece ∈ inner, piece.Vanishing digits valid) ∧
                ¬Short digits (inner.flatMap Piece.text) ∧
                inner.flatMap Piece.shown = seen := by
            intro pre' hrest
            obtain ⟨before, inner, after, rfl, hinner⟩ := ih rest.length (by omega) hrest rfl
            exact ⟨'[' :: body ++ ']' :: before, inner, after, by simp, hinner⟩
          rw [← List.cons_append, filtered_short valid hshort] at h
          rcases resolve_cases valid hshort with
            hdropped | ⟨shown, hshown, hbrackets, hsound⟩
          · rw [hdropped, List.nil_append] at h
            exact hgo pre h
          · rw [hshown] at h
            have hnoOpen : '[' ∉ shown := fun hmem => (hbrackets _ hmem).1 rfl
            have hnoClose : ']' ∉ shown := fun hmem => (hbrackets _ hmem).2 rfl
            cases pre with
            | nil =>
              have hsame : shown ++ ']' :: filtered digits valid rest = seen ++ ']' :: post := by
                simpa using h
              have hnone : ']' ∉ seen := fun hmem => (ne_bracket_of_cites (hseen _ hmem)).2 rfl
              obtain ⟨rfl, -⟩ := append_cons_inj hnoClose hnone hsame
              exact absurd hinvented hsound
            | cons d pre =>
              have hsame : d = '[' ∧ pre ++ '[' :: (seen ++ ']' :: post) =
                  shown ++ ']' :: filtered digits valid rest := by
                simpa [eq_comm] using h
              obtain ⟨pre', -, hrest⟩ := split_before_open hnoOpen hsame.2
              exact hgo pre' (by rw [hrest, List.append_assoc, List.cons_append])
        · rw [filtered_unfinished valid hshort] at h
          simp at h
        · rw [filtered_raw valid hclosed hopen] at h
          cases pre with
          | nil =>
            have hfound : filtered digits valid t = seen ++ ']' :: post := by simpa using h
            obtain ⟨inner, after, rfl, hinner, hshown⟩ := vanishing_of_filtered hfound hseen
            exact ⟨[], inner, after, rfl, hinner, hclosed _ _ rfl, hshown⟩
          | cons d pre =>
            have hrest : filtered digits valid t = pre ++ '[' :: seen ++ ']' :: post := by
              simpa using (List.cons.inj h).2
            obtain ⟨before, inner, after, rfl, hinner⟩ := ih t.length (by omega) hrest rfl
            exact ⟨'[' :: before, inner, after, by simp, hinner⟩
      · rw [filtered_cons valid hc] at h
        cases pre with
        | nil => exact absurd (List.cons.inj h).1 hc
        | cons d pre =>
          have hrest : filtered digits valid t = pre ++ '[' :: seen ++ ']' :: post := by
            simpa using (List.cons.inj h).2
          obtain ⟨before, inner, after, rfl, hinner⟩ := ih t.length (by omega) hrest rfl
          exact ⟨c :: before, inner, after, by simp, hinner⟩

/-- Vanishing pieces open every bracket that they close. -/
theorem not_closed_first {inner : List Piece} {body rest : Text}
    (hinner : ∀ piece ∈ inner, piece.Vanishing digits valid) (hbody : '[' ∉ body) :
    inner.flatMap Piece.text ≠ body ++ ']' :: rest := by
  intro h
  induction inner generalizing body with
  | nil => simp at h
  | cons piece inner ih =>
    have hpiece := hinner piece (List.mem_cons_self ..)
    cases piece with
    | char c =>
      rw [List.flatMap_cons, Piece.text, List.singleton_append] at h
      cases body with
      | nil => exact (ne_bracket_of_cites hpiece).2 (List.cons.inj h).1
      | cons d body =>
        exact ih (fun p hp => hinner p (List.mem_cons_of_mem _ hp))
          (fun hmem => hbody (List.mem_cons_of_mem _ hmem)) (List.cons.inj h).2
    | group inside =>
      rw [List.flatMap_cons, Piece.text, List.cons_append] at h
      cases body with
      | nil => cases h
      | cons d body =>
        obtain ⟨rfl, -⟩ := List.cons.inj h
        exact hbody (List.mem_cons_self ..)

/-- Brackets with vanishing pieces between them, other than a short citation, leave a citation of
the characters between them. -/
theorem filtered_of_split {inner : List Piece} (before after : Text)
    (hinner : ∀ piece ∈ inner, piece.Vanishing digits valid)
    (hlong : ¬Short digits (inner.flatMap Piece.text)) : ∃ pre post,
      filtered digits valid (before ++ '[' :: inner.flatMap Piece.text ++ ']' :: after) =
        pre ++ '[' :: inner.flatMap Piece.shown ++ ']' :: post := by
  induction hn : before.length using Nat.strong_induction_on generalizing before with
  | _ n ih =>
    cases before with
    | nil =>
      refine ⟨[], filtered digits valid after, ?_⟩
      rw [List.nil_append, List.nil_append, List.cons_append, List.cons_append, filtered_raw,
        filtered_flatMap after hinner]
      · intro body rest heq hshort
        rcases List.append_eq_append_iff.mp heq with ⟨c, rfl, -⟩ | ⟨c, hc, hrest⟩
        · exact hlong hshort.left
        · cases c with
          | nil => exact hlong (by simpa [hc] using hshort)
          | cons d c =>
            obtain ⟨rfl, -⟩ := List.cons.inj hrest
            exact not_closed_first hinner (not_mem_of_short hshort).1 hc
      · exact fun hshort => (not_mem_of_short hshort).2 (by simp)
    | cons c before =>
      rw [List.length_cons] at hn
      by_cases hc : c = '['
      · subst hc
        generalize htext : before ++ '[' :: inner.flatMap Piece.text ++ ']' :: after = t
        have hopenText : before ++ '[' :: (inner.flatMap Piece.text ++ ']' :: after) = t := by
          rw [← htext, List.append_assoc, List.cons_append]
        rw [List.cons_append, List.cons_append, htext]
        rcases open_cases digits t with ⟨body, rest, rfl, hshort⟩ | hshort | ⟨hclosed, hopen⟩
        · obtain ⟨before', rfl, rfl⟩ := split_before_open (not_mem_of_short hshort).1 hopenText
          rw [List.length_append, List.length_cons] at hn
          obtain ⟨pre, post, hout⟩ := ih before'.length (by omega) before' rfl
          rw [List.append_assoc, List.cons_append] at hout
          refine ⟨resolve digits valid ('[' :: body ++ [']']) ++ pre, post, ?_⟩
          rw [← List.cons_append, filtered_short valid hshort, hout]
          simp
        · exact absurd (hopenText ▸ List.mem_append_right _ (List.mem_cons_self ..))
            (not_mem_of_short hshort).1
        · obtain ⟨pre, post, hout⟩ := ih before.length (by omega) before rfl
          refine ⟨'[' :: pre, post, ?_⟩
          rw [filtered_raw valid hclosed hopen, ← htext, hout]
          simp
      · obtain ⟨pre, post, hout⟩ := ih before.length (by omega) before rfl
        refine ⟨c :: pre, post, ?_⟩
        rw [List.cons_append, List.cons_append, filtered_cons valid hc, hout]
        simp

/-- Over a stream of tokens the filter emits no invented citation exactly when the text that the
tokens make up is sound. -/
theorem noneInvented_iff (digits : Digits) (valid : List Nat) (pieces : List Text) :
    (∀ group, group <:+: (feedAll digits ⟨valid, []⟩ pieces).1 → ¬Invented digits valid group) ↔
      Sound digits valid pieces.flatten := by
  rw [feedAll_eq]
  constructor
  · rintro h before inner after htext hinner hlong hinvented
    obtain ⟨pre, post, hout⟩ := filtered_of_split before after hinner hlong
    refine h _ ⟨pre, post, ?_⟩ hinvented
    rw [htext, ← filtered, hout]
    simp
  · rintro h group ⟨pre, post, hout⟩ hinvented
    obtain ⟨seen, hseen, rfl⟩ := hinvented.1
    have hfound : filtered digits valid pieces.flatten = pre ++ '[' :: seen ++ ']' :: post := by
      rw [filtered, ← hout]
      simp
    obtain ⟨before, inner, after, htext, hinner, hlong, rfl⟩ :=
      split_of_invented hfound hseen hinvented
    exact h before inner after htext hinner hlong hinvented

/-- The digits of ASCII. -/
def asciiDigits : Digits where
  isdigit := Char.isDigit
  decimal := digitValue
  isdigit_of_decimal c n h := by
    unfold digitValue at h
    split_ifs at h with hc
    exact hc
  isdigit_ascii _ _ := rfl

/-- Dropping the inner citation of `[[9]9]` makes its outer brackets one. -/
theorem invented_nested : ¬∀ group,
    group <:+: (feedAll asciiDigits ⟨[1], []⟩ ["[[9]".toList, "9]".toList]).1 →
      ¬Invented asciiDigits [1] group := by
  intro h
  refine h "[9]".toList ⟨[], [], ?_⟩ ⟨⟨['9'], List.forall_mem_singleton.mpr ?_, ?_⟩, ['9'], ?_, ?_⟩
  all_goals decide +kernel

end

/-!
## The filter takes nothing from a sound stream

However the answer is cut into tokens the filter emits the same text. When no citation of the
text has a number that is not valid, what it emits and what it still holds back are the text.
-/

section

variable {digits : Digits} {valid : List Nat}

/-- A citation with valid numbers only is left as it is written. -/
theorem resolve_of_not_invented {body : Text} (hbody : ∀ c ∈ body, cites digits c = true)
    (h : ¬Invented digits valid ('[' :: body ++ [']'])) :
    resolve digits valid ('[' :: body ++ [']']) = '[' :: body ++ [']'] := by
  have hkept : ∀ run ∈ numbers digits ('[' :: body ++ [']']), intOf digits run ∈ valid := by
    intro run hrun
    by_contra hinvalid
    exact h ⟨⟨body, hbody, rfl⟩, run, hrun, hinvalid⟩
  have hall := List.length_filter_eq_length_iff.mpr fun run hrun => decide_eq_true (hkept run hrun)
  unfold resolve
  simp only [hall, ite_self, ↓reduceIte]

/-- The citations of a part are citations of the whole. -/
theorem not_invented_of_part {part text : Text} (hpart : part <:+: text)
    (h : ∀ group, group <:+: text → ¬Invented digits valid group) :
    ∀ group, group <:+: part → ¬Invented digits valid group :=
  fun group hgroup => h group (hgroup.trans hpart)

/-- A text without invented citations is emitted up to the unfinished citation at its end. -/
theorem feed_lossless (t : Text) (h : ∀ group, group <:+: t → ¬Invented digits valid group) :
    (feed digits ⟨valid, []⟩ t).1 ++ (feed digits ⟨valid, []⟩ t).2.pending = t := by
  induction hn : t.length using Nat.strong_induction_on generalizing t with
  | _ n ih =>
    cases t with
    | nil => rfl
    | cons c t =>
      rw [List.length_cons] at hn
      by_cases hc : c = '['
      · subst hc
        have hheld : feed digits ⟨valid, []⟩ ('[' :: t) = feed digits ⟨valid, ['[']⟩ t := by
          simp [feed, feedChar]
        rw [hheld]
        rcases open_cases digits t with ⟨body, rest, rfl, hshort⟩ | hshort | ⟨hclosed, hopen⟩
        · -- a citation that is resolved, and left as it is
          have hgroup : '[' :: body ++ [']'] <:+: '[' :: (body ++ ']' :: rest) :=
            ⟨[], rest, by simp⟩
          have hrest : rest <:+: '[' :: (body ++ ']' :: rest) :=
            ⟨'[' :: body ++ [']'], [], by simp⟩
          have htail := ih rest.length (by rw [← hn, List.length_append, List.length_cons]; omega)
            rest (not_invented_of_part hrest h) rfl
          rw [feed_short valid rest (q := []) hshort, List.nil_append,
            resolve_of_not_invented hshort.1 (h _ hgroup), List.append_assoc, htail]
          simp
        · rw [feed_unfinished valid (q := []) hshort]
          rfl
        · -- a bracket that is no citation passes through
          have hnil : Short digits [] := ⟨fun _ h => absurd h List.not_mem_nil, by decide⟩
          have htail := ih t.length (by omega) t
            (not_invented_of_part (List.suffix_cons ..).isInfix h) rfl
          rw [feed_raw valid hnil hclosed hopen]
          simp only [List.cons_append, List.nil_append, htail]
      · have htail := ih t.length (by omega) t
          (not_invented_of_part (List.suffix_cons ..).isInfix h) rfl
        simp only [feed, feedChar, hc, ne_eq, not_true_eq_false, ↓reduceIte, List.cons_append,
          List.nil_append, htail]

/-- The filter emits the same for every cutting of a text into tokens, and loses nothing of a
text whose complete citations have valid numbers only. -/
theorem feedAll_lossless (digits : Digits) (valid : List Nat) (pieces others : List Text)
    (hsame : pieces.flatten = others.flatten) :
    (feedAll digits ⟨valid, []⟩ pieces).1 = (feedAll digits ⟨valid, []⟩ others).1 ∧
      ((∀ group, group <:+: pieces.flatten → ¬Invented digits valid group) →
        (feedAll digits ⟨valid, []⟩ pieces).1 ++
          (feedAll digits ⟨valid, []⟩ pieces).2.pending = pieces.flatten) := by
  rw [feedAll_eq, feedAll_eq, ← hsame]
  exact ⟨rfl, feed_lossless pieces.flatten⟩

/-- `[1] [2` in two cuttings. -/
theorem feedAll_lossless_cut :
    (feedAll asciiDigits ⟨[1], []⟩ ["[1".toList, "] [2".toList]).1 =
        (feedAll asciiDigits ⟨[1], []⟩ ["[".toList, "1] [".toList, "2".toList]).1 ∧
      ((∀ group, group <:+: ["[1".toList, "] [2".toList].flatten →
          ¬Invented asciiDigits [1] group) →
        (feedAll asciiDigits ⟨[1], []⟩ ["[1".toList, "] [2".toList]).1 ++
          (feedAll asciiDigits ⟨[1], []⟩ ["[1".toList, "] [2".toList]).2.pending =
            ["[1".toList, "] [2".toList].flatten) :=
  feedAll_lossless asciiDigits [1] ["[1".toList, "] [2".toList]
    ["[".toList, "1] [".toList, "2".toList] (by decide)

end

end Maeglagi.Answer
