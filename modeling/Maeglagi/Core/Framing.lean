import Mathlib.Data.List.Chain

/-!
# Frames between doubled marks

A stream is split where a mark stands twice; what follows the last such place is the tail.
However the stream is cut into chunks, splitting each chunk after the tail of the ones before
gives the frames of the whole stream.
-/

namespace Maeglagi.Core

variable {α : Type} [DecidableEq α]

/-- A letter before the first frame, or before the tail if there is none. -/
def putFirst (a : α) : List (List α) × List α → List (List α) × List α
  | ([], tail) => ([], a :: tail)
  | (frame :: frames, tail) => ((a :: frame) :: frames, tail)

/-- The frames of a stream that are ended by a doubled mark, and its tail. -/
def splitFrames (mark : α) : List α → List (List α) × List α
  | [] => ([], [])
  | [a] => ([], [a])
  | a :: b :: rest =>
    if a = mark ∧ b = mark then ([] :: (splitFrames mark rest).1, (splitFrames mark rest).2)
    else putFirst a (splitFrames mark (b :: rest))

/-- A stream without frames is its tail. -/
theorem tail_of_no_frames {mark : α} {s : List α} (h : (splitFrames mark s).1 = []) :
    (splitFrames mark s).2 = s := by
  induction s using splitFrames.induct mark with
  | case1 => rfl
  | case2 a => rfl
  | case3 a b rest hmark ih =>
    rw [splitFrames, if_pos hmark] at h
    cases h
  | case4 a b rest hmark ih =>
    rw [splitFrames, if_neg hmark] at h ⊢
    cases hsplit : splitFrames mark (b :: rest) with
    | mk frames tail =>
      rw [hsplit] at h ih
      cases frames with
      | nil => exact congrArg (a :: ·) (ih rfl)
      | cons frame frames => cases h

/-- The tail is made of letters of the stream. -/
theorem mem_of_mem_tail {mark c : α} {s : List α} (h : c ∈ (splitFrames mark s).2) : c ∈ s := by
  induction s using splitFrames.induct mark with
  | case1 => exact h
  | case2 a => exact h
  | case3 a b rest hmark ih =>
    rw [splitFrames, if_pos hmark] at h
    exact List.mem_cons_of_mem _ (List.mem_cons_of_mem _ (ih h))
  | case4 a b rest hmark ih =>
    rw [splitFrames, if_neg hmark] at h
    cases hsplit : splitFrames mark (b :: rest) with
    | mk frames tail =>
      rw [hsplit] at h ih
      cases frames with
      | nil =>
        rcases List.mem_cons.mp h with rfl | h
        · exact List.mem_cons_self ..
        · exact List.mem_cons_of_mem _ (ih h)
      | cons frame frames => exact List.mem_cons_of_mem _ (ih h)

/-- A stream has no frames when no mark stands twice. -/
theorem no_frames_of_isChain {mark : α} {s : List α}
    (h : s.IsChain fun a b => ¬(a = mark ∧ b = mark)) : (splitFrames mark s).1 = [] := by
  induction s using splitFrames.induct mark with
  | case1 => rfl
  | case2 a => rfl
  | case3 a b rest hmark ih => exact absurd hmark (List.isChain_cons_cons.mp h).1
  | case4 a b rest hmark ih =>
    rw [splitFrames, if_neg hmark]
    cases hsplit : splitFrames mark (b :: rest) with
    | mk frames tail =>
      have hframes := ih (List.isChain_cons_cons.mp h).2
      rw [hsplit] at hframes
      obtain rfl : frames = [] := hframes
      rfl

/-- A stream without marks has no frames. -/
theorem no_frames_of_notMem {mark : α} {s : List α} (h : mark ∉ s) :
    (splitFrames mark s).1 = [] := by
  refine no_frames_of_isChain (List.isChain_iff_getElem.mpr fun i hi hmark => h ?_)
  rw [← hmark.1]
  exact List.getElem_mem _

/-- One mark between letters that are none makes no frame. -/
theorem no_frames_of_one_mark {mark : α} {s t : List α} (hs : mark ∉ s) (ht : mark ∉ t) :
    (splitFrames mark (s ++ mark :: t)).1 = [] := by
  have hplain : ∀ {l : List α}, mark ∉ l → l.IsChain fun a b => ¬(a = mark ∧ b = mark) := fun h =>
    List.isChain_iff_getElem.mpr fun i hi hmark => h (hmark.1 ▸ List.getElem_mem _)
  refine no_frames_of_isChain (List.isChain_append.mpr ⟨hplain hs, ?_, ?_⟩)
  · refine List.isChain_cons.mpr ⟨fun b hb hmark => ht ?_, hplain ht⟩
    exact hmark.2 ▸ List.mem_of_mem_head? hb
  · intro a ha b hb hmark
    exact hs (hmark.1 ▸ List.mem_of_mem_getLast? ha)

/-- Splitting goes on after the tail of a part. -/
theorem splitFrames_append (mark : α) (s t : List α) :
    splitFrames mark (s ++ t) =
      ((splitFrames mark s).1 ++ (splitFrames mark ((splitFrames mark s).2 ++ t)).1,
        (splitFrames mark ((splitFrames mark s).2 ++ t)).2) := by
  induction s using splitFrames.induct mark with
  | case1 => rfl
  | case2 a => rfl
  | case3 a b rest hmark ih =>
    simp only [List.cons_append, splitFrames, if_pos hmark, ih]
  | case4 a b rest hmark ih =>
    cases hframes : (splitFrames mark (a :: b :: rest)).1 with
    | nil => rw [tail_of_no_frames hframes, List.nil_append]
    | cons frame frames =>
      rw [splitFrames, if_neg hmark] at hframes
      simp only [List.cons_append] at ih ⊢
      rw [splitFrames, if_neg hmark, ih, splitFrames, if_neg hmark]
      cases hsplit : splitFrames mark (b :: rest) with
      | mk frames' tail =>
        rw [hsplit] at hframes
        cases frames' with
        | nil => cases hframes
        | cons frame' frames' =>
          obtain ⟨rfl, rfl⟩ := List.cons.inj hframes
          rfl

/-- A mark does not stand twice in the text before the end of a frame. -/
theorem splitFrames_frame {mark : α} {frame : List α} (hlast : ∀ a ∈ frame.getLast?, a ≠ mark)
    (hframe : (splitFrames mark frame).1 = []) (rest : List α) :
    splitFrames mark (frame ++ mark :: mark :: rest) =
      (frame :: (splitFrames mark rest).1, (splitFrames mark rest).2) := by
  induction frame using splitFrames.induct mark with
  | case1 => rw [List.nil_append, splitFrames, if_pos ⟨rfl, rfl⟩]
  | case2 a =>
    have ha : a ≠ mark := hlast a rfl
    rw [List.singleton_append, splitFrames, if_neg fun h => ha h.1, splitFrames,
      if_pos ⟨rfl, rfl⟩]
    rfl
  | case3 a b frame hmark ih =>
    rw [splitFrames, if_pos hmark] at hframe
    cases hframe
  | case4 a b frame hmark ih =>
    have hrest : (splitFrames mark (b :: frame)).1 = [] := by
      rw [splitFrames, if_neg hmark] at hframe
      cases hsplit : splitFrames mark (b :: frame) with
      | mk frames tail =>
        rw [hsplit] at hframe
        cases frames with
        | nil => rfl
        | cons f fs => cases hframe
    have htail := ih (by simpa using hlast) hrest
    simp only [List.cons_append] at htail ⊢
    rw [splitFrames, if_neg hmark, htail]
    rfl

end Maeglagi.Core
