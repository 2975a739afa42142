import Mathlib.Data.Nat.Digits.Defs
import Maeglagi.Sources.Attempt

/-!
# Transcriptions as they are stored

A provider's answer is stored without a check. Where it stays within the limits that reviews
are read under, its utterances pass the check and are left as they are.
-/

namespace Maeglagi

open Core

/-- The segments with words in them. -/
def TranscriptionBody.spoken (body : TranscriptionBody) : List SegmentBody :=
  body.segments.filter fun item => decide (strip item.text ≠ [])

/-- The segment is within the limits of a review: not too long, from zero on, in order. -/
def SegmentBody.Legible (item : SegmentBody) : Prop :=
  (strip item.text).length ≤ 10000 ∧ 0 ≤ item.start.getD 0 ∧
    item.start.getD 0 ≤ item.finish.getD (item.start.getD 0)

/-- The answer is within the limits of a review; an id of 80 characters has room for 73
digits. -/
structure TranscriptionBody.Legible (body : TranscriptionBody) : Prop where
  whole : body.spoken = [] → (strip body.text).length ≤ 10000
  segments : ∀ item ∈ body.spoken, item.Legible
  numbered : body.spoken.length ≤ 10 ^ 73

section
variable {Id : Type}

/-- The id under which the segment of a number is stored. -/
theorem numbered_injective : Function.Injective fun i : Nat =>
    "server-".toList ++ Nat.toDigits 10 i := by
  intro i j h
  have hdigits : Nat.toDigits 10 i = Nat.toDigits 10 j := List.append_cancel_left h
  rw [← Nat.ofDigitChars_ten_toDigits (n := i), hdigits, Nat.ofDigitChars_ten_toDigits]

theorem isSpace_of_isDigit {c : Char} (h : c.isDigit = true) : isSpace c = false := by
  have hrange : 48 ≤ c.toNat ∧ c.toNat ≤ 57 := by
    simpa [Char.isDigit, UInt32.le_iff_toNat_le] using h
  simp only [isSpace, Bool.or_eq_false_iff, Bool.and_eq_false_iff, decide_eq_false_iff_not]
  omega

/-- A text that starts with a letter and ends with a number has nothing to strip. -/
theorem strip_append_digits {c : Char} {rest : Text} (hc : isSpace c = false) (i : Nat) :
    strip (c :: rest ++ Nat.toDigits 10 i) = c :: rest ++ Nat.toDigits 10 i := by
  apply strip_eq_self
  · intro d hd
    cases hd
    exact hc
  · intro d hd
    rw [List.getLast?_append_of_ne_nil _ Nat.toDigits_ne_nil] at hd
    exact isSpace_of_isDigit
      (Nat.isDigit_of_mem_toDigits (by decide) (by decide) (List.mem_of_mem_getLast? hd))

theorem strip_numbered (i : Nat) :
    strip ("server-".toList ++ Nat.toDigits 10 i) = "server-".toList ++ Nat.toDigits 10 i :=
  strip_append_digits (by decide) i

/-- An utterance under a numbered id and the default speaker is clean within the limits. -/
theorem clean_numbered {i : Nat} {text : Text} {start finish : Rat} (hi : i < 10 ^ 73)
    (htext : (strip text).length ≤ 10000) (hstart : 0 ≤ start) (hfinish : start ≤ finish) :
    Utterance.Clean (⟨"server-".toList ++ Nat.toDigits 10 i, none, defaultSpeaker, strip text,
      some start, some finish⟩ : Utterance Id) := by
  have hdigits := (Nat.length_toDigits_le_iff (b := 10) (by omega) (by omega)).mpr hi
  have hspeaker : strip defaultSpeaker = defaultSpeaker := by decide
  have hstripped : (⟨"server-".toList ++ Nat.toDigits 10 i, none, defaultSpeaker, strip text,
      some start, some finish⟩ : Utterance Id).stripped = ⟨"server-".toList ++ Nat.toDigits 10 i,
        none, defaultSpeaker, strip text, some start, some finish⟩ := by
    simp only [Utterance.stripped, strip_numbered, strip_strip, hspeaker]
  refine modelValidate_eq_ok.mpr ⟨?_, ?_, ?_, ?_, hstripped⟩
  · have hid : ("server-".toList ++ Nat.toDigits 10 i).length ≤ 80 := by
      rw [List.length_append]
      exact Nat.add_le_add (by decide : "server-".toList.length ≤ 7) hdigits
    have hname : 1 ≤ defaultSpeaker.length ∧ defaultSpeaker.length ≤ 120 := by decide
    simp only [Utterance.withinLimits, Bool.and_eq_true, decide_eq_true_eq, Option.all_some]
    exact ⟨⟨⟨⟨⟨⟨Nat.le_add_left 1 _, hid⟩, hname.1⟩, hname.2⟩, htext⟩, hstart⟩,
      hstart.trans hfinish⟩
  · rw [hstripped]
    rintro ⟨⟩
  · rw [hstripped]
    exact (by decide : defaultSpeaker ≠ [])
  · simpa [Utterance.reversed] using hfinish

/-- A segment as the adapter reads it. -/
def SegmentBody.read (item : SegmentBody) : TranscriptionSegment :=
  ⟨strip item.text, item.start.getD 0, item.finish.getD (item.start.getD 0), none⟩

theorem response_eq_some {body : TranscriptionBody} {response : TranscriptionResponse}
    (h : body.response = some response) :
    response = ⟨strip body.text, body.duration, body.spoken.map SegmentBody.read⟩ := by
  unfold TranscriptionBody.response at h
  split_ifs at h
  cases h
  rfl

variable (Id) in
/-- The utterances of a legible answer are clean and have ids of their own, one a segment. -/
theorem legible_utterances {body : TranscriptionBody} {response : TranscriptionResponse}
    (hlegible : body.Legible) (hresponse : body.response = some response)
    (hduration : ¬response.durationSeconds.any (fun d => decide (d < 0)) = true) :
    (∀ u ∈ (response.utterances : List (Utterance Id)), u.Clean) ∧
      ((response.utterances : List (Utterance Id)).map Utterance.id).Nodup ∧
      (response.utterances : List (Utterance Id)).length = max 1 body.spoken.length := by
  obtain rfl := response_eq_some hresponse
  cases hspoken : body.spoken with
  | nil =>
    refine ⟨?_, List.nodup_singleton _, rfl⟩
    intro u hu
    rw [TranscriptionResponse.utterances, List.map_nil, List.mem_singleton] at hu
    subst hu
    refine clean_numbered (i := 0) (by decide) (hlegible.whole hspoken) le_rfl ?_
    cases hd : body.duration with
    | none => exact le_rfl
    | some d => simpa [hd] using hduration
  | cons first rest =>
    have hutterances : (TranscriptionResponse.utterances
        ⟨strip body.text, body.duration, (first :: rest).map SegmentBody.read⟩ :
          List (Utterance Id)) =
        (first :: rest).mapIdx fun i item => ⟨"server-".toList ++ Nat.toDigits 10 i, none,
          defaultSpeaker, strip item.text, some (item.start.getD 0),
          some (item.finish.getD (item.start.getD 0))⟩ := by
      rw [TranscriptionResponse.utterances, List.map_cons]
      refine List.ext_getElem (by simp) fun i _ _ => ?_
      rw [List.getElem_mapIdx, List.getElem_mapIdx]
      cases i with
      | zero => rfl
      | succ i => simp [SegmentBody.read]
    rw [hutterances]
    refine ⟨?_, ?_, ?_⟩
    · intro u hu
      obtain ⟨i, hi, rfl⟩ := List.mem_mapIdx.mp hu
      have hitem : (first :: rest)[i] ∈ body.spoken := by
        rw [hspoken]
        exact List.getElem_mem hi
      obtain ⟨htext, hstart, hfinish⟩ := hlegible.segments _ hitem
      have hnumbered := hlegible.numbered
      rw [hspoken] at hnumbered
      exact clean_numbered (by omega) htext hstart hfinish
    · rw [List.Nodup, List.pairwise_iff_getElem]
      intro i j _ _ hlt heq
      simp only [List.getElem_map, List.getElem_mapIdx] at heq
      exact absurd (numbered_injective heq) hlt.ne
    · rw [List.length_mapIdx]
      simp

end

end Maeglagi
