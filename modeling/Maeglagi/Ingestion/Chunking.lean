import Mathlib.Data.List.Forall2
import Maeglagi.Core.Text
import Maeglagi.Temporal.Instant

/-!
# Chunks of a source

`CharacterOverlapChunker`: the text of each segment is cut into windows that overlap, and what is
left of a window without its outer white space is a chunk. The windows follow each other without
a gap, so that the chunks have all of the text but white space.
-/

namespace Maeglagi.Ingestion

open Core

/-- The fields of a `NormalizedSegment` that the chunker reads. -/
structure Segment where
  content : Text
  startSeconds : Option PyFloat
  endSeconds : Option PyFloat

/-- The fields of a `NormalizedSource` that the chunker reads. -/
structure NormalizedSource (Id : Type) where
  sourceId : Id
  segments : List Segment

/-- `SourceChunk` -/
structure SourceChunk (Id : Type) where
  sourceId : Id
  position : Nat
  content : Text
  startSeconds : Option PyFloat
  endSeconds : Option PyFloat

/-- `CharacterOverlapChunker` -/
structure CharacterOverlapChunker where
  size : Nat
  overlap : Nat
  size_pos : 0 < size
  overlap_lt : overlap < size

namespace CharacterOverlapChunker

/-- `CharacterOverlapChunker.__init__` -/
def new (size overlap : Int) : Except Text CharacterOverlapChunker :=
  if h : size < 1 ∨ overlap < 0 ∨ size ≤ overlap then
    .error "chunk size must be positive and overlap smaller than size".toList
  else .ok ⟨size.toNat, overlap.toNat, by omega, by omega⟩

/-- A chunker is one that the constructor accepts. -/
theorem new_eq_ok_iff {size overlap : Int} {chunker : CharacterOverlapChunker} :
    new size overlap = .ok chunker ↔ size = chunker.size ∧ overlap = chunker.overlap := by
  have hsize := chunker.size_pos
  have hoverlap := chunker.overlap_lt
  unfold new
  split_ifs with h
  · constructor
    · exact nofun
    · omega
  · constructor
    · intro heq
      cases heq
      exact ⟨(Int.toNat_of_nonneg (by omega)).symm, (Int.toNat_of_nonneg (by omega)).symm⟩
    · rintro ⟨rfl, rfl⟩
      rfl

/-- `content.rfind(" ", lo, hi)` -/
def rfindSpace (content : Text) (lo hi : Nat) : Option Nat :=
  ((List.range' lo (hi - lo)).filter fun i => content[i]? == some ' ').getLast?

/-- The end of the window that starts at a position: the last space in its second half, if there
is one and the window is not the last. -/
def windowEnd (chunker : CharacterOverlapChunker) (content : Text) (start : Nat) : Nat :=
  let stop := min (start + chunker.size) content.length
  if stop < content.length then
    match rfindSpace content (start + chunker.size / 2) stop with
    | some boundary => if start < boundary then boundary else stop
    | none => stop
  else stop

/-- `content[start:end].strip()` -/
def part (content : Text) (start stop : Nat) : Text := strip ((content.drop start).take (stop - start))

/-- The loop of `_split` from a start on. -/
def splitFrom (chunker : CharacterOverlapChunker) (content : Text) (start : Nat) : List Text :=
  if start < content.length then
    let stop := chunker.windowEnd content start
    let rest :=
      if content.length ≤ stop then []
      else splitFrom chunker content (max (stop - chunker.overlap) (start + 1))
    if part content start stop ≠ [] then part content start stop :: rest else rest
  else []
  termination_by content.length - start

/-- `_split` -/
def split (chunker : CharacterOverlapChunker) (content : Text) : List Text :=
  chunker.splitFrom (strip content) 0

/-- `chunks.append(SourceChunk(..))` -/
def push {Id : Type} (sourceId : Id) (segment : Segment) (chunks : List (SourceChunk Id))
    (content : Text) : List (SourceChunk Id) :=
  chunks ++ [⟨sourceId, chunks.length, content, segment.startSeconds, segment.endSeconds⟩]

/-- `CharacterOverlapChunker.chunk` -/
def chunk {Id : Type} (chunker : CharacterOverlapChunker) (source : NormalizedSource Id) :
    List (SourceChunk Id) :=
  source.segments.foldl (fun chunks segment =>
    (chunker.split segment.content).foldl (push source.sourceId segment) chunks) []

section windows

variable (chunker : CharacterOverlapChunker) {content : Text} {start : Nat}

theorem of_rfindSpace {lo hi i : Nat} (h : rfindSpace content lo hi = some i) :
    lo ≤ i ∧ i < hi ∧ content[i]? = some ' ' := by
  have hmem := List.mem_filter.mp (List.mem_of_getLast? h)
  obtain ⟨hlo, hhi⟩ := List.mem_range'_1.mp hmem.1
  exact ⟨hlo, by omega, eq_of_beq hmem.2⟩

/-- A window ends at a space in its second half, or has its full size, or ends the text. -/
theorem windowEnd_cases (content : Text) (start : Nat) :
    (start + chunker.size / 2 ≤ chunker.windowEnd content start ∧
      start < chunker.windowEnd content start ∧
      chunker.windowEnd content start < min (start + chunker.size) content.length) ∨
    chunker.windowEnd content start = min (start + chunker.size) content.length := by
  unfold windowEnd
  dsimp only
  split_ifs
  · cases hfind : rfindSpace content (start + chunker.size / 2)
      (min (start + chunker.size) content.length) with
    | none => exact .inr rfl
    | some boundary =>
      obtain ⟨hlo, hhi, -⟩ := of_rfindSpace hfind
      dsimp only
      split_ifs with hboundary
      · exact .inl ⟨hlo, hboundary, hhi⟩
      · exact .inr rfl
  · exact .inr rfl

/-- A window has at least one character and at most its size. -/
theorem windowEnd_bounds (hstart : start < content.length) :
    start < chunker.windowEnd content start ∧
      chunker.windowEnd content start ≤ start + chunker.size ∧
      chunker.windowEnd content start ≤ content.length := by
  have hsize := chunker.size_pos
  rcases windowEnd_cases chunker content start with h | h <;> omega

/-- The windows of the loop of `_split` from a start on. -/
def windowsFrom (chunker : CharacterOverlapChunker) (content : Text) (start : Nat) :
    List (Nat × Nat) :=
  if start < content.length then
    if content.length ≤ chunker.windowEnd content start then
      [(start, chunker.windowEnd content start)]
    else (start, chunker.windowEnd content start) :: windowsFrom chunker content
      (max (chunker.windowEnd content start - chunker.overlap) (start + 1))
  else []
  termination_by content.length - start

/-- The chunks are what is left of the windows that are not blank. -/
theorem splitFrom_eq (content : Text) (start : Nat) : chunker.splitFrom content start =
    ((chunker.windowsFrom content start).map fun window => part content window.1 window.2).filter
      fun part => decide (part ≠ []) := by
  induction start using windowsFrom.induct chunker content with
  | case1 start hstart hlast =>
    rw [splitFrom, windowsFrom, if_pos hstart, if_pos hstart]
    dsimp only
    rw [if_pos hlast, if_pos hlast]
    split_ifs with hpart <;> simp [hpart]
  | case2 start hstart hlast ih =>
    rw [splitFrom, windowsFrom, if_pos hstart, if_pos hstart]
    dsimp only
    rw [if_neg hlast, if_neg hlast, ih]
    split_ifs with hpart <;> simp [hpart]
  | case3 start hstart =>
    rw [splitFrom, windowsFrom, if_neg hstart, if_neg hstart]
    rfl

/-- The windows have no gap between them. -/
theorem exists_window {i : Nat} (hstart : start ≤ i) (hi : i < content.length) :
    ∃ window ∈ chunker.windowsFrom content start, window.1 ≤ i ∧ i < window.2 := by
  induction start using windowsFrom.induct chunker content with
  | case1 start hlt hlast =>
    rw [windowsFrom, if_pos hlt, if_pos hlast]
    exact ⟨_, List.mem_cons_self .., hstart, Nat.lt_of_lt_of_le hi hlast⟩
  | case2 start hlt hlast ih =>
    rw [windowsFrom, if_pos hlt, if_neg hlast]
    by_cases hin : i < chunker.windowEnd content start
    · exact ⟨_, List.mem_cons_self .., hstart, hin⟩
    · have hbounds := windowEnd_bounds chunker hlt
      obtain ⟨window, hmem, hwindow⟩ := ih (by omega)
      exact ⟨window, List.mem_cons_of_mem _ hmem, hwindow⟩
  | case3 start hlt => omega

theorem of_mem_windowsFrom {window : Nat × Nat} (h : window ∈ chunker.windowsFrom content start) :
    start ≤ window.1 ∧ window.1 < content.length ∧
      window.2 = chunker.windowEnd content window.1 := by
  induction start using windowsFrom.induct chunker content with
  | case1 start hlt hlast =>
    rw [windowsFrom, if_pos hlt, if_pos hlast, List.mem_singleton] at h
    subst h
    exact ⟨Nat.le_refl _, hlt, rfl⟩
  | case2 start hlt hlast ih =>
    rw [windowsFrom, if_pos hlt, if_neg hlast] at h
    rcases List.mem_cons.mp h with rfl | h
    · exact ⟨Nat.le_refl _, hlt, rfl⟩
    · obtain ⟨hstart, hrest⟩ := ih h
      exact ⟨by omega, hrest⟩
  | case3 start hlt =>
    rw [windowsFrom, if_neg hlt] at h
    cases h

/-- A window is within the text and has at most the size of the chunker. -/
theorem bounds_of_mem_windowsFrom {window : Nat × Nat}
    (h : window ∈ chunker.windowsFrom content start) :
    start ≤ window.1 ∧ window.1 < window.2 ∧ window.2 ≤ window.1 + chunker.size ∧
      window.2 ≤ content.length := by
  obtain ⟨hstart, hlt, hend⟩ := of_mem_windowsFrom chunker h
  rw [hend]
  exact ⟨hstart, windowEnd_bounds chunker hlt⟩

/-- The windows start one after the other. -/
theorem pairwise_windowsFrom (content : Text) (start : Nat) :
    (chunker.windowsFrom content start).Pairwise fun window window' => window.1 < window'.1 := by
  induction start using windowsFrom.induct chunker content with
  | case1 start hlt hlast =>
    rw [windowsFrom, if_pos hlt, if_pos hlast]
    exact List.pairwise_singleton ..
  | case2 start hlt hlast ih =>
    rw [windowsFrom, if_pos hlt, if_neg hlast, List.pairwise_cons]
    refine ⟨fun window hwindow => ?_, ih⟩
    have hbounds := bounds_of_mem_windowsFrom chunker hwindow
    show start < window.1
    omega
  | case3 start hlt =>
    rw [windowsFrom, if_neg hlt]
    exact List.Pairwise.nil

end windows

/-- There is a character other than white space at the position. -/
def Solid (content : Text) (i : Nat) : Prop := ∃ c, content[i]? = some c ∧ isSpace c = false

theorem solid_append_left {a b : Text} {i : Nat} (hi : i < a.length) :
    Solid (a ++ b) i ↔ Solid a i := by
  unfold Solid
  rw [List.getElem?_append_left hi]

theorem solid_append_right {a b : Text} {i : Nat} (hi : a.length ≤ i) :
    Solid (a ++ b) i ↔ Solid b (i - a.length) := by
  unfold Solid
  rw [List.getElem?_append_right hi]

theorem not_solid {t : Text} (h : ∀ c ∈ t, isSpace c = true) (i : Nat) : ¬Solid t i := by
  rintro ⟨c, hc, hspace⟩
  rw [h c (List.mem_of_getElem? hc)] at hspace
  cases hspace

theorem Solid.lt_length {content : Text} {i : Nat} (h : Solid content i) : i < content.length := by
  obtain ⟨c, hc, -⟩ := h
  exact (List.getElem?_eq_some_iff.mp hc).1

/-- A part stands in the text at a place from `start` to `stop`, with white space around it. -/
structure PartAt (content part : Text) (start stop p : Nat) : Prop where
  reads : part <+: content.drop p
  start_le : start ≤ p
  le_stop : p + part.length ≤ stop
  solid : part ≠ [] → Solid content p
  all : ∀ i, start ≤ i → i < stop → Solid content i → p ≤ i ∧ i < p + part.length

theorem partAt_append {lead text trail : Text} (front back : Text)
    (hlead : ∀ c ∈ lead, isSpace c = true) (htrail : ∀ c ∈ trail, isSpace c = true)
    (hhead : ∀ c ∈ text.head?, isSpace c = false) :
    PartAt (front ++ lead ++ (text ++ (trail ++ back))) text front.length
      (front.length + lead.length + text.length + trail.length) (front.length + lead.length) := by
  have hbefore : (front ++ lead).length = front.length + lead.length := List.length_append
  refine ⟨?_, Nat.le_add_right .., Nat.le_add_right .., fun hne => ?_, fun i hi hlt hsolid => ?_⟩
  · rw [← hbefore, List.drop_left]
    exact List.prefix_append ..
  · rw [← hbefore, solid_append_right (Nat.le_refl _), Nat.sub_self,
      solid_append_left (List.length_pos_of_ne_nil hne)]
    obtain ⟨c, text, rfl⟩ := List.exists_cons_of_ne_nil hne
    exact ⟨c, rfl, hhead c rfl⟩
  · by_cases hp : i < front.length + lead.length
    · rw [solid_append_left (hbefore ▸ hp), solid_append_right hi] at hsolid
      exact absurd hsolid (not_solid hlead _)
    · refine ⟨Nat.not_lt.mp hp, Nat.not_le.mp fun hbehind => ?_⟩
      rw [solid_append_right (by omega), solid_append_right (by omega),
        solid_append_left (by omega)] at hsolid
      exact absurd hsolid (not_solid htrail _)

/-- Where the part of a window starts: behind the leading white space. -/
def place (content : Text) (window : Nat × Nat) : Nat :=
  window.1 + (((content.drop window.1).take (window.2 - window.1)).takeWhile isSpace).length

theorem partAt_place {content : Text} {window : Nat × Nat} (hle : window.1 ≤ window.2)
    (hstop : window.2 ≤ content.length) :
    PartAt content (part content window.1 window.2) window.1 window.2 (place content window) := by
  obtain ⟨start, stop⟩ := window
  dsimp only at hle hstop ⊢
  have hlead : ∀ c ∈ ((content.drop start).take (stop - start)).takeWhile isSpace,
      isSpace c = true := List.all_eq_true.mp List.all_takeWhile
  obtain ⟨trail, hwindow, htrail⟩ := exists_strip ((content.drop start).take (stop - start))
  rw [place]
  dsimp only
  generalize ((content.drop start).take (stop - start)).takeWhile isSpace = lead at *
  have hsplit : content.take start ++ lead ++
      (part content start stop ++ (trail ++ content.drop stop)) = content := by
    calc content.take start ++ lead ++ (part content start stop ++ (trail ++ content.drop stop))
        = content.take start ++ (lead ++ part content start stop ++ trail ++
            content.drop stop) := by simp only [List.append_assoc]
      _ = content.take start ++ ((content.drop start).take (stop - start) ++
            (content.drop start).drop (stop - start)) := by
          rw [part, hwindow, List.drop_drop, Nat.add_sub_cancel' hle]
      _ = content := by rw [List.take_append_drop, List.take_append_drop]
  have hfront : (content.take start).length = start := List.length_take_of_le (hle.trans hstop)
  have hlength := congrArg List.length hwindow
  rw [List.length_append, List.length_append, List.length_take, List.length_drop] at hlength
  have hat := partAt_append (content.take start) (content.drop stop) hlead htrail
    (isSpace_head?_strip ((content.drop start).take (stop - start)))
  rw [← part, hsplit, hfront] at hat
  rw [← part] at hlength
  have hend : start + lead.length + (part content start stop).length + trail.length = stop := by
    omega
  rwa [hend] at hat

/-- The texts stand in the content one after the other, and of the content no character but
white space is outside them. -/
def Covers (content : Text) (texts : List Text) : Prop :=
  ∃ placed : List (Nat × Text), placed.map Prod.snd = texts ∧
    (∀ text ∈ placed, text.2 <+: content.drop text.1) ∧
    (placed.map Prod.fst).Pairwise (· ≤ ·) ∧
    ∀ i, Solid content i → ∃ text ∈ placed, text.1 ≤ i ∧ i < text.1 + text.2.length

/-- Windows that start one after the other and contain the whole text. -/
theorem covers_of_windows {content : Text} {windows : List (Nat × Nat)}
    (hbounds : ∀ window ∈ windows, window.1 ≤ window.2 ∧ window.2 ≤ content.length)
    (hstarts : windows.Pairwise fun window window' => window.1 < window'.1)
    (hcover : ∀ i < content.length, ∃ window ∈ windows, window.1 ≤ i ∧ i < window.2) :
    Covers content ((windows.map fun window => part content window.1 window.2).filter
      fun part => decide (part ≠ [])) := by
  have hat : ∀ window ∈ windows, PartAt content (part content window.1 window.2) window.1 window.2
      (place content window) := fun window hmem =>
    partAt_place (hbounds window hmem).1 (hbounds window hmem).2
  let kept := windows.filter fun window => decide (part content window.1 window.2 ≠ [])
  have hkept : ∀ window ∈ kept, window ∈ windows ∧ part content window.1 window.2 ≠ [] :=
    fun window hmem => ⟨(List.mem_filter.mp hmem).1, of_decide_eq_true (List.mem_filter.mp hmem).2⟩
  refine ⟨kept.map fun window => (place content window, part content window.1 window.2),
    ?_, ?_, ?_, fun i hi => ?_⟩
  · rw [List.map_map, List.filter_map]
    rfl
  · intro text htext
    obtain ⟨window, hwindow, rfl⟩ := List.mem_map.mp htext
    exact (hat window (hkept window hwindow).1).reads
  · rw [List.map_map, List.pairwise_map]
    refine (hstarts.filter _).imp_of_mem fun {window window'} hwindow hwindow' hlt => ?_
    have hwindow := hat window (hkept window hwindow).1
    have hsolid := (hat window' (hkept window' hwindow').1).solid (hkept window' hwindow').2
    have hstart := (hat window' (hkept window' hwindow').1).start_le
    show place content window ≤ place content window'
    by_cases hin : place content window' < window.2
    · exact (hwindow.all _ (by omega) hin hsolid).1
    · have hstop := hwindow.le_stop
      omega
  · obtain ⟨window, hwindow, hstart, hstop⟩ := hcover i hi.lt_length
    obtain ⟨hplace, hend⟩ := (hat window hwindow).all i hstart hstop hi
    refine ⟨_, List.mem_map_of_mem (List.mem_filter.mpr ⟨hwindow, decide_eq_true ?_⟩), hplace, hend⟩
    exact List.ne_nil_of_length_pos (by omega)

/-- White space around the content does not matter. -/
theorem Covers.of_strip {content : Text} {texts : List Text} (h : Covers (strip content) texts) :
    Covers content texts := by
  obtain ⟨placed, rfl, hreads, hordered, hall⟩ := h
  have hlead : ∀ c ∈ content.takeWhile isSpace, isSpace c = true :=
    List.all_eq_true.mp List.all_takeWhile
  obtain ⟨trail, hsplit, htrail⟩ := exists_strip content
  generalize content.takeWhile isSpace = lead at *
  rw [List.append_assoc] at hsplit
  refine ⟨placed.map fun text => (lead.length + text.1, text.2), ?_, ?_, ?_, fun i hi => ?_⟩
  · rw [List.map_map]
    rfl
  · intro text htext
    obtain ⟨text, hmem, rfl⟩ := List.mem_map.mp htext
    have hdrop : content.drop (lead.length + text.1) =
        (strip content).drop text.1 ++ trail.drop (text.1 - (strip content).length) := by
      conv_lhs => rw [← hsplit, ← List.drop_drop, List.drop_left, List.drop_append]
    show text.2 <+: content.drop (lead.length + text.1)
    rw [hdrop]
    exact (hreads text hmem).trans (List.prefix_append ..)
  · rw [List.map_map, List.pairwise_map]
    exact (List.pairwise_map.mp hordered).imp fun hle => Nat.add_le_add_left hle _
  · rw [← hsplit] at hi
    by_cases hbefore : i < lead.length
    · exact absurd ((solid_append_left hbefore).mp hi) (not_solid hlead _)
    rw [solid_append_right (Nat.not_lt.mp hbefore)] at hi
    by_cases hbehind : (strip content).length ≤ i - lead.length
    · exact absurd ((solid_append_right hbehind).mp hi) (not_solid htrail _)
    rw [solid_append_left (Nat.not_le.mp hbehind)] at hi
    obtain ⟨text, hmem, hstart, hstop⟩ := hall _ hi
    exact ⟨_, List.mem_map_of_mem hmem, show lead.length + text.1 ≤ i by omega,
      show i < lead.length + text.1 + text.2.length by omega⟩

/-- The texts that a content is split into cover it. -/
theorem covers_split (chunker : CharacterOverlapChunker) (content : Text) :
    Covers content (chunker.split content) := by
  refine Covers.of_strip ?_
  rw [split, splitFrom_eq]
  refine covers_of_windows (fun window hmem => ?_) (pairwise_windowsFrom chunker _ 0)
    fun i hi => exists_window chunker (Nat.zero_le i) hi
  have hbounds := bounds_of_mem_windowsFrom chunker hmem
  exact ⟨Nat.le_of_lt hbounds.2.1, hbounds.2.2.2⟩

theorem length_of_mem_split {chunker : CharacterOverlapChunker} {content text : Text}
    (h : text ∈ chunker.split content) : text ≠ [] ∧ text.length ≤ chunker.size := by
  rw [split, splitFrom_eq] at h
  obtain ⟨hmem, hne⟩ := List.mem_filter.mp h
  obtain ⟨window, hwindow, rfl⟩ := List.mem_map.mp hmem
  have hbounds := bounds_of_mem_windowsFrom chunker hwindow
  refine ⟨of_decide_eq_true hne, (length_strip_le _).trans ?_⟩
  have htake := List.length_take_le (window.2 - window.1) ((strip content).drop window.1)
  omega

section chunk

variable {Id : Type} (sourceId : Id) (segment : Segment)

theorem map_content_foldl_push (chunks : List (SourceChunk Id)) (contents : List Text) :
    (contents.foldl (push sourceId segment) chunks).map (·.content) =
      chunks.map (·.content) ++ contents := by
  induction contents generalizing chunks with
  | nil => exact (List.append_nil _).symm
  | cons content contents ih =>
    rw [List.foldl_cons, ih, push, List.map_append, List.append_assoc]
    rfl

/-- Chunks are numbered as they come. -/
theorem map_position_foldl_push {chunks : List (SourceChunk Id)}
    (h : chunks.map (·.position) = List.range chunks.length) (contents : List Text) :
    (contents.foldl (push sourceId segment) chunks).map (·.position) =
      List.range (contents.foldl (push sourceId segment) chunks).length := by
  induction contents generalizing chunks with
  | nil => exact h
  | cons content contents ih =>
    refine ih ?_
    rw [push, List.map_append, h, List.length_append, List.length_singleton, List.range_succ]
    rfl

end chunk

theorem map_content_chunk {Id : Type} (chunker : CharacterOverlapChunker)
    (source : NormalizedSource Id) : (chunker.chunk source).map (·.content) =
      (source.segments.map fun segment => chunker.split segment.content).flatten := by
  suffices h : ∀ (segments : List Segment) (chunks : List (SourceChunk Id)),
      (segments.foldl (fun chunks segment =>
        (chunker.split segment.content).foldl (push source.sourceId segment) chunks) chunks).map
          (·.content) = chunks.map (·.content) ++
            (segments.map fun segment => chunker.split segment.content).flatten from
    h source.segments []
  intro segments
  induction segments with
  | nil => exact fun chunks => (List.append_nil _).symm
  | cons segment segments ih =>
    intro chunks
    rw [List.foldl_cons, ih, map_content_foldl_push, List.map_cons, List.flatten_cons,
      List.append_assoc]

theorem map_position_chunk {Id : Type} (chunker : CharacterOverlapChunker)
    (source : NormalizedSource Id) : (chunker.chunk source).map (·.position) =
      List.range (chunker.chunk source).length := by
  suffices h : ∀ (segments : List Segment) (chunks : List (SourceChunk Id)),
      chunks.map (·.position) = List.range chunks.length →
      (segments.foldl (fun chunks segment =>
        (chunker.split segment.content).foldl (push source.sourceId segment) chunks) chunks).map
          (·.position) = List.range (segments.foldl (fun chunks segment =>
            (chunker.split segment.content).foldl (push source.sourceId segment) chunks)
              chunks).length from
    h source.segments [] rfl
  intro segments
  induction segments with
  | nil => exact fun chunks h => h
  | cons segment segments ih =>
    exact fun chunks h => ih _ (map_position_foldl_push source.sourceId segment h _)

/-- The chunks of a source are numbered from zero, none is empty or too long, and those of each
segment have its content in order, with nothing but white space left out. -/
theorem chunk_covers {Id : Type} (chunker : CharacterOverlapChunker)
    (source : NormalizedSource Id) :
    (chunker.chunk source).map (·.position) = List.range (chunker.chunk source).length ∧
    (∀ chunk ∈ chunker.chunk source, chunk.content ≠ [] ∧ chunk.content.length ≤ chunker.size) ∧
    ∃ groups : List (List Text), (chunker.chunk source).map (·.content) = groups.flatten ∧
      List.Forall₂ (fun segment texts => Covers segment.content texts) source.segments groups := by
  refine ⟨map_position_chunk chunker source, fun chunk hchunk => ?_, _,
    map_content_chunk chunker source, ?_⟩
  · have hcontent : chunk.content ∈ (chunker.chunk source).map (·.content) :=
      List.mem_map_of_mem hchunk
    rw [map_content_chunk, List.mem_flatten] at hcontent
    obtain ⟨texts, htexts, hcontent⟩ := hcontent
    obtain ⟨segment, -, rfl⟩ := List.mem_map.mp htexts
    exact length_of_mem_split hcontent
  · rw [List.forall₂_map_right_iff, List.forall₂_same]
    exact fun segment _ => covers_split chunker segment.content

end CharacterOverlapChunker

/-!
## What the overlap keeps whole

Neighbouring windows share the characters of the overlap, unless a window is cut at a space that
is nearer to its start. In the second half of a window no space is, when the overlap is at most
half its size.
-/

namespace CharacterOverlapChunker

variable (chunker : CharacterOverlapChunker) {content : Text} {start a b : Nat}

/-- No window from a start on but the last is shorter than the overlap. -/
def ReachesOverlap (content : Text) (start : Nat) : Prop :=
  ∀ window ∈ chunker.windowsFrom content start,
    window.2 < content.length → window.1 + chunker.overlap ≤ window.2

/-- Of a substring that is no longer than the overlap some window has all. -/
theorem exists_window_of_reachesOverlap (hreaches : chunker.ReachesOverlap content start)
    (ha : start ≤ a) (hlt : a < content.length) (hb : b ≤ content.length)
    (hoverlap : b ≤ a + chunker.overlap) :
    ∃ window ∈ chunker.windowsFrom content start, window.1 ≤ a ∧ b ≤ window.2 := by
  induction start using windowsFrom.induct chunker content with
  | case1 start hstart hlast =>
    rw [windowsFrom, if_pos hstart, if_pos hlast]
    exact ⟨_, List.mem_cons_self .., ha, hb.trans hlast⟩
  | case2 start hstart hlast ih =>
    rw [ReachesOverlap, windowsFrom, if_pos hstart, if_neg hlast, List.forall_mem_cons] at hreaches
    rw [windowsFrom, if_pos hstart, if_neg hlast]
    have hreach : start + chunker.overlap ≤ chunker.windowEnd content start :=
      hreaches.1 (Nat.not_le.mp hlast)
    by_cases hin : b ≤ chunker.windowEnd content start
    · exact ⟨_, List.mem_cons_self .., ha, hin⟩
    · -- the substring goes beyond the window, so it starts in what the next one shares with it
      obtain ⟨window, hmem, hwindow⟩ := ih hreaches.2 (by omega)
      exact ⟨window, List.mem_cons_of_mem _ hmem, hwindow⟩
  | case3 start hstart => omega

/-- A space in the second half of a window is far enough from its start. -/
theorem reachesOverlap_of_le (hhalf : chunker.overlap ≤ chunker.size / 2) (content : Text)
    (start : Nat) : chunker.ReachesOverlap content start := by
  have hoverlap := chunker.overlap_lt
  intro window hmem hlt
  have hend := (of_mem_windowsFrom chunker hmem).2.2
  rw [hend] at hlt ⊢
  rcases windowEnd_cases chunker content window.1 with h | h <;> omega

/-- The windows of the chunks of a content. -/
def chunkWindows (chunker : CharacterOverlapChunker) (content : Text) : List (Nat × Nat) :=
  (chunker.windowsFrom (strip content) 0).filter fun window =>
    decide (part (strip content) window.1 window.2 ≠ [])

/-- They are those that the content is split into. -/
theorem split_eq_map_chunkWindows (content : Text) : chunker.split content =
    (chunker.chunkWindows content).map fun window => part (strip content) window.1 window.2 := by
  rw [split, splitFrom_eq, List.filter_map, chunkWindows]
  rfl

/-- The characters from `a` to `b` of the stripped content are within the window of a chunk. -/
def KeptWhole (content : Text) (a b : Nat) : Prop :=
  ∃ window ∈ chunker.chunkWindows content, window.1 ≤ a ∧ b ≤ window.2

/-- A window with a character other than white space is that of a chunk. -/
theorem mem_chunkWindows {window : Nat × Nat} {i : Nat}
    (hmem : window ∈ chunker.windowsFrom (strip content) 0) (hstart : window.1 ≤ i)
    (hstop : i < window.2) (hi : Solid (strip content) i) :
    window ∈ chunker.chunkWindows content := by
  have hbounds := bounds_of_mem_windowsFrom chunker hmem
  have hat := partAt_place (Nat.le_of_lt hbounds.2.1) hbounds.2.2.2
  refine List.mem_filter.mpr ⟨hmem, decide_eq_true ?_⟩
  have hplace := hat.all i hstart hstop hi
  exact List.ne_nil_of_length_pos (by omega)

/-- When the overlap is at most half the size, or no window but the last is shorter than it, every
substring that is no longer than the overlap and not blank is within the window of a chunk. -/
theorem keptWhole_of_overlap_le (hreach : chunker.overlap ≤ chunker.size / 2 ∨
      chunker.ReachesOverlap (strip content) 0)
    (hb : b ≤ (strip content).length) (hoverlap : b ≤ a + chunker.overlap)
    (hsolid : ∃ i, a ≤ i ∧ i < b ∧ Solid (strip content) i) : chunker.KeptWhole content a b := by
  obtain ⟨i, hai, hib, hi⟩ := hsolid
  have hlt := hi.lt_length
  have hreaches : chunker.ReachesOverlap (strip content) 0 :=
    hreach.elim (fun hhalf => chunker.reachesOverlap_of_le hhalf (strip content) 0) id
  obtain ⟨window, hmem, hstart, hstop⟩ := exists_window_of_reachesOverlap chunker hreaches
    (Nat.zero_le a) (by omega) hb hoverlap
  exact ⟨window, mem_chunkWindows chunker hmem (by omega) (by omega) hi, hstart, hstop⟩

/-- Two letters in neighbouring windows are in one of them. -/
theorem keptWhole_of_overlap_le_letters :
    (⟨4, 2, by decide, by decide⟩ : CharacterOverlapChunker).KeptWhole "ab cd ef".toList 3 5 :=
  keptWhole_of_overlap_le ⟨4, 2, by decide, by decide⟩ (.inl (by decide)) (by decide) (by decide)
    ⟨3, by decide, by decide, 'c', by decide, by decide⟩

/-- Not every substring that is no longer than the overlap is within the window of a chunk: a
space among spaces is in no chunk, and a window that is cut at an early space is shorter than the
overlap. -/
theorem not_keptWhole_all :
    (¬∀ (chunker : CharacterOverlapChunker) (content : Text) (a b : Nat), a < b →
      b ≤ (strip content).length → b ≤ a + chunker.overlap → chunker.KeptWhole content a b) ∧
    ¬∀ (chunker : CharacterOverlapChunker) (content : Text) (a b : Nat),
      (∃ i, a ≤ i ∧ i < b ∧ Solid (strip content) i) →
      b ≤ (strip content).length → b ≤ a + chunker.overlap → chunker.KeptWhole content a b := by
  constructor
  · intro h
    have hwindows : (⟨2, 1, by decide, by decide⟩ : CharacterOverlapChunker).chunkWindows
        "a   b".toList = [(0, 1), (3, 5)] := by decide +kernel
    obtain ⟨window, hmem, hstart, hstop⟩ := h ⟨2, 1, by decide, by decide⟩ "a   b".toList 2 3
      (by decide) (by decide) (by decide)
    rw [hwindows, List.mem_pair] at hmem
    rcases hmem with rfl | rfl <;> dsimp only at hstart hstop <;> omega
  · intro h
    have hwindows : (⟨3, 2, by decide, by decide⟩ : CharacterOverlapChunker).chunkWindows
        "a bc".toList = [(0, 1), (1, 4)] := by decide +kernel
    obtain ⟨window, hmem, hstart, hstop⟩ := h ⟨3, 2, by decide, by decide⟩ "a bc".toList 0 2
      ⟨0, by decide, by decide, 'a', by decide, by decide⟩ (by decide) (by decide)
    rw [hwindows, List.mem_pair] at hmem
    rcases hmem with rfl | rfl <;> dsimp only at hstart hstop <;> omega

end CharacterOverlapChunker

end Maeglagi.Ingestion
