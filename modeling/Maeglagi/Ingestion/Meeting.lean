import Mathlib.Algebra.Order.Ring.Rat
import Mathlib.Data.Prod.Lex
import Maeglagi.Ingestion.Replacement
import Maeglagi.Sources.Row

/-!
# The chunks of a meeting

The reviewed utterances of a confirmed meeting become segments, by the server and after the
submission of an agent alike. A missing time counts as zero, and the segments are sorted by their
times, so that an utterance without a time goes to the front.
-/

namespace Maeglagi.Ingestion

open Core Provider

variable {Id H : Type}

/-- A time that is there and not zero. -/
def given (time : Option Rat) : Option Rat := time.filter fun t => decide (t ≠ 0)

/-- `item.get("startSeconds") or 0` -/
def startOf (u : Utterance Id) : Rat := (given u.startSeconds).getD 0

/-- `item.get("endSeconds") or item.get("startSeconds") or 0` -/
def endOf (u : Utterance Id) : Rat := ((given u.endSeconds).or (given u.startSeconds)).getD 0

/-- The utterances that are not blank. -/
def spoken (utterances : List (Utterance Id)) : List (Utterance Id) :=
  utterances.filter fun u => decide (strip u.text ≠ [])

/-- `[TranscriptSegment(...) for item in source.review_utterances if ...]` -/
def meetingSegments (utterances : List (Utterance Id)) :
    Except NormalizeError (List TranscriptSegment) :=
  (spoken utterances).mapM fun u =>
    TranscriptSegment.make u.text (.finite (startOf u)) (.finite (endOf u))

/-- The segments of `_index_source_text`. -/
def sourceSegments (source : Source Id H) (text : Text) : Except NormalizeError RawSegments :=
  match source.kind with
  | .meeting => do return .transcript (← meetingSegments source.reviewUtterances)
  | .document => do return .document [← DocumentSection.make text]

namespace IngestionPipeline

variable [DecidableEq Id] (pipeline : IngestionPipeline)

/-- `_process_source` for a meeting, up to the chunks; a meeting that is not confirmed is left. -/
def indexConfirmed (lib : Decoder) (run : Run) (source : Source Id H)
    (table : List (ChunkRow Id)) : Except PipelineError (List (ChunkRow Id)) := do
  if source.reviewState = some .confirmed then
    let segments ← (meetingSegments source.reviewUtterances).mapError .normalize
    pipeline.indexSource lib run source (.transcript segments) table
  else return table

/-- `_index_source_text` -/
def indexSourceText (source : Source Id H) (text : Text) (table : List (ChunkRow Id)) :
    Except ApiError (List (ChunkRow Id)) := do
  let segments ← (sourceSegments source text).mapError fun _ => .validation
  let normalized ← (normalize source segments).mapError fun _ => .validation
  let chunks := pipeline.chunker.chunk normalized
  if chunks = [] then throw (.workflow "text_required" "No indexable text" 422)
  else return replaced table source chunks (chunks.map fun _ => none)

end IngestionPipeline

/-! ## What is to be indexed -/

/-- The pieces of the utterances in their order. -/
def pieces (chunker : CharacterOverlapChunker) (utterances : List (Utterance Id)) :
    List (Utterance Id × Text) :=
  utterances.flatMap fun u => (chunker.split u.text).map fun piece => (u, piece)

/-- The row is a piece of the utterance; it has no other start than that. -/
def IsPiece (piece : Utterance Id × Text) (row : ChunkRow Id) : Prop :=
  row.content = piece.2 ∧ row.endSeconds = some (.finite (endOf piece.1)) ∧
    ∀ s, row.startSeconds = some s → piece.1.startSeconds.map PyFloat.finite = some s

/-- The rows are the pieces of the spoken utterances in the reviewed order. -/
def FollowsReview (chunker : CharacterOverlapChunker) (utterances : List (Utterance Id))
    (rows : List (ChunkRow Id)) : Prop :=
  List.Forall₂ IsPiece (pieces chunker (spoken utterances)) rows ∧
    rows.map (·.position) = List.range rows.length

/-- The timed utterances stand in the order of their starts. -/
def StartsOrdered (utterances : List (Utterance Id)) : Prop :=
  (utterances.filterMap (·.startSeconds)).Pairwise (· ≤ ·)

/-- The times of an utterance as it is indexed. -/
def timesOf (u : Utterance Id) : PyFloat × PyFloat := (.finite (startOf u), .finite (endOf u))

/-- Every spoken utterance has a start, and they stand in the order of their times. -/
def Timed (utterances : List (Utterance Id)) : Prop :=
  (∀ u ∈ spoken utterances, u.startSeconds.isSome) ∧
    (spoken utterances).Pairwise fun u v => PyFloat.lessPair (timesOf v) (timesOf u) = false

/-- The meeting can be indexed: it is one, it has a title, and something is said, at times that a
segment may have. -/
def Indexable (source : Source Id H) : Prop :=
  source.kind = .meeting ∧ strip source.title ≠ [] ∧ spoken source.reviewUtterances ≠ [] ∧
    ∀ u ∈ spoken source.reviewUtterances, TimesFit (.finite (startOf u)) (.finite (endOf u))

/-! ## The order of the segments -/

/-- A start that is there is the start that is indexed. -/
theorem startOf_of_some {u : Utterance Id} {q : Rat} (h : u.startSeconds = some q) :
    startOf u = q := by
  rw [startOf, given, h, Option.filter_some]
  split_ifs with hq
  · rfl
  · exact (by simpa using hq : q = 0).symm

/-- The times of an utterance in the order of pairs. -/
def timesKey (u : Utterance Id) : Rat ×ₗ Rat := toLex (startOf u, endOf u)

theorem lessPair_timesOf {u v : Utterance Id} :
    PyFloat.lessPair (timesOf v) (timesOf u) = false ↔ timesKey u ≤ timesKey v := by
  rw [← not_lt, ← Bool.not_eq_true]
  refine not_congr ?_
  rw [timesKey, timesKey, Prod.Lex.toLex_lt_toLex]
  unfold PyFloat.lessPair timesOf
  dsimp only
  split_ifs with heq
  · have hstart := PyFloat.finite.inj heq
    simp [hstart]
  · have hstart : startOf v ≠ startOf u := fun h => heq (congrArg PyFloat.finite h)
    simp [hstart]

/-- The spoken utterances in the order of their times. -/
def sortedSpoken (utterances : List (Utterance Id)) : List (Utterance Id) :=
  (spoken utterances).insertionSort fun u v => PyFloat.lessPair (timesOf v) (timesOf u) = false

/-- The segment of an utterance. -/
def segmentOf (u : Utterance Id) : Segment :=
  ⟨strip u.text, some (.finite (startOf u)), some (.finite (endOf u))⟩

theorem pairwise_sortedSpoken (utterances : List (Utterance Id)) :
    (sortedSpoken utterances).Pairwise fun u v => timesKey u ≤ timesKey v := by
  have hmap : (sortedSpoken utterances).map timesKey =
      ((spoken utterances).map timesKey).insertionSort (· ≤ ·) :=
    List.map_insertionSort _ _ timesKey _ fun u _ v _ => lessPair_timesOf
  rw [← List.pairwise_map (f := timesKey) (R := (· ≤ ·)), hmap]
  exact List.pairwise_insertionSort (· ≤ ·) _

theorem TranscriptSegment.make_eq_ok {text : Text} {startSeconds endSeconds : PyFloat}
    {segment : TranscriptSegment} :
    TranscriptSegment.make text startSeconds endSeconds = .ok segment ↔
      strip text ≠ [] ∧ TimesFit startSeconds endSeconds ∧ segment.text = strip text ∧
        segment.startSeconds = startSeconds ∧ segment.endSeconds = endSeconds := by
  unfold TranscriptSegment.make
  split_ifs with h
  · constructor
    · rintro ⟨⟩
      exact ⟨h.1, h.2, rfl, rfl, rfl⟩
    · rintro ⟨-, -, htext, hstart, hend⟩
      cases segment
      subst htext hstart hend
      rfl
  · simp only [false_iff]
    rintro ⟨htext, htimes, -⟩
    exact h ⟨htext, htimes⟩

/-- The segments that the chunker gets are those of the utterances in the order of their times. -/
theorem normalizeTranscript_meetingSegments {utterances : List (Utterance Id)}
    {segments : List TranscriptSegment} (h : meetingSegments utterances = .ok segments) :
    normalizeTranscript segments = (sortedSpoken utterances).map segmentOf := by
  have hall := mapM_eq_ok_iff.mp h
  simp only [TranscriptSegment.make_eq_ok] at hall
  let fields : TranscriptSegment → Text × PyFloat × PyFloat := fun s => (s.text, s.times)
  let reviewed : Utterance Id → Text × PyFloat × PyFloat := fun u => (strip u.text, timesOf u)
  have hfields : (spoken utterances).map reviewed = segments.map fields := by
    rw [← List.forall₂_eq_eq_eq, List.forall₂_map_left_iff, List.forall₂_map_right_iff]
    refine hall.imp fun u s hs => ?_
    obtain ⟨-, -, htext, hstart, hend⟩ := hs
    simp only [reviewed, fields, TranscriptSegment.times, timesOf, htext, hstart, hend]
  have hsegments : (segments.insertionSort fun a b => PyFloat.lessPair b.times a.times =
      false).map fields = (segments.map fields).insertionSort (fun a b =>
        PyFloat.lessPair b.2 a.2 = false) :=
    List.map_insertionSort _ _ fields _ fun a _ b _ => Iff.rfl
  have hreviewed : (sortedSpoken utterances).map reviewed =
      ((spoken utterances).map reviewed).insertionSort (fun a b =>
        PyFloat.lessPair b.2 a.2 = false) :=
    List.map_insertionSort _ _ reviewed _ fun u _ v _ => Iff.rfl
  rw [hfields, ← hsegments] at hreviewed
  have hsame := congrArg (List.map fun k : Text × PyFloat × PyFloat =>
    (⟨k.1, some k.2.1, some k.2.2⟩ : Segment)) hreviewed
  rw [List.map_map, List.map_map] at hsame
  exact hsame.symm

/-! ## The rows -/

/-- The content and the times of the chunks of segments. -/
def contents (chunker : CharacterOverlapChunker) (segments : List Segment) :
    List (Text × Option PyFloat × Option PyFloat) :=
  segments.flatMap fun segment => (chunker.split segment.content).map fun content =>
    (content, segment.startSeconds, segment.endSeconds)

theorem map_contents_chunk (chunker : CharacterOverlapChunker) (source : NormalizedSource Id) :
    (chunker.chunk source).map (fun c => (c.content, c.startSeconds, c.endSeconds)) =
      contents chunker source.segments := by
  have hpush : ∀ (segment : Segment) (texts : List Text) (chunks : List (SourceChunk Id)),
      (texts.foldl (CharacterOverlapChunker.push source.sourceId segment) chunks).map
        (fun c => (c.content, c.startSeconds, c.endSeconds)) =
      chunks.map (fun c => (c.content, c.startSeconds, c.endSeconds)) ++
        texts.map fun content => (content, segment.startSeconds, segment.endSeconds) := by
    intro segment texts
    induction texts with
    | nil => exact fun chunks => (List.append_nil _).symm
    | cons text texts ih =>
      intro chunks
      rw [List.foldl_cons, ih, CharacterOverlapChunker.push, List.map_append, List.append_assoc]
      rfl
  have hall : ∀ (segments : List Segment) (chunks : List (SourceChunk Id)),
      (segments.foldl (fun chunks segment => (chunker.split segment.content).foldl
        (CharacterOverlapChunker.push source.sourceId segment) chunks) chunks).map
          (fun c => (c.content, c.startSeconds, c.endSeconds)) =
        chunks.map (fun c => (c.content, c.startSeconds, c.endSeconds)) ++
          contents chunker segments := by
    intro segments
    induction segments with
    | nil => exact fun chunks => (List.append_nil _).symm
    | cons segment segments ih =>
      intro chunks
      rw [List.foldl_cons, ih, hpush, List.append_assoc]
      rfl
  exact hall source.segments []

/-- The content and the times of a row. -/
def ChunkRow.contents (row : ChunkRow Id) : Text × Option PyFloat × Option PyFloat :=
  (row.content, row.startSeconds, row.endSeconds)

/-- The content and the times of a piece of an utterance as it is indexed. -/
def pieceContents (piece : Utterance Id × Text) : Text × Option PyFloat × Option PyFloat :=
  (piece.2, some (.finite (startOf piece.1)), some (.finite (endOf piece.1)))

/-- The times of indexed contents in the order of pairs. -/
def contentsKey : Text × Option PyFloat × Option PyFloat → Rat ×ₗ Rat
  | (_, some (.finite a), some (.finite b)) => toLex (a, b)
  | _ => toLex (0, 0)

theorem contents_map_segmentOf (chunker : CharacterOverlapChunker)
    (utterances : List (Utterance Id)) : contents chunker (utterances.map segmentOf) =
      (pieces chunker utterances).map pieceContents := by
  have hsplit : ∀ u : Utterance Id, chunker.split (strip u.text) = chunker.split u.text := by
    intro u
    rw [CharacterOverlapChunker.split, CharacterOverlapChunker.split, strip_strip]
  rw [contents, pieces, List.flatMap_map, List.map_flatMap]
  refine List.flatMap_congr fun u _ => ?_
  rw [List.map_map, ← hsplit]
  rfl

section rows

variable [DecidableEq Id] {lib : Decoder} {pipeline : IngestionPipeline} {run : Run}
  {source : Source Id H} {text : Text} {table written : List (ChunkRow Id)}

/-- The rows are the pieces of the spoken utterances in the order of their times. -/
def FollowsTimes (chunker : CharacterOverlapChunker) (utterances : List (Utterance Id))
    (rows : List (ChunkRow Id)) : Prop :=
  rows.map ChunkRow.contents = (pieces chunker (sortedSpoken utterances)).map pieceContents ∧
    rows.map (·.position) = List.range rows.length

/-- The rows of a meeting follow the times of its utterances. -/
theorem followsTimes_of_replaced {segments : List TranscriptSegment} {normalized : NormalizedSource Id}
    {embeddings : List (Option (List PyFloat))} (hkind : source.kind = .meeting)
    (hsegments : meetingSegments source.reviewUtterances = .ok segments)
    (hnormalized : normalize source (.transcript segments) = .ok normalized)
    (hlength : embeddings.length = (pipeline.chunker.chunk normalized).length) :
    FollowsTimes pipeline.chunker source.reviewUtterances
      (rowsOf (IngestionPipeline.replaced table source (pipeline.chunker.chunk normalized)
        embeddings) source.id) := by
  obtain ⟨hrows, hpositions⟩ := storesChunks_zipWith hnormalized hlength
  rw [rowsOf_replaced]
  refine ⟨?_, by rw [hpositions, ← congrArg List.length hrows, List.length_map]⟩
  rw [← contents_map_segmentOf, ← normalizeTranscript_meetingSegments hsegments]
  have hfields := congrArg (List.map fun c : SourceChunk Id =>
    (c.content, c.startSeconds, c.endSeconds)) hrows
  rw [List.map_map, map_contents_chunk] at hfields
  refine hfields.trans (congrArg (contents pipeline.chunker) ?_)
  obtain ⟨made, hmade, h⟩ := bind_eq_ok.mp hnormalized
  split_ifs at h
  obtain rfl := pure_eq_ok.mp h
  rw [hkind] at hmade
  exact (Except.ok.inj hmade).symm

theorem followsTimes_of_indexConfirmed (hkind : source.kind = .meeting)
    (hconfirmed : source.reviewState = some .confirmed)
    (h : pipeline.indexConfirmed lib run source table = .ok written) :
    FollowsTimes pipeline.chunker source.reviewUtterances (rowsOf written source.id) := by
  rw [IngestionPipeline.indexConfirmed, if_pos hconfirmed, bind_eq_ok] at h
  obtain ⟨segments, hsegments, h⟩ := h
  obtain ⟨normalized, embeddings, hnormalized, -, hembeddings, -, rfl⟩ :=
    IngestionPipeline.indexSource_eq_ok.mp h
  refine followsTimes_of_replaced hkind (mapError_eq_ok.mp hsegments) hnormalized ?_
  rcases IngestionPipeline.embeddings_eq_ok.mp hembeddings with
    ⟨provider, response, -, -, hcount, -, rfl⟩ | ⟨-, -, rfl⟩
  · exact (List.length_map _).trans hcount
  · exact List.length_map _

theorem indexSourceText_eq_ok (hkind : source.kind = .meeting) :
    pipeline.indexSourceText source text table = .ok written ↔
      ∃ segments normalized, meetingSegments source.reviewUtterances = .ok segments ∧
        normalize source (.transcript segments) = .ok normalized ∧
        pipeline.chunker.chunk normalized ≠ [] ∧
        IngestionPipeline.replaced table source (pipeline.chunker.chunk normalized)
          ((pipeline.chunker.chunk normalized).map fun _ => none) = written := by
  rw [IngestionPipeline.indexSourceText, bind_eq_ok]
  simp only [mapError_eq_ok, bind_eq_ok, sourceSegments, hkind]
  constructor
  · rintro ⟨made, hmade, normalized, hnormalized, h⟩
    obtain ⟨segments, hsegments, hmade⟩ := hmade
    obtain rfl := pure_eq_ok.mp hmade
    split_ifs at h with hchunks
    exact ⟨segments, normalized, hsegments, hnormalized, hchunks, pure_eq_ok.mp h⟩
  · rintro ⟨segments, normalized, hsegments, hnormalized, hchunks, rfl⟩
    refine ⟨_, ⟨segments, hsegments, rfl⟩, normalized, hnormalized, ?_⟩
    rw [if_neg hchunks]
    rfl

theorem followsTimes_of_indexSourceText (hkind : source.kind = .meeting)
    (h : pipeline.indexSourceText source text table = .ok written) :
    FollowsTimes pipeline.chunker source.reviewUtterances (rowsOf written source.id) := by
  obtain ⟨segments, normalized, hsegments, hnormalized, -, rfl⟩ :=
    (indexSourceText_eq_ok hkind).mp h
  exact followsTimes_of_replaced hkind hsegments hnormalized (List.length_map _)

/-- Something that is said has a piece. -/
theorem exists_piece (chunker : CharacterOverlapChunker) {content : Text}
    (h : strip content ≠ []) : ∃ piece, piece ∈ chunker.split content := by
  obtain ⟨placed, hplaced, -, -, hcover⟩ := CharacterOverlapChunker.covers_split chunker (strip content)
  obtain ⟨c, rest, hcons⟩ := List.exists_cons_of_ne_nil h
  have hsolid : CharacterOverlapChunker.Solid (strip content) 0 :=
    ⟨c, by rw [hcons]; rfl, isSpace_head?_strip content c (by rw [hcons]; rfl)⟩
  obtain ⟨piece, hpiece, -⟩ := hcover 0 hsolid
  have hmem : piece.2 ∈ chunker.split (strip content) := hplaced ▸ List.mem_map_of_mem hpiece
  rw [CharacterOverlapChunker.split, strip_strip] at hmem
  exact ⟨piece.2, hmem⟩

omit [DecidableEq Id] in
/-- A meeting with chunks can be indexed. -/
theorem indexable_of_chunks {segments : List TranscriptSegment} {normalized : NormalizedSource Id}
    (hkind : source.kind = .meeting)
    (hsegments : meetingSegments source.reviewUtterances = .ok segments)
    (hnormalized : normalize source (.transcript segments) = .ok normalized)
    (hchunks : pipeline.chunker.chunk normalized ≠ []) : Indexable source := by
  obtain ⟨made, hmade, h⟩ := bind_eq_ok.mp hnormalized
  split_ifs at h with htitle
  obtain rfl := pure_eq_ok.mp h
  refine ⟨hkind, htitle, fun hnil => hchunks ?_, fun u hu => ?_⟩
  · rw [meetingSegments, hnil] at hsegments
    obtain rfl := pure_eq_ok.mp hsegments
    rw [hkind] at hmade
    obtain rfl := Except.ok.inj hmade
    rfl
  · obtain ⟨segment, -, hsegment⟩ := exists_mem_of_forall₂ (mapM_eq_ok_iff.mp hsegments) hu
    exact (TranscriptSegment.make_eq_ok.mp hsegment).2.1

/-- A meeting that can be indexed is. -/
theorem exists_indexSourceText (h : Indexable source) :
    ∃ written, pipeline.indexSourceText source text table = .ok written := by
  obtain ⟨hkind, htitle, hspoken, htimes⟩ := h
  obtain ⟨segments, hsegments⟩ : ∃ segments, meetingSegments source.reviewUtterances =
      .ok segments := by
    refine exists_mapM_ok fun u hu => ?_
    have hnotBlank := of_decide_eq_true (List.mem_filter.mp hu).2
    exact ⟨⟨_, _, _, strip_strip _, hnotBlank, htimes u hu⟩,
      TranscriptSegment.make_eq_ok.mpr ⟨hnotBlank, htimes u hu, rfl, rfl, rfl⟩⟩
  have hnormalized : normalize source (.transcript segments) =
      .ok ⟨source.id, normalizeTranscript segments⟩ := by
    refine bind_eq_ok.mpr ⟨normalizeTranscript segments, ?_, ?_⟩
    · rw [hkind]
      rfl
    · rw [if_neg htitle]
      rfl
  refine ⟨_, (indexSourceText_eq_ok hkind).mpr ⟨segments, _, hsegments, hnormalized, ?_, rfl⟩⟩
  intro hnil
  have hcontents := map_contents_chunk pipeline.chunker
    (⟨source.id, normalizeTranscript segments⟩ : NormalizedSource Id)
  rw [hnil, normalizeTranscript_meetingSegments hsegments, contents_map_segmentOf] at hcontents
  obtain ⟨u, hu⟩ := List.exists_mem_of_ne_nil _ hspoken
  have hsorted : u ∈ sortedSpoken source.reviewUtterances :=
    (List.mem_insertionSort _).mpr hu
  obtain ⟨piece, hpiece⟩ := exists_piece pipeline.chunker
    (of_decide_eq_true (List.mem_filter.mp hu).2)
  have hmem : (u, piece) ∈ pieces pipeline.chunker (sortedSpoken source.reviewUtterances) :=
    List.mem_flatMap.mpr ⟨u, hsorted, List.mem_map_of_mem hpiece⟩
  rw [List.map_eq_nil_iff.mp hcontents.symm] at hmem
  cases hmem

omit [DecidableEq Id] in
/-- Rows that follow the times follow the review exactly when every utterance has a start and
they are in that order already. -/
theorem followsReview_iff {chunker : CharacterOverlapChunker} {utterances : List (Utterance Id)}
    {rows : List (ChunkRow Id)} (h : FollowsTimes chunker utterances rows) :
    FollowsReview chunker utterances rows ↔ Timed utterances := by
  obtain ⟨h, hpositions⟩ := h
  refine (and_iff_left hpositions).trans ?_
  have hspoken : ∀ piece ∈ pieces chunker (spoken utterances), piece.1 ∈ spoken utterances := by
    intro piece hpiece
    obtain ⟨u, hu, hmem⟩ := List.mem_flatMap.mp hpiece
    obtain ⟨content, -, rfl⟩ := List.mem_map.mp hmem
    exact hu
  constructor
  · intro hfollows
    have hstarts : ∀ row ∈ rows, ∃ s, row.startSeconds = some (.finite s) := by
      intro row hrow
      have hcontents : row.contents ∈ (pieces chunker (sortedSpoken utterances)).map
          pieceContents := h ▸ List.mem_map_of_mem hrow
      obtain ⟨piece, -, hpiece⟩ := List.mem_map.mp hcontents
      exact ⟨startOf piece.1, (congrArg (fun c => c.2.1) hpiece).symm⟩
    have htimed : ∀ u ∈ spoken utterances, u.startSeconds.isSome := by
      intro u hu
      obtain ⟨piece, hpiece⟩ := exists_piece chunker (of_decide_eq_true (List.mem_filter.mp hu).2)
      have hmem : (u, piece) ∈ pieces chunker (spoken utterances) :=
        List.mem_flatMap.mpr ⟨u, hu, List.mem_map_of_mem hpiece⟩
      obtain ⟨row, hrow, -, -, hstart⟩ := exists_mem_of_forall₂ hfollows hmem
      obtain ⟨s, hs⟩ := hstarts row hrow
      have hgiven := hstart _ hs
      rw [Option.map_eq_some_iff] at hgiven
      obtain ⟨q, hq, -⟩ := hgiven
      rw [hq]
      rfl
    refine ⟨htimed, ?_⟩
    have hreviewed : rows.map (fun row => contentsKey row.contents) =
        (pieces chunker (spoken utterances)).map fun p => timesKey p.1 := by
      rw [← List.forall₂_eq_eq_eq, List.forall₂_map_left_iff, List.forall₂_map_right_iff]
      refine ((List.forall₂_and_left _ _).mpr ⟨hstarts, hfollows.flip⟩).imp fun row piece hrow => ?_
      obtain ⟨⟨s, hs⟩, -, hend, hstart⟩ := hrow
      have hgiven := hstart _ hs
      rw [Option.map_eq_some_iff] at hgiven
      obtain ⟨q, hq, hqs⟩ := hgiven
      rw [ChunkRow.contents, hs, hend, ← hqs, ← startOf_of_some hq]
      rfl
    have hkeys : (pieces chunker (spoken utterances)).map (fun p => timesKey p.1) =
        (pieces chunker (sortedSpoken utterances)).map fun p => timesKey p.1 := by
      have hmap := congrArg (List.map contentsKey) h
      rw [List.map_map, List.map_map] at hmap
      exact hreviewed.symm.trans hmap
    have hpieces : (pieces chunker (spoken utterances)).Pairwise fun p q =>
        timesKey p.1 ≤ timesKey q.1 := by
      rw [← List.pairwise_map (f := fun p : Utterance Id × Text => timesKey p.1) (R := (· ≤ ·)),
        hkeys, List.pairwise_map]
      refine List.pairwise_flatMap.mpr ⟨fun u _ => ?_, ?_⟩
      · rw [List.pairwise_map]
        exact List.pairwise_of_forall fun _ _ => le_refl _
      · refine (pairwise_sortedSpoken utterances).imp fun hle p hp q hq => ?_
        obtain ⟨_, -, rfl⟩ := List.mem_map.mp hp
        obtain ⟨_, -, rfl⟩ := List.mem_map.mp hq
        exact hle
    refine (List.pairwise_flatMap.mp hpieces).2.imp_of_mem fun {u v} hu hv hle => ?_
    obtain ⟨p, hp⟩ := exists_piece chunker (of_decide_eq_true (List.mem_filter.mp hu).2)
    obtain ⟨q, hq⟩ := exists_piece chunker (of_decide_eq_true (List.mem_filter.mp hv).2)
    exact lessPair_timesOf.mpr
      (hle _ (List.mem_map_of_mem hp) _ (List.mem_map_of_mem hq))
  · rintro ⟨htimed, hordered⟩
    have hsorted : sortedSpoken utterances = spoken utterances := hordered.insertionSort_eq
    rw [hsorted, ← List.forall₂_eq_eq_eq, List.forall₂_map_left_iff, List.forall₂_map_right_iff] at h
    have hpieces := (List.forall₂_and_left _ _).mpr ⟨hspoken, h.flip⟩
    refine hpieces.imp fun piece row hrow => ?_
    obtain ⟨hmem, hcontents⟩ := hrow
    refine ⟨congrArg (fun c => c.1) hcontents, congrArg (fun c => c.2.2) hcontents, fun s hs => ?_⟩
    obtain ⟨q, hq⟩ := Option.isSome_iff_exists.mp (htimed piece.1 hmem)
    have hstart : row.startSeconds = some (.finite (startOf piece.1)) :=
      congrArg (fun c => c.2.1) hcontents
    rw [← hs, hstart, startOf_of_some hq, hq]
    rfl

/-- For every run and every submission, the chunks of a confirmed meeting whose starts are in
order follow the review with no invented start. -/
def IndexedAsReviewed (lib : Decoder) (pipeline : IngestionPipeline) (source : Source Id H) :
    Prop :=
  source.kind = .meeting → source.reviewState = some .confirmed →
    StartsOrdered source.reviewUtterances →
    (∀ run table written, pipeline.indexConfirmed lib run source table = .ok written →
      FollowsReview pipeline.chunker source.reviewUtterances (rowsOf written source.id)) ∧
    ∀ text table written, pipeline.indexSourceText source text table = .ok written →
      FollowsReview pipeline.chunker source.reviewUtterances (rowsOf written source.id)

theorem IndexedAsReviewed.timed (h : IndexedAsReviewed lib pipeline source)
    (hindexable : Indexable source) (hconfirmed : source.reviewState = some .confirmed)
    (hordered : StartsOrdered source.reviewUtterances) : Timed source.reviewUtterances := by
  obtain ⟨written, hwritten⟩ : ∃ written, pipeline.indexSourceText source [] [] = .ok written :=
    exists_indexSourceText hindexable
  have hfollows := (h hindexable.1 hconfirmed hordered).2 [] [] written hwritten
  exact (followsReview_iff (followsTimes_of_indexSourceText hindexable.1 hwritten)).mp hfollows

/-- A meeting is indexed as it was reviewed exactly when every utterance that is said has a start
and they are in the order of their times, unless it cannot be indexed or its starts are not. -/
theorem indexedAsReviewed_iff (lib : Decoder) (pipeline : IngestionPipeline)
    (source : Source Id H) :
    IndexedAsReviewed lib pipeline source ↔
      (Indexable source → source.reviewState = some .confirmed →
        StartsOrdered source.reviewUtterances → Timed source.reviewUtterances) := by
  refine ⟨fun h => h.timed, fun h hkind hconfirmed hordered => ?_⟩
  refine ⟨fun run table written hwritten => ?_, fun text table written hwritten => ?_⟩
  · refine (followsReview_iff (followsTimes_of_indexConfirmed hkind hconfirmed hwritten)).mpr ?_
    rw [IngestionPipeline.indexConfirmed, if_pos hconfirmed, bind_eq_ok] at hwritten
    obtain ⟨segments, hsegments, hrun⟩ := hwritten
    obtain ⟨normalized, _, hnormalized, hchunks, -⟩ := IngestionPipeline.indexSource_eq_ok.mp hrun
    exact h (indexable_of_chunks hkind (mapError_eq_ok.mp hsegments) hnormalized hchunks)
      hconfirmed hordered
  · refine (followsReview_iff (followsTimes_of_indexSourceText hkind hwritten)).mpr ?_
    obtain ⟨segments, normalized, hsegments, hnormalized, hchunks, -⟩ :=
      (indexSourceText_eq_ok hkind).mp hwritten
    exact h (indexable_of_chunks hkind hsegments hnormalized hchunks) hconfirmed hordered

end rows

/-- A meeting in which one utterance is timed and one was added by hand behind it. -/
def handwrittenMeeting : Source Text Text :=
  { Source.new ⟨"s".toList, "w".toList, "o".toList⟩ .meeting "t".toList "p".toList 1 with
    reviewState := some .confirmed
    reviewUtterances :=
      [⟨"u0".toList, none, "A".toList, "a".toList, some 5, some 6⟩,
        ⟨"u1".toList, none, "B".toList, "b".toList, none, none⟩] }

/-- An utterance that was added by hand is indexed in front, at zero. -/
theorem not_indexedAsReviewed_handwritten :
    ¬ IndexedAsReviewed plainDecoder defaultPipeline handwrittenMeeting := by
  intro h
  have hspoken : spoken handwrittenMeeting.reviewUtterances =
      handwrittenMeeting.reviewUtterances := by
    decide
  have htimed := h.timed ⟨rfl, by decide, by decide, ?_⟩ rfl (List.pairwise_singleton _ _)
  · have hlast : (⟨"u1".toList, none, "B".toList, "b".toList, none, none⟩ : Utterance Text) ∈
        spoken handwrittenMeeting.reviewUtterances := by
      rw [hspoken]
      exact List.mem_cons_of_mem _ (List.mem_singleton_self _)
    cases htimed.1 _ hlast
  · intro u hu
    rw [hspoken] at hu
    rcases List.mem_pair.mp hu with rfl | rfl <;> decide

end Maeglagi.Ingestion
