import Maeglagi.Core.FirstWins
import Maeglagi.Sources.Row

/-!
# Keyword search

`search_lexically`: the chunks of usable sources and the text of parsed sources that contain a
term of the question. The BM25+ rank, which computes with floats, is an order that the database
puts the matching rows in.
-/

namespace Maeglagi.Retrieval

open Core

variable {Id H : Type}

/-- The fields of a `Chunk` that a search reads. -/
structure Chunk (Id : Type) where
  id : Id
  workspaceId : Id
  ownerId : Id
  sourceId : Id
  content : Text
  startSeconds : Option PyFloat
  deriving DecidableEq

/-- The tables of sources and chunks. -/
structure Tables (Id H : Type) where
  sources : List (Source Id H)
  chunks : List (Chunk Id)

/-- `LexicalMatch` -/
structure LexicalMatch (Id : Type) where
  sourceId : Id
  chunkId : Option Id
  kind : Text
  title : Text
  text : Text
  timestamp : Option PyFloat
  deriving DecidableEq

/-- The text functions of Python and of the database, and the order of a ranked statement. -/
structure Ranking (Id H : Type) where
  /-- `str.lower` -/
  lower : Text → Text
  /-- `func.lower` -/
  sqlLower : Text → Text
  /-- `ORDER BY rank DESC, created_at DESC, id` among the matching chunks of a corpus -/
  rankChunks : List Text → List (Chunk Id × Source Id H) → List (Chunk Id × Source Id H) →
    List (Chunk Id × Source Id H)
  /-- `ORDER BY rank DESC, created_at DESC, id` among the matching sources of a corpus -/
  rankSources : List Text → List (Source Id H) → List (Source Id H) → List (Source Id H)
  rankChunks_perm : ∀ terms corpus rows, (rankChunks terms corpus rows).Perm rows
  rankSources_perm : ∀ terms corpus rows, (rankSources terms corpus rows).Perm rows

/-- `MAX_TOKENS` -/
def maxTokens : Nat := 8

/-- `MAX_TEXT` -/
def maxText : Nat := 1200

/-- `MAX_RESULTS` -/
def maxResults : Nat := 8

/-- `STOP_WORDS` -/
def stopWords : List Text :=
  ["최근", "어떤", "무엇", "뭐가", "왜", "어떻게", "있나요", "알려줘", "해줘"].map String.toList

/-- `[a-z0-9]` -/
def isLatin (c : Char) : Bool := ('a' ≤ c && c ≤ 'z') || ('0' ≤ c && c ≤ '9')

/-- `[가-힣]` -/
def isHangul (c : Char) : Bool := '가' ≤ c && c ≤ '힣'

/-- `re.findall(r"[a-z0-9]+|[가-힣]+", _)` -/
def words (text : Text) : List Text :=
  (text.splitBy fun a b => isLatin a == isLatin b && isHangul a == isHangul b).filter fun run =>
    run.any fun c => isLatin c || isHangul c

/-- The pairs of neighbours in a word. -/
def pairs (word : Text) : List Text := (word.zip word.tail).map fun p => [p.1, p.2]

/-- `query_terms` -/
def queryTerms (lower : Text → Text) (question : Text) : List Text :=
  let words := (words (lower question)).filter fun word =>
    decide (2 ≤ word.length) && !stopWords.contains word
  let pairs := (words.filter fun word => word.all isHangul && decide (2 < word.length)).flatMap pairs
  (firsts (fun term => term) [] (words ++ pairs)).take maxTokens

/-- `status == SUCCEEDED` and `review_state in (None, CONFIRMED)` -/
def eligible (source : Source Id H) : Bool :=
  source.status == .succeeded &&
    (source.reviewState == none || source.reviewState == some .confirmed)

/-- The value of a source kind. -/
def kindText : SourceKind → Text
  | .document => "document".toList
  | .meeting => "meeting".toList

/-- `or_(*(text.contains(term) for term in terms))` -/
def containsAny (terms : List Text) (text : Text) : Bool :=
  terms.any fun term => decide (term <:+: text)

/-- The text that a source is searched by. -/
def searchedText (source : Source Id H) : Option Text :=
  match source.kind with
  | .meeting => source.transcriptText
  | .document => source.contentText

/-- `source_ready` -/
def sourceReady (source : Source Id H) : Bool :=
  match source.kind with
  | .meeting => source.reviewState == some .confirmed &&
      [ProcessingStage.confirmed, .analyzing, .graphing, .completed].contains source.processingStage
  | .document => [ProcessingStage.analyzing, .graphing, .completed].contains source.processingStage

/-- `func.strpos`: the position of the first occurrence, from one, or zero. -/
def strpos (text term : Text) : Nat :=
  match text.tails.findIdx? (term.isPrefixOf ·) with
  | some i => i + 1
  | none => 0

/-- The text around the first term of the list that the content contains. -/
def excerpt (sqlLower : Text → Text) (terms : List Text) (content : Text) : Text :=
  let position := match terms.find? fun term => decide (term <:+: sqlLower content) with
    | some term => strpos (sqlLower content) term
    | none => 1
  (content.drop (max 1 (position - 100) - 1)).take maxText

variable [DecidableEq Id]

/-- A search of one member's data, optionally within given sources. -/
structure Scope (Id : Type) where
  workspaceId : Id
  ownerId : Id
  sourceIds : Option (List Id)

/-- The source is in the scope. -/
def Scope.has (scope : Scope Id) (source : Source Id H) : Bool :=
  decide (source.workspaceId = scope.workspaceId) && decide (source.ownerId = scope.ownerId) &&
    scope.sourceIds.all fun ids => ids.contains source.id

/-- The chunks of the eligible sources of a scope, with their sources. -/
def chunkCorpus (tables : Tables Id H) (scope : Scope Id) : List (Chunk Id × Source Id H) :=
  tables.chunks.flatMap fun chunk =>
    (tables.sources.filter fun source => decide (chunk.sourceId = source.id) &&
      (scope.has source && eligible source && decide (chunk.workspaceId = scope.workspaceId) &&
        decide (chunk.ownerId = scope.ownerId))).map fun source => (chunk, source)

/-- The parsed sources of a scope, with the text that is searched. -/
def sourceCorpus (tables : Tables Id H) (scope : Scope Id) : List (Source Id H) :=
  tables.sources.filter fun source => scope.has source && sourceReady source &&
    decide (source.status ≠ .awaitingReview) &&
      (searchedText source).any fun content => content.any fun c => decide (c ≠ ' ')

/-- A matching chunk. -/
def chunkMatch (row : Chunk Id × Source Id H) : LexicalMatch Id where
  sourceId := row.1.sourceId
  chunkId := some row.1.id
  kind := kindText row.2.kind
  title := row.2.title
  text := row.1.content.take maxText
  timestamp := row.1.startSeconds

/-- A matching source. -/
def sourceMatch (sqlLower : Text → Text) (terms : List Text) (source : Source Id H) :
    LexicalMatch Id where
  sourceId := source.id
  chunkId := none
  kind := kindText source.kind
  title := source.title
  text := excerpt sqlLower terms ((searchedText source).getD [])
  timestamp := none

/-- The chunks that match. -/
def chunkMatches (ranking : Ranking Id H) (tables : Tables Id H) (scope : Scope Id)
    (terms : List Text) (limit : Nat) : List (LexicalMatch Id) :=
  let corpus := chunkCorpus tables scope
  let rows := corpus.filter fun row => containsAny terms (ranking.sqlLower row.1.content)
  ((ranking.rankChunks terms corpus rows).take limit).map chunkMatch

/-- The sources that match and are not among the represented ones. -/
def sourceMatches (ranking : Ranking Id H) (tables : Tables Id H) (scope : Scope Id)
    (terms : List Text) (represented : List Id) (limit : Nat) : List (LexicalMatch Id) :=
  let corpus := sourceCorpus tables scope
  let rows := corpus.filter fun source =>
    containsAny terms (ranking.sqlLower ((searchedText source).getD [])) &&
      !represented.contains source.id
  ((ranking.rankSources terms corpus rows).take limit).map (sourceMatch ranking.sqlLower terms)

/-- `search_lexically` -/
def searchLexically (ranking : Ranking Id H) (tables : Tables Id H) (scope : Scope Id)
    (question : Text) (limit : Nat) : List (LexicalMatch Id) :=
  let terms := queryTerms ranking.lower question
  if terms = [] ∨ limit = 0 ∨ scope.sourceIds = some [] then []
  else
    let limit := min limit maxResults
    let found := chunkMatches ranking tables scope terms limit
    let parsed := sourceMatches ranking tables scope terms (found.map (·.sourceId))
      (max (limit - found.length) (min limit 2))
    found.take (limit - parsed.length) ++ parsed

/-- A match with a chunk is in an eligible source, and any other one has the text of a source. -/
theorem eligible_of_mem_searchLexically {ranking : Ranking Id H} {tables : Tables Id H}
    {scope : Scope Id} {question : Text} {limit : Nat} {found : LexicalMatch Id}
    (h : found ∈ searchLexically ranking tables scope question limit)
    (hchunk : found.chunkId ≠ none) :
    ∃ source ∈ tables.sources, source.id = found.sourceId ∧ eligible source = true := by
  unfold searchLexically at h
  dsimp only at h
  split_ifs at h
  · exact absurd h List.not_mem_nil
  · rcases List.mem_append.mp h with h | h
    · obtain ⟨row, hrow, rfl⟩ := List.mem_map.mp (List.mem_of_mem_take h)
      have hrow := (ranking.rankChunks_perm ..).mem_iff.mp (List.mem_of_mem_take hrow)
      obtain ⟨chunk, -, hrow⟩ := List.mem_flatMap.mp (List.mem_filter.mp hrow).1
      obtain ⟨source, hsource, rfl⟩ := List.mem_map.mp hrow
      obtain ⟨hmem, hcond⟩ := List.mem_filter.mp hsource
      simp only [Bool.and_eq_true, decide_eq_true_eq] at hcond
      exact ⟨source, hmem, hcond.1.symm, hcond.2.1.1.2⟩
    · obtain ⟨source, -, rfl⟩ := List.mem_map.mp h
      exact absurd rfl hchunk

end Maeglagi.Retrieval
