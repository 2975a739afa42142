import Maeglagi.PlainRuntime
import Maeglagi.Retrieval.Hybrid
import Maeglagi.Sources.Creation

/-!
# The list of evidence

Whatever the searches, the graph and the table of sources answer, the evidence of a retrieval is
numbered from one, bounded, free of repetitions, and its chunks are those of eligible sources.
-/

namespace Maeglagi.Retrieval

open Core Answer

variable {Id H : Type}

/-- Evidence that citations can be checked against. -/
structure EvidenceList (usable : Id → Prop) (limit : Nat) (evidence : List (Evidence Id)) :
    Prop where
  numbered : evidence.map (fun item => item.source.index) = List.range' 1 evidence.length
  bounded : evidence.length ≤ limit
  distinct : (evidence.map evidenceKey).Nodup
  chunks : ∀ item ∈ evidence, item.source.chunkId ≠ none → usable item.source.sourceId

/-- There is an eligible source under the id. -/
def EligibleSource (tables : Tables Id H) (id : Id) : Prop :=
  ∃ source ∈ tables.sources, source.id = id ∧ eligible source = true

section numbered

variable {α : Type}

/-- A part of the items that does not depend on their position. -/
theorem map_mapIdx_of_const {β γ : Type} {f : Nat → α → β} {g : β → γ} {h : α → γ}
    (hconst : ∀ i a, g (f i a) = h a) (l : List α) : (l.mapIdx f).map g = l.map h := by
  apply List.ext_getElem?
  intro i
  simp only [List.getElem?_map, List.getElem?_mapIdx, Option.map_map]
  exact congrArg (fun part => Option.map part l[i]?) (funext fun a => hconst i a)

/-- A part of the items that is their position from one. -/
theorem map_mapIdx_of_index {β : Type} {f : Nat → α → β} {g : β → Nat}
    (hindex : ∀ i a, g (f i a) = i + 1) (l : List α) :
    (l.mapIdx f).map g = List.range' 1 (l.mapIdx f).length := by
  apply List.ext_getElem
  · simp
  · intro i _ _
    rw [List.getElem_map, List.getElem_mapIdx, hindex, List.getElem_range', Nat.one_mul,
      Nat.add_comm]

theorem map_key_numbered (evidence : List (Evidence Id)) :
    (numbered evidence).map evidenceKey = evidence.map evidenceKey := by
  unfold numbered
  apply map_mapIdx_of_const
  exact fun _ _ => rfl

theorem map_index_numbered (evidence : List (Evidence Id)) :
    (numbered evidence).map (fun item => item.source.index) =
      List.range' 1 (numbered evidence).length := by
  unfold numbered
  apply map_mapIdx_of_index
  exact fun _ _ => rfl

theorem length_numbered (evidence : List (Evidence Id)) :
    (numbered evidence).length = evidence.length := List.length_mapIdx

end numbered

section vector

variable {sources : Id → Option (Source Id H)} {chunks : List (Chunk Id)}

/-- The key of the evidence of a chunk. -/
def chunkKey (chunk : Chunk Id) : Id × Option Id := (chunk.sourceId, some chunk.id)

/-- Vector evidence is about the chunks whose source is there, in their order. -/
theorem map_key_vectorEvidence (sources : Id → Option (Source Id H)) (chunks : List (Chunk Id)) :
    (vectorEvidence sources chunks).map evidenceKey =
      (chunks.filter fun chunk => (sources chunk.sourceId).isSome).map chunkKey := by
  have hrows : ∀ rows : List (Chunk Id × Source Id H),
      (rows.mapIdx fun i row => chunkEvidence (i + 1) row.1 row.2).map evidenceKey =
        rows.map fun row => chunkKey row.1 := by
    intro rows
    apply map_mapIdx_of_const
    exact fun _ _ => rfl
  rw [vectorEvidence, hrows]
  induction chunks with
  | nil => rfl
  | cons chunk chunks ih =>
    rw [List.filterMap_cons, List.filter_cons]
    cases sources chunk.sourceId with
    | none => exact ih
    | some source => exact congrArg (chunkKey chunk :: ·) ih

theorem length_vectorEvidence (sources : Id → Option (Source Id H)) (chunks : List (Chunk Id)) :
    (vectorEvidence sources chunks).length =
      (chunks.filter fun chunk => (sources chunk.sourceId).isSome).length := by
  have hkeys := congrArg List.length (map_key_vectorEvidence sources chunks)
  rwa [List.length_map, List.length_map] at hkeys

theorem map_index_vectorEvidence (sources : Id → Option (Source Id H)) (chunks : List (Chunk Id)) :
    (vectorEvidence sources chunks).map (fun item => item.source.index) =
      List.range' 1 (vectorEvidence sources chunks).length := by
  unfold vectorEvidence
  apply map_mapIdx_of_index
  exact fun _ _ => rfl

end vector

variable [DecidableEq Id]

theorem nodup_ordered (limit : Nat) (hits : List (Chunk Id)) :
    ((ordered limit hits).map Chunk.id).Nodup :=
  ((List.take_sublist _ _).map _).nodup (nodup_map_firsts Chunk.id [] hits)

/-- The keys of keyword evidence are distinct, and new beside the vector evidence. -/
theorem nodup_append_lexicalEvidence {evidence : List (Evidence Id)}
    (h : (evidence.map evidenceKey).Nodup) (found : List (LexicalMatch Id)) :
    ((evidence ++ lexicalEvidence evidence found).map evidenceKey).Nodup := by
  have hperm : ((lexicalEvidence evidence found).map evidenceKey).Perm
      ((firsts matchKey (evidence.map evidenceKey)
        (found.filter fun found => decide (strip found.text ≠ []))).map matchKey) := by
    have hsorted := (List.perm_insertionSort (fun a b : Evidence Id =>
      a.source.chunkId.isSome ≤ b.source.chunkId.isSome) ((firsts matchKey
        (evidence.map evidenceKey) (found.filter fun found => decide (strip found.text ≠ []))).map
          matchEvidence)).map evidenceKey
    rwa [List.map_map] at hsorted
  rw [List.map_append, List.nodup_append]
  refine ⟨h, hperm.nodup_iff.mpr (nodup_map_firsts ..), ?_⟩
  rintro key hkey key' hkey' rfl
  obtain ⟨found, hfound, rfl⟩ := List.mem_map.mp (hperm.mem_iff.mp hkey')
  exact notMem_of_mem_firsts hfound hkey

omit [DecidableEq Id] in
/-- Merging orders what it keeps of the two lists. -/
theorem exists_merged (limit : Nat) (evidence lexical : List (Evidence Id)) :
    ∃ all : List (Evidence Id), all.Perm (evidence ++ lexical) ∧
      merged limit evidence lexical = numbered (all.take limit) := by
  refine ⟨lexical.take (min 2 limit) ++ evidence ++
    lexical.drop (lexical.take (min 2 limit)).length, ?_, rfl⟩
  have hsplit : lexical.take (min 2 limit) ++ lexical.drop (lexical.take (min 2 limit)).length =
      lexical := by
    rw [List.length_take]
    rcases Nat.le_total (min 2 limit) lexical.length with hle | hle
    · rw [Nat.min_eq_left hle, List.take_append_drop]
    · rw [Nat.min_eq_right hle, List.take_of_length_le hle, List.drop_length, List.append_nil]
  calc (lexical.take (min 2 limit) ++ evidence ++
        lexical.drop (lexical.take (min 2 limit)).length).Perm
        (evidence ++ lexical.take (min 2 limit) ++
          lexical.drop (lexical.take (min 2 limit)).length) :=
        List.perm_append_comm.append_right _
    _ = evidence ++ lexical := by rw [List.append_assoc, hsplit]

/-- What a retriever reads its sources and its keyword hits from. -/
structure HybridRetriever.Over (r : HybridRetriever Id H) (ranking : Ranking Id H)
    (tables : Tables Id H) : Prop where
  loads : ∀ ids loaded, r.loadSources ids = .ok loaded → ∀ id source,
    loaded.get? id = some source → source ∈ tables.sources ∧ source.id = id
  searches : ∀ search, r.lexicalSearch = some search → ∀ question ids limit found,
    search question ids limit = .ok found → ∃ workspaceId ownerId,
      found = searchLexically ranking tables ⟨workspaceId, ownerId, ids⟩ question limit

section retrieve

variable {r : HybridRetriever Id H} {ranking : Ranking Id H} {tables : Tables Id H}

/-- The sources that vector evidence is made of are eligible. -/
theorem HybridRetriever.Over.eligible_of_usable (h : r.Over ranking tables)
    {chunks : List (Chunk Id)} {sources : Dict Id (Source Id H)}
    (hsources : r.sources chunks = .ok sources) (id : Id) (hid : (usable sources id).isSome = true) :
    EligibleSource tables id := by
  obtain ⟨source, hsource⟩ := Option.isSome_iff_exists.mp hid
  obtain ⟨hget, heligible⟩ := Option.filter_eq_some_iff.mp hsource
  cases chunks with
  | nil =>
    cases hsources
    cases hget
  | cons chunk chunks =>
    obtain ⟨hmem, hsame⟩ := h.loads _ _ hsources id source hget
    exact ⟨source, hmem, hsame, heligible⟩

/-- Vector evidence is a list of evidence. -/
theorem evidenceList_vector {p : Id → Prop} {sources : Id → Option (Source Id H)}
    (limit : Nat) (hits : List (Chunk Id))
    (hsources : ∀ id, (sources id).isSome = true → p id) :
    EvidenceList p limit (vectorEvidence sources (ordered limit hits)) := by
  refine ⟨map_index_vectorEvidence .., ?_, ?_, fun item hitem _ => ?_⟩
  · rw [length_vectorEvidence]
    exact (List.length_filter_le ..).trans (List.length_take_le ..)
  · rw [map_key_vectorEvidence]
    have hkeys : ((ordered limit hits).map chunkKey).Nodup := by
      refine List.Nodup.of_map Prod.snd ?_
      rw [List.map_map]
      exact (List.map_map (g := some) (f := Chunk.id) ▸
        (nodup_ordered limit hits).map (Option.some_injective _))
    exact (List.filter_sublist.map _).nodup hkeys
  · have hkey : evidenceKey item ∈ (vectorEvidence sources (ordered limit hits)).map evidenceKey :=
      List.mem_map_of_mem hitem
    rw [map_key_vectorEvidence] at hkey
    obtain ⟨chunk, hchunk, heq⟩ := List.mem_map.mp hkey
    have hsource : chunk.sourceId = item.source.sourceId := congrArg Prod.fst heq
    exact hsources _ (hsource ▸ (List.mem_filter.mp hchunk).2)

/-- Merging keyword evidence into a list of evidence gives one. -/
theorem EvidenceList.merged {p : Id → Prop} {limit : Nat} {evidence : List (Evidence Id)}
    (h : EvidenceList p limit evidence) {found : List (LexicalMatch Id)}
    (hfound : ∀ hit ∈ found, hit.chunkId ≠ none → p hit.sourceId) :
    EvidenceList p limit (merged limit evidence (lexicalEvidence evidence found)) := by
  obtain ⟨all, hperm, hall⟩ := exists_merged limit evidence (lexicalEvidence evidence found)
  rw [hall]
  refine ⟨map_index_numbered _, ?_, ?_, fun item hitem hchunk => ?_⟩
  · rw [length_numbered]
    exact List.length_take_le ..
  · rw [map_key_numbered]
    refine ((List.take_sublist ..).map _).nodup ?_
    exact (hperm.map evidenceKey).nodup_iff.mpr (nodup_append_lexicalEvidence h.distinct found)
  · have hkey : evidenceKey item ∈ (evidence ++ lexicalEvidence evidence found).map evidenceKey := by
      refine (hperm.map evidenceKey).mem_iff.mp ?_
      refine ((List.take_sublist limit all).map _).subset ?_
      rw [← map_key_numbered]
      exact List.mem_map_of_mem hitem
    obtain ⟨item', hitem', heq⟩ := List.mem_map.mp hkey
    have hsource : item'.source.sourceId = item.source.sourceId := congrArg Prod.fst heq
    have hsame : item'.source.chunkId = item.source.chunkId := congrArg Prod.snd heq
    rw [← hsource]
    rw [← hsame] at hchunk
    rcases List.mem_append.mp hitem' with hmem | hmem
    · exact h.chunks item' hmem hchunk
    · obtain ⟨hit, hhit, rfl⟩ := List.mem_map.mp (mem_sortBy.mp hmem)
      exact hfound hit (List.mem_filter.mp (mem_of_mem_firsts hhit)).1 hchunk

omit [DecidableEq Id] in
theorem keywordMatches_searched {search : Text → Option (List Id) → Nat →
      Except RetrieveError (List (LexicalMatch Id))} {question : Text} {graphSources : List Id}
    {limit : Nat} {found : List (LexicalMatch Id)} {p : LexicalMatch Id → Prop}
    (hsearch : ∀ ids found, search question ids limit = .ok found → ∀ hit ∈ found, p hit)
    (h : keywordMatches search question graphSources limit = .ok found) :
    ∀ hit ∈ found, p hit := by
  obtain ⟨plain, hplain, h⟩ := bind_eq_ok.mp h
  obtain ⟨inGraph, hgraph, h⟩ := bind_eq_ok.mp h
  cases h
  intro hit hmem
  rcases List.mem_append.mp hmem with hmem | hmem
  · exact hsearch _ _ hplain hit hmem
  · cases graphSources with
    | nil =>
      cases hgraph
      exact absurd hmem List.not_mem_nil
    | cons id ids => exact hsearch _ _ hgraph hit hmem

/-- The evidence of a retrieval is numbered from one without a gap, has no more pieces than it
may have and none twice, and its chunks are those of sources that have succeeded and wait for no
review. -/
theorem evidence_invariant {rt : Runtime Id} {parseId : Text → Option Id} {workspaceId : Id}
    {question : Text} {now : Instant} {result : Retrieved Id} (hover : r.Over ranking tables)
    (h : r.retrieve rt parseId workspaceId question now = .ok result) :
    EvidenceList (EligibleSource tables) r.maxEvidence result.evidence := by
  obtain ⟨embedding, -, h⟩ := bind_eq_ok.mp h
  obtain ⟨hits, -, h⟩ := bind_eq_ok.mp h
  obtain ⟨sources, hsources, h⟩ := bind_eq_ok.mp h
  have hvector := evidenceList_vector r.maxEvidence hits (hover.eligible_of_usable hsources)
  cases hsearch : r.lexicalSearch with
  | none =>
    rw [hsearch] at h
    cases h
    exact hvector
  | some search =>
    rw [hsearch] at h
    obtain ⟨found, hfound, h⟩ := bind_eq_ok.mp h
    cases h
    refine hvector.merged (keywordMatches_searched (fun ids found hfound hit hmem => ?_) hfound)
    obtain ⟨_, _, rfl⟩ := hover.searches search hsearch _ _ _ _ hfound
    exact eligible_of_mem_searchLexically hmem

end retrieve

theorem mem_of_get?_loadSources {tables : Tables Id H} {workspaceId ownerId : Id} {ids : List Id}
    {id : Id} {source : Source Id H}
    (h : (loadSources tables workspaceId ownerId ids).get? id = some source) :
    source ∈ tables.sources ∧ source.id = id := by
  obtain ⟨hid, hmem⟩ := Dict.get?_collect.mp h
  exact ⟨(List.mem_filter.mp (mem_of_mem_lasts hmem)).1, hid⟩

/-- A parsed document. -/
def plainDocument (id : String) (status : SourceStatus) : Source Text Unit :=
  { Source.new ⟨id.toList, "w".toList, "u".toList⟩ .document "notes".toList [] 1 with
    contentText := some "cache plan".toList, status, processingStage := .completed }

/-- A chunk of a document. -/
def plainChunk (id sourceId : String) : Chunk Text :=
  ⟨id.toList, "w".toList, "u".toList, sourceId.toList, "cache plan".toList, none⟩

/-- A ranking that keeps the order of the tables. -/
def plainRanking : Ranking Text Unit where
  lower text := text.map Char.toLower
  sqlLower text := text.map Char.toLower
  rankChunks _ _ rows := rows
  rankSources _ _ rows := rows
  rankChunks_perm _ _ _ := List.Perm.refl _
  rankSources_perm _ _ _ := List.Perm.refl _

/-- A retriever over tables whose vector searches find the given chunks. -/
def plainRetriever (tables : Tables Text Unit) (hits : List (Chunk Text)) (maxEvidence : Nat) :
    HybridRetriever Text Unit where
  embed _ := .ok []
  search _ _ _ := .ok (hits.map fun chunk => (chunk, .finite 0))
  loadSources ids := .ok (loadSources tables "w".toList "u".toList ids)
  graph := none
  lexicalSearch := some fun question ids limit =>
    .ok (searchLexically plainRanking tables ⟨"w".toList, "u".toList, ids⟩ question limit)
  vectorLimit := 6
  graphLimit := 4
  maxEvidence

theorem over_plainRetriever (tables : Tables Text Unit) (hits : List (Chunk Text)) (limit : Nat) :
    (plainRetriever tables hits limit).Over plainRanking tables := by
  refine ⟨?_, ?_⟩
  · rintro ids loaded hloaded id source hget
    cases hloaded
    exact mem_of_get?_loadSources hget
  · rintro search hsearch question ids limit' found hfound
    cases hsearch
    cases hfound
    exact ⟨_, _, rfl⟩

/-- A succeeded document with a chunk, and one that is being processed with another. -/
def plainTables : Tables Text Unit :=
  ⟨[plainDocument "a" .succeeded, plainDocument "b" .processing],
    [plainChunk "c" "a", plainChunk "d" "b"]⟩

/-- Of three hits one chunk is evidence; the document that is being processed is found by its
text. -/
theorem evidence_invariant_plain : ∃ result,
    (plainRetriever plainTables [plainChunk "d" "b", plainChunk "c" "a", plainChunk "c" "a"]
      8).retrieve plainRuntime some "w".toList "cache?".toList (instantAt 0) = .ok result ∧
    result.evidence.map evidenceKey = [("b".toList, none), ("a".toList, some "c".toList)] ∧
    EvidenceList (EligibleSource plainTables) 8 result.evidence := by
  have hretrieved : (plainRetriever plainTables
      [plainChunk "d" "b", plainChunk "c" "a", plainChunk "c" "a"] 8).retrieve plainRuntime some
        "w".toList "cache?".toList (instantAt 0) = .ok _ := rfl
  exact ⟨_, hretrieved, by decide +kernel,
    evidence_invariant (over_plainRetriever ..) hretrieved⟩

end Maeglagi.Retrieval
