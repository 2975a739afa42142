import Maeglagi.Retrieval.Evidence

/-!
# Hits that crowd out others

The different hits are cut to the size of the list before those of sources that are not eligible
are left out. So a hit of an eligible source is lost behind them exactly when it is not among the
first ones, and these do not fill the list.
-/

namespace Maeglagi.Retrieval

open Core Answer

variable {Id H : Type}

/-- The source of the hit is there and eligible. -/
def EligibleHit (states : Dict Id (Source Id H)) [DecidableEq Id] (chunk : Chunk Id) : Prop :=
  (usable states chunk.sourceId).isSome = true

variable [DecidableEq Id]

/-- The retriever reads the states of the sources. -/
def HybridRetriever.Loads (r : HybridRetriever Id H) (states : Dict Id (Source Id H)) : Prop :=
  ∀ ids loaded, r.loadSources ids = .ok loaded → ∀ id ∈ ids, loaded.get? id = states.get? id

/-- The vector searches of the retrieval find the hits. -/
def HybridRetriever.Finds (r : HybridRetriever Id H) (rt : Runtime Id)
    (parseId : Text → Option Id) (workspaceId : Id) (question : Text) (now : Instant)
    (hits : List (Chunk Id)) : Prop :=
  ∃ embedding, r.embedding question = .ok embedding ∧
    r.hits embedding (r.graphSources rt parseId workspaceId question now).sources = .ok hits

/-- A keyword search of the retriever finds something with the key. -/
def HybridRetriever.FindsKeyword (r : HybridRetriever Id H) (question : Text)
    (key : Id × Option Id) : Prop :=
  ∃ search ids found, r.lexicalSearch = some search ∧
    search question ids r.maxEvidence = .ok found ∧ key ∈ found.map matchKey

/-- Every hit of an eligible source is in the evidence, unless the list is full of eligible hits
ranked ahead of it, with up to two keyword citations in front. -/
def NotCrowdedOut (r : HybridRetriever Id H) (states : Dict Id (Source Id H)) (question : Text)
    (hits : List (Chunk Id)) (keys : List (Id × Option Id)) : Prop :=
  ∀ before chunk after, firsts Chunk.id [] hits = before ++ chunk :: after →
    EligibleHit states chunk → chunkKey chunk ∈ keys ∨
      keys.length = r.maxEvidence ∧ ∀ key ∈ keys,
        (∃ ahead ∈ before, EligibleHit states ahead ∧ chunkKey ahead = key) ∨
          key ∈ keys.take 2 ∧ r.FindsKeyword question key

section result

variable {r : HybridRetriever Id H} {states : Dict Id (Source Id H)} {rt : Runtime Id}
  {parseId : Text → Option Id} {workspaceId : Id} {question : Text} {now : Instant}
  {hits : List (Chunk Id)} {result : Retrieved Id}

/-- The hits of the vector evidence. -/
def kept (states : Dict Id (Source Id H)) (limit : Nat) (hits : List (Chunk Id)) :
    List (Chunk Id) :=
  (ordered limit hits).filter fun chunk => (usable states chunk.sourceId).isSome

theorem mem_kept {limit : Nat} {chunk : Chunk Id} : chunk ∈ kept states limit hits ↔
    chunk ∈ ordered limit hits ∧ EligibleHit states chunk := List.mem_filter

/-- The loaded sources tell which of the loaded chunks are kept. -/
theorem filter_loaded (hloads : r.Loads states) {chunks : List (Chunk Id)}
    {sources : Dict Id (Source Id H)} (hsources : r.sources chunks = .ok sources) :
    (chunks.filter fun chunk => (usable sources chunk.sourceId).isSome) =
      chunks.filter fun chunk => (usable states chunk.sourceId).isSome := by
  cases chunks with
  | nil => rfl
  | cons chunk chunks =>
    refine List.filter_congr fun chunk' hmem => ?_
    have hid : chunk'.sourceId ∈ ((chunk :: chunks).map Chunk.sourceId).eraseDups :=
      List.mem_eraseDups.mpr (List.mem_map_of_mem hmem)
    rw [usable, usable, hloads _ _ hsources _ hid]

/-- The evidence is the kept hits, with keyword citations in front and behind. -/
theorem keys_retrieve (hloads : r.Loads states)
    (hfinds : r.Finds rt parseId workspaceId question now hits)
    (h : r.retrieve rt parseId workspaceId question now = .ok result) :
    ∃ leading rest : List (Id × Option Id), leading.length ≤ min 2 r.maxEvidence ∧
      (∀ key ∈ leading, r.FindsKeyword question key) ∧
      result.evidence.map evidenceKey = (leading ++
        ((kept states r.maxEvidence hits).map chunkKey ++ rest)).take r.maxEvidence ∧
      (r.lexicalSearch = none → leading = [] ∧ rest = []) := by
  obtain ⟨embedding, hembedding, hhits⟩ := hfinds
  obtain ⟨embedding', hembedding', h⟩ := bind_eq_ok.mp h
  cases hembedding.symm.trans hembedding'
  obtain ⟨hits', hhits', h⟩ := bind_eq_ok.mp h
  cases hhits.symm.trans hhits'
  obtain ⟨sources, hsources, h⟩ := bind_eq_ok.mp h
  have hvector : (vectorEvidence (usable sources) (ordered r.maxEvidence hits)).map evidenceKey =
      (kept states r.maxEvidence hits).map chunkKey := by
    rw [map_key_vectorEvidence, filter_loaded hloads hsources, kept]
  have hlength : (kept states r.maxEvidence hits).length ≤ r.maxEvidence :=
    (List.length_filter_le ..).trans (List.length_take_le ..)
  cases hsearch : r.lexicalSearch with
  | none =>
    rw [hsearch] at h
    cases h
    refine ⟨[], [], Nat.zero_le _, nofun, ?_, fun _ => ⟨rfl, rfl⟩⟩
    rw [hvector, List.nil_append, List.append_nil, List.take_of_length_le]
    rwa [List.length_map]
  | some search =>
    rw [hsearch] at h
    obtain ⟨found, hfound, h⟩ := bind_eq_ok.mp h
    cases h
    generalize hlexical : lexicalEvidence
      (vectorEvidence (usable sources) (ordered r.maxEvidence hits)) found = lexical
    have hkeyword : ∀ hit ∈ found, r.FindsKeyword question (matchKey hit) :=
      keywordMatches_searched (fun ids found hfound hit hmem =>
        ⟨search, ids, found, hsearch, hfound, List.mem_map_of_mem hmem⟩) hfound
    refine ⟨(lexical.take (min 2 r.maxEvidence)).map evidenceKey,
      (lexical.drop (lexical.take (min 2 r.maxEvidence)).length).map evidenceKey, ?_, ?_, ?_, nofun⟩
    · rw [List.length_map]
      exact List.length_take_le ..
    · rintro key hkey
      obtain ⟨item, hitem, rfl⟩ := List.mem_map.mp hkey
      have hmem := List.mem_of_mem_take hitem
      rw [← hlexical] at hmem
      obtain ⟨hit, hhit, rfl⟩ := List.mem_map.mp (mem_sortBy.mp hmem)
      exact hkeyword hit (List.mem_filter.mp (mem_of_mem_firsts hhit)).1
    · rw [merged, map_key_numbered, List.map_take, List.map_append, List.map_append, hvector,
        List.append_assoc]

end result

/-- Behind the kept hits `front` and at most two keyword citations comes the first of `back`,
unless those fill the list. -/
theorem mem_or_full {r : HybridRetriever Id H} {states : Dict Id (Source Id H)} {question : Text}
    {leading rest : List (Id × Option Id)} {front back before : List (Chunk Id)}
    {chunk : Chunk Id} (hlength : leading.length ≤ min 2 r.maxEvidence)
    (hleading : ∀ key ∈ leading, r.FindsKeyword question key)
    (hfront : ∀ ahead ∈ front, ahead ∈ before ∧ EligibleHit states ahead)
    (hback : r.maxEvidence ≤ leading.length + front.length ∨ back.head? = some chunk) :
    let keys := (leading ++ ((front ++ back).map chunkKey ++ rest)).take r.maxEvidence
    chunkKey chunk ∈ keys ∨ keys.length = r.maxEvidence ∧ ∀ key ∈ keys,
      (∃ ahead ∈ before, EligibleHit states ahead ∧ chunkKey ahead = key) ∨
        key ∈ keys.take 2 ∧ r.FindsKeyword question key := by
  intro keys
  have hsplit : keys = (leading ++ front.map chunkKey ++ (back.map chunkKey ++ rest)).take
      r.maxEvidence := by
    simp only [keys, List.map_append, List.append_assoc]
  by_cases hfull : r.maxEvidence ≤ leading.length + front.length
  · have hkeys : keys = (leading ++ front.map chunkKey).take r.maxEvidence := by
      rw [hsplit, List.take_append_of_le_length]
      rwa [List.length_append, List.length_map]
    refine .inr ⟨?_, fun key hkey => ?_⟩
    · rw [hkeys, List.length_take, List.length_append, List.length_map, Nat.min_eq_left hfull]
    · rw [hkeys] at hkey
      rcases List.mem_append.mp (List.mem_of_mem_take hkey) with hmem | hmem
      · refine .inr ⟨?_, hleading key hmem⟩
        have htake : keys.take 2 = leading ++ (front.map chunkKey).take
            (min 2 r.maxEvidence - leading.length) := by
          rw [hkeys, List.take_take, List.take_append, List.take_of_length_le hlength]
        rw [htake]
        exact List.mem_append_left _ hmem
      · obtain ⟨ahead, hahead, rfl⟩ := List.mem_map.mp hmem
        exact .inl ⟨ahead, (hfront ahead hahead).1, (hfront ahead hahead).2, rfl⟩
  · have hhead := hback.resolve_left hfull
    refine .inl ?_
    rw [hsplit, List.take_append, List.mem_append, List.length_append, List.length_map]
    obtain ⟨m, hm⟩ : ∃ m, r.maxEvidence - (leading.length + front.length) = m + 1 :=
      ⟨r.maxEvidence - (leading.length + front.length) - 1, by omega⟩
    obtain ⟨tail, rfl⟩ : ∃ tail, back = chunk :: tail := by
      cases back with
      | nil => cases hhead
      | cons c tail => exact ⟨tail, by rw [Option.some.inj hhead]⟩
    rw [hm, List.map_cons, List.cons_append, List.take_succ_cons]
    exact .inr (List.mem_cons_self ..)

/-- Among the different hits of a retrieval none of an eligible source stands behind the first
`limit` ones, or these are all of eligible sources. -/
def Uncrowded (states : Dict Id (Source Id H)) (limit : Nat) (hits : List (Chunk Id)) : Prop :=
  (∀ chunk ∈ (firsts Chunk.id [] hits).drop limit, ¬EligibleHit states chunk) ∨
    ∀ chunk ∈ (firsts Chunk.id [] hits).take limit, EligibleHit states chunk

theorem notCrowdedOut_of_uncrowded {r : HybridRetriever Id H} {states : Dict Id (Source Id H)}
    {rt : Runtime Id} {parseId : Text → Option Id} {workspaceId : Id} {question : Text}
    {now : Instant} {hits : List (Chunk Id)} {result : Retrieved Id}
    (huncrowded : Uncrowded states r.maxEvidence hits) (hloads : r.Loads states)
    (hfinds : r.Finds rt parseId workspaceId question now hits)
    (h : r.retrieve rt parseId workspaceId question now = .ok result) :
    NotCrowdedOut r states question hits (result.evidence.map evidenceKey) := by
  obtain ⟨leading, rest, hlength, hleading, hkeys, -⟩ := keys_retrieve hloads hfinds h
  rintro before chunk after hsplit heligible
  rw [hkeys]
  have hkept : kept states r.maxEvidence hits = ((before ++ chunk :: after).take
      r.maxEvidence).filter fun chunk => (usable states chunk.sourceId).isSome := by
    rw [kept, ordered, hsplit]
  by_cases hlast : before.length < r.maxEvidence
  · -- the hit is not cut off
    obtain ⟨m, hm⟩ : ∃ m, r.maxEvidence - before.length = m + 1 :=
      ⟨r.maxEvidence - before.length - 1, by omega⟩
    rw [List.take_append, List.take_of_length_le (Nat.le_of_lt hlast), hm, List.take_succ_cons,
      List.filter_append] at hkept
    rw [hkept]
    refine mem_or_full hlength hleading (fun ahead hahead => List.mem_filter.mp hahead) (.inr ?_)
    rw [List.filter_cons, if_pos (show (usable states chunk.sourceId).isSome = true from heligible)]
    rfl
  · rw [Nat.not_lt] at hlast
    -- the first hits are of eligible sources, so they fill the list
    have hall := huncrowded.resolve_left fun hnone => by
      refine hnone chunk ?_ heligible
      rw [hsplit, List.drop_append_of_le_length hlast]
      exact List.mem_append_right _ (List.mem_cons_self ..)
    have hfirst : kept states r.maxEvidence hits = before.take r.maxEvidence := by
      rw [hsplit, List.take_append_of_le_length hlast] at hall
      rw [hkept, List.take_append_of_le_length hlast]
      exact List.filter_eq_self.mpr hall
    rw [hfirst, ← List.append_nil (before.take r.maxEvidence)]
    refine mem_or_full hlength hleading (fun ahead hahead => ⟨List.mem_of_mem_take hahead, ?_⟩)
      (.inl ?_)
    · exact (mem_kept.mp (hfirst ▸ hahead)).2
    · rw [List.length_take, Nat.min_eq_left hlast]
      exact Nat.le_add_left ..

/-- A retriever whose vector search finds the hits, without a graph and without keywords. -/
def hitRetriever (states : Dict Id (Source Id H)) (limit : Nat) (hits : List (Chunk Id)) :
    HybridRetriever Id H where
  embed _ := .ok []
  search _ _ _ := .ok (hits.map fun chunk => (chunk, .finite 0))
  loadSources _ := .ok states
  graph := none
  lexicalSearch := none
  vectorLimit := limit
  graphLimit := limit
  maxEvidence := limit

section hits

variable {states : Dict Id (Source Id H)} {limit : Nat} {hits : List (Chunk Id)} {rt : Runtime Id}
  {parseId : Text → Option Id} {workspaceId : Id} {question : Text} {now : Instant}

theorem loads_hitRetriever : (hitRetriever states limit hits).Loads states := by
  rintro ids loaded hloaded id -
  cases hloaded
  rfl

omit [DecidableEq Id] in
theorem finds_hitRetriever :
    (hitRetriever states limit hits).Finds rt parseId workspaceId question now hits := by
  refine ⟨some [], rfl, ?_⟩
  show Except.ok (((hits.map fun chunk => (chunk, PyFloat.finite 0)) ++ []).map Prod.fst) = _
  rw [List.append_nil, List.map_map]
  exact congrArg Except.ok (List.map_id' hits)

/-- Such a retriever gives the kept hits. -/
theorem retrieve_hitRetriever
    (hfinds : (hitRetriever states limit hits).Finds rt parseId workspaceId question now hits) :
    ∃ result, (hitRetriever states limit hits).retrieve rt parseId workspaceId question now =
      .ok result ∧ result.evidence.map evidenceKey = (kept states limit hits).map chunkKey := by
  obtain ⟨sources, hsources⟩ : ∃ sources,
      (hitRetriever states limit hits).sources (ordered limit hits) = .ok sources := by
    cases ordered limit hits with
    | nil => exact ⟨_, rfl⟩
    | cons chunk chunks => exact ⟨_, rfl⟩
  obtain ⟨embedding, hembedding, hhits⟩ := hfinds
  refine ⟨_, bind_eq_ok.mpr ⟨embedding, hembedding, bind_eq_ok.mpr ⟨hits, hhits,
    bind_eq_ok.mpr ⟨sources, hsources, rfl⟩⟩⟩, ?_⟩
  show (vectorEvidence (usable sources) (ordered limit hits)).map evidenceKey = _
  rw [map_key_vectorEvidence, filter_loaded loads_hitRetriever hsources, kept]

/-- A hit that a retrieval by vectors alone has crowded out. -/
theorem uncrowded_of_notCrowdedOut
    (h : NotCrowdedOut (hitRetriever states limit hits) states question hits
      ((kept states limit hits).map chunkKey)) : Uncrowded states limit hits := by
  by_contra hcrowded
  obtain ⟨hbehind, hnotAll⟩ := not_or.mp hcrowded
  push Not at hbehind
  obtain ⟨chunk, hchunk, heligible⟩ := hbehind
  obtain ⟨front, after, hdrop⟩ := List.append_of_mem hchunk
  have hsplit : firsts Chunk.id [] hits =
      ((firsts Chunk.id [] hits).take limit ++ front) ++ chunk :: after := by
    rw [List.append_assoc, ← hdrop, List.take_append_drop]
  rcases h _ _ _ hsplit heligible with hmem | ⟨hfull, -⟩
  · -- the hits are distinct, so one behind the first ones is none of them
    obtain ⟨chunk', hchunk', hkey⟩ := List.mem_map.mp hmem
    have hid : chunk'.id = chunk.id := Option.some.inj (congrArg Prod.snd hkey)
    have hnodup := nodup_map_firsts Chunk.id [] hits
    rw [hsplit, List.map_append, List.nodup_append] at hnodup
    refine hnodup.2.2 chunk'.id ?_ chunk.id (List.mem_map_of_mem (List.mem_cons_self ..)) hid
    exact List.mem_map_of_mem (List.mem_append_left _ (mem_kept.mp hchunk').1)
  · refine hnotAll fun ahead hahead => ?_
    have hlength : (kept states limit hits).length = (ordered limit hits).length := by
      refine Nat.le_antisymm (List.length_filter_le ..) ?_
      rw [List.length_map] at hfull
      exact (List.length_take_le ..).trans (Nat.le_of_eq hfull.symm)
    exact List.length_filter_eq_length_iff.mp hlength ahead hahead

end hits

/-- Whatever the keyword search finds, no hit of an eligible source is crowded out exactly when
none of them stands behind the first different hits or these are all of eligible sources. -/
theorem not_crowded_out_iff (rt : Runtime Id) (parseId : Text → Option Id) (workspaceId : Id)
    (question : Text) (now : Instant) (states : Dict Id (Source Id H)) (limit : Nat)
    (hits : List (Chunk Id)) :
    (∀ (r : HybridRetriever Id H) (result : Retrieved Id), r.maxEvidence = limit →
      r.Loads states → r.Finds rt parseId workspaceId question now hits →
      r.retrieve rt parseId workspaceId question now = .ok result →
      NotCrowdedOut r states question hits (result.evidence.map evidenceKey)) ↔
    Uncrowded states limit hits := by
  constructor
  · intro h
    have hfinds : (hitRetriever states limit hits).Finds rt parseId workspaceId question now hits :=
      finds_hitRetriever
    obtain ⟨result, hretrieved, hkeys⟩ := retrieve_hitRetriever hfinds
    have hnot := h _ result rfl loads_hitRetriever hfinds hretrieved
    rw [hkeys] at hnot
    exact uncrowded_of_notCrowdedOut hnot
  · rintro huncrowded r result rfl hloads hfinds h
    exact notCrowdedOut_of_uncrowded huncrowded hloads hfinds h

/-- Which source is loaded under an id does not depend on the other ids asked for. -/
theorem get?_loadSources {tables : Tables Id H} {workspaceId ownerId : Id} {ids : List Id}
    {id : Id} {source : Source Id H} (hid : id ∈ ids) :
    (loadSources tables workspaceId ownerId ids).get? id = some source ↔
      source.id = id ∧ source ∈ lasts (·.id) (tables.sources.filter fun source =>
        decide (source.workspaceId = workspaceId) && decide (source.ownerId = ownerId)) := by
  have hfilter : (tables.sources.filter fun source => decide (source.id ∈ ids) &&
      decide (source.workspaceId = workspaceId) && decide (source.ownerId = ownerId)) =
      (tables.sources.filter fun source => decide (source.workspaceId = workspaceId) &&
        decide (source.ownerId = ownerId)).filter fun source => decide (source.id ∈ ids) := by
    rw [List.filter_filter]
    exact List.filter_congr fun source _ => Bool.and_assoc ..
  rw [loadSources, Dict.get?_collect, hfilter,
    ← filter_lasts fun a _ b _ (heq : a.id = b.id) => by rw [heq], List.mem_filter]
  constructor
  · rintro ⟨hsame, hlast, -⟩
    exact ⟨hsame, hlast⟩
  · rintro ⟨hsame, hlast⟩
    exact ⟨hsame, hlast, decide_eq_true (hsame ▸ hid)⟩

theorem loads_plainRetriever (tables : Tables Text Unit) (hits : List (Chunk Text)) (limit : Nat) :
    (plainRetriever tables hits limit).Loads
      (loadSources tables "w".toList "u".toList (tables.sources.map (·.id))) := by
  rintro ids loaded hloaded id hid
  cases hloaded
  refine Option.ext fun source => ?_
  rw [get?_loadSources hid]
  by_cases hmem : id ∈ tables.sources.map (·.id)
  · rw [get?_loadSources hmem]
  · constructor
    · rintro ⟨rfl, hlast⟩
      exact absurd (List.mem_map_of_mem (List.mem_filter.mp (mem_of_mem_lasts hlast)).1) hmem
    · intro hget
      obtain ⟨hsource, rfl⟩ := mem_of_get?_loadSources hget
      exact absurd (List.mem_map_of_mem hsource) hmem

/-- With room for one piece, the chunk of a source that is being processed crowds out the chunk
of a succeeded one. -/
theorem not_notCrowdedOut_plain :
    let r := plainRetriever plainTables [plainChunk "d" "b", plainChunk "c" "a"] 1
    let states := loadSources plainTables "w".toList "u".toList (plainTables.sources.map (·.id))
    let hits := [plainChunk "d" "b", plainChunk "c" "a"]
    r.Loads states ∧
      r.Finds plainRuntime some "w".toList "?".toList (instantAt 0) hits ∧
      ∃ result, r.retrieve plainRuntime some "w".toList "?".toList (instantAt 0) = .ok result ∧
        result.evidence.map evidenceKey = [] ∧
        ¬NotCrowdedOut r states "?".toList hits (result.evidence.map evidenceKey) := by
  intro r states hits
  have hretrieved : r.retrieve plainRuntime some "w".toList "?".toList (instantAt 0) = .ok _ := rfl
  refine ⟨loads_plainRetriever plainTables hits 1, ⟨some [], rfl, rfl⟩, _, hretrieved,
    by decide +kernel, fun hnot => ?_⟩
  have heligible : EligibleHit states (plainChunk "c" "a") :=
    show (usable states (plainChunk "c" "a").sourceId).isSome = true by decide +kernel
  rcases hnot [plainChunk "d" "b"] (plainChunk "c" "a") [] (by decide +kernel) heligible with
    hmem | ⟨hfull, -⟩
  · exact absurd hmem (by decide +kernel)
  · exact absurd hfull (by decide +kernel)

end Maeglagi.Retrieval
