import Maeglagi.Core.Machine
import Maeglagi.Core.Text

/-!
# The embeddings of a workspace

A worker resolves the embedding model long before it stores its chunks. The first choice of
a model is checked against the chunks that are stored, not against the workers that run, and
without a choice the model depends on the credentials of the moment.
-/

namespace Maeglagi.Indexing

open Core

variable {Id : Type} [DecidableEq Id]

/-- The provider and the model that a vector comes from. -/
structure Producer where
  provider : Text
  model : Text
  deriving DecidableEq, Repr

/-- `ModelOption` -/
structure ModelOption (Id : Type) where
  provider : Text
  model : Text
  credentialId : Option Id
  deriving DecidableEq, Repr

/-- What an option produces vectors by. -/
def ModelOption.producer (choice : ModelOption Id) : Producer := ⟨choice.provider, choice.model⟩

/-- An active `ProviderCredential` with what the calls about it give: whether its adapter
embeds, whether its secret can be revealed, and the live models it lists. -/
structure Credential (Id : Type) where
  id : Id
  provider : Text
  embeds : Bool
  revealed : Bool
  offered : Option (List Text)
  deriving DecidableEq, Repr

/-- The credentials that a choice leaves. -/
def matching (credentials : List (Credential Id)) (chosen : Option (ModelOption Id)) :
    List (Credential Id) :=
  match chosen with
  | none => credentials
  | some choice => credentials.filter fun c =>
    decide (c.provider = choice.provider) && choice.credentialId.all fun id =>
      decide (c.id = id) || credentials.all fun x => decide (x.id ≠ id)

/-- `provider_with_model` for the role `EMBEDDING`; `none` is the missing credential. -/
def providerWithModel (embeddingModel : Text) (credentials : List (Credential Id))
    (chosen : Option (ModelOption Id)) : Option Producer :=
  let left := matching credentials chosen
  let needsKeyMatch :=
    (chosen.any fun choice => choice.credentialId.isNone) && decide (1 < left.length)
  let usable := fun c : Credential Id => c.embeds && c.revealed && (!needsKeyMatch ||
    c.offered.any fun models => chosen.any fun choice => decide (choice.model ∈ models))
  (left.find? usable).map fun c =>
    match chosen with
    | none => ⟨c.provider, embeddingModel⟩
    | some choice => ⟨c.provider, choice.model⟩

/-- `Chunk`, with what produced its embedding. -/
structure Chunk (Id : Type) where
  sourceId : Id
  position : Nat
  embedding : Option Producer
  deriving DecidableEq, Repr

/-- A run of `index_source` that has its embeddings and has not stored its chunks. -/
structure Worker (Id : Type) where
  sourceId : Id
  count : Nat
  producer : Option Producer
  deriving DecidableEq, Repr

/-- A workspace: its choice for the role, its chunks, and the workers that run. -/
structure Index (Id : Type) where
  setting : Option (ModelOption Id)
  chunks : List (Chunk Id)
  workers : List (Worker Id)
  deriving DecidableEq, Repr

namespace Index

/-- A workspace at its creation. -/
def start (setting : Option (ModelOption Id)) : Index Id := ⟨setting, [], []⟩

/-- What produced the embeddings that are stored. -/
def embedded (s : Index Id) : List Producer := s.chunks.filterMap (·.embedding)

/-- What produced the embeddings that are yet to be stored. -/
def inFlight (s : Index Id) : List Producer := s.workers.filterMap (·.producer)

/-- `has_indexed_chunks` -/
def hasIndexedChunks (s : Index Id) : Bool := s.chunks.any fun c => c.embedding.isSome

/-- The chunks of a source replaced by `count` new ones. -/
def replaceChunks (s : Index Id) (sourceId : Id) (count : Nat) (producer : Option Producer) :
    List (Chunk Id) :=
  (s.chunks.filter fun c => decide (c.sourceId ≠ sourceId)) ++
    (List.range count).map fun position => ⟨sourceId, position, producer⟩

/-- `index_source` up to the point where it has its embeddings. -/
def resolve (embeddingModel : Text) (s : Index Id) (sourceId : Id) (count : Nat)
    (credentials : List (Credential Id)) : Index Id :=
  if count = 0 then s
  else
    match providerWithModel embeddingModel credentials s.setting with
    | some producer => { s with workers := ⟨sourceId, count, some producer⟩ :: s.workers }
    | none =>
      if s.setting.isSome || s.hasIndexedChunks then s
      else { s with workers := ⟨sourceId, count, none⟩ :: s.workers }

/-- The choice is one of the options, with or without its credential. -/
def valid (options : List (ModelOption Id)) (choice : ModelOption Id) : Bool :=
  decide (choice ∈ options) || (choice.credentialId.isNone &&
    options.any fun o => decide (o.producer = choice.producer))

/-- `update_workspace_models` about the role `EMBEDDING`; a refused choice changes nothing. -/
def update (embeddingModel : Text) (s : Index Id) (requested : ModelOption Id)
    (options : List (ModelOption Id)) (credentials : List (Credential Id)) : Index Id :=
  if valid options requested then
    let unchanged :=
      match s.setting with
      | some current => decide (requested = current)
      | none =>
        match providerWithModel embeddingModel credentials none with
        | some legacy => decide (requested = ⟨legacy.provider, legacy.model, none⟩)
        | none => false
    if (s.setting.isSome || s.hasIndexedChunks) && !unchanged then s
    else { s with setting := some requested }
  else s

end Index

/-- What happens to a workspace; the credentials are those of the moment. -/
inductive IndexEvent (Id : Type) where
  | resolve (sourceId : Id) (count : Nat) (credentials : List (Credential Id))
  | store (worker : Worker Id)
  | abandon (worker : Worker Id)
  | indexText (sourceId : Id) (count : Nat)
  | update (requested : ModelOption Id) (options : List (ModelOption Id))
      (credentials : List (Credential Id))

/-- One transaction. A choice locks the row of the workspace, which chunks refer to. -/
def Index.step (embeddingModel : Text) (s : Index Id) : IndexEvent Id → Option (Index Id)
  | .resolve sourceId count credentials =>
    some (s.resolve embeddingModel sourceId count credentials)
  | .store worker =>
    if worker ∈ s.workers then
      some { s with
        chunks := s.replaceChunks worker.sourceId worker.count worker.producer
        workers := s.workers.erase worker }
    else none
  | .abandon worker =>
    if worker ∈ s.workers then some { s with workers := s.workers.erase worker } else none
  | .indexText sourceId count => some { s with chunks := s.replaceChunks sourceId count none }
  | .update requested options credentials =>
    some (s.update embeddingModel requested options credentials)

/-- All stored embeddings have one producer. -/
def Index.Homogeneous (s : Index Id) : Prop := ∀ x ∈ s.embedded, ∀ y ∈ s.embedded, x = y

/-- While nothing is chosen, what the credentials resolve to is what produced the embeddings
there are and those on their way, and a first choice is what the running workers have. -/
def Index.Steady (embeddingModel : Text) (s : Index Id) : IndexEvent Id → Prop
  | .resolve _ _ credentials => s.setting = none →
    ∀ p, providerWithModel embeddingModel credentials none = some p →
      ∀ x ∈ s.embedded ++ s.inFlight, x = p
  | .update requested _ credentials => s.setting = none →
    (∀ x ∈ s.inFlight, x = requested.producer) ∧
      ∀ p, providerWithModel embeddingModel credentials none = some p → ∀ x ∈ s.embedded, x = p
  | _ => True

/-- One producer for all embeddings, stored or on their way: the choice, if there is one. -/
structure Index.Uniform (s : Index Id) : Prop where
  same : ∀ x ∈ s.embedded ++ s.inFlight, ∀ y ∈ s.embedded ++ s.inFlight, x = y
  chosen : ∀ c, s.setting = some c → ∀ x ∈ s.embedded ++ s.inFlight, x = c.producer

section
variable {embeddingModel : Text} {s s' : Index Id} {credentials : List (Credential Id)}

/-- A choice determines the producer. -/
theorem providerWithModel_of_chosen {choice : ModelOption Id} {p : Producer}
    (h : providerWithModel embeddingModel credentials (some choice) = some p) :
    p = choice.producer := by
  unfold providerWithModel at h
  obtain ⟨c, hfind, rfl⟩ := Option.map_eq_some_iff.mp h
  have hmem := List.mem_of_find?_eq_some hfind
  simp only [matching, List.mem_filter, Bool.and_eq_true, decide_eq_true_eq] at hmem
  rw [ModelOption.producer, hmem.2.1]

omit [DecidableEq Id] in
theorem hasIndexedChunks_iff : s.hasIndexedChunks = true ↔ ∃ x, x ∈ s.embedded := by
  simp only [Index.hasIndexedChunks, Index.embedded, List.any_eq_true, List.mem_filterMap,
    Option.isSome_iff_exists]
  constructor
  · rintro ⟨c, hc, x, hx⟩
    exact ⟨x, c, hc, hx⟩
  · rintro ⟨x, c, hc, hx⟩
    exact ⟨c, hc, x, hx⟩

/-- New chunks add at most the producer of their worker. -/
theorem embedded_replaceChunks {sourceId : Id} {count : Nat} {producer : Option Producer}
    {x : Producer}
    (h : x ∈ (s.replaceChunks sourceId count producer).filterMap (·.embedding)) :
    x ∈ s.embedded ∨ producer = some x := by
  rw [Index.replaceChunks, List.filterMap_append, List.mem_append] at h
  rcases h with h | h
  · left
    obtain ⟨c, hc, hx⟩ := List.mem_filterMap.mp h
    exact List.mem_filterMap.mpr ⟨c, List.mem_of_mem_filter hc, hx⟩
  · right
    obtain ⟨c, hc, hx⟩ := List.mem_filterMap.mp h
    obtain ⟨i, -, rfl⟩ := List.mem_map.mp hc
    exact hx

omit [DecidableEq Id] in
/-- A state with fewer producers and the same choice. -/
theorem Index.Uniform.of_subset (hs : s.Uniform) (hsetting : s'.setting = s.setting)
    (hsub : ∀ x ∈ s'.embedded ++ s'.inFlight, x ∈ s.embedded ++ s.inFlight) : s'.Uniform :=
  ⟨fun x hx y hy => hs.same x (hsub x hx) y (hsub y hy),
    fun c hc x hx => hs.chosen c (hsetting ▸ hc) x (hsub x hx)⟩

/-- A worker that starts resolves to what is there. -/
theorem uniform_resolve (hs : s.Uniform) {sourceId : Id} {count : Nat}
    (hok : s.Steady embeddingModel (.resolve sourceId count credentials)) :
    (s.resolve embeddingModel sourceId count credentials).Uniform := by
  unfold Index.resolve
  by_cases hcount : count = 0
  · rw [if_pos hcount]
    exact hs
  rw [if_neg hcount]
  cases hp : providerWithModel embeddingModel credentials s.setting with
  | none =>
    dsimp only
    split_ifs
    · exact hs
    · exact hs.of_subset rfl fun x hx => hx
  | some p =>
    have hnew : ∀ x ∈ s.embedded ++ s.inFlight, x = p := by
      cases hsetting : s.setting with
      | none => exact hok hsetting p (hsetting ▸ hp)
      | some c =>
        intro x hx
        rw [hsetting] at hp
        rw [providerWithModel_of_chosen hp]
        exact hs.chosen c hsetting x hx
    have hall : ∀ x ∈ s.embedded ++ p :: s.inFlight, x = p := by
      intro x hx
      rw [List.mem_append, List.mem_cons] at hx
      rcases hx with hx | rfl | hx
      · exact hnew x (List.mem_append_left _ hx)
      · rfl
      · exact hnew x (List.mem_append_right _ hx)
    refine ⟨fun x hx y hy => (hall x hx).trans (hall y hy).symm, fun c hc x hx => ?_⟩
    have hsetting : s.setting = some c := hc
    rw [hsetting] at hp
    rw [hall x hx, providerWithModel_of_chosen hp]

/-- A choice that is recorded is what is there. -/
theorem uniform_update (hs : s.Uniform) {requested : ModelOption Id}
    {options : List (ModelOption Id)}
    (hok : s.Steady embeddingModel (.update requested options credentials)) :
    (s.update embeddingModel requested options credentials).Uniform := by
  unfold Index.update
  split_ifs with hvalid
  swap
  · exact hs
  cases hsetting : s.setting with
  | some current =>
    dsimp only
    split_ifs with hlocked
    · exact hs
    · obtain rfl : requested = current := by simpa using hlocked
      refine ⟨hs.same, fun c hc => ?_⟩
      obtain rfl := Option.some.inj hc
      exact hs.chosen _ hsetting
  | none =>
    dsimp only
    obtain ⟨hworkers, hlegacy⟩ := hok hsetting
    split_ifs with hlocked
    · exact hs
    · refine ⟨hs.same, fun c hc x hx => ?_⟩
      obtain rfl := Option.some.inj hc
      rcases List.mem_append.mp hx with hx | hx
      swap
      · exact hworkers x hx
      -- something is indexed, so the choice is what the credentials resolve to
      have hindexed : s.hasIndexedChunks = true := hasIndexedChunks_iff.mpr ⟨x, hx⟩
      cases hp : providerWithModel embeddingModel credentials none with
      | none => simp [hindexed, hp] at hlocked
      | some p =>
        have hrequested : requested = ⟨p.provider, p.model, none⟩ := by
          simpa [hindexed, hp] using hlocked
        rw [hlegacy p hp x hx, hrequested]
        rfl

/-- A steady step keeps the state uniform. -/
theorem uniform_step (hs : s.Uniform) {e : IndexEvent Id} (hok : s.Steady embeddingModel e)
    (h : s.step embeddingModel e = some s') : s'.Uniform := by
  have herase : ∀ {w : Worker Id} {x : Producer},
      x ∈ (s.workers.erase w).filterMap (·.producer) → x ∈ s.inFlight := by
    intro w x hx
    obtain ⟨v, hv, hvx⟩ := List.mem_filterMap.mp hx
    exact List.mem_filterMap.mpr ⟨v, List.mem_of_mem_erase hv, hvx⟩
  cases e with
  | resolve sourceId count credentials =>
    obtain rfl := Option.some.inj h
    exact uniform_resolve hs hok
  | store worker =>
    simp only [Index.step] at h
    split_ifs at h with hworker
    obtain rfl := Option.some.inj h
    refine hs.of_subset rfl fun x hx => ?_
    rcases List.mem_append.mp hx with hx | hx
    · rcases embedded_replaceChunks hx with hx | hx
      · exact List.mem_append_left _ hx
      · exact List.mem_append_right _ (List.mem_filterMap.mpr ⟨worker, hworker, hx⟩)
    · exact List.mem_append_right _ (herase hx)
  | abandon worker =>
    simp only [Index.step] at h
    split_ifs at h
    obtain rfl := Option.some.inj h
    refine hs.of_subset rfl fun x hx => ?_
    rcases List.mem_append.mp hx with hx | hx
    · exact List.mem_append_left _ hx
    · exact List.mem_append_right _ (herase hx)
  | indexText sourceId count =>
    obtain rfl := Option.some.inj h
    refine hs.of_subset rfl fun x hx => ?_
    rcases List.mem_append.mp hx with hx | hx
    · rcases embedded_replaceChunks hx with hx | hx
      · exact List.mem_append_left _ hx
      · cases hx
    · exact List.mem_append_right _ hx
  | update requested options credentials =>
    obtain rfl := Option.some.inj h
    exact uniform_update hs hok

/-- In every state that steady steps lead to, all stored embeddings have one producer. -/
theorem homogeneous_of_steady (embeddingModel : Text) (setting : Option (ModelOption Id))
    (s : Index Id)
    (h : RunOf (Index.step embeddingModel) (Index.Steady embeddingModel) (.start setting) s) :
    s.Homogeneous := by
  have huniform : s.Uniform := by
    refine RunOf.invariant (fun s e s' hs hok hnext => uniform_step hs hok hnext) h ?_
    exact ⟨by rintro x ⟨⟩, by rintro c - x ⟨⟩⟩
  intro x hx y hy
  exact huniform.same x (List.mem_append_left _ hx) y (List.mem_append_left _ hy)

end

/-- A choice is made, and two workers follow it. -/
theorem homogeneous_of_steady_chosen : ∃ s : Index Nat,
    s.embedded = [⟨"openai".toList, "large".toList⟩, ⟨"openai".toList, "large".toList⟩] ∧
      s.Homogeneous := by
  have hrun : ∃ s : Index Nat, RunOf (Index.step "small".toList) (Index.Steady "small".toList)
      (.start none) s ∧
        s.embedded = [⟨"openai".toList, "large".toList⟩, ⟨"openai".toList, "large".toList⟩] := by
    refine ⟨_, .head ⟨.update ⟨"openai".toList, "large".toList, none⟩
        [⟨"openai".toList, "large".toList, none⟩] [], ?_, rfl⟩
      (.head ⟨.resolve 1 1 [⟨7, "openai".toList, true, true, none⟩], ?_, rfl⟩
      (.head ⟨.resolve 2 1 [⟨7, "openai".toList, true, true, none⟩], ?_, rfl⟩
      (.head ⟨.store ⟨1, 1, some ⟨"openai".toList, "large".toList⟩⟩, trivial, rfl⟩
      (.head ⟨.store ⟨2, 1, some ⟨"openai".toList, "large".toList⟩⟩, trivial, rfl⟩ .refl)))),
      rfl⟩
    · exact fun _ => ⟨by rintro x ⟨⟩, by rintro p - x ⟨⟩⟩
    · rintro ⟨⟩
    · rintro ⟨⟩
  obtain ⟨s, hrun, hembedded⟩ := hrun
  exact ⟨s, hembedded, homogeneous_of_steady _ _ s hrun⟩

/-- A worker resolves the default; before it stores, another model is chosen, and a second
worker stores with it. -/
theorem embeddings_mixed : ∃ s : Index Nat,
    RunOf (Index.step "text-embedding-3-small".toList) anyEvent (.start none) s ∧
      ¬ s.Homogeneous := by
  have hrun : ∃ s : Index Nat, replay (Index.step "text-embedding-3-small".toList) (.start none)
      [.resolve 1 1 [⟨7, "openai".toList, true, true, none⟩],
        .update ⟨"openai".toList, "text-embedding-3-large".toList, some 7⟩
          [⟨"openai".toList, "text-embedding-3-large".toList, some 7⟩]
          [⟨7, "openai".toList, true, true, none⟩],
        .store ⟨1, 1, some ⟨"openai".toList, "text-embedding-3-small".toList⟩⟩,
        .resolve 2 1 [⟨7, "openai".toList, true, true, none⟩],
        .store ⟨2, 1, some ⟨"openai".toList, "text-embedding-3-large".toList⟩⟩] = some s ∧
      s.embedded = [⟨"openai".toList, "text-embedding-3-small".toList⟩,
        ⟨"openai".toList, "text-embedding-3-large".toList⟩] := ⟨_, rfl, rfl⟩
  obtain ⟨s, hreplay, hembedded⟩ := hrun
  refine ⟨s, runOf_replay (fun _ _ _ => trivial) hreplay, fun h => ?_⟩
  have hsame := h ⟨"openai".toList, "text-embedding-3-small".toList⟩ (by simp [hembedded])
    ⟨"openai".toList, "text-embedding-3-large".toList⟩ (by simp [hembedded])
  exact absurd hsame (by decide)

end Maeglagi.Indexing
