import Maeglagi.Core.Fallible
import Maeglagi.Core.Sorting
import Maeglagi.Provider.Calls
import Maeglagi.Runtime

/-!
# Embeddings

`embedding` of the three adapters. The OpenAI-compatible adapter sorts the items of a reply by
the index they carry and handles no failure; the Ollama adapter checks the vectors itself and
takes them in the order of the reply.
-/

namespace Maeglagi.Provider

open Core

namespace Json

/-- The value of a number; a `bool` is one. -/
def number? : Json → Option PyFloat
  | .bool b => some (.finite (if b then 1 else 0))
  | .int i => some (.finite i)
  | .float f => some f
  | _ => none

mutual

/-- Two values are equal, as the comparison of two lists asks; the decoder has one `NaN` only,
and that is the same as itself. -/
def same : Json → Json → Bool
  | .null, .null => true
  | .str s, .str t => decide (s = t)
  | .arr items, .arr others => sameItems items others
  | .obj fields, .obj others => decide (fields.length = others.length) && sameFields fields others
  | v, w =>
    match v.number?, w.number? with
    | some a, some b => decide (a = b)
    | _, _ => false

/-- The items of two lists are equal. -/
def sameItems : List Json → List Json → Bool
  | [], [] => true
  | v :: items, w :: others => same v w && sameItems items others
  | _, _ => false

/-- The fields have equal values among the others. -/
def sameFields : List (Text × Json) → List (Text × Json) → Bool
  | [], _ => true
  | (key, v) :: fields, others =>
    (match Dict.read others key with
      | some w => same v w
      | none => false) && sameFields fields others

end

mutual

/-- `v < w`, without a result where it raises `TypeError`. -/
def less : Json → Json → Option Bool
  | .str s, .str t => some (decide (s < t))
  | .arr items, .arr others => lessItems items others
  | v, w =>
    match v.number?, w.number? with
    | some a, some b => some (a.less b)
    | _, _ => none

/-- `<` of two lists: their first items that differ decide. -/
def lessItems : List Json → List Json → Option Bool
  | v :: items, w :: others => if same v w then lessItems items others else less v w
  | [], _ :: _ => some true
  | _, [] => some false

end

/-- `value[key]` -/
def item (v : Json) (key : String) : Except PyException Json :=
  match v with
  | .obj fields =>
    match Dict.read fields key.toList with
    | some w => .ok w
    | none => .error .keyError
  | _ => .error .typeError

/-- `item.get("index", 0)` where the item is a dictionary. -/
def index (item : Json) : Json := (item.field? "index").getD (.int 0)

end Json

/-- The input of an `EmbeddingRequest`. -/
inductive EmbeddingInput where
  | one (text : Text)
  | many (texts : List Text)

/-- The fields of an `EmbeddingRequest` that an adapter reads itself. -/
structure EmbeddingRequest where
  input : EmbeddingInput
  model : Text
  dimensions : Option Nat

/-- `EmbeddingResponse` -/
structure EmbeddingResponse where
  embeddings : List (List PyFloat)
  model : Text
  provider : Text
  usage : List (Text × Int)
  providerMetadata : List (String × Json)

/-- How many vectors a request asks for. -/
def EmbeddingInput.count : EmbeddingInput → Nat
  | .one _ => 1
  | .many texts => texts.length

section

variable (lib : Decoder)

/-- A field of type `list[float]`, without a result where it is refused. -/
def optionalFloats : Json → Option (List PyFloat)
  | .arr items => items.mapM lib.asFloat
  | _ => none

/-- The checks of pydantic on a field of type `list[float]`, marked where it refuses. -/
def floatChecks : Json → List Bool
  | .arr items => items.map fun v => (lib.asFloat v).isNone
  | _ => [true]

/-- `EmbeddingResponse(embeddings=..., model=..., ...)` -/
def EmbeddingResponse.make (embeddings : List Json) (model : Json) (provider : Text)
    (usage : List (Text × Int)) (providerMetadata : List (String × Json)) :
    Except PyException EmbeddingResponse :=
  match embeddings.mapM (optionalFloats lib), model.str? with
  | some embeddings, some model => .ok ⟨embeddings, model, provider, usage, providerMetadata⟩
  | _, model => .error (refusedFields (embeddings.flatMap (floatChecks lib) ++ [model.isNone]))

/-- `sorted(items, key=lambda item: item.get("index", 0))` -/
def sortedByIndex (items : List Json) : Except PyException (List Json) := do
  let keyed ← items.mapM fun item => do return (← item.get "index" (.int 0), item)
  match sortedBy Json.less Prod.fst keyed with
  | some sorted => return sorted.map Prod.snd
  | none => throw .typeError

/-- What `embedding` makes of a successful reply. -/
def OpenAICompatibleAdapter.readEmbedding (a : OpenAICompatibleAdapter) (model : Text)
    (r : Response) : Except PyException EmbeddingResponse := do
  let body ← loaded r.json
  let items ← (← body.get "data" (.arr [])).iter
  let items ← sortedByIndex items
  let usage ← readUsage lib body
  let vectors ← items.mapM fun item => item.item "embedding"
  EmbeddingResponse.make lib vectors ((body.field? "model").getD (.str model)) a.id usage
    [("request_id", optionalText r.requestId)]

/-- `OpenAICompatibleAdapter.embedding` -/
def OpenAICompatibleAdapter.embedding (a : OpenAICompatibleAdapter) (model apiKey : Text)
    (x : Exchange) : Except PyException EmbeddingResponse := do
  if a.supportsEmbedding then
    let r ← post (headers apiKey) x
    if r.isSuccess then a.readEmbedding lib model r
    else throw (statusError "임베딩 요청에 실패했습니다" r)
  else throw (capabilityError (a.displayName ++ "은 embedding을 지원하지 않습니다.".toList))

/-- `AnthropicAdapter.embedding` -/
def AnthropicAdapter.embedding : Except PyException EmbeddingResponse :=
  throw (capabilityError "Anthropic은 embedding을 지원하지 않습니다.".toList)

namespace OllamaAdapter

/-- `isinstance(x, bool) or not isinstance(x, (float, int)) or not math.isfinite(x)` -/
def refusesNumber : Json → Except PyException Bool
  | .float (.finite _) => .ok false
  | .int i =>
    match lib.floatOfInt i with
    | some _ => .ok false
    | none => .error .overflowError
  | _ => .ok true

/-- `not isinstance(v, list) or len(v) != dimensions or any(...)` -/
def refusesVector (dimensions : Nat) : Json → Except PyException Bool
  | .arr items =>
    if items.length = dimensions then items.anyM (refusesNumber lib) else .ok true
  | _ => .ok true

/-- `_embed` -/
def embed (dimensions : Nat) (x : Exchange) : Except PyException (List Json) := do
  let body ← fetched "Ollama 임베딩 요청에 실패했습니다." x
  match body.field? "embeddings" with
  | some (.arr vectors) =>
    let refused ← vectors.anyM (refusesVector lib dimensions)
    if refused then throw (providerError "Ollama 임베딩 차원이 Vector Store schema와 다릅니다." none)
    else return vectors
  | _ => throw (providerError "Ollama 임베딩 차원이 Vector Store schema와 다릅니다." none)

/-- `embedding` -/
def embedding (request : EmbeddingRequest) (w : Exchanges) :
    Except PyException EmbeddingResponse := do
  if request.dimensions = none ∨ request.dimensions = some 1536 then
    if w.connected then
      requireLocalModel lib request.model w
      let vectors ← embed lib 1536 w.reply
      if vectors.length = request.input.count then
        EmbeddingResponse.make lib vectors (.str request.model) "ollama".toList [] []
      else throw (providerError "Ollama 임베딩 응답 개수가 입력 개수와 다릅니다." none)
    else throw (providerError "Ollama 서버 주소를 사용할 수 없습니다." none)
  else throw (providerError "Ollama 임베딩은 1536차원만 사용할 수 있습니다." none)

end OllamaAdapter

/-- `embedding` -/
def Adapter.embedding (adapter : Adapter) (request : EmbeddingRequest) (apiKey : Text)
    (w : Exchanges) : Except PyException EmbeddingResponse :=
  match adapter with
  | .openAICompatible a => a.embedding lib request.model apiKey w.reply
  | .anthropic => AnthropicAdapter.embedding
  | .ollama => OllamaAdapter.embedding lib request w

end

/-! ## What the replies have to look like -/

/-- A reply that `OpenAICompatibleAdapter.embedding` can read, with the items it lists. -/
structure EmbeddingReadable (lib : Decoder) (body : Json) (items : List Json) : Prop where
  isObj : body.IsObj
  listed : ((body.field? "data").getD (.arr [])).iter = .ok items
  objects : ∀ item ∈ items, item.IsObj
  comparable : Comparable Json.less (items.map Json.index)
  counts : UsageCounts lib body
  vectors : ∀ item ∈ items, ∃ v vector, item.field? "embedding" = some v ∧
    optionalFloats lib v = some vector
  model : body.Field "model" Json.IsStr

variable {lib : Decoder}

/-- The vector of an item. -/
def HasVector (lib : Decoder) (item : Json) (vector : List PyFloat) : Prop :=
  ∃ v, item.field? "embedding" = some v ∧ optionalFloats lib v = some vector

theorem HasVector.unique {item : Json} {vector vector' : List PyFloat}
    (h : HasVector lib item vector) (h' : HasVector lib item vector') : vector = vector' := by
  obtain ⟨v, hv, hvector⟩ := h
  obtain ⟨v', hv', hvector'⟩ := h'
  obtain rfl := Option.some.inj (hv.symm.trans hv')
  exact Option.some.inj (hvector.symm.trans hvector')

theorem EmbeddingResponse.make_eq_ok {embeddings : List Json} {model : Json} {provider : Text}
    {usage : List (Text × Int)} {metadata : List (String × Json)} {r : EmbeddingResponse} :
    make lib embeddings model provider usage metadata = .ok r ↔
      ∃ vectors m, List.Forall₂ (fun v vector => optionalFloats lib v = some vector)
        embeddings vectors ∧ model.str? = some m ∧ ⟨vectors, m, provider, usage, metadata⟩ = r := by
  simp only [← mapM_eq_some_iff]
  unfold make
  cases hvectors : embeddings.mapM (optionalFloats lib) with
  | none => simp
  | some vectors => cases hmodel : model.str? <;> simp

theorem sortedByIndex_eq_ok {items sorted : List Json} :
    sortedByIndex items = .ok sorted ↔ (∀ item ∈ items, item.IsObj) ∧
      ∃ keyed, sortedBy Json.less Prod.fst (items.map fun item => (item.index, item)) = some keyed ∧
        keyed.map Prod.snd = sorted := by
  have hget : ∀ item keyed, (do return (← item.get "index" (.int 0), item) :
      Except PyException (Json × Json)) = .ok keyed ↔ item.IsObj ∧ (item.index, item) = keyed := by
    intro item keyed
    simp only [bind_eq_ok, Json.get_eq_ok, pure_eq_ok, Json.index]
    grind
  have hkeyed : ∀ keyed, items.mapM (fun item => (do return (← item.get "index" (.int 0), item) :
      Except PyException (Json × Json))) = .ok keyed ↔
      (∀ item ∈ items, item.IsObj) ∧ items.map (fun item => (item.index, item)) = keyed := by
    intro keyed
    rw [mapM_eq_ok_iff]
    simp only [hget]
    rw [List.forall₂_and_left, ← List.forall₂_map_left_iff (R := Eq), List.forall₂_eq_eq_eq]
  rw [sortedByIndex, bind_eq_ok]
  simp only [hkeyed]
  constructor
  · rintro ⟨_, ⟨hobjects, rfl⟩, h⟩
    split at h
    · rename_i keyed hsorted
      exact ⟨hobjects, keyed, hsorted, pure_eq_ok.mp h⟩
    · cases h
  · rintro ⟨hobjects, keyed, hsorted, rfl⟩
    exact ⟨_, ⟨hobjects, rfl⟩, by rw [hsorted]; rfl⟩

theorem exists_sortedByIndex_iff {items : List Json} :
    (∃ sorted, sortedByIndex items = .ok sorted) ↔
      (∀ item ∈ items, item.IsObj) ∧ Comparable Json.less (items.map Json.index) := by
  simp only [sortedByIndex_eq_ok, exists_and_left, exists_comm (α := List Json),
    exists_eq', and_true, exists_sortedBy_iff, List.map_map]
  rfl

theorem perm_of_sortedByIndex {items sorted : List Json} (h : sortedByIndex items = .ok sorted) :
    sorted.Perm items := by
  obtain ⟨-, keyed, hsorted, rfl⟩ := sortedByIndex_eq_ok.mp h
  have hitems : (items.map fun item => (item.index, item)).map Prod.snd = items := by
    rw [List.map_map]
    exact List.map_id items
  exact hitems ▸ (perm_of_sortedBy hsorted).map Prod.snd

theorem Json.item_eq_ok {v w : Json} {key : String} :
    v.item key = .ok w ↔ v.field? key = some w := by
  cases v with
  | obj fields => cases h : Dict.read fields key.toList <;> simp [item, field?, h]
  | _ => simp [item, field?]

namespace OpenAICompatibleAdapter

variable {a : OpenAICompatibleAdapter} {model apiKey : Text} {r : Response} {x : Exchange}

/-- What `embedding` returns: the vectors of the items, sorted by their indices. -/
theorem readEmbedding_eq_ok {response : EmbeddingResponse}
    (h : a.readEmbedding lib model r = .ok response) :
    ∃ body items sorted, r.json = .ok body ∧ EmbeddingReadable lib body items ∧
      sortedByIndex items = .ok sorted ∧
      List.Forall₂ (HasVector lib) sorted response.embeddings := by
  simp only [readEmbedding, bind_eq_ok, loaded_eq_ok, Json.get_eq_ok] at h
  obtain ⟨body, hjson, data, ⟨hobj, rfl⟩, items, hitems, sorted, hsorted, usage, husage, vectors,
    hvectors, h⟩ := h
  obtain ⟨made, m, hmade, hm, rfl⟩ := EmbeddingResponse.make_eq_ok.mp h
  rw [mapM_eq_ok_iff] at hvectors
  simp only [Json.item_eq_ok] at hvectors
  have hall : List.Forall₂ (HasVector lib) sorted made :=
    forall₂_comp_iff.mpr ⟨vectors, hvectors, hmade⟩
  obtain ⟨hobjects, hcomparable⟩ := exists_sortedByIndex_iff.mp ⟨sorted, hsorted⟩
  refine ⟨body, items, sorted, hjson, ⟨hobj, hitems, hobjects, hcomparable,
    (exists_readUsage_iff.mp ⟨usage, husage⟩).2, fun item hitem => ?_,
    (isStr_model_iff model).mp (Json.isStr_iff.mpr ⟨m, hm⟩)⟩, hsorted, hall⟩
  obtain ⟨vector, v, hv, hvector⟩ := exists_forall₂_iff.mp ⟨made, hall⟩ item
    ((perm_of_sortedByIndex hsorted).mem_iff.mpr hitem)
  exact ⟨v, vector, hv, hvector⟩

/-- A readable reply is read. -/
theorem exists_readEmbedding {body : Json} {items : List Json} (hjson : r.json = .ok body)
    (h : EmbeddingReadable lib body items) :
    ∃ response, a.readEmbedding lib model r = .ok response := by
  obtain ⟨sorted, hsorted⟩ := exists_sortedByIndex_iff.mpr ⟨h.objects, h.comparable⟩
  obtain ⟨usage, husage⟩ := exists_readUsage_iff.mpr ⟨h.isObj, h.counts⟩
  have hmem : ∀ item ∈ sorted, item ∈ items := fun item hitem =>
    (perm_of_sortedByIndex hsorted).mem_iff.mp hitem
  have hall : ∃ made, List.Forall₂ (HasVector lib) sorted made := exists_forall₂_iff.mpr
    fun item hitem => by
      obtain ⟨v, vector, hvector⟩ := h.vectors item (hmem item hitem)
      exact ⟨vector, v, hvector⟩
  obtain ⟨made, hmade⟩ := hall
  obtain ⟨vectors, hvectors, hmade⟩ := forall₂_comp_iff.mp hmade
  obtain ⟨m, hm⟩ := Json.isStr_iff.mp ((isStr_model_iff model).mpr h.model)
  refine ⟨⟨made, m, a.id, usage, [("request_id", optionalText r.requestId)]⟩, ?_⟩
  simp only [readEmbedding, bind_eq_ok, loaded_eq_ok, Json.get_eq_ok]
  refine ⟨body, hjson, _, ⟨h.isObj, rfl⟩, items, h.listed, sorted, hsorted, usage, husage, vectors,
    ?_, EmbeddingResponse.make_eq_ok.mpr ⟨made, m, hmade, hm, rfl⟩⟩
  rw [mapM_eq_ok_iff]
  simpa only [Json.item_eq_ok] using hvectors

theorem embedding_eq_ok {response : EmbeddingResponse} :
    a.embedding lib model apiKey x = .ok response ↔
      a.supportsEmbedding = true ∧ KeyFits apiKey ∧ ∃ r, x = .response r ∧ r.isSuccess = true ∧
        a.readEmbedding lib model r = .ok response := by
  unfold embedding
  split_ifs with hsupports
  · rw [bind_eq_ok]
    simp only [headers, post_eq_ok, hsupports, true_and]
    constructor
    · rintro ⟨r, ⟨hkey, hx⟩, h⟩
      split_ifs at h with hsuccess
      exact ⟨hkey, r, hx, hsuccess, h⟩
    · rintro ⟨hkey, r, hx, hsuccess, h⟩
      refine ⟨r, ⟨hkey, hx⟩, ?_⟩
      rwa [if_pos hsuccess]
  · simp [hsupports]

end OpenAICompatibleAdapter

namespace OllamaAdapter

/-- The value is a finite number. -/
def FiniteNumber (lib : Decoder) (v : Json) : Prop :=
  (∃ q, v = .float (.finite q)) ∨ ∃ i f, v = .int i ∧ lib.floatOfInt i = some f

/-- The value is a list of so many finite numbers. -/
def Fits (lib : Decoder) (dimensions : Nat) (v : Json) : Prop :=
  ∃ items, v = .arr items ∧ items.length = dimensions ∧ ∀ x ∈ items, FiniteNumber lib x

/-- Behind finite numbers there is an integer that is too large for a float. -/
def TooLarge (lib : Decoder) (items : List Json) : Prop :=
  ∃ numbers i rest, items = numbers ++ .int i :: rest ∧
    (∀ x ∈ numbers, FiniteNumber lib x) ∧ lib.floatOfInt i = none

/-- Behind vectors that fit there is one of the right length with an integer that is too large. -/
def Overflows (lib : Decoder) (dimensions : Nat) (vectors : List Json) : Prop :=
  ∃ before items after, vectors = before ++ .arr items :: after ∧
    (∀ v ∈ before, Fits lib dimensions v) ∧ items.length = dimensions ∧ TooLarge lib items

theorem refusesNumber_eq_ok_false {v : Json} :
    refusesNumber lib v = .ok false ↔ FiniteNumber lib v := by
  rcases v with _ | _ | i | (_ | _ | _) | _ | _ | _
  case int => cases hi : lib.floatOfInt i <;> simp [refusesNumber, FiniteNumber, hi]
  all_goals simp [refusesNumber, FiniteNumber]

theorem refusesVector_eq_ok_false {dimensions : Nat} {v : Json} :
    refusesVector lib dimensions v = .ok false ↔ Fits lib dimensions v := by
  cases v with
  | arr items =>
    by_cases hlength : items.length = dimensions <;>
      simp [refusesVector, Fits, hlength, anyM_eq_ok_false_iff, refusesNumber_eq_ok_false]
  | _ => simp [refusesVector, Fits]

theorem embed_eq_ok {dimensions : Nat} {x : Exchange} {vectors : List Json} :
    embed lib dimensions x = .ok vectors ↔ ∃ body, x.Brings body ∧
      body.field? "embeddings" = some (.arr vectors) ∧ ∀ v ∈ vectors, Fits lib dimensions v := by
  rw [embed, bind_eq_ok]
  simp only [fetched_eq_ok]
  refine exists_congr fun body => and_congr_right fun _ => ?_
  split
  · rename_i found hfound
    rw [hfound, bind_eq_ok]
    constructor
    · rintro ⟨refused, hrefused, h⟩
      split_ifs at h with hany
      obtain rfl := pure_eq_ok.mp h
      rw [Bool.not_eq_true] at hany
      subst hany
      rw [anyM_eq_ok_false_iff] at hrefused
      exact ⟨rfl, fun v hv => refusesVector_eq_ok_false.mp (hrefused v hv)⟩
    · rintro ⟨hsame, hfits⟩
      obtain rfl : found = vectors := Json.arr.inj (Option.some.inj hsame)
      exact ⟨false, anyM_eq_ok_false_iff.mpr fun v hv => refusesVector_eq_ok_false.mpr (hfits v hv),
        rfl⟩
  · rename_i hnone
    simp only [throw, throwThe, MonadExceptOf.throw, reduceCtorEq, false_iff, not_and]
    exact fun hfield => absurd hfield (hnone vectors)

variable {p : PyException → Prop}

variable {request : EmbeddingRequest} {w : Exchanges}

/-- The vectors that the server answers with. -/
def Vectors (x : Exchange) (vectors : List Json) : Prop :=
  ∃ body, x.Brings body ∧ body.field? "embeddings" = some (.arr vectors)

/-- The dimensions of a request that the adapter does not refuse. -/
def DimensionsFit (request : EmbeddingRequest) : Prop :=
  request.dimensions = none ∨ request.dimensions = some 1536

theorem embedding_eq_ok {response : EmbeddingResponse} :
    embedding lib request w = .ok response ↔ DimensionsFit request ∧ Asked lib request.model w ∧
      ∃ vectors, Vectors w.reply vectors ∧ (∀ v ∈ vectors, Fits lib 1536 v) ∧
        vectors.length = request.input.count ∧
        EmbeddingResponse.make lib vectors (.str request.model) "ollama".toList [] [] =
          .ok response := by
  unfold embedding DimensionsFit Asked
  by_cases hdimensions : request.dimensions = none ∨ request.dimensions = some 1536
  swap
  · simp [hdimensions]
  by_cases hconnected : w.connected = true
  swap
  · rw [if_pos hdimensions, if_neg hconnected]
    simp [hconnected]
  rw [if_pos hdimensions, if_pos hconnected, bind_eq_ok]
  simp only [requireLocalModel_eq_ok, bind_eq_ok, embed_eq_ok, hdimensions, hconnected, true_and]
  constructor
  · rintro ⟨-, hlocal, vectors, ⟨body, hbrings, hfield, hfits⟩, h⟩
    split_ifs at h with hcount
    exact ⟨hlocal, vectors, ⟨body, hbrings, hfield⟩, hfits, hcount, h⟩
  · rintro ⟨hlocal, vectors, ⟨body, hbrings, hfield⟩, hfits, hcount, h⟩
    refine ⟨(), hlocal, vectors, ⟨body, hbrings, hfield, hfits⟩, ?_⟩
    rwa [if_pos hcount]

/-- The vectors of a reply can be read: no integer is too large, and if the adapter accepts
them, so does pydantic. -/
def EmbeddingReadable (lib : Decoder) (count : Nat) (vectors : List Json) : Prop :=
  ¬ Overflows lib 1536 vectors ∧ ((∀ v ∈ vectors, Fits lib 1536 v) → vectors.length = count →
    ∀ v ∈ vectors, ∃ vector, optionalFloats lib v = some vector)

end OllamaAdapter

end Maeglagi.Provider
