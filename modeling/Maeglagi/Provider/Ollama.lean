import Maeglagi.Core.Text
import Maeglagi.Provider.Exchange

/-!
# The Ollama adapter

`chat` and `structured_output` of `OllamaAdapter`. Before it asks, the adapter looks the
model up in two more exchanges. It handles every failure of an exchange but a body that
is nested too deep, and no failure of building the response.
-/

namespace Maeglagi.Provider

open Core

namespace OllamaAdapter

variable (lib : Decoder)

/-- `capabilities` -/
def capabilities : List String := ["chat", "embedding", "structuredOutput", "models"]

/-- `_local_name` -/
def localName (name : Json) : Bool :=
  match name with
  | .str t => !t.isEmpty && !(":cloud".toList.isSuffixOf (lib.lower t))
  | _ => false

/-- `except (httpx.HTTPError, ValueError, TypeError)` -/
def caught (e : PyException) : Bool := e.isHttpError || e.isValueError || e.isTypeError

/-- The body of a reply after `raise_for_status`. -/
def fetched (message : String) (x : Exchange) : Except PyException Json :=
  handling caught (fun _ => providerError message none) do
    let r ← x.send
    if r.isSuccess then loaded r.json else throw .httpError

/-- `_tags` -/
def tags (x : Exchange) : Except PyException (List Text) := do
  let body ← fetched "Ollama 서버의 로컬 모델 목록을 가져오지 못했습니다." x
  match body.field? "models" with
  | some (.arr models) =>
    return sortedSet (models.filterMap fun item =>
      ((item.field? "name").filter (localName lib)).bind Json.str?)
  | _ => throw (providerError "Ollama 모델 목록이 유효하지 않습니다." none)

/-- `_is_local_details` -/
def isLocalDetails (details : Json) : Bool :=
  !(details.field? "remote_host").any Json.truthy &&
    !(details.field? "remote_model").any Json.truthy &&
    match details.field? "capabilities" with
    | some (.arr items) =>
      items.all (fun item => item.str?.isSome) &&
        !items.any fun item => item.str?.any fun t => decide (lib.lower t = "cloud".toList)
    | _ => false

/-- `_show` -/
def showModel (x : Exchange) : Except PyException Json := do
  let body ← fetched "Ollama 모델 정보를 확인하지 못했습니다." x
  match body with
  | .obj _ => return body
  | _ => throw (providerError "Ollama 모델 정보가 유효하지 않습니다." none)

/-- `_require_local_model` -/
def requireLocalModel (model : Text) (w : Exchanges) : Except PyException Unit := do
  if localName lib (.str model) then
    let names ← tags lib w.tags
    if model ∈ names then
      let details ← showModel w.details
      if isLocalDetails lib details then return ()
      else throw (providerError "원격 Ollama 모델은 사용할 수 없습니다." none)
    else throw (providerError "설치된 로컬 Ollama 모델만 사용할 수 있습니다." none)
  else throw (providerError "설치된 로컬 Ollama 모델만 사용할 수 있습니다." none)

/-- The chat exchange of `_post_chat`: the body of a good reply. -/
def answer (structured : Bool) (x : Exchange) : Except PyException Json := do
  let r ← x.send
  if r.isSuccess then loaded r.json
  else if structured && r.status = 400 then throw unsupportedFormat
  else throw (.providerError .providerError
    (statusMessage "Ollama 모델 요청에 실패했습니다" r) none)

/-- The exchanges of `_post_chat`, before it handles exceptions. -/
def exchanges (structured : Bool) (model : Text) (w : Exchanges) :
    Except PyException Json :=
  if w.connected then do
    requireLocalModel lib model w
    answer structured w.reply
  else throw .valueError

/-- `_post_chat` -/
def postChat (structured : Bool) (model : Text) (w : Exchanges) :
    Except PyException Json := do
  let body ← handling caught (fun _ => providerError "Ollama 서버에 연결하지 못했습니다." none)
    (exchanges lib structured model w)
  match body.field? "message" with
  | some (.obj _) => return body
  | _ => throw (providerError "Ollama 응답이 유효하지 않습니다." none)

/-- `body["message"].get("content")` -/
def content (body : Json) : Json :=
  ((body.field? "message").bind fun message => message.field? "content").getD .null

/-- `chat` -/
def chat (model : Text) (w : Exchanges) : Except PyException ChatResponse := do
  let body ← postChat lib false model w
  match content body with
  | .str t =>
    ChatResponse.make (.str t) ((body.field? "model").getD (.str model)) "ollama".toList
      (["prompt_eval_count", "eval_count"].filterMap fun k =>
        ((body.field? k).bind Json.int?).map fun i => (k.toList, i))
      [("done_reason", (body.field? "done_reason").getD .null)]
  | _ => throw (providerError "Ollama 응답이 유효하지 않습니다." none)

/-- `structured_output` -/
def structuredOutput (model : Text) (w : Exchanges) :
    Except PyException StructuredOutputResponse := do
  let body ← postChat lib true model w
  let data ← handling (fun e => e.isValueError || e.isTypeError)
    (fun _ => providerError "Ollama가 유효한 JSON 응답을 반환하지 않았습니다." none)
    ((content body).parsed lib)
  StructuredOutputResponse.make data ((body.field? "model").getD (.str model))
    "ollama".toList [] []

/-- `transcribe` -/
def transcribe : Except PyException TranscriptionResponse :=
  throw (capabilityError "Ollama는 음성 인식을 지원하지 않습니다.".toList)

/-! ## Which models are asked -/

/-- The server lists the model among its own. -/
def Lists (x : Exchange) (model : Text) : Prop :=
  ∃ body models, x.Brings body ∧ body.field? "models" = some (.arr models) ∧
    ∃ item ∈ models, item.field? "name" = some (.str model)

/-- The lookup of the model meets no body that is nested too deep. -/
def Prepared (model : Text) (w : Exchanges) : Prop :=
  w.connected = true → localName lib (.str model) = true →
    ¬ w.tags.TooDeep ∧ (Lists w.tags model → ¬ w.details.TooDeep)

/-- The model is installed on the server and runs there, so it is asked. -/
def Asked (model : Text) (w : Exchanges) : Prop :=
  w.connected = true ∧ localName lib (.str model) = true ∧ Lists w.tags model ∧
    ∃ details, w.details.Brings details ∧ isLocalDetails lib details = true

variable {lib} {model : Text} {w : Exchanges}

theorem fetched_eq_ok {m : String} {x : Exchange} {body : Json} :
    fetched m x = .ok body ↔ x.Brings body := by
  unfold fetched Exchange.Brings
  cases x with
  | httpError => simp [bind, Except.bind, Exchange.send]
  | response r =>
    by_cases hsuccess : r.isSuccess = true <;>
      simp [bind, Except.bind, Exchange.send, hsuccess, throw, throwThe, MonadExceptOf.throw]

/-- A model that can be local is among the names exactly when the server lists it. -/
theorem mem_tags {x : Exchange} {names : List Text} (h : tags lib x = .ok names)
    (hlocal : localName lib (.str model) = true) : model ∈ names ↔ Lists x model := by
  rw [tags, bind_eq_ok] at h
  obtain ⟨body, hbody, h⟩ := h
  rw [fetched_eq_ok] at hbody
  split at h
  · rename_i models hmodels
    obtain rfl := Except.ok.inj h
    rw [mem_sortedSet, List.mem_filterMap]
    constructor
    · rintro ⟨item, hitem, hname⟩
      rw [Option.bind_eq_some_iff] at hname
      obtain ⟨name, hname, hstr⟩ := hname
      obtain ⟨hfield, -⟩ := Option.filter_eq_some_iff.mp hname
      cases name with
      | str t =>
        obtain rfl := Option.some.inj hstr
        exact ⟨body, models, hbody, hmodels, item, hitem, hfield⟩
      | _ => cases hstr
    · rintro ⟨body', models', hbrings, hmodels', item, hitem, hname⟩
      obtain rfl := hbody.unique hbrings
      obtain rfl : models = models' := Json.arr.inj (Option.some.inj (hmodels.symm.trans hmodels'))
      exact ⟨item, hitem, by rw [hname, Option.filter_some, if_pos hlocal]; rfl⟩
  · cases h

variable (lib) in
/-- Listing the models succeeds when the server lists some. -/
theorem exists_tags {x : Exchange} (h : Lists x model) : ∃ names, tags lib x = .ok names := by
  obtain ⟨body, models, hbody, hmodels, -⟩ := h
  rw [tags, fetched_eq_ok.mpr hbody]
  simp only [bind, Except.bind, hmodels]
  exact ⟨_, rfl⟩

theorem showModel_eq_ok {x : Exchange} {details : Json} :
    showModel x = .ok details ↔ x.Brings details ∧ details.IsObj := by
  rw [showModel, bind_eq_ok]
  simp only [fetched_eq_ok]
  constructor
  · rintro ⟨body, hbody, h⟩
    split at h
    · obtain rfl := Except.ok.inj h
      exact ⟨hbody, trivial⟩
    · cases h
  · rintro ⟨hbrings, hobj⟩
    refine ⟨details, hbrings, ?_⟩
    cases details with
    | obj fields => rfl
    | _ => exact hobj.elim

theorem isObj_of_isLocalDetails {details : Json} (h : isLocalDetails lib details = true) :
    details.IsObj := by
  by_contra hnot
  simp [isLocalDetails, Json.field?_of_not_isObj hnot] at h

theorem requireLocalModel_eq_ok {u : Unit} :
    requireLocalModel lib model w = .ok u ↔
      localName lib (.str model) = true ∧ Lists w.tags model ∧
        ∃ details, w.details.Brings details ∧ isLocalDetails lib details = true := by
  unfold requireLocalModel
  by_cases hlocal : localName lib (.str model) = true
  swap
  · simp [hlocal, throw, throwThe, MonadExceptOf.throw]
  rw [if_pos hlocal, bind_eq_ok]
  constructor
  · rintro ⟨names, hnames, h⟩
    split_ifs at h with hmem
    · obtain ⟨details, hdetails, h⟩ := bind_eq_ok.mp h
      split_ifs at h with his
      exact ⟨hlocal, (mem_tags hnames hlocal).mp hmem, details,
        (showModel_eq_ok.mp hdetails).1, his⟩
  · rintro ⟨-, hlists, details, hbrings, his⟩
    obtain ⟨names, hnames⟩ := exists_tags lib hlists
    refine ⟨names, hnames, ?_⟩
    rw [if_pos ((mem_tags hnames hlocal).mpr hlists), bind_eq_ok]
    refine ⟨details, showModel_eq_ok.mpr ⟨hbrings, isObj_of_isLocalDetails his⟩, ?_⟩
    rw [if_pos his]
    rfl

section

variable {p : PyException → Prop}

/-- A lookup fails with a `ProviderError` unless a body is nested too deep. -/
theorem raisesOnly_fetched (hprovider : ∀ m, p (providerError m none))
    (hdeep : ¬ p .recursionError) {m : String} {x : Exchange} :
    RaisesOnly p (fetched m x) ↔ ¬ x.TooDeep := by
  constructor
  · rintro h ⟨r, rfl, hsuccess, hjson⟩
    have hraises : fetched m (.response r) = .error .recursionError := by
      simp only [fetched, Exchange.send, bind, Except.bind, hsuccess, if_true, hjson]
      rfl
    exact hdeep (h _ hraises)
  · intro h
    cases x with
    | httpError => exact raisesOnly_error.mpr (hprovider m)
    | response r =>
      by_cases hsuccess : r.isSuccess = true
      · simp only [fetched, Exchange.send, bind, Except.bind, hsuccess, if_true]
        cases hjson : r.json with
        | ok body => exact raisesOnly_ok
        | error failure =>
          cases failure with
          | jsonDecodeError => exact raisesOnly_error.mpr (hprovider m)
          | valueError => exact raisesOnly_error.mpr (hprovider m)
          | recursionError => exact absurd ⟨r, rfl, hsuccess, hjson⟩ h
      · simp only [fetched, Exchange.send, bind, Except.bind, hsuccess]
        exact raisesOnly_error.mpr (hprovider m)

theorem raisesOnly_tags (hprovider : ∀ m, p (providerError m none))
    (hdeep : ¬ p .recursionError) {x : Exchange} : RaisesOnly p (tags lib x) ↔ ¬ x.TooDeep := by
  rw [tags, raisesOnly_bind, raisesOnly_fetched hprovider hdeep]
  refine and_iff_left_of_imp fun _ body _ => ?_
  split
  · exact raisesOnly_pure
  · exact raisesOnly_throw.mpr (hprovider _)

theorem raisesOnly_showModel (hprovider : ∀ m, p (providerError m none))
    (hdeep : ¬ p .recursionError) {x : Exchange} : RaisesOnly p (showModel x) ↔ ¬ x.TooDeep := by
  rw [showModel, raisesOnly_bind, raisesOnly_fetched hprovider hdeep]
  refine and_iff_left_of_imp fun _ body _ => ?_
  split
  · exact raisesOnly_pure
  · exact raisesOnly_throw.mpr (hprovider _)

theorem raisesOnly_requireLocalModel (hprovider : ∀ m, p (providerError m none))
    (hdeep : ¬ p .recursionError) :
    RaisesOnly p (requireLocalModel lib model w) ↔
      (localName lib (.str model) = true →
        ¬ w.tags.TooDeep ∧ (Lists w.tags model → ¬ w.details.TooDeep)) := by
  unfold requireLocalModel
  by_cases hlocal : localName lib (.str model) = true
  swap
  · rw [if_neg hlocal, raisesOnly_throw]
    exact ⟨fun _ h => absurd h hlocal, fun _ => hprovider _⟩
  rw [if_pos hlocal, raisesOnly_bind, raisesOnly_tags hprovider hdeep]
  simp only [hlocal, forall_const]
  refine and_congr_right fun _ => ⟨fun h hlists => ?_, fun h names hnames => ?_⟩
  · obtain ⟨names, hnames⟩ := exists_tags lib hlists
    have hrest := h names hnames
    rw [if_pos ((mem_tags hnames hlocal).mpr hlists), raisesOnly_bind,
      raisesOnly_showModel hprovider hdeep] at hrest
    exact hrest.1
  · by_cases hmem : model ∈ names
    · rw [if_pos hmem, raisesOnly_bind, raisesOnly_showModel hprovider hdeep]
      refine ⟨h ((mem_tags hnames hlocal).mp hmem), fun details _ => ?_⟩
      split_ifs
      · exact raisesOnly_pure
      · exact raisesOnly_throw.mpr (hprovider _)
    · rw [if_neg hmem]
      exact raisesOnly_throw.mpr (hprovider _)

end

end OllamaAdapter

end Maeglagi.Provider
