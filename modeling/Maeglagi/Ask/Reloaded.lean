import Maeglagi.Ask.Stored

/-!
# Conversations survive a reload

What was written is read again. What is read from any other text has conversations, up to the
limit, and no turn that is streaming.
-/

namespace Maeglagi.Ask

open Core Core.JsonTexts

/-- The numbers of a source are finite, and none is negative zero. -/
def AnswerSource.Representable (source : AnswerSource) : Prop :=
  (JsonValue.number source.index).Storable ∧ ∀ t ∈ source.timestamp, (JsonValue.number t).Storable

/-- The numbers of the sources of a turn can be written. -/
def Representable (turns : List (AskTurn AnswerSource)) : Prop :=
  ∀ turn ∈ turns, ∀ source ∈ turn.sources, source.Representable

/-! ## What is written can be stored -/

theorem storable_string (s : JsString) : (JsonValue.string s).Storable := trivial

theorem storable_version : storageVersion.Storable := by
  intro h
  exact absurd h one_ne_zero

theorem storable_array {items : List JsonValue} (h : ∀ v ∈ items, v.Storable) :
    (JsonValue.array items).Storable :=
  itemsStorable_iff.mpr h

theorem storable_optional {name : String} {value : Option JsonValue}
    (h : ∀ v ∈ value, v.Storable) : ∀ f ∈ optional name value, f.2.Storable := by
  intro f hf
  obtain ⟨v, hv, rfl⟩ := List.mem_map.mp hf
  exact h v (Option.mem_toList.mp hv)

theorem storable_optional_string (name : String) (value : Option JsString) :
    ∀ f ∈ optional name (value.map .string), f.2.Storable := by
  refine storable_optional fun v hv => ?_
  obtain ⟨s, -, rfl⟩ := Option.map_eq_some_iff.mp hv
  exact storable_string s

/-- An optional property has its own key, if any. -/
theorem keys_optional (name : String) (value : Option JsonValue) :
    ((optional name value).map Prod.fst).Sublist [word name] := by
  cases value with
  | none => exact List.nil_sublist _
  | some v => exact List.Sublist.refl _

theorem storable_source {source : AnswerSource} (h : source.Representable) :
    source.toJson.Storable := by
  rw [AnswerSource.toJson, JsonValue.Storable, fieldsStorable_iff]
  refine ⟨?_, ?_⟩
  · have hnodup : ([word "index", word "sourceId"] ++ [word "chunkId"] ++
        [word "kind", word "title", word "excerpt"] ++ [word "timestamp"]).Nodup := by decide
    simp only [List.map_append]
    exact ((((List.Sublist.refl _).append (keys_optional _ _)).append (List.Sublist.refl _)).append
      (keys_optional _ _)).nodup hnodup
  · simp only [List.forall_mem_append, List.forall_mem_cons]
    refine ⟨⟨⟨⟨h.1, trivial, ?_⟩, storable_optional_string _ _⟩, trivial, trivial, trivial, ?_⟩,
      storable_optional fun v hv => ?_⟩
    · rintro _ ⟨⟩
    · rintro _ ⟨⟩
    · obtain ⟨t, ht, rfl⟩ := Option.map_eq_some_iff.mp hv
      exact h.2 t ht

theorem storable_turn {turn : AskTurn AnswerSource}
    (h : ∀ source ∈ turn.sources, source.Representable) : turn.toJson.Storable := by
  rw [AskTurn.toJson, JsonValue.Storable, fieldsStorable_iff]
  refine ⟨?_, ?_⟩
  · have hnodup : ([word "id", word "question", word "answer", word "sources", word "status"] ++
        [word "errorMessage"] ++ [word "errorAction"]).Nodup := by decide
    simp only [List.map_append]
    exact (((List.Sublist.refl _).append (keys_optional _ _)).append (keys_optional _ _)).nodup
      hnodup
  · simp only [List.forall_mem_append, List.forall_mem_cons]
    refine ⟨⟨⟨trivial, trivial, trivial, storable_array ?_, trivial, ?_⟩,
      storable_optional_string _ _⟩, storable_optional fun v hv => ?_⟩
    · intro v hv
      obtain ⟨source, hsource, rfl⟩ := List.mem_map.mp hv
      exact storable_source (h source hsource)
    · rintro _ ⟨⟩
    · obtain ⟨action, -, rfl⟩ := Option.map_eq_some_iff.mp hv
      trivial

theorem storable_turns {turns : List (AskTurn AnswerSource)} (h : Representable turns) :
    (JsonValue.array (turns.map (·.toJson))).Storable := by
  refine storable_array fun v hv => ?_
  obtain ⟨turn, hturn, rfl⟩ := List.mem_map.mp hv
  exact storable_turn (h turn hturn)

theorem storable_envelope {turns : Option JsonValue} (h : ∀ v ∈ turns, v.Storable) :
    (turnsEnvelope turns).Storable := by
  rw [turnsEnvelope, JsonValue.Storable, fieldsStorable_iff, List.forall_mem_cons, List.map_cons]
  refine ⟨?_, storable_version, storable_optional h⟩
  have hnodup : ([word "version"] ++ [word "turns"]).Nodup := by decide
  exact ((List.Sublist.refl [word "version"]).append (keys_optional _ _)).nodup hnodup

theorem storable_conversation (conversation : Conversation) {turns : Option JsonValue}
    (h : ∀ v ∈ turns, v.Storable) : (conversation.toJson turns).Storable := by
  rw [Conversation.toJson, JsonValue.Storable, fieldsStorable_iff]
  refine ⟨?_, ?_⟩
  · have hnodup : ([word "id", word "title", word "createdAt", word "updatedAt"] ++
        [word "turns"]).Nodup := by decide
    simp only [List.map_append]
    exact ((List.Sublist.refl _).append (keys_optional _ _)).nodup hnodup
  · simp only [List.forall_mem_append, List.forall_mem_cons]
    refine ⟨⟨trivial, trivial, trivial, trivial, ?_⟩, storable_optional h⟩
    rintro _ ⟨⟩

/-! ## What is written passes the checks -/

theorem isSource_toJson (source : AnswerSource) : isSource source.toJson = true := by
  obtain ⟨index, sourceId, chunkId, kind, title, excerpt, timestamp⟩ := source
  cases chunkId <;> cases kind <;> rfl

theorem isTurn_toJson {turn : AskTurn AnswerSource} (h : turn.status ≠ .streaming) :
    isTurn turn.toJson = true := by
  have hsources : arrayProp turn.toJson "sources" = some (turn.sources.map (·.toJson)) := rfl
  have hstatus : stringProp turn.toJson "status" = some turn.status.text := rfl
  have hall : (turn.sources.map (·.toJson)).all isSource = true := by
    rw [List.all_map, List.all_eq_true]
    exact fun source _ => isSource_toJson source
  have hrestorable : turn.status.text ∈ restorable := by
    cases hturn : turn.status with
    | streaming => exact absurd hturn h
    | done => decide
    | error => decide
    | aborted => decide
    | noEvidence => decide
  unfold isTurn
  rw [hsources, hstatus, Option.any_some, Option.any_some, hall, decide_eq_true hrestorable]
  rfl

theorem status_storedTurns {turns : List (AskTurn AnswerSource)} {turn : AskTurn AnswerSource}
    (h : turn ∈ storedTurns turns) : turn.status ≠ .streaming := by
  have hfinished := List.of_mem_filter (List.mem_of_mem_drop h)
  exact of_decide_eq_true hfinished

theorem representable_storedTurns {turns : List (AskTurn AnswerSource)} (h : Representable turns) :
    Representable (storedTurns turns) :=
  fun turn hturn => h turn (List.mem_of_mem_filter (List.mem_of_mem_drop hturn))

theorem filter_isTurn (turns : List (AskTurn AnswerSource)) :
    ((storedTurns turns).map (·.toJson)).filter isTurn = (storedTurns turns).map (·.toJson) := by
  refine List.filter_eq_self.mpr fun v hv => ?_
  obtain ⟨turn, hturn, rfl⟩ := List.mem_map.mp hv
  exact isTurn_toJson (status_storedTurns hturn)

/-! ## What is written is read again -/

theorem stringify_ne_nil (v : JsonValue) : v.stringify ≠ [] :=
  List.ne_nil_of_length_pos (length_stringify_pos v)

/-- The value of the stored turns. -/
def turnsValue (turns : List (AskTurn AnswerSource)) : JsonValue :=
  .array ((storedTurns turns).map (·.toJson))

theorem storable_turnsValue {turns : List (AskTurn AnswerSource)} (h : Representable turns) :
    (turnsValue turns).Storable :=
  storable_turns (representable_storedTurns h)

/-- The items of a text of turns are read again, those that are turns. -/
theorem parseTurns_envelope {items : List JsonValue} (h : (JsonValue.array items).Storable) :
    parseTurns (some (turnsEnvelope (some (.array items))).stringify) = items.filter isTurn := by
  have henvelope : (turnsEnvelope (some (.array items))).Storable := by
    refine storable_envelope ?_
    rintro _ ⟨⟩
    exact h
  have hparse := parse_stringify henvelope
  unfold parseTurns
  split
  · rename_i hnone
    cases hnone
  · rename_i hempty
    exact absurd (Option.some.inj hempty) (stringify_ne_nil _)
  · rename_i c rest htext
    rw [← Option.some.inj htext, hparse]
    rfl

/-- A conversation is written with what its turns were written as. -/
theorem storedConversation_of_text {conversation : Conversation} {v : JsonValue}
    (hv : v.Storable)
    (htext : serializeTurns conversation.turns = (turnsEnvelope (some v)).stringify) :
    storedConversation conversation = some (conversation.toJson (some v)) := by
  have henvelope : (turnsEnvelope (some v)).Storable := by
    refine storable_envelope ?_
    rintro _ ⟨⟩
    exact hv
  rw [storedConversation, htext, parse_stringify henvelope]
  rfl

/-- A conversation is restored as it was stored. -/
theorem restoredConversation_toJson {conversation : Conversation}
    (h : Representable conversation.turns) :
    restoredConversation (conversation.toJson (some (turnsValue conversation.turns))) =
      conversation.toJson (some (turnsValue conversation.turns)) := by
  have hprop : prop (conversation.toJson (some (turnsValue conversation.turns))) "turns" =
      some (turnsValue conversation.turns) := rfl
  rw [restoredConversation, hprop, turnsValue,
    parseTurns_envelope (storable_turnsValue h), filter_isTurn]
  rfl

/-! ## The whole text -/

/-- `{ version, activeId, conversations }` -/
def stateValue (activeId : JsString) (items : List JsonValue) : JsonValue :=
  .object [(word "version", storageVersion), (word "activeId", .string activeId),
    (word "conversations", .array items)]

theorem storable_state (activeId : JsString) {items : List JsonValue}
    (h : ∀ v ∈ items, v.Storable) : (stateValue activeId items).Storable := by
  have hnodup : [word "version", word "activeId", word "conversations"].Nodup := by decide
  rw [stateValue, JsonValue.Storable]
  exact ⟨hnodup, storable_version, trivial, storable_array h, trivial⟩

/-- What the items of a text are restored to. -/
def restoredState (activeId : Option JsString) (items : List JsonValue) :
    Option StoredConversations :=
  match ((items.filter isConversation).take maxConversations).map restoredConversation with
  | [] => none
  | first :: more =>
    some
      { activeId := activeAmong (first :: more) first activeId
        conversations := first :: more }

theorem parseConversations_state (activeId : JsString) {items : List JsonValue}
    (h : ∀ v ∈ items, v.Storable) :
    parseConversations (some (stateValue activeId items).stringify) =
      restoredState (some activeId) items := by
  have hparse := parse_stringify (storable_state activeId h)
  unfold parseConversations
  split
  · rename_i hnone
    cases hnone
  · rename_i hempty
    exact absurd (Option.some.inj hempty) (stringify_ne_nil _)
  · rename_i c rest htext
    rw [← Option.some.inj htext, hparse]
    rfl

theorem mapM_eq_some {α β : Type} {f : α → Option β} {g : α → β} {l : List α}
    (h : ∀ a ∈ l, f a = some (g a)) : l.mapM f = some (l.map g) := by
  induction l with
  | nil => rfl
  | cons a l ih =>
    rw [List.forall_mem_cons] at h
    rw [List.mapM_cons, h.1, ih h.2]
    rfl

section

variable (localeCompare : JsString → JsString → ℤ)

/-- A conversation with its stored turns. -/
def Conversation.stored (conversation : Conversation) : JsonValue :=
  conversation.toJson (some (turnsValue conversation.turns))

theorem mem_of_mem_recent {conversations : List Conversation} {c : Conversation}
    (h : c ∈ recentConversations localeCompare conversations) : c ∈ conversations :=
  (List.perm_insertionSort _ conversations).mem_iff.mp (List.mem_of_mem_take h)

theorem serializeConversations_eq {conversations : List Conversation} (activeId : JsString)
    (h : ∀ c ∈ conversations, Representable c.turns) :
    serializeConversations localeCompare conversations activeId =
      some (stateValue activeId
        ((recentConversations localeCompare conversations).map (·.stored))).stringify := by
  rw [serializeConversations, mapM_eq_some fun c hc =>
    storedConversation_of_text (storable_turnsValue (h c (mem_of_mem_recent localeCompare hc))) rfl]
  rfl

/-- The conversations that were stored are restored. -/
theorem restored_stored {recent : List Conversation}
    (h : ∀ c ∈ recent, Representable c.turns) (hlength : recent.length ≤ maxConversations) :
    (((recent.map (·.stored)).filter isConversation).take maxConversations).map
      restoredConversation = recent.map (·.stored) := by
  have hfilter : (recent.map (·.stored)).filter isConversation = recent.map (·.stored) := by
    refine List.filter_eq_self.mpr fun v hv => ?_
    obtain ⟨c, -, rfl⟩ := List.mem_map.mp hv
    rfl
  rw [hfilter, List.take_of_length_le (by rwa [List.length_map]), List.map_map]
  exact List.map_congr_left fun c hc => restoredConversation_toJson (h c hc)

/-- `localeCompare` compares consistently. -/
structure Collates : Prop where
  total : ∀ a b, localeCompare a b ≤ 0 ∨ localeCompare b a ≤ 0
  trans : ∀ a b c, localeCompare a b ≤ 0 → localeCompare b c ≤ 0 → localeCompare a c ≤ 0

/-- The conversations that were updated last, up to the limit, the latest one first. -/
structure MostRecent (conversations kept : List Conversation) : Prop where
  length : kept.length = min maxConversations conversations.length
  sorted : kept.Pairwise fun a b => localeCompare b.updatedAt a.updatedAt ≤ 0
  dropped : ∃ dropped, (kept ++ dropped).Perm conversations ∧
    ∀ a ∈ kept, ∀ b ∈ dropped, localeCompare b.updatedAt a.updatedAt ≤ 0

/-- The last ones of the finished turns, up to the limit. -/
structure LastFinished (turns kept : List (AskTurn AnswerSource)) : Prop where
  length : kept.length =
    min storedTurnLimit (turns.filter fun turn => turn.status ≠ .streaming).length
  suffix : kept <:+ turns.filter fun turn => turn.status ≠ .streaming

/-- The state has the conversations that were kept, and the active one of them or else the first. -/
structure Reloaded (kept : List Conversation) (activeId : JsString)
    (state : StoredConversations) : Prop where
  conversations : List.Forall₂ (fun c v => ∃ turns, LastFinished c.turns turns ∧
    v = c.toJson (some (.array (turns.map (·.toJson))))) kept state.conversations
  active : activeId ∈ kept.map (·.id) → state.activeId = activeId
  first : activeId ∉ kept.map (·.id) → kept.head?.map (·.id) = some state.activeId

/-- There are conversations, up to the limit, one of them is active, and no turn is streaming. -/
structure StoredConversations.Sound (state : StoredConversations) : Prop where
  nonempty : state.conversations ≠ []
  length : state.conversations.length ≤ maxConversations
  active : ∃ c ∈ state.conversations, stringProp c "id" = some state.activeId
  settled : ∀ c ∈ state.conversations, ∃ turns, arrayProp c "turns" = some turns ∧
    ∀ turn ∈ turns, stringProp turn "status" ≠ some AskTurnStatus.streaming.text

variable {localeCompare}

theorem mostRecent_recentConversations (hlocale : Collates localeCompare)
    (conversations : List Conversation) :
    MostRecent localeCompare conversations (recentConversations localeCompare conversations) := by
  have hsorted : (conversations.insertionSort fun a b : Conversation =>
      localeCompare b.updatedAt a.updatedAt ≤ 0).Pairwise
        fun a b => localeCompare b.updatedAt a.updatedAt ≤ 0 := by
    have htotal : Std.Total fun a b : Conversation =>
        localeCompare b.updatedAt a.updatedAt ≤ 0 := ⟨fun a b => hlocale.total _ _⟩
    have htrans : IsTrans Conversation fun a b =>
        localeCompare b.updatedAt a.updatedAt ≤ 0 :=
      ⟨fun a b c hab hbc => hlocale.trans _ _ _ hbc hab⟩
    exact List.pairwise_insertionSort _ conversations
  have hperm := List.perm_insertionSort (fun a b : Conversation =>
    localeCompare b.updatedAt a.updatedAt ≤ 0) conversations
  unfold recentConversations
  generalize (conversations.insertionSort fun a b : Conversation =>
    localeCompare b.updatedAt a.updatedAt ≤ 0) = sorted at hsorted hperm
  refine ⟨?_, hsorted.sublist (List.take_sublist _ _), sorted.drop maxConversations, ?_, ?_⟩
  · rw [List.length_take, hperm.length_eq]
  · rwa [List.take_append_drop]
  · rw [← List.take_append_drop maxConversations sorted, List.pairwise_append] at hsorted
    exact hsorted.2.2

theorem lastFinished_storedTurns (turns : List (AskTurn AnswerSource)) :
    LastFinished turns (storedTurns turns) where
  length := by
    rw [storedTurns, List.length_drop]
    omega
  suffix := List.drop_suffix _ _

theorem any_stored {recent : List Conversation} {a : JsString} :
    ((recent.map (·.stored)).any fun item => stringProp item "id" = some a) = true ↔
      a ∈ recent.map (·.id) := by
  rw [List.any_map, List.any_eq_true, List.mem_map]
  refine exists_congr fun c => and_congr_right fun _ => ?_
  have hid : stringProp c.stored "id" = some c.id := rfl
  simp [hid]

/-- Conversations that were stored are restored with the active one of them. -/
theorem reloaded_of_stored (activeId : JsString) {recent : List Conversation}
    (hne : recent ≠ []) (h : ∀ c ∈ recent, Representable c.turns)
    (hlength : recent.length ≤ maxConversations) :
    ∃ state, restoredState (some activeId) (recent.map (·.stored)) = some state ∧
      Reloaded recent activeId state := by
  unfold restoredState
  rw [restored_stored h hlength]
  cases recent with
  | nil => exact absurd rfl hne
  | cons c more =>
    refine ⟨_, rfl, ?_, fun hmem => ?_, fun hmem => ?_⟩
    · change List.Forall₂ _ (c :: more) ((c :: more).map (·.stored))
      rw [List.forall₂_map_right_iff, List.forall₂_same]
      exact fun c _ => ⟨_, lastFinished_storedTurns c.turns, rfl⟩
    · exact if_pos (any_stored.mpr hmem)
    · exact congrArg some (if_neg fun hany => hmem (any_stored.mp hany)).symm

/-! ## Any text -/

theorem isTurn_of_mem_parseTurns {raw : Option JsString} {turn : JsonValue}
    (h : turn ∈ parseTurns raw) : isTurn turn = true := by
  unfold parseTurns at h
  split at h
  · cases h
  · cases h
  · split at h
    · cases h
    · split_ifs at h
      · split at h
        · cases h
        · exact List.of_mem_filter h
      · cases h

theorem status_of_isTurn {turn : JsonValue} (h : isTurn turn = true) :
    stringProp turn "status" ≠ some AskTurnStatus.streaming.text := by
  intro hstreaming
  unfold isTurn at h
  rw [hstreaming] at h
  have hnot : AskTurnStatus.streaming.text ∉ restorable := by decide
  simp [hnot] at h

theorem read_assign {entries : List (JsString × JsonValue)} {k k' : JsString} {v : JsonValue} :
    Dict.read (Dict.assign entries k v) k' =
      if k = k' then some v else Dict.read entries k' := by
  induction entries with
  | nil => rfl
  | cons e rest ih =>
    rw [Dict.assign]
    split_ifs with hk hk' hk'
    · simp [Dict.read, hk']
    · simp [Dict.read, hk', hk ▸ hk']
    · rw [Dict.read, ih, if_pos hk', if_neg (hk' ▸ hk)]
    · rw [Dict.read, ih, if_neg hk', Dict.read]

/-- An item that has an id keeps it, and has the turns that were restored. -/
theorem restoredConversation_props {item : JsonValue} {a : JsString}
    (h : stringProp item "id" = some a) :
    stringProp (restoredConversation item) "id" = some a ∧
      ∃ raw, arrayProp (restoredConversation item) "turns" = some (parseTurns raw) := by
  have hkeys : word "turns" ≠ word "id" := by decide
  cases item with
  | object fields =>
    refine ⟨?_, some (turnsEnvelope (prop (.object fields) "turns")).stringify, ?_⟩
    · unfold restoredConversation withTurns stringProp prop
      dsimp only
      rw [read_assign, if_neg hkeys]
      exact h
    · unfold restoredConversation withTurns arrayProp
      rw [prop, read_assign, if_pos rfl]
  | null => cases h
  | bool b => cases h
  | number n => cases h
  | string s => cases h
  | array items => cases h

theorem id_of_isConversation {item : JsonValue} (h : isConversation item = true) :
    ∃ a, stringProp item "id" = some a := by
  simp only [isConversation, Bool.and_eq_true] at h
  exact Option.isSome_iff_exists.mp h.1.1.1

theorem sound_of_restored {activeId : Option JsString} {items : List JsonValue}
    {state : StoredConversations} (h : restoredState activeId items = some state) :
    state.Sound := by
  have hitems : ∀ c ∈ ((items.filter isConversation).take maxConversations).map
      restoredConversation, (∃ a, stringProp c "id" = some a) ∧
        ∃ raw, arrayProp c "turns" = some (parseTurns raw) := by
    intro c hc
    obtain ⟨item, hitem, rfl⟩ := List.mem_map.mp hc
    obtain ⟨a, ha⟩ := id_of_isConversation (List.of_mem_filter (List.mem_of_mem_take hitem))
    obtain ⟨hid, hturns⟩ := restoredConversation_props ha
    exact ⟨⟨a, hid⟩, hturns⟩
  have hlength : (((items.filter isConversation).take maxConversations).map
      restoredConversation).length ≤ maxConversations := by
    rw [List.length_map]
    exact List.length_take_le _ _
  unfold restoredState at h
  generalize ((items.filter isConversation).take maxConversations).map restoredConversation =
    restored at h hitems hlength
  cases restored with
  | nil => cases h
  | cons first more =>
    obtain rfl := Option.some.inj h
    refine ⟨List.cons_ne_nil _ _, hlength, ?_, fun c hc => ?_⟩
    · obtain ⟨⟨a, ha⟩, -⟩ := hitems first List.mem_cons_self
      have hfirst : stringProp first "id" = some ((stringProp first "id").getD []) := by
        rw [ha, Option.getD_some]
      dsimp only
      unfold activeAmong
      split
      · rename_i active
        split_ifs with hany
        · obtain ⟨c, hc, hid⟩ := List.any_eq_true.mp hany
          exact ⟨c, hc, of_decide_eq_true hid⟩
        · exact ⟨first, List.mem_cons_self, hfirst⟩
      · exact ⟨first, List.mem_cons_self, hfirst⟩
    · obtain ⟨-, raw, hturns⟩ := hitems c hc
      exact ⟨_, hturns, fun turn hturn => status_of_isTurn (isTurn_of_mem_parseTurns hturn)⟩

theorem sound_of_parse {raw : Option JsString} {state : StoredConversations}
    (h : parseConversations raw = some state) : state.Sound := by
  unfold parseConversations at h
  split at h
  · cases h
  · cases h
  · split at h
    · cases h
    · split_ifs at h
      split at h
      · cases h
      · exact sound_of_restored h

/-- Conversations, at least one of them, are restored up to the limits if the numbers of their
sources can be written, and any text is restored to a sound state or to none. -/
theorem reload (localeCompare : JsString → JsString → ℤ) (hlocale : Collates localeCompare) :
    (∀ (conversations : List Conversation) (activeId : JsString), conversations ≠ [] →
      (∀ c ∈ conversations, Representable c.turns) →
      ∃ raw kept state, serializeConversations localeCompare conversations activeId = some raw ∧
        MostRecent localeCompare conversations kept ∧ parseConversations (some raw) = some state ∧
        Reloaded kept activeId state) ∧
    ∀ raw : Option JsString, parseConversations raw = none ∨
      ∃ state, parseConversations raw = some state ∧ state.Sound := by
  refine ⟨fun conversations activeId hne h => ?_, fun raw => ?_⟩
  · have hrecent := mostRecent_recentConversations hlocale conversations
    have hrepresentable (c) (hc : c ∈ recentConversations localeCompare conversations) :=
      h c (mem_of_mem_recent localeCompare hc)
    have hlength := hrecent.length
    have hpos := List.length_pos_of_ne_nil hne
    have hkept : recentConversations localeCompare conversations ≠ [] := by
      refine List.ne_nil_of_length_pos ?_
      rw [hlength]
      exact lt_min (by decide) hpos
    obtain ⟨state, hstate, hreloaded⟩ := reloaded_of_stored activeId hkept hrepresentable
      (hlength ▸ min_le_left _ _)
    refine ⟨_, _, state, serializeConversations_eq localeCompare activeId h, hrecent, ?_, hreloaded⟩
    rw [parseConversations_state activeId, hstate]
    intro v hv
    obtain ⟨c, hc, rfl⟩ := List.mem_map.mp hv
    refine storable_conversation c ?_
    rintro _ ⟨⟩
    exact storable_turnsValue (hrepresentable c hc)
  · cases hparse : parseConversations raw with
    | none => exact Or.inl rfl
    | some state => exact Or.inr ⟨state, rfl, sound_of_parse hparse⟩

/-- The order of the code units, which is that of `localeCompare` for dates of one form. -/
def codeUnitOrder (a b : JsString) : ℤ :=
  if a.map (·.toNat) < b.map (·.toNat) then -1
  else if b.map (·.toNat) < a.map (·.toNat) then 1
  else 0

theorem codeUnitOrder_nonpos (a b : JsString) :
    codeUnitOrder a b ≤ 0 ↔ a.map (·.toNat) ≤ b.map (·.toNat) := by
  unfold codeUnitOrder
  split_ifs with hlt hgt
  · simp [hlt.le]
  · simp [hgt]
  · simp [not_lt.mp hgt]

theorem collates_codeUnitOrder : Collates codeUnitOrder where
  total a b := by
    simp only [codeUnitOrder_nonpos]
    exact le_total _ _
  trans a b c := by
    simp only [codeUnitOrder_nonpos]
    exact le_trans

/-- A source with a number. -/
def sourceAt (index : JsNumber) : AnswerSource where
  index := index
  sourceId := word "source"
  chunkId := none
  kind := .meeting
  title := word "Weekly"
  excerpt := word "We decided."
  timestamp := none

/-- A turn that was answered from a source. -/
def answeredTurn (index : JsNumber) : AskTurn AnswerSource where
  id := word "turn"
  question := word "What was decided?"
  answer := word "It was [1]."
  sources := [sourceAt index]
  status := .done
  errorMessage := none
  errorAction := none

/-- A conversation of one turn. -/
def conversationAt (id updatedAt : String) (index : JsNumber) : Conversation where
  id := word id
  title := word "What was decided?"
  createdAt := word "2026-01-01T00:00:00.000Z"
  updatedAt := word updatedAt
  turns := [answeredTurn index]

theorem reload_two : ∃ raw kept state,
    serializeConversations codeUnitOrder
      [conversationAt "first" "2026-01-02T00:00:00.000Z" (.finite .one),
        conversationAt "second" "2026-01-03T00:00:00.000Z" (.finite .one)] (word "first") =
        some raw ∧
      MostRecent codeUnitOrder [conversationAt "first" "2026-01-02T00:00:00.000Z" (.finite .one),
        conversationAt "second" "2026-01-03T00:00:00.000Z" (.finite .one)] kept ∧
      parseConversations (some raw) = some state ∧ Reloaded kept (word "first") state := by
  refine (reload codeUnitOrder collates_codeUnitOrder).1 _ _ (List.cons_ne_nil _ _) ?_
  simp only [List.forall_mem_cons]
  have hindex : Representable [answeredTurn (.finite .one)] := by
    intro turn hturn source hsource
    rw [List.mem_singleton.mp hturn] at hsource
    rw [List.mem_singleton.mp hsource]
    refine ⟨storable_version, ?_⟩
    rintro _ ⟨⟩
  exact ⟨hindex, hindex, fun c hc => by cases hc⟩

end

/-- What is read of the turn whose source has no number. -/
def turnWithNull : JsonValue :=
  .object [(word "id", .string (word "turn")),
    (word "question", .string (word "What was decided?")),
    (word "answer", .string (word "It was [1].")),
    (word "sources", .array [.object [(word "index", .null),
      (word "sourceId", .string (word "source")), (word "kind", .string (word "meeting")),
      (word "title", .string (word "Weekly")), (word "excerpt", .string (word "We decided."))]]),
    (word "status", .string (word "done"))]

theorem storable_turnWithNull : turnWithNull.Storable := by
  simp only [turnWithNull, JsonValue.Storable, FieldsStorable, ItemsStorable, and_true, true_and]
  decide

/-- `NaN` is written as `null`. -/
theorem serializeTurns_nan : serializeTurns [answeredTurn .nan] =
    (turnsEnvelope (some (.array [turnWithNull]))).stringify := rfl

/-- What a text with one conversation, the active one, is restored to. -/
theorem restoredState_singleton {item restored : JsonValue} {a : JsString}
    (hitem : isConversation item = true) (hid : stringProp item "id" = some a)
    (hrestored : restoredConversation item = restored) :
    restoredState (some a) [item] = some ⟨a, [restored]⟩ := by
  have hany : [restored].any (fun c => stringProp c "id" = some a) = true := by
    have hkeeps := (restoredConversation_props hid).1
    rw [hrestored] at hkeeps
    rw [List.any_cons, decide_eq_true hkeeps]
    rfl
  have hactive : activeAmong [restored] restored (some a) = a := if_pos hany
  have hfilter : [item].filter isConversation = [item] := by
    rw [List.filter_cons_of_pos hitem, List.filter_nil]
  rw [restoredState, hfilter]
  change some (StoredConversations.mk (activeAmong [restoredConversation item]
    (restoredConversation item) (some a)) [restoredConversation item]) = _
  rw [hrestored, hactive]

/-- A conversation whose source has a number that is not written as it is. -/
def brokenConversation (index : JsNumber) : Conversation :=
  conversationAt "first" "2026-01-02T00:00:00.000Z" index

/-- `NaN` is written as `null`, and the turn is dropped. -/
theorem reload_nan : ∃ raw,
    serializeConversations codeUnitOrder [brokenConversation .nan] (word "first") = some raw ∧
      parseConversations (some raw) =
        some ⟨word "first", [(brokenConversation .nan).toJson (some (.array []))]⟩ := by
  have hturns : (JsonValue.array [turnWithNull]).Storable := ⟨storable_turnWithNull, trivial⟩
  have hstored : storedConversation (brokenConversation .nan) =
      some ((brokenConversation .nan).toJson (some (.array [turnWithNull]))) :=
    storedConversation_of_text hturns serializeTurns_nan
  have hitem : ∀ v ∈ [(brokenConversation .nan).toJson (some (.array [turnWithNull]))],
      v.Storable := by
    intro v hv
    rw [List.mem_singleton.mp hv]
    refine storable_conversation _ ?_
    rintro _ ⟨⟩
    exact hturns
  refine ⟨(stateValue (word "first") [(brokenConversation .nan).toJson
    (some (.array [turnWithNull]))]).stringify, ?_, ?_⟩
  · have hrecent : recentConversations codeUnitOrder [brokenConversation .nan] =
        [brokenConversation .nan] := rfl
    rw [serializeConversations, hrecent, List.mapM_cons, hstored]
    rfl
  · rw [parseConversations_state (word "first") hitem]
    refine restoredState_singleton rfl rfl ?_
    have hprop : prop ((brokenConversation .nan).toJson (some (.array [turnWithNull]))) "turns" =
        some (.array [turnWithNull]) := rfl
    rw [restoredConversation, hprop, parseTurns_envelope hturns]
    rfl

/-- Zero, with a sign or without. -/
def signedZero (negative : Bool) : JsNumber := .finite ⟨negative, 0, zero_nonneg, nearest_zero⟩

/-- Negative zero is written as zero. -/
theorem reload_negativeZero :
    serializeConversations codeUnitOrder [brokenConversation (signedZero true)] (word "first") =
      serializeConversations codeUnitOrder [brokenConversation (signedZero false)]
        (word "first") := by
  have hturns : serializeTurns (brokenConversation (signedZero true)).turns =
      serializeTurns (brokenConversation (signedZero false)).turns := rfl
  have hstored : storedConversation (brokenConversation (signedZero true)) =
      storedConversation (brokenConversation (signedZero false)) := by
    have hjson : (brokenConversation (signedZero true)).toJson =
        (brokenConversation (signedZero false)).toJson := rfl
    rw [storedConversation, storedConversation, hturns, hjson]
  have hrecent (n : JsNumber) : recentConversations codeUnitOrder [brokenConversation n] =
      [brokenConversation n] := rfl
  rw [serializeConversations, serializeConversations, hrecent, hrecent, List.mapM_cons,
    List.mapM_cons, hstored]

/-- No conversation at all is not restored. -/
theorem reload_empty : ∃ raw, serializeConversations codeUnitOrder [] (word "first") = some raw ∧
    parseConversations (some raw) = none := by
  refine ⟨(stateValue (word "first") []).stringify, rfl, ?_⟩
  rw [parseConversations_state (word "first") fun v hv => by cases hv]
  rfl

/-- A list without conversations is restored to nothing, a turn whose source has no number is lost,
and negative zero becomes zero. -/
theorem not_all_reloaded :
    (∃ raw, serializeConversations codeUnitOrder [] (word "first") = some raw ∧
      parseConversations (some raw) = none) ∧
    (∃ raw, serializeConversations codeUnitOrder [brokenConversation .nan] (word "first") =
        some raw ∧
      parseConversations (some raw) =
        some ⟨word "first", [(brokenConversation .nan).toJson (some (.array []))]⟩) ∧
    signedZero true ≠ signedZero false ∧
    serializeConversations codeUnitOrder [brokenConversation (signedZero true)] (word "first") =
      serializeConversations codeUnitOrder [brokenConversation (signedZero false)]
        (word "first") :=
  ⟨reload_empty, reload_nan, by decide, reload_negativeZero⟩

end Maeglagi.Ask
