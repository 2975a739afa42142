import Maeglagi.Core.Fallible
import Maeglagi.Core.Machine
import Maeglagi.Core.Table
import Maeglagi.Runtime

/-!
# MCP tokens

The table `mcp_tokens` and the operations on it: issuing, extending, revoking and
authenticating. Time only moves forward, so a token that is revoked or expired stays so.
-/

namespace Maeglagi.Auth

open Core

variable {Id H : Type} [DecidableEq Id] [DecidableEq H]

/-- `McpToken` -/
structure McpToken (Id H : Type) where
  id : Id
  ownerId : Id
  label : Text
  tokenHash : H
  tokenHint : Text
  createdAt : Instant
  expiresAt : Option Instant
  lastUsedAt : Option Instant
  revokedAt : Option Instant
  deriving DecidableEq

/-- How a call fails; nothing it changed is committed. -/
inductive TokenError where
  | http (status : Nat) (detail : String)
  | overflowError
  | integrityError
  deriving DecidableEq, Repr

/-- `MAX_TOKEN_LIFETIME_DAYS` -/
def maxTokenLifetimeDays : Int := 365

/-- `MAX_ACTIVE_TOKENS` -/
def maxActiveTokens : Nat := 20

/-- The token is neither revoked nor expired. -/
def McpToken.active (now : Instant) (x : McpToken Id H) : Bool :=
  x.revokedAt.isNone && x.expiresAt.all fun e => decide (now < e)

/-- `validate_lifetime` -/
def validateLifetime (days : Option Int) : Except TokenError Unit :=
  match days with
  | none => .ok ()
  | some days =>
    if 1 ≤ days ∧ days ≤ maxTokenLifetimeDays then .ok ()
    else .error (.http 422 "토큰 유효 기간은 1~365일로 설정해 주세요.")

/-- `datetime.now(UTC) + timedelta(days=days)`, or no expiry. -/
def expiry (now : Instant) (days : Option Int) : Except TokenError (Option Instant) :=
  match days with
  | none => .ok none
  | some days =>
    let moment := (now.val : Int) + days * 86400000000
    if h : 0 ≤ moment ∧ moment.toNat < instantCount then .ok (some ⟨moment.toNat, h.2⟩)
    else .error .overflowError

/-- The label of a token can be stored. -/
def labelFits (label : Text) : Bool :=
  !label.isEmpty && decide (label.length ≤ 80) && label.all fun c => decide (32 ≤ c.toNat)

/-- `TOKEN_PATTERN` -/
def tokenPattern (token : Text) : Bool :=
  "mgmcp_".toList.isPrefixOf token &&
    let rest := token.drop 6
    decide (rest.length = 43) && rest.all fun c =>
      (decide ('A' ≤ c) && decide (c ≤ 'Z')) || (decide ('a' ≤ c) && decide (c ≤ 'z')) ||
        (decide ('0' ≤ c) && decide (c ≤ '9')) || c == '_' || c == '-'

/-- The table and the time. -/
structure Tokens (Id H : Type) where
  now : Instant
  rows : List (McpToken Id H)
  deriving DecidableEq

namespace Tokens

/-- The active tokens of an owner. -/
def activeCount (s : Tokens Id H) (ownerId : Id) : Nat :=
  s.rows.countP fun x => decide (x.ownerId = ownerId) && x.active s.now

/-- `issue_token`: `id` and `secret` are the random values it draws. -/
def issueToken (tokenDigest : Text → H) (s : Tokens Id H) (ownerId : Id) (label : Text)
    (expiresInDays : Option Int) (id : Id) (secret : Text) :
    Except TokenError (Tokens Id H) := do
  let label := strip label
  if labelFits label then
    validateLifetime expiresInDays
    if maxActiveTokens ≤ s.activeCount ownerId then
      throw (.http 409 "사용하지 않는 MCP 연결을 해제한 뒤 추가해 주세요.")
    else
      let secret := "mgmcp_".toList ++ secret
      let expiresAt ← expiry s.now expiresInDays
      -- the primary key and the unique constraint on the digest
      if id ∈ s.rows.map (·.id) ∨ tokenDigest secret ∈ s.rows.map (·.tokenHash) then
        throw .integrityError
      else return { s with
        rows := s.rows ++ [⟨id, ownerId, label, tokenDigest secret,
          secret.drop (secret.length - 6), s.now, expiresAt, none, none⟩] }
  else throw (.http 422 "연결 이름을 1~80자로 입력해 주세요.")

/-- The row that `extend_token` updates. -/
def extendable (now : Instant) (ownerId tokenId : Id) (newExpiry : Option Instant)
    (x : McpToken Id H) : Bool :=
  decide (x.id = tokenId) && decide (x.ownerId = ownerId) && x.revokedAt.isNone &&
    x.expiresAt.any fun e => decide (now < e) && newExpiry.all fun new => decide (e < new)

/-- `extend_token` -/
def extendToken (s : Tokens Id H) (ownerId tokenId : Id) (expiresInDays : Option Int) :
    Except TokenError (Tokens Id H) := do
  validateLifetime expiresInDays
  let newExpiry ← expiry s.now expiresInDays
  if s.rows.any (extendable s.now ownerId tokenId newExpiry) then
    return { s with
      rows := updateWhere (extendable s.now ownerId tokenId newExpiry)
        (fun x => { x with expiresAt := newExpiry }) s.rows }
  else if s.rows.any fun x =>
      decide (x.id = tokenId) && decide (x.ownerId = ownerId) && x.active s.now then
    throw (.http 409 "선택한 기간으로는 현재 만료일이 늘어나지 않습니다.")
  else throw (.http 404 "활성 MCP 토큰을 찾을 수 없습니다. 만료된 토큰은 새로 발급해 주세요.")

/-- `revoke_token` -/
def revokeToken (s : Tokens Id H) (userId tokenId : Id) : Except TokenError (Tokens Id H) :=
  match s.rows.find? fun x => decide (x.id = tokenId) with
  | none => .error (.http 404 "MCP connection not found")
  | some item =>
    if item.ownerId = userId then
      .ok { s with
        rows := updateWhere (fun x => decide (x.id = tokenId) && decide (x.ownerId = userId) &&
          x.revokedAt.isNone) (fun x => { x with revokedAt := some s.now }) s.rows }
    else .error (.http 404 "MCP connection not found")

/-- `authenticate_mcp_token`: the owner of the token, and the table with its use recorded. -/
def authenticate (tokenDigest : Text → H) (s : Tokens Id H) (token : Text) :
    Except TokenError (Id × Tokens Id H) :=
  if tokenPattern token then
    let valid := fun x : McpToken Id H =>
      decide (x.tokenHash = tokenDigest token) && x.active s.now
    match s.rows.find? valid with
    | none => .error (.http 401 "Invalid or expired MCP token")
    | some item => .ok (item.ownerId, { s with
        rows := updateWhere valid (fun x => { x with lastUsedAt := some s.now }) s.rows })
  else .error (.http 401 "Invalid or expired MCP token")

end Tokens

/-- A call with the random values it draws, or the passing of time. -/
inductive TokenEvent (Id : Type) where
  | tick (now : Instant)
  | issue (ownerId : Id) (label : Text) (expiresInDays : Option Int) (id : Id) (secret : Text)
  | extend (ownerId tokenId : Id) (expiresInDays : Option Int)
  | revoke (userId tokenId : Id)
  | authenticate (token : Text)

/-- The table after a call that may fail. -/
def Tokens.after (s : Tokens Id H) (result : Except TokenError (Tokens Id H)) : Tokens Id H :=
  match result with
  | .ok s' => s'
  | .error _ => s

/-- One call at one instant; the clock never goes back. -/
def Tokens.step (tokenDigest : Text → H) (s : Tokens Id H) : TokenEvent Id → Option (Tokens Id H)
  | .tick now => if s.now ≤ now then some { s with now := now } else none
  | .issue ownerId label days id secret =>
    some (s.after (s.issueToken tokenDigest ownerId label days id secret))
  | .extend ownerId tokenId days => some (s.after (s.extendToken ownerId tokenId days))
  | .revoke userId tokenId => some (s.after (s.revokeToken userId tokenId))
  | .authenticate token => some (s.after ((s.authenticate tokenDigest token).map Prod.snd))

/-- The second expiry is no earlier; no expiry is the latest. -/
def ExpiresLater (a b : Option Instant) : Prop := ∀ e' ∈ b, ∃ e ∈ a, e ≤ e'

/-- What becomes of a token: the same one, expiring no earlier, and dead once it was dead. -/
structure Ages (now now' : Instant) (x y : McpToken Id H) : Prop where
  id : y.id = x.id
  tokenHash : y.tokenHash = x.tokenHash
  expires : ExpiresLater x.expiresAt y.expiresAt
  dead : x.active now = false → y.active now' = false

/-- Every token of the first table is in the second one. -/
def Tokens.Ages (s s' : Tokens Id H) : Prop :=
  ∀ x ∈ s.rows, ∃ y ∈ s'.rows, Auth.Ages s.now s'.now x y

/-- Ids and digests name one token, and no owner has too many. -/
structure Tokens.Good (s : Tokens Id H) : Prop where
  ids : (s.rows.map (·.id)).Nodup
  hashes : (s.rows.map (·.tokenHash)).Nodup
  few : ∀ ownerId, s.activeCount ownerId ≤ maxActiveTokens

section
variable {now now' now'' : Instant} {x y z : McpToken Id H} {s s' s'' : Tokens Id H}
  {tokenDigest : Text → H}

omit [DecidableEq Id] [DecidableEq H] in
theorem active_eq_true_iff :
    x.active now = true ↔ x.revokedAt = none ∧ ∀ e ∈ x.expiresAt, now < e := by
  cases he : x.expiresAt <;> simp [McpToken.active, he]

theorem ExpiresLater.refl (a : Option Instant) : ExpiresLater a a := fun e he => ⟨e, he, le_rfl⟩

theorem ExpiresLater.trans {a b c : Option Instant} (h : ExpiresLater a b)
    (h' : ExpiresLater b c) : ExpiresLater a c := by
  intro e'' he''
  obtain ⟨e', he', hle'⟩ := h' e'' he''
  obtain ⟨e, he, hle⟩ := h e' he'
  exact ⟨e, he, hle.trans hle'⟩

omit [DecidableEq Id] [DecidableEq H] in
theorem Ages.refl (now : Instant) (x : McpToken Id H) : Ages now now x x :=
  ⟨rfl, rfl, .refl _, fun h => h⟩

omit [DecidableEq Id] [DecidableEq H] in
theorem Ages.trans (h : Ages now now' x y) (h' : Ages now' now'' y z) : Ages now now'' x z :=
  ⟨h'.id.trans h.id, h'.tokenHash.trans h.tokenHash, h.expires.trans h'.expires,
    fun hdead => h'.dead (h.dead hdead)⟩

omit [DecidableEq Id] [DecidableEq H] in
theorem Tokens.Ages.refl (s : Tokens Id H) : s.Ages s := fun x hx => ⟨x, hx, .refl _ x⟩

omit [DecidableEq Id] [DecidableEq H] in
theorem Tokens.Ages.trans (h : s.Ages s') (h' : s'.Ages s'') : s.Ages s'' := by
  intro x hx
  obtain ⟨y, hy, hxy⟩ := h x hx
  obtain ⟨z, hz, hyz⟩ := h' y hy
  exact ⟨z, hz, hxy.trans hyz⟩

omit [DecidableEq Id] [DecidableEq H] in
/-- What is inactive now is inactive at any later moment. -/
theorem active_mono (h : now ≤ now') (hactive : x.active now' = true) : x.active now = true := by
  rw [active_eq_true_iff] at hactive ⊢
  exact ⟨hactive.1, fun e he => h.trans_lt (hactive.2 e he)⟩

omit [DecidableEq Id] [DecidableEq H] in
theorem ages_tick (h : now ≤ now') (x : McpToken Id H) : Ages now now' x x := by
  refine ⟨rfl, rfl, .refl _, fun hdead => ?_⟩
  by_contra hactive
  rw [Bool.not_eq_false] at hactive
  rw [active_mono h hactive] at hdead
  cases hdead

omit [DecidableEq Id] [DecidableEq H] in
/-- An update of tokens that age by it. -/
theorem ages_updateWhere {cond : McpToken Id H → Bool} {change : McpToken Id H → McpToken Id H}
    (h : ∀ x ∈ s.rows, cond x = true → Ages s.now s.now x (change x)) :
    s.Ages { s with rows := updateWhere cond change s.rows } := by
  intro x hx
  refine ⟨if cond x then change x else x, mem_updateWhere.mpr ⟨x, hx, rfl⟩, ?_⟩
  split_ifs with hcond
  · exact h x hx hcond
  · exact .refl _ x

omit [DecidableEq H] in
/-- An update by which tokens age keeps the table good. -/
theorem good_updateWhere (hs : s.Good) {cond : McpToken Id H → Bool}
    {change : McpToken Id H → McpToken Id H}
    (h : ∀ x ∈ s.rows, cond x = true → Ages s.now s.now x (change x))
    (howner : ∀ x, (change x).ownerId = x.ownerId) :
    Tokens.Good { s with rows := updateWhere cond change s.rows } := by
  refine ⟨?_, ?_, fun ownerId => ?_⟩
  · rw [map_updateWhere _ fun x hx hcond => (h x hx hcond).id]
    exact hs.ids
  · rw [map_updateWhere _ fun x hx hcond => (h x hx hcond).tokenHash]
    exact hs.hashes
  · refine le_trans (countP_updateWhere_le (fun x hx hcond hactive => ?_) fun x _ _ h => h)
      (hs.few ownerId)
    rw [Bool.and_eq_true, howner] at hactive
    rw [Bool.and_eq_true]
    refine ⟨hactive.1, ?_⟩
    by_contra hdead
    rw [Bool.not_eq_true] at hdead
    rw [(h x hx hcond).dead hdead] at hactive
    exact absurd hactive.2 Bool.false_ne_true

theorem Tokens.issueToken_eq_ok {ownerId id : Id} {label secret : Text} {days : Option Int}
    (h : s.issueToken tokenDigest ownerId label days id secret = .ok s') :
    ∃ x : McpToken Id H, s' = { s with rows := s.rows ++ [x] } ∧ x.ownerId = ownerId ∧
      s.activeCount ownerId < maxActiveTokens ∧ x.id ∉ s.rows.map (·.id) ∧
      x.tokenHash ∉ s.rows.map (·.tokenHash) := by
  unfold issueToken at h
  by_cases hlabel : labelFits (strip label) = true
  swap
  · simp only [if_neg hlabel] at h
    cases h
  simp only [if_pos hlabel] at h
  obtain ⟨_, -, h⟩ := bind_eq_ok.mp h
  by_cases hcount : maxActiveTokens ≤ s.activeCount ownerId
  · rw [if_pos hcount] at h
    cases h
  rw [if_neg hcount] at h
  obtain ⟨expiresAt, -, h⟩ := bind_eq_ok.mp h
  split_ifs at h with hunique
  rw [not_or] at hunique
  exact ⟨_, (Except.ok.inj h).symm, rfl, not_le.mp hcount, hunique⟩

theorem Tokens.Good.issueToken (hs : s.Good) {ownerId id : Id} {label secret : Text}
    {days : Option Int} (h : s.issueToken tokenDigest ownerId label days id secret = .ok s') :
    s'.Good ∧ s.Ages s' := by
  obtain ⟨x, rfl, howner, hfew, hid, hhash⟩ := Tokens.issueToken_eq_ok h
  refine ⟨⟨?_, ?_, fun owner => ?_⟩, fun y hy => ⟨y, List.mem_append_left _ hy, .refl _ y⟩⟩
  · rw [List.map_append, List.map_singleton, List.nodup_append]
    exact ⟨hs.ids, List.nodup_singleton _, fun a ha b hb heq => by
      rw [List.mem_singleton] at hb
      exact hid (hb ▸ heq ▸ ha)⟩
  · rw [List.map_append, List.map_singleton, List.nodup_append]
    exact ⟨hs.hashes, List.nodup_singleton _, fun a ha b hb heq => by
      rw [List.mem_singleton] at hb
      exact hhash (hb ▸ heq ▸ ha)⟩
  · have hbound := hs.few owner
    unfold Tokens.activeCount at hfew hbound ⊢
    rw [List.countP_append]
    by_cases heq : x.ownerId = owner
    · rw [← howner, heq] at hfew
      have hone := List.countP_le_length
        (p := fun x : McpToken Id H => decide (x.ownerId = owner) && x.active s.now) (l := [x])
      rw [List.length_singleton] at hone
      exact (Nat.add_le_add_left hone _).trans hfew
    · simpa [heq] using hbound

omit [DecidableEq H] in
/-- What `extend_token` writes is later, and the token it writes to is active. -/
theorem ages_extend {ownerId tokenId : Id} {newExpiry : Option Instant}
    (h : Tokens.extendable now ownerId tokenId newExpiry x = true) :
    Ages now now x { x with expiresAt := newExpiry } := by
  simp only [Tokens.extendable, Bool.and_eq_true, decide_eq_true_eq, Option.any_eq_true] at h
  obtain ⟨⟨-, hrevoked⟩, e, he, hnow, hlater⟩ := h
  refine ⟨rfl, rfl, fun new hnew => ⟨e, he, ?_⟩, fun hdead => ?_⟩
  · obtain rfl : newExpiry = some new := hnew
    exact (of_decide_eq_true hlater).le
  · have hactive : x.active now = true := by
      simp [McpToken.active, Option.isNone_iff_eq_none.mp hrevoked, he, hnow]
    rw [hactive] at hdead
    cases hdead

omit [DecidableEq H] in
theorem Tokens.Good.extendToken (hs : s.Good) {ownerId tokenId : Id} {days : Option Int}
    (h : s.extendToken ownerId tokenId days = .ok s') : s'.Good ∧ s.Ages s' := by
  obtain ⟨_, -, h⟩ := bind_eq_ok.mp h
  obtain ⟨newExpiry, -, h⟩ := bind_eq_ok.mp h
  split_ifs at h
  obtain rfl := Except.ok.inj h
  have hages : ∀ x ∈ s.rows, Tokens.extendable s.now ownerId tokenId newExpiry x = true →
      Auth.Ages s.now s.now x { x with expiresAt := newExpiry } := fun x _ hcond => ages_extend hcond
  exact ⟨good_updateWhere hs hages fun _ => rfl, ages_updateWhere hages⟩

omit [DecidableEq H] in
theorem Tokens.Good.revokeToken (hs : s.Good) {userId tokenId : Id}
    (h : s.revokeToken userId tokenId = .ok s') : s'.Good ∧ s.Ages s' := by
  unfold Tokens.revokeToken at h
  split at h
  · cases h
  split_ifs at h
  obtain rfl := Except.ok.inj h
  refine ⟨good_updateWhere hs ?_ fun _ => rfl, ages_updateWhere ?_⟩ <;>
  · rintro x - -
    exact ⟨rfl, rfl, .refl _, fun _ => rfl⟩

theorem Tokens.Good.authenticate (hs : s.Good) {token : Text} {ownerId : Id}
    (h : s.authenticate tokenDigest token = .ok (ownerId, s')) : s'.Good ∧ s.Ages s' := by
  unfold Tokens.authenticate at h
  split_ifs at h
  simp only at h
  split at h
  · cases h
  obtain ⟨-, rfl⟩ := Prod.mk.inj (Except.ok.inj h)
  refine ⟨good_updateWhere hs ?_ fun _ => rfl, ages_updateWhere ?_⟩ <;>
  · rintro x - -
    exact ⟨rfl, rfl, .refl _, fun hdead => hdead⟩

/-- Every call keeps the table good and lets its tokens age. -/
theorem Tokens.Good.step (hs : s.Good) {e : TokenEvent Id}
    (h : s.step tokenDigest e = some s') : s'.Good ∧ s.Ages s' := by
  have hafter : ∀ result : Except TokenError (Tokens Id H),
      (∀ s', result = .ok s' → s'.Good ∧ s.Ages s') → some (s.after result) = some s' →
      s'.Good ∧ s.Ages s' := by
    intro result hresult heq
    obtain rfl := Option.some.inj heq
    cases result with
    | ok s' => exact hresult s' rfl
    | error _ => exact ⟨hs, .refl s⟩
  cases e with
  | tick now =>
    simp only [Tokens.step] at h
    split_ifs at h with hnow
    obtain rfl := Option.some.inj h
    refine ⟨⟨hs.ids, hs.hashes, fun ownerId => ?_⟩, fun x hx => ⟨x, hx, ages_tick hnow x⟩⟩
    refine le_trans (List.countP_mono_left fun x _ hactive => ?_) (hs.few ownerId)
    rw [Bool.and_eq_true] at hactive ⊢
    exact ⟨hactive.1, active_mono hnow hactive.2⟩
  | issue ownerId label days id secret => exact hafter _ (fun _ => hs.issueToken) h
  | extend ownerId tokenId days => exact hafter _ (fun _ => hs.extendToken) h
  | revoke userId tokenId => exact hafter _ (fun _ => hs.revokeToken) h
  | authenticate token =>
    refine hafter _ (fun s' hresult => ?_) h
    cases hauth : s.authenticate tokenDigest token with
    | error _ =>
      rw [hauth] at hresult
      cases hresult
    | ok result =>
      rw [hauth] at hresult
      obtain rfl : result.2 = s' := Except.ok.inj hresult
      exact hs.authenticate hauth

/-- Over a run the table stays good and its tokens age. -/
theorem Tokens.Good.run (hs : s.Good) (h : RunOf (Tokens.step tokenDigest) anyEvent s s') :
    s'.Good ∧ s.Ages s' := by
  refine ⟨h.invariant (fun _ _ _ hgood _ hstep => (hgood.step hstep).1) hs, ?_⟩
  exact h.lift (P := Tokens.Good) Tokens.Ages.refl (fun h h' => Tokens.Ages.trans h h')
    (fun _ _ _ hgood _ hstep => (hgood.step hstep).1)
    (fun _ _ _ hgood _ hstep => (hgood.step hstep).2) hs

/-- A dead token does not authenticate. -/
theorem Tokens.Good.authenticate_dead (hs : s.Good) (hx : x ∈ s.rows)
    (hdead : x.active s.now = false) {token : Text} (htoken : tokenDigest token = x.tokenHash) :
    s.authenticate tokenDigest token = .error (.http 401 "Invalid or expired MCP token") := by
  have hnone : (s.rows.find? fun y =>
      decide (y.tokenHash = tokenDigest token) && y.active s.now) = none := by
    rw [List.find?_eq_none]
    intro y hy hvalid
    rw [Bool.and_eq_true, decide_eq_true_eq, htoken] at hvalid
    obtain rfl := eq_of_key_eq hs.hashes hy hx hvalid.1
    rw [hdead] at hvalid
    exact absurd hvalid.2 Bool.false_ne_true
  unfold Tokens.authenticate
  simp only [hnone, ite_self]

end

/-- Over every run from an empty table: a token that is revoked or expired never
authenticates again, no token's expiry moves earlier, and no owner has too many tokens. -/
theorem token_life_cycle (tokenDigest : Text → H) (start : Instant) (s s' : Tokens Id H)
    (hs : RunOf (Tokens.step tokenDigest) anyEvent ⟨start, []⟩ s)
    (h : RunOf (Tokens.step tokenDigest) anyEvent s s') :
    (∀ x ∈ s.rows, x.active s.now = false → ∀ token, tokenDigest token = x.tokenHash →
      s'.authenticate tokenDigest token = .error (.http 401 "Invalid or expired MCP token")) ∧
    (∀ x ∈ s.rows, ∃ y ∈ s'.rows, y.id = x.id ∧ ExpiresLater x.expiresAt y.expiresAt) ∧
    ∀ ownerId, s'.activeCount ownerId ≤ maxActiveTokens := by
  have hempty : Tokens.Good (⟨start, []⟩ : Tokens Id H) :=
    ⟨List.nodup_nil, List.nodup_nil, fun _ => Nat.zero_le _⟩
  obtain ⟨hgood, -⟩ := hempty.run hs
  obtain ⟨hgood', hages⟩ := hgood.run h
  refine ⟨fun x hx hdead token htoken => ?_, fun x hx => ?_, hgood'.few⟩
  · obtain ⟨y, hy, hxy⟩ := hages x hx
    exact hgood'.authenticate_dead hy (hxy.dead hdead) (htoken.trans hxy.tokenHash.symm)
  · obtain ⟨y, hy, hxy⟩ := hages x hx
    exact ⟨y, hy, hxy.id, hxy.expires⟩

/-- A secret of the right form. -/
def plainSecret : Text := List.replicate 43 'a'

/-- The first instant after the day for which a token was issued. -/
def nextDay : Instant := instantAt 86400000000

/-- The table that holds that token, digests being the tokens themselves. -/
def expiredToken : Tokens Nat Text :=
  ⟨nextDay, [⟨1, 0, "cli".toList, "mgmcp_".toList ++ plainSecret, "aaaaaa".toList, instantAt 0,
    some nextDay, none, none⟩]⟩

theorem token_life_cycle_expired :
    expiredToken.authenticate id ("mgmcp_".toList ++ plainSecret) =
      .error (.http 401 "Invalid or expired MCP token") := by
  have hreplay : replay (Tokens.step id) ⟨instantAt 0, []⟩
      [.issue 0 "cli".toList (some 1) 1 plainSecret, .tick nextDay] = some expiredToken := by
    decide +kernel
  have hrun : RunOf (Tokens.step id) anyEvent ⟨instantAt 0, []⟩ expiredToken :=
    runOf_replay (fun _ _ _ => trivial) hreplay
  refine (token_life_cycle id (instantAt 0) expiredToken expiredToken hrun .refl).1 _
    (List.mem_singleton.mpr rfl) ?_ _ rfl
  decide +kernel

end Maeglagi.Auth
