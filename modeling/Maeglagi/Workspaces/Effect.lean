import Maeglagi.Workspaces.Members

/-!
# What a transaction does to the members

An account and an address sit in a row; `Effect` says which rows with which pairs a
transaction leaves, and both invariants below are case analyses over it.
-/

namespace Maeglagi.Workspaces

open Core

variable {Id : Type} [DecidableEq Id] {casefold : Text → Text} {s s' : Members Id}

/-- The two rows agree on the workspace, the user and the address. -/
structure SameSeat (r r' : WorkspaceMember Id) : Prop where
  workspaceId : r'.workspaceId = r.workspaceId
  userId : r'.userId = r.userId
  emailNormalized : r'.emailNormalized = r.emailNormalized

omit [DecidableEq Id] in
theorem SameSeat.refl (r : WorkspaceMember Id) : SameSeat r r := ⟨rfl, rfl, rfl⟩

/-- Every row of the second state sits where a row of the first one does. -/
def Members.Within (s s' : Members Id) : Prop := ∀ r' ∈ s'.rows, ∃ r ∈ s.rows, SameSeat r r'

/-- The address under which an owner's row is written. -/
def Members.ownAddress (casefold : Text → Text) (s : Members Id) (user : Id) : Text :=
  normalizeEmail casefold (((s.email user).map Subtype.val).getD [])

/-- The claimed row that an event writes: its user and its address. -/
def Members.written (casefold : Text → Text) (s : Members Id) : MemberEvent Id → Option (Id × Text)
  | .createMcp user _ _ => some (user, [])
  | .createWeb user _ _ => some (user, s.ownAddress casefold user)
  | .addressOwner user _ => some (user, s.ownAddress casefold user)
  | _ => none

/-- The row is in a workspace without rows, or in one that its user already has a row of. -/
def Members.Seated (s : Members Id) (workspace user : Id) : Prop :=
  (∃ r ∈ s.rows, r.workspaceId = workspace ∧ r.userId = some user) ∨
    ∀ r ∈ s.rows, r.workspaceId ≠ workspace

/-- What a transaction leaves. -/
inductive Effect (casefold : Text → Text) (s : Members Id) : MemberEvent Id → Members Id → Prop
  | within {e s'} (hemail : s'.email = s.email) (hrows : s.Within s') : Effect casefold s e s'
  | claimed {user email address s'} (hemail : s'.email = s.email)
      (haddress : s.addressOf casefold user = some address)
      (hrows : s'.rows = updateWhere (Members.pending address)
        (fun r => { r with userId := some user, email := email }) s.rows) :
      Effect casefold s (.claim user) s'
  | written {e user address s'} (hemail : s'.email = s.email)
      (hwritten : s.written casefold e = some (user, address))
      (hrows : ∀ r' ∈ s'.rows, (∃ r ∈ s.rows, SameSeat r r') ∨
        r'.userId = some user ∧ r'.emailNormalized = address ∧ s.Seated r'.workspaceId user) :
      Effect casefold s e s'
  | invited {actor workspace fetch email role id r s'} (hemail : s'.email = s.email)
      (hrows : s'.rows = s.rows ++ [r]) (hworkspace : r.workspaceId = workspace)
      (hunclaimed : r.userId = none)
      (haddress : r.emailNormalized = normalizeEmail casefold email) :
      Effect casefold s (.invite actor workspace fetch email role id) s'
  | moved {user email s'} (hemail : s'.email = Function.update s.email user email)
      (hrows : s'.rows = s.rows) : Effect casefold s (.changeEmail user email) s'

omit [DecidableEq Id] in
theorem Members.Within.refl (s : Members Id) : s.Within s := fun r hr => ⟨r, hr, .refl r⟩

omit [DecidableEq Id] in
theorem Members.within_of_eq (h : s'.rows = s.rows) : s.Within s' := fun r hr =>
  ⟨r, h ▸ hr, .refl r⟩

omit [DecidableEq Id] in
/-- A failed transaction leaves the state; a successful one has its result. -/
theorem Members.after_cases (s : Members Id) (result : Except AccessError (Members Id)) :
    s.after result = s ∨ result = .ok (s.after result) := by
  cases result with
  | ok s' => exact Or.inr rfl
  | error _ => exact Or.inl rfl

theorem Members.createWorkspace_eq_ok {user workspace id : Id} {email normalized : Text}
    (h : s.createWorkspace user workspace id email normalized = .ok s') :
    s.owner workspace = none ∧ s'.email = s.email ∧
      s'.rows = s.rows ++ [⟨id, workspace, some user, email, normalized, .owner⟩] := by
  unfold createWorkspace at h
  split_ifs at h with hfresh
  obtain ⟨hemail, -, hrows⟩ := commit_eq_ok h
  exact ⟨hfresh, hemail, hrows⟩

theorem Members.inviteMember_eq_ok {workspace id : Id} {email : Text} {role : GivenRole}
    (h : s.inviteMember casefold workspace email role id = .ok s') :
    s'.email = s.email ∧ s'.rows = s.rows ++ [⟨id, workspace, none, strip email,
      normalizeEmail casefold (strip email), role.val⟩] := by
  unfold inviteMember at h
  dsimp only at h
  split_ifs at h
  obtain ⟨hemail, -, hrows⟩ := commit_eq_ok h
  exact ⟨hemail, hrows⟩

theorem Members.changeRole_within {workspace memberId : Id} {role : GivenRole}
    (h : s.changeRole workspace memberId role = .ok s') :
    s'.email = s.email ∧ s.Within s' := by
  obtain ⟨member, -, h⟩ := bind_eq_ok.mp h
  obtain ⟨hemail, -, hrows⟩ := commit_eq_ok h
  refine ⟨hemail, fun r' hr' => ?_⟩
  rw [hrows] at hr'
  obtain ⟨r, hr, rfl⟩ := mem_updateWhere.mp hr'
  refine ⟨r, hr, ?_⟩
  split_ifs <;> exact ⟨rfl, rfl, rfl⟩

theorem Members.removeMember_within {workspace memberId : Id}
    (h : s.removeMember workspace memberId = .ok s') : s'.email = s.email ∧ s.Within s' := by
  obtain ⟨member, -, h⟩ := bind_eq_ok.mp h
  obtain ⟨hemail, -, hrows⟩ := commit_eq_ok h
  refine ⟨hemail, fun r' hr' => ?_⟩
  rw [hrows] at hr'
  exact ⟨r', List.mem_of_mem_filter hr', .refl r'⟩

theorem validEmail_eq {value email : Text} (h : Members.validEmail value = some email) :
    email = strip value := by
  unfold Members.validEmail at h
  dsimp only at h
  split_ifs at h
  exact (Option.some.inj h).symm

/-- The row of a new workspace. -/
theorem Effect.of_create {e : MemberEvent Id} {user workspace id : Id} {email address : Text}
    (hwritten : s.written casefold e = some (user, address)) :
    Effect casefold s e (s.after (s.createWorkspace user workspace id email address)) := by
  rcases s.after_cases (s.createWorkspace user workspace id email address) with h | h
  · rw [h]
    exact .within rfl (.refl s)
  obtain ⟨hfresh, hemail, hrows⟩ := Members.createWorkspace_eq_ok h
  refine .written hemail hwritten fun r' hr' => ?_
  rw [hrows, List.mem_append, List.mem_singleton] at hr'
  rcases hr' with hr' | rfl
  · exact Or.inl ⟨r', hr', .refl r'⟩
  · -- the rows of a workspace refer to it, so a new one has none
    refine Or.inr ⟨rfl, rfl, Or.inr fun r hr hsame => s.stored.workspaces r hr ?_⟩
    rw [hsame]
    exact hfresh

/-- Every step has its effect. -/
theorem step_effect {e : MemberEvent Id} (h : s.step casefold e = some s') :
    Effect casefold s e s' := by
  cases e with
  | createMcp user workspace id =>
    obtain rfl := Option.some.inj h
    exact .of_create rfl
  | createWeb user workspace id =>
    obtain rfl := Option.some.inj h
    exact .of_create rfl
  | addressOwner user workspace =>
    obtain rfl := Option.some.inj h
    rcases s.after_cases (s.addressOwner casefold user workspace) with h | h
    · rw [h]
      exact .within rfl (.refl s)
    obtain ⟨hemail, -, hrows⟩ := Members.commit_eq_ok h
    refine .written hemail rfl fun r' hr' => ?_
    rw [hrows] at hr'
    obtain ⟨r, hr, rfl⟩ := mem_updateWhere.mp hr'
    split_ifs with hcond
    · rw [Bool.and_eq_true, decide_eq_true_eq, decide_eq_true_eq] at hcond
      exact Or.inr ⟨hcond.2, rfl, Or.inl ⟨r, hr, rfl, hcond.2⟩⟩
    · exact Or.inl ⟨r, hr, .refl r⟩
  | changeEmail user email =>
    obtain rfl := Option.some.inj h
    exact .moved rfl rfl
  | claim user =>
    obtain rfl := Option.some.inj h
    rcases s.after_cases (s.claimPendingMemberships casefold user) with h | h
    · rw [h]
      exact .within rfl (.refl s)
    obtain ⟨hemail, -, ⟨hrows, -⟩ | ⟨email, a, ha, hrows⟩⟩ := Members.claim_eq_ok h
    · exact .within hemail (Members.within_of_eq hrows)
    · exact .claimed hemail ha hrows
  | invite user workspace fetch email role id =>
    have hafter := Option.some.inj h
    rcases s.after_cases _ with h | h
    · rw [h] at hafter
      exact .within (by rw [← hafter]) (Members.within_of_eq (by rw [← hafter]))
    rw [hafter] at h
    obtain ⟨_, -, h⟩ := bind_eq_ok.mp h
    cases hvalid : Members.validEmail email with
    | none =>
      rw [hvalid] at h
      cases h
    | some given =>
      rw [hvalid] at h
      obtain ⟨hemail, hrows⟩ := Members.inviteMember_eq_ok h
      obtain rfl := validEmail_eq hvalid
      refine .invited hemail hrows rfl rfl ?_
      simp only [normalizeEmail, strip_strip]
  | changeRole user workspace fetch memberId role =>
    have hafter := Option.some.inj h
    rcases s.after_cases _ with h | h
    · rw [h] at hafter
      exact .within (by rw [← hafter]) (Members.within_of_eq (by rw [← hafter]))
    rw [hafter] at h
    obtain ⟨_, -, h⟩ := bind_eq_ok.mp h
    obtain ⟨hemail, hrows⟩ := Members.changeRole_within h
    exact .within hemail hrows
  | remove user workspace fetch memberId =>
    have hafter := Option.some.inj h
    rcases s.after_cases _ with h | h
    · rw [h] at hafter
      exact .within (by rw [← hafter]) (Members.within_of_eq (by rw [← hafter]))
    rw [hafter] at h
    obtain ⟨_, -, h⟩ := bind_eq_ok.mp h
    obtain ⟨hemail, hrows⟩ := Members.removeMember_within h
    exact .within hemail hrows

end Maeglagi.Workspaces
