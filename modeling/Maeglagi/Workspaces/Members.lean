import Mathlib.Data.List.Pairwise
import Mathlib.Logic.Function.Basic
import Maeglagi.Core.Fallible
import Maeglagi.Core.Machine
import Maeglagi.Core.Table
import Maeglagi.Core.Text

/-!
# Workspace members

The table `workspace_members`, the claim of pending rows and the check that guards every
request. The constraints of the table are part of the state: a transaction that breaks one
is refused. Each step is one transaction, since other requests run between the two of a
request.
-/

namespace Maeglagi.Workspaces

open Core

variable {Id : Type} [DecidableEq Id]

inductive Role where
  | viewer
  | editor
  | admin
  | owner
  deriving DecidableEq, Repr

/-- `ROLE_LEVEL` -/
def Role.level : Role → Nat
  | .viewer => 10
  | .editor => 20
  | .admin => 30
  | .owner => 40

/-- A role that an invitation or a change of role gives. -/
abbrev GivenRole : Type := { role : Role // role ≠ .owner }

/-- `WorkspaceMember` -/
structure WorkspaceMember (Id : Type) where
  id : Id
  workspaceId : Id
  userId : Option Id
  email : Text
  emailNormalized : Text
  role : Role
  deriving DecidableEq, Repr

/-- The address of an account; it fits in the column `email`. -/
abbrev Address : Type := { email : Text // email.length ≤ 320 }

/-- How a request fails. -/
inductive AccessError where
  | http (status : Nat) (detail : String)
  | dataError
  | integrityError
  deriving DecidableEq, Repr

/-- The texts of a row fit in their columns. -/
def WorkspaceMember.fits (r : WorkspaceMember Id) : Prop :=
  r.email.length ≤ 320 ∧ r.emailNormalized.length ≤ 320

/-- Two rows can stand in the table together. -/
def WorkspaceMember.Apart (r r' : WorkspaceMember Id) : Prop :=
  r.id ≠ r'.id ∧ (r.workspaceId = r'.workspaceId →
    (r.userId = r'.userId → r.userId = none) ∧ r.emailNormalized ≠ r'.emailNormalized)

/-- The constraints of the table: its keys are unique and its workspaces exist. -/
structure Stored (owner : Id → Option Id) (rows : List (WorkspaceMember Id)) : Prop where
  apart : rows.Pairwise WorkspaceMember.Apart
  workspaces : ∀ r ∈ rows, owner r.workspaceId ≠ none
  fits : ∀ r ∈ rows, r.fits

instance (r : WorkspaceMember Id) : Decidable r.fits :=
  inferInstanceAs (Decidable (_ ∧ _))

instance : DecidableRel (WorkspaceMember.Apart : WorkspaceMember Id → WorkspaceMember Id → Prop) :=
  fun _ _ => inferInstanceAs (Decidable (_ ∧ (_ → (_ → _) ∧ _)))

instance (owner : Id → Option Id) (rows : List (WorkspaceMember Id)) :
    Decidable (Stored owner rows) :=
  decidable_of_iff (rows.Pairwise WorkspaceMember.Apart ∧
    (∀ r ∈ rows, owner r.workspaceId ≠ none) ∧ ∀ r ∈ rows, r.fits)
    ⟨fun h => ⟨h.1, h.2.1, h.2.2⟩, fun h => ⟨h.apart, h.workspaces, h.fits⟩⟩

/-- The accounts with their addresses, the workspaces with their owners, and the rows. -/
structure Members (Id : Type) where
  email : Id → Option Address
  owner : Id → Option Id
  rows : List (WorkspaceMember Id)
  stored : Stored owner rows

/-- No account has an address, and there is no workspace. -/
def Members.start : Members Id :=
  ⟨fun _ => none, fun _ => none, [], ⟨.nil, by simp, by simp⟩⟩

/-- The row that the database returns first; it orders the rows as it likes. -/
structure Fetch (α : Type) where
  first : List α → Option α
  mem_of_first : ∀ {rows x}, first rows = some x → x ∈ rows
  first_of_mem : ∀ {rows x}, x ∈ rows → (first rows).isSome = true

/-- The rows in the order of the table, but a given row before all others. -/
def Fetch.preferring {α : Type} [DecidableEq α] (x : α) : Fetch α where
  first rows := if x ∈ rows then some x else rows.head?
  mem_of_first := by
    intro rows y h
    split_ifs at h with hx
    · exact Option.some.inj h ▸ hx
    · exact List.mem_of_mem_head? h
  first_of_mem := by
    intro rows y hy
    split_ifs
    · rfl
    · exact List.isSome_head?.mpr (List.ne_nil_of_mem hy)

/-- What a request is let in as. -/
inductive Grant (Id : Type) where
  | owner
  | member (row : WorkspaceMember Id)
  deriving DecidableEq, Repr

/-- A transaction with the new tables commits or is rolled back. -/
def Members.commit (s : Members Id) (owner : Id → Option Id) (rows : List (WorkspaceMember Id)) :
    Except AccessError (Members Id) :=
  if h : Stored owner rows then .ok ⟨s.email, owner, rows, h⟩
  else .error (if ∀ r ∈ rows, r.fits then .integrityError else .dataError)

/-- The state after a transaction that may fail. -/
def Members.after (s : Members Id) (result : Except AccessError (Members Id)) : Members Id :=
  match result with
  | .ok s' => s'
  | .error _ => s

section
variable (casefold : Text → Text)

/-- `normalize_email` -/
def normalizeEmail (email : Text) : Text := casefold (strip email)

/-- The normalized address, unless it is empty or absent. -/
def normalizedAddress (email : Option Address) : Option Text :=
  email.bind fun e => if e.val = [] then none else some (normalizeEmail casefold e.val)

namespace Members

/-- The address by which an account is matched. -/
def addressOf (s : Members Id) (user : Id) : Option Text :=
  normalizedAddress casefold (s.email user)

/-- A row that nobody has claimed yet, addressed to `address`. -/
def pending (address : Text) (r : WorkspaceMember Id) : Bool :=
  r.userId.isNone && decide (r.emailNormalized = address)

/-- `claim_pending_memberships` -/
def claimPendingMemberships (s : Members Id) (user : Id) : Except AccessError (Members Id) :=
  match s.email user with
  | none => .ok s
  | some email =>
    if email.val = [] then .ok s
    else
      let normalized := normalizeEmail casefold email.val
      if s.rows.any (pending normalized) then
        s.commit s.owner (updateWhere (pending normalized)
          (fun r => { r with userId := some user, email := email.val }) s.rows)
      else .ok s

/-- The rows that `workspace_access` selects. -/
def identified (s : Members Id) (workspace user : Id) (r : WorkspaceMember Id) : Bool :=
  decide (r.workspaceId = workspace) && (decide (r.userId = some user) ||
    (s.addressOf casefold user).any fun address => decide (r.emailNormalized = address))

/-- `workspace_access` after the claim. -/
def authorize (s : Members Id) (workspace user : Id) (minimum : Role)
    (fetch : Fetch (WorkspaceMember Id)) : Except AccessError (Grant Id) :=
  match s.owner workspace with
  | none => .error (.http 404 "Workspace not found")
  | some owner =>
    if owner = user then .ok .owner
    else
      match fetch.first (s.rows.filter (s.identified casefold workspace user)) with
      | none => .error (.http 404 "Workspace not found")
      | some r =>
        if r.role.level < minimum.level then .error (.http 404 "Workspace not found")
        else .ok (.member r)

/-- `workspace_access` -/
def workspaceAccess (s : Members Id) (workspace user : Id) (minimum : Role)
    (fetch : Fetch (WorkspaceMember Id)) : Except AccessError (Members Id × Grant Id) := do
  let claimed ← s.claimPendingMemberships casefold user
  let grant ← claimed.authorize casefold workspace user minimum fetch
  return (claimed, grant)

/-- `AgentWorkflowService.create_workspace`, or the web request with a provider: the owner's
row with the address given. -/
def createWorkspace (s : Members Id) (user workspace id : Id) (email normalized : Text) :
    Except AccessError (Members Id) :=
  if s.owner workspace = none then
    s.commit (Function.update s.owner workspace (some user))
      (s.rows ++ [⟨id, workspace, some user, email, normalized, .owner⟩])
  else .error .integrityError

/-- The second transaction of the web request without a provider. -/
def addressOwner (s : Members Id) (user workspace : Id) : Except AccessError (Members Id) :=
  let email := ((s.email user).map Subtype.val).getD []
  s.commit s.owner (updateWhere
    (fun r => decide (r.workspaceId = workspace) && decide (r.userId = some user))
    (fun r => { r with email := email, emailNormalized := normalizeEmail casefold email }) s.rows)

/-- `InviteInput`: the address as it is invited, if it is accepted. -/
def validEmail (value : Text) : Option Text :=
  if 3 ≤ value.length ∧ value.length ≤ 320 then
    let value := strip value
    if value.count '@' = 1 ∧ value.any isSpace = false then
      let localPart := value.takeWhile fun c => c != '@'
      let domain := value.drop (localPart.length + 1)
      if localPart ≠ [] ∧ domain ≠ [] ∧ '.' ∈ domain then some value else none
    else none
  else none

/-- `invite_member` after the access check. -/
def inviteMember (s : Members Id) (workspace : Id) (email : Text) (role : GivenRole) (id : Id) :
    Except AccessError (Members Id) :=
  let normalized := normalizeEmail casefold (strip email)
  if s.rows.any fun r =>
      decide (r.workspaceId = workspace) && decide (r.emailNormalized = normalized) then
    .error (.http 409 "Member already invited")
  else s.commit s.owner (s.rows ++ [⟨id, workspace, none, strip email, normalized, role.val⟩])

/-- The row that a change of role or a removal is about. -/
def target (s : Members Id) (workspace memberId : Id) :
    Except AccessError (WorkspaceMember Id) :=
  match s.rows.find? fun r => decide (r.id = memberId) with
  | none => .error (.http 404 "Member not found")
  | some r =>
    if r.workspaceId ≠ workspace ∨ r.role = .owner then .error (.http 404 "Member not found")
    else .ok r

/-- `change_role` after the access check. -/
def changeRole (s : Members Id) (workspace memberId : Id) (role : GivenRole) :
    Except AccessError (Members Id) := do
  let member ← s.target workspace memberId
  s.commit s.owner (updateWhere (fun r => decide (r.id = member.id))
    (fun r => { r with role := role.val }) s.rows)

/-- `remove_member` after the access check. -/
def removeMember (s : Members Id) (workspace memberId : Id) : Except AccessError (Members Id) := do
  let member ← s.target workspace memberId
  s.commit s.owner (s.rows.filter fun r => decide (r.id ≠ member.id))

end Members

/-- One transaction, with the ids it draws, or a change of an account's address. -/
inductive MemberEvent (Id : Type) where
  | createMcp (user workspace id : Id)
  | createWeb (user workspace id : Id)
  | addressOwner (user workspace : Id)
  | changeEmail (user : Id) (email : Option Address)
  | claim (user : Id)
  | invite (user workspace : Id) (fetch : Fetch (WorkspaceMember Id)) (email : Text)
      (role : GivenRole) (id : Id)
  | changeRole (user workspace : Id) (fetch : Fetch (WorkspaceMember Id)) (memberId : Id)
      (role : GivenRole)
  | remove (user workspace : Id) (fetch : Fetch (WorkspaceMember Id)) (memberId : Id)

/-- One step. -/
def Members.step (s : Members Id) : MemberEvent Id → Option (Members Id)
  | .createMcp user workspace id => some (s.after (s.createWorkspace user workspace id [] []))
  | .createWeb user workspace id =>
    let email := ((s.email user).map Subtype.val).getD []
    some (s.after (s.createWorkspace user workspace id email (normalizeEmail casefold email)))
  | .addressOwner user workspace => some (s.after (s.addressOwner casefold user workspace))
  | .changeEmail user email => some { s with email := Function.update s.email user email }
  | .claim user => some (s.after (s.claimPendingMemberships casefold user))
  | .invite user workspace fetch email role id => some (s.after do
      let _ ← s.authorize casefold workspace user .admin fetch
      match validEmail email with
      | none => .error (.http 422 "Invalid email")
      | some email => s.inviteMember casefold workspace email role id)
  | .changeRole user workspace fetch memberId role => some (s.after do
      let _ ← s.authorize casefold workspace user .admin fetch
      s.changeRole workspace memberId role)
  | .remove user workspace fetch memberId => some (s.after do
      let _ ← s.authorize casefold workspace user .admin fetch
      s.removeMember workspace memberId)

end

section
variable {casefold : Text → Text} {s s' : Members Id} {user : Id}

omit [DecidableEq Id] in
@[simp] theorem pending_iff {address : Text} {r : WorkspaceMember Id} :
    Members.pending address r = true ↔ r.userId = none ∧ r.emailNormalized = address := by
  simp [Members.pending]

theorem Members.commit_eq_ok {owner : Id → Option Id} {rows : List (WorkspaceMember Id)}
    (h : s.commit owner rows = .ok s') : s'.email = s.email ∧ s'.owner = owner ∧ s'.rows = rows := by
  unfold commit at h
  split_ifs at h
  cases h
  exact ⟨rfl, rfl, rfl⟩

omit [DecidableEq Id] in
theorem WorkspaceMember.Apart.symm {r r' : WorkspaceMember Id} (h : r.Apart r') : r'.Apart r := by
  refine ⟨h.1.symm, fun hw => ⟨fun hu => ?_, (h.2 hw.symm).2.symm⟩⟩
  rw [hu]
  exact (h.2 hw.symm).1 hu.symm

omit [DecidableEq Id] in
instance : Std.Symm (WorkspaceMember.Apart : WorkspaceMember Id → WorkspaceMember Id → Prop) :=
  ⟨fun _ _ => WorkspaceMember.Apart.symm⟩

/-- Rows of one workspace with the same user, or with the same address, are one row. -/
theorem Members.row_unique (s : Members Id) {r r' : WorkspaceMember Id} (hr : r ∈ s.rows)
    (hr' : r' ∈ s.rows) (hw : r.workspaceId = r'.workspaceId)
    (h : r.emailNormalized = r'.emailNormalized ∨ r.userId = r'.userId ∧ r.userId ≠ none) :
    r = r' := by
  by_contra hne
  have hapart := s.stored.apart.forall hr hr' hne
  rcases h with h | ⟨h, hclaimed⟩
  · exact (hapart.2 hw).2 h
  · exact hclaimed ((hapart.2 hw).1 h)

/-- What a successful claim does. -/
theorem Members.claim_eq_ok (h : s.claimPendingMemberships casefold user = .ok s') :
    s'.email = s.email ∧ s'.owner = s.owner ∧
      ((s'.rows = s.rows ∧ ∀ a, s.addressOf casefold user = some a →
          ∀ r ∈ s.rows, pending a r = false) ∨
        ∃ email a, s.addressOf casefold user = some a ∧
          s'.rows = updateWhere (pending a)
            (fun r => { r with userId := some user, email := email }) s.rows) := by
  unfold claimPendingMemberships at h
  unfold addressOf normalizedAddress
  cases hemail : s.email user with
  | none =>
    rw [hemail] at h
    cases h
    exact ⟨rfl, rfl, Or.inl ⟨rfl, by rintro a ⟨⟩⟩⟩
  | some email =>
    rw [hemail] at h
    dsimp only at h
    by_cases hempty : email.val = []
    · rw [if_pos hempty] at h
      cases h
      exact ⟨rfl, rfl, Or.inl ⟨rfl, fun a ha => by simp [hempty] at ha⟩⟩
    · rw [if_neg hempty] at h
      by_cases hany : s.rows.any (pending (normalizeEmail casefold email.val)) = true
      · rw [if_pos hany] at h
        obtain ⟨he, ho, hrows⟩ := commit_eq_ok h
        exact ⟨he, ho, Or.inr ⟨email.val, _, by simp [hempty], hrows⟩⟩
      · rw [if_neg hany] at h
        cases h
        refine ⟨rfl, rfl, Or.inl ⟨rfl, fun a ha r hr => ?_⟩⟩
        obtain rfl : normalizeEmail casefold email.val = a := by simpa [hempty] using ha
        rw [Bool.eq_false_iff]
        exact fun hp => hany (List.any_eq_true.mpr ⟨r, hr, hp⟩)

end

end Maeglagi.Workspaces
