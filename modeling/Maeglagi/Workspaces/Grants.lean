import Maeglagi.Workspaces.Lockout

/-!
# Through which rows access is granted

The access check takes a row by its address whoever has claimed it. It grants access through
the row of another account exactly when that row still carries the address the account has
now.
-/

namespace Maeglagi.Workspaces

open Core

variable {Id : Type} [DecidableEq Id] {casefold : Text → Text} {s s' : Members Id} {user : Id}

/-- The account has claimed the row, or it is unclaimed and addressed to the account. -/
def Members.Own (casefold : Text → Text) (s : Members Id) (user : Id) (r : WorkspaceMember Id) :
    Prop :=
  r.userId = some user ∨ r.userId = none ∧ s.addressOf casefold user = some r.emailNormalized

/-- Access to the workspace as a member is granted only through a row of the account's own. -/
def Members.Sound (casefold : Text → Text) (s : Members Id) (workspace user : Id) : Prop :=
  ∀ minimum fetch s' r,
    s.workspaceAccess casefold workspace user minimum fetch = .ok (s', .member r) →
      s'.Own casefold user r

/-- A row of the workspace carries the address of the account, but another has claimed it. -/
def Members.Foreign (casefold : Text → Text) (s : Members Id) (workspace user : Id) : Prop :=
  ∃ r ∈ s.rows, r.workspaceId = workspace ∧
    s.addressOf casefold user = some r.emailNormalized ∧ ∃ v, v ≠ user ∧ r.userId = some v

/-- The step gives no account the address of another or of a row that another has claimed, and
it writes no owner's row under the address of another account. -/
def Members.Separate (casefold : Text → Text) (s : Members Id) (e : MemberEvent Id) : Prop :=
  match e with
  | .changeEmail user email => ∀ a, normalizedAddress casefold email = some a → ∀ v, v ≠ user →
    s.addressOf casefold v ≠ some a ∧
      ∀ r ∈ s.rows, r.emailNormalized = a → r.userId ≠ some v
  | e => ∀ user a, s.written casefold e = some (user, a) → ∀ v, v ≠ user →
    s.addressOf casefold v ≠ some a

/-- No two accounts share an address, and no claimed row carries that of another account. -/
structure Members.Separated (casefold : Text → Text) (s : Members Id) : Prop where
  accounts : ∀ {u v a}, s.addressOf casefold u = some a → s.addressOf casefold v = some a → u = v
  rows : ∀ {u v}, ∀ r ∈ s.rows, r.userId = some v →
    s.addressOf casefold u = some r.emailNormalized → u = v

/-- A claim does not touch the rows that other accounts have claimed. -/
theorem mem_claim_iff (h : s.claimPendingMemberships casefold user = .ok s')
    {r : WorkspaceMember Id} {v : Id} (hr : r.userId = some v) (hv : v ≠ user) :
    r ∈ s'.rows ↔ r ∈ s.rows := by
  obtain ⟨-, -, ⟨hrows, -⟩ | ⟨email, a, -, hrows⟩⟩ := Members.claim_eq_ok h
  · rw [hrows]
  rw [hrows, mem_updateWhere]
  constructor
  · rintro ⟨x, hx, rfl⟩
    split_ifs at hr ⊢ with hpending
    · exact absurd (Option.some.inj hr).symm hv
    · exact hx
  · intro hmem
    refine ⟨r, hmem, if_neg fun hpending => ?_⟩
    rw [(pending_iff.mp hpending).1] at hr
    cases hr

/-- The row that access is granted through. -/
theorem authorize_eq_member {workspace : Id} {minimum : Role} {fetch : Fetch (WorkspaceMember Id)}
    {r : WorkspaceMember Id}
    (h : s.authorize casefold workspace user minimum fetch = .ok (.member r)) :
    s.owner workspace ≠ some user ∧ r ∈ s.rows ∧ r.workspaceId = workspace ∧
      (r.userId = some user ∨ s.addressOf casefold user = some r.emailNormalized) := by
  unfold Members.authorize at h
  cases howner : s.owner workspace with
  | none =>
    rw [howner] at h
    cases h
  | some owner =>
    rw [howner] at h
    dsimp only at h
    by_cases hself : owner = user
    · rw [if_pos hself] at h
      cases h
    rw [if_neg hself] at h
    cases hfirst : fetch.first (s.rows.filter (s.identified casefold workspace user)) with
    | none =>
      rw [hfirst] at h
      cases h
    | some x =>
      rw [hfirst] at h
      dsimp only at h
      split_ifs at h
      cases h
      obtain ⟨hmem, hident⟩ := List.mem_filter.mp (fetch.mem_of_first hfirst)
      simp only [Members.identified, Bool.and_eq_true, Bool.or_eq_true, decide_eq_true_eq,
        Option.any_eq_true] at hident
      refine ⟨fun he => hself (Option.some.inj he), hmem, hident.1, ?_⟩
      rcases hident.2 with huser | ⟨a, ha, heq⟩
      · exact Or.inl huser
      · exact Or.inr (heq ▸ ha)

/-- A row that carries the address of an account lets it in. -/
theorem authorize_of_address {workspace : Id} {r : WorkspaceMember Id} (hr : r ∈ s.rows)
    (hworkspace : r.workspaceId = workspace) (howner : s.owner workspace ≠ some user)
    (ha : s.addressOf casefold user = some r.emailNormalized) :
    s.authorize casefold workspace user .viewer (.preferring r) = .ok (.member r) := by
  have hident : s.identified casefold workspace user r = true := by
    simp [Members.identified, hworkspace, ha]
  have hfirst : (Fetch.preferring r).first
      (s.rows.filter (s.identified casefold workspace user)) = some r :=
    if_pos (List.mem_filter.mpr ⟨hr, hident⟩)
  have hlevel : ¬ r.role.level < Role.level .viewer := by cases r.role <;> decide
  unfold Members.authorize
  cases howner' : s.owner workspace with
  | none => exact absurd (hworkspace ▸ howner') (s.stored.workspaces r hr)
  | some owner =>
    dsimp only
    rw [if_neg fun he : owner = user => howner (he ▸ howner'), hfirst]
    dsimp only
    rw [if_neg hlevel]

/-- Where access is granted through the row of another account, and where not. -/
theorem sound_iff {workspace : Id} : s.Sound casefold workspace user ↔
    s.owner workspace = some user ∨ s.Collides casefold user ∨
      ¬ s.Foreign casefold workspace user := by
  constructor
  · intro hsound
    by_contra! hnot
    obtain ⟨howner, hfree, r, hr, hworkspace, ha, v, hv, hclaimed⟩ := hnot
    obtain ⟨s', hclaim⟩ := exists_claim_iff.mpr hfree
    obtain ⟨hemail, howner', -⟩ := Members.claim_eq_ok hclaim
    have hgrant : s'.authorize casefold workspace user .viewer (.preferring r) = .ok (.member r) :=
      authorize_of_address ((mem_claim_iff hclaim hclaimed hv).mpr hr) hworkspace
        (by rwa [howner']) (by rwa [addressOf_congr hemail])
    have hown := hsound .viewer (.preferring r) s' r
      (bind_eq_ok.mpr ⟨s', hclaim, bind_eq_ok.mpr ⟨_, hgrant, rfl⟩⟩)
    rcases hown with hown | ⟨hown, -⟩
    · exact hv (Option.some.inj (hclaimed.symm.trans hown))
    · rw [hclaimed] at hown
      cases hown
  · intro h minimum fetch s' r haccess
    obtain ⟨claimed, hclaim, haccess⟩ := bind_eq_ok.mp haccess
    obtain ⟨grant, hgrant, haccess⟩ := bind_eq_ok.mp haccess
    obtain ⟨rfl, rfl⟩ := Prod.mk.inj (pure_eq_ok.mp haccess)
    obtain ⟨hemail, howner', -⟩ := Members.claim_eq_ok hclaim
    obtain ⟨howner, hr, hworkspace, hmatch⟩ := authorize_eq_member hgrant
    rcases hmatch with huser | ha
    · exact Or.inl huser
    cases hu : r.userId with
    | none => exact Or.inr ⟨hu, ha⟩
    | some v =>
      left
      by_contra hne
      have hv : v ≠ user := fun he => hne (by rw [hu, he])
      rcases h with h | h | h
      · exact howner (by rw [howner', h])
      · exact not_collides_of_claim hclaim h
      · rw [addressOf_congr hemail] at ha
        exact h ⟨r, (mem_claim_iff hclaim hu hv).mp hr, hworkspace, ha, v, hv, hu⟩

/-- A step that keeps addresses apart leaves them apart. -/
theorem separated_step {e : MemberEvent Id} (hs : s.Separated casefold)
    (hok : s.Separate casefold e) (h : s.step casefold e = some s') : s'.Separated casefold := by
  cases step_effect h with
  | within hemail hrows =>
    refine ⟨fun hu hv => ?_, fun r hr hclaimed ha => ?_⟩
    · rw [addressOf_congr hemail] at hu hv
      exact hs.accounts hu hv
    · obtain ⟨x, hx, hxr⟩ := hrows r hr
      rw [addressOf_congr hemail, hxr.emailNormalized] at ha
      exact hs.rows x hx (hxr.userId ▸ hclaimed) ha
  | @claimed user email address _ hemail haddress hrows =>
    refine ⟨fun hu hv => ?_, fun r hr hclaimed ha => ?_⟩
    · rw [addressOf_congr hemail] at hu hv
      exact hs.accounts hu hv
    · rw [hrows] at hr
      rw [addressOf_congr hemail] at ha
      obtain ⟨x, hx, rfl⟩ := mem_updateWhere.mp hr
      by_cases hpending : Members.pending address x = true
      · -- the row carries the address of the account that claims it
        rw [if_pos hpending] at hclaimed ha
        obtain rfl := Option.some.inj hclaimed
        rw [(pending_iff.mp hpending).2] at ha
        exact hs.accounts ha haddress
      · rw [if_neg hpending] at hclaimed ha
        exact hs.rows x hx hclaimed ha
  | @written _ user address _ hemail hwritten hrows =>
    have hother : ∀ v, v ≠ user → s.addressOf casefold v ≠ some address := by
      cases e with
      | createMcp | createWeb | addressOwner => exact hok user address hwritten
      | _ => cases hwritten
    refine ⟨fun hu hv => ?_, fun r hr hclaimed ha => ?_⟩
    · rw [addressOf_congr hemail] at hu hv
      exact hs.accounts hu hv
    · rw [addressOf_congr hemail] at ha
      obtain ⟨x, hx, hxr⟩ | ⟨huser, haddress, -⟩ := hrows r hr
      · rw [hxr.emailNormalized] at ha
        exact hs.rows x hx (hxr.userId ▸ hclaimed) ha
      · obtain rfl := Option.some.inj (huser.symm.trans hclaimed)
        by_contra hne
        exact hother _ hne (haddress ▸ ha)
  | invited hemail hrows _ hunclaimed _ =>
    refine ⟨fun hu hv => ?_, fun r hr hclaimed ha => ?_⟩
    · rw [addressOf_congr hemail] at hu hv
      exact hs.accounts hu hv
    · rw [addressOf_congr hemail] at ha
      rw [hrows, List.mem_append, List.mem_singleton] at hr
      rcases hr with hr | rfl
      · exact hs.rows r hr hclaimed ha
      · rw [hunclaimed] at hclaimed
        cases hclaimed
  | @moved user email _ hemail hrows =>
    refine ⟨fun {u v a} hu hv => ?_, fun {u v} r hr hclaimed ha => ?_⟩
    · rw [addressOf_update hemail] at hu hv
      split_ifs at hu hv with hu' hv' hv'
      · rw [hu', hv']
      · exact absurd hv (hok a hu v hv').1
      · exact absurd hu (hok a hv u hu').1
      · exact hs.accounts hu hv
    · rw [hrows] at hr
      rw [addressOf_update hemail] at ha
      split_ifs at ha with hu'
      · subst hu'
        by_contra hne
        exact (hok _ ha v (Ne.symm hne)).2 r hr rfl hclaimed
      · exact hs.rows r hr hclaimed ha

theorem separated_of_run (h : RunOf (Members.step casefold) (Members.Separate casefold) .start s) :
    s.Separated casefold := by
  refine RunOf.invariant (fun s e s' hs hok hnext => separated_step hs hok hnext) h ?_
  refine ⟨fun hu => ?_, fun r hr => ?_⟩
  · cases hu
  · cases hr

/-- Access as a member is granted only through rows of the account's own, but where a row
that another account has claimed carries its address; where addresses are kept apart there
is none. -/
theorem access_own_rows_iff (casefold : Text → Text) :
    (∀ (s : Members Id) (workspace user : Id), s.Sound casefold workspace user ↔
      s.owner workspace = some user ∨ s.Collides casefold user ∨
        ¬ s.Foreign casefold workspace user) ∧
    ∀ s : Members Id, RunOf (Members.step casefold) (Members.Separate casefold) .start s →
      ∀ workspace user, s.Sound casefold workspace user := by
  refine ⟨fun s workspace user => sound_iff, fun s h workspace user => ?_⟩
  refine sound_iff.mpr (Or.inr (Or.inr ?_))
  rintro ⟨r, hr, -, ha, v, hv, hclaimed⟩
  exact hv ((separated_of_run h).rows r hr hclaimed ha).symm

/-- An invited account is let in through the row that it claims. -/
theorem access_own_rows_invited : ∃ s : Members Nat,
    s.Sound (List.map Char.toLower) 1 5 ∧ ∃ s' r,
      s.workspaceAccess (List.map Char.toLower) 1 5 .viewer (.preferring r) =
        .ok (s', .member r) := by
  have hrun : ∃ s : Members Nat, RunOf (Members.step (List.map Char.toLower))
      (Members.Separate (List.map Char.toLower)) .start s ∧ ∃ s' r,
        s.workspaceAccess (List.map Char.toLower) 1 5 .viewer (.preferring r) =
          .ok (s', .member r) := by
    refine ⟨_, .head ⟨.createMcp 0 1 2, ?_, rfl⟩
      (.head ⟨.invite 0 1 (.preferring ⟨2, 1, some 0, [], [], .owner⟩) "a@b.c".toList
        invitedEditor 3, ?_, rfl⟩
      (.head ⟨.changeEmail 5 (some plainAddress), ?_, rfl⟩ .refl)), _,
      ⟨3, 1, some 5, "a@b.c".toList, "a@b.c".toList, .editor⟩, rfl⟩
    · rintro user a - v - ⟨⟩
    · rintro user a ⟨⟩
    · intro a ha v hv
      refine ⟨by rintro ⟨⟩, fun r hr haddress => ?_⟩
      rcases List.mem_pair.mp hr with rfl | rfl
      · rw [← haddress] at ha
        exact absurd ha (by decide)
      · rintro ⟨⟩
  obtain ⟨s, hrun, haccess⟩ := hrun
  exact ⟨s, (access_own_rows_iff (List.map Char.toLower)).2 s hrun 1 5, haccess⟩

/-- An account claims an invitation and then gives up its address; another takes it. -/
def addressReused : List (MemberEvent Nat) :=
  let address : Option Address := some plainAddress
  let row := ⟨2, 1, some 0, [], [], .owner⟩
  [.createMcp 0 1 2, .invite 0 1 (.preferring row) "a@b.c".toList invitedEditor 3,
    .changeEmail 5 address, .claim 5, .changeEmail 5 (some ⟨"n@b.c".toList, by decide⟩),
    .changeEmail 6 address]

/-- The account that has the address now is let in through the row that the first claimed. -/
theorem access_through_claimed_row : ∃ s : Members Nat,
    RunOf (Members.step (List.map Char.toLower)) anyEvent .start s ∧ ∃ s' r,
      s.workspaceAccess (List.map Char.toLower) 1 6 .viewer (.preferring r) =
        .ok (s', .member r) ∧ r.userId = some 5 := by
  have hrun : ∃ s, replay (Members.step (List.map Char.toLower)) .start addressReused = some s ∧
      ∃ s' r, s.workspaceAccess (List.map Char.toLower) 1 6 .viewer (.preferring r) =
        .ok (s', .member r) ∧ r.userId = some 5 :=
    ⟨_, rfl, _, ⟨3, 1, some 5, "a@b.c".toList, "a@b.c".toList, .editor⟩, rfl, rfl⟩
  obtain ⟨s, hreplay, haccess⟩ := hrun
  exact ⟨s, runOf_replay (fun _ _ _ => trivial) hreplay, haccess⟩

end Maeglagi.Workspaces
