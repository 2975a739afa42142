import Maeglagi.Workspaces.Effect

/-!
# Who can be locked out

A claim fails exactly when its user already holds a row of a workspace that it has an
unclaimed row of. No transaction checks for that: an invitation to the address of a member
whose row carries another address brings it about, and so does a change of address.
-/

namespace Maeglagi.Workspaces

open Core

variable {Id : Type} [DecidableEq Id] {casefold : Text → Text} {s s' : Members Id} {user : Id}

/-- The account has an unclaimed row in a workspace that it already has a row of. -/
def Members.Collides (casefold : Text → Text) (s : Members Id) (user : Id) : Prop :=
  ∃ a, s.addressOf casefold user = some a ∧ ∃ r ∈ s.rows, Members.pending a r = true ∧
    ∃ r' ∈ s.rows, r'.workspaceId = r.workspaceId ∧ r'.userId = some user

/-- The step invites no address whose account has a row of the workspace, and it moves no
account to an address with an unclaimed row in a workspace that the account has a row of. -/
def Members.Harmless (casefold : Text → Text) (s : Members Id) : MemberEvent Id → Prop
  | .invite _ workspace _ email _ _ => ∀ user,
    s.addressOf casefold user = some (normalizeEmail casefold email) →
      ∀ r ∈ s.rows, r.workspaceId = workspace → r.userId ≠ some user
  | .changeEmail user email => ∀ a, normalizedAddress casefold email = some a →
    ∀ r ∈ s.rows, Members.pending a r = true →
      ∀ r' ∈ s.rows, r'.workspaceId = r.workspaceId → r'.userId ≠ some user
  | _ => True

omit [DecidableEq Id] in
theorem addressOf_congr (h : s'.email = s.email) (user : Id) :
    s'.addressOf casefold user = s.addressOf casefold user := by
  unfold Members.addressOf
  rw [h]

theorem addressOf_update {email : Option Address}
    (h : s'.email = Function.update s.email user email) (other : Id) :
    s'.addressOf casefold other =
      if other = user then normalizedAddress casefold email else s.addressOf casefold other := by
  unfold Members.addressOf
  rw [h, Function.update_apply, apply_ite (normalizedAddress casefold)]

/-- A claim that would leave two rows of one user in a workspace does not succeed. -/
theorem not_collides_of_claim (h : s.claimPendingMemberships casefold user = .ok s') :
    ¬ s.Collides casefold user := by
  rintro ⟨a, ha, r, hr, hpending, r', hr', hworkspace, huser⟩
  obtain ⟨-, -, ⟨-, hnone⟩ | ⟨email, b, hb, hrows⟩⟩ := Members.claim_eq_ok h
  · rw [hnone a ha r hr] at hpending
    cases hpending
  obtain rfl : a = b := Option.some.inj (ha.symm.trans hb)
  have hkept : Members.pending a r' = false := by simp [Members.pending, huser]
  have hclaimed : { r with userId := some user, email := email } ∈ s'.rows := by
    rw [hrows]
    exact mem_updateWhere.mpr ⟨r, hr, by rw [if_pos hpending]⟩
  have hheld : r' ∈ s'.rows := by
    rw [hrows]
    exact mem_updateWhere_of_neg hr' hkept
  have heq := s'.row_unique hheld hclaimed hworkspace
    (Or.inr ⟨huser, by rw [huser]; exact Option.some_ne_none _⟩)
  -- the two rows were already two
  have hid : r.id = r'.id := by rw [heq]
  have hne : r ≠ r' := by
    rintro rfl
    rw [hkept] at hpending
    cases hpending
  exact (s.stored.apart.forall hr hr' hne).1 hid

omit [DecidableEq Id] in
/-- Claiming rows keeps the constraints of the table when no row collides. -/
theorem stored_claim {email : Address} {a : Text} (ha : s.addressOf casefold user = some a)
    (h : ¬ s.Collides casefold user) :
    Stored s.owner (updateWhere (Members.pending a)
      (fun r => { r with userId := some user, email := email.val }) s.rows) := by
  have hfree : ∀ r ∈ s.rows, Members.pending a r = true → ∀ r' ∈ s.rows,
      r'.workspaceId = r.workspaceId → r'.userId ≠ some user := fun r hr hp r' hr' hw hu =>
    h ⟨a, ha, r, hr, hp, r', hr', hw, hu⟩
  refine ⟨?_, ?_, ?_⟩
  · rw [updateWhere, List.pairwise_map]
    refine s.stored.apart.imp_of_mem fun {x y} hx hy hapart => ?_
    by_cases hpx : Members.pending a x = true <;> by_cases hpy : Members.pending a y = true
    · rw [if_pos hpx, if_pos hpy]
      refine ⟨hapart.1, fun hw => absurd ?_ (hapart.2 hw).2⟩
      rw [(pending_iff.mp hpx).2, (pending_iff.mp hpy).2]
    · rw [if_pos hpx, if_neg hpy]
      exact ⟨hapart.1, fun hw => ⟨fun hu => absurd hu.symm (hfree x hx hpx y hy hw.symm),
        (hapart.2 hw).2⟩⟩
    · rw [if_neg hpx, if_pos hpy]
      exact ⟨hapart.1, fun hw => ⟨fun hu => absurd hu (hfree y hy hpy x hx hw),
        (hapart.2 hw).2⟩⟩
    · rw [if_neg hpx, if_neg hpy]
      exact hapart
  · intro r' hr'
    obtain ⟨r, hr, rfl⟩ := mem_updateWhere.mp hr'
    split_ifs <;> exact s.stored.workspaces r hr
  · intro r' hr'
    obtain ⟨r, hr, rfl⟩ := mem_updateWhere.mp hr'
    split_ifs
    · exact ⟨email.property, (s.stored.fits r hr).2⟩
    · exact s.stored.fits r hr

/-- A claim succeeds exactly when it does not collide. -/
theorem exists_claim_iff :
    (∃ s', s.claimPendingMemberships casefold user = .ok s') ↔ ¬ s.Collides casefold user := by
  refine ⟨fun ⟨s', h⟩ => not_collides_of_claim h, fun h => ?_⟩
  unfold Members.claimPendingMemberships
  cases hemail : s.email user with
  | none => exact ⟨s, rfl⟩
  | some email =>
    dsimp only
    by_cases hempty : email.val = []
    · exact ⟨s, by rw [if_pos hempty]⟩
    · have ha : s.addressOf casefold user = some (normalizeEmail casefold email.val) := by
        simp [Members.addressOf, normalizedAddress, hemail, hempty]
      rw [if_neg hempty]
      split_ifs
      · exact ⟨_, by rw [Members.commit, dif_pos (stored_claim ha h)]⟩
      · exact ⟨s, rfl⟩

omit [DecidableEq Id] in
/-- Rows that stay where rows were bring about no collision. -/
theorem Members.Within.collides (hemail : s'.email = s.email) (hrows : s.Within s')
    (h : s'.Collides casefold user) : s.Collides casefold user := by
  obtain ⟨a, ha, r, hr, hpending, r', hr', hworkspace, huser⟩ := h
  obtain ⟨x, hx, hxr⟩ := hrows r hr
  obtain ⟨y, hy, hyr⟩ := hrows r' hr'
  rw [addressOf_congr hemail] at ha
  rw [pending_iff, hxr.userId, hxr.emailNormalized] at hpending
  rw [hyr.workspaceId, hxr.workspaceId] at hworkspace
  exact ⟨a, ha, x, hx, pending_iff.mpr hpending, y, hy, hworkspace, hyr.userId ▸ huser⟩

/-- A harmless step brings about no collision. -/
theorem not_collides_step {e : MemberEvent Id} (hs : ∀ u, ¬ s.Collides casefold u)
    (hok : s.Harmless casefold e) (h : s.step casefold e = some s') (u : Id) :
    ¬ s'.Collides casefold u := by
  intro hcollides
  cases step_effect h with
  | within hemail hrows => exact hs u (hrows.collides hemail hcollides)
  | @claimed user email address _ hemail haddress hrows =>
    obtain ⟨a, ha, r, hr, hpending, r', hr', hworkspace, huser⟩ := hcollides
    rw [addressOf_congr hemail] at ha
    rw [hrows] at hr hr'
    obtain ⟨x, hx, rfl⟩ := mem_updateWhere.mp hr
    obtain ⟨y, hy, rfl⟩ := mem_updateWhere.mp hr'
    -- an unclaimed row was not claimed by this step
    by_cases hpx : Members.pending address x = true
    · rw [if_pos hpx] at hpending
      simp at hpending
    rw [if_neg hpx] at hpending hworkspace
    by_cases hpy : Members.pending address y = true
    · rw [if_pos hpy] at huser
      obtain rfl : user = u := Option.some.inj huser
      obtain rfl : a = address := Option.some.inj (ha.symm.trans haddress)
      exact hpx hpending
    · rw [if_neg hpy] at huser hworkspace
      exact hs u ⟨a, ha, x, hx, hpending, y, hy, hworkspace, huser⟩
  | @written _ user address _ hemail hwritten hrows =>
    obtain ⟨a, ha, r, hr, hpending, r', hr', hworkspace, huser⟩ := hcollides
    rw [addressOf_congr hemail] at ha
    rw [pending_iff] at hpending
    obtain ⟨x, hx, hxr⟩ | ⟨hclaimed, -⟩ := hrows r hr
    swap
    · rw [hpending.1] at hclaimed
      cases hclaimed
    rw [hxr.userId, hxr.emailNormalized] at hpending
    obtain ⟨y, hy, hyr⟩ | ⟨hclaimed, -, hseat⟩ := hrows r' hr'
    · rw [hyr.workspaceId, hxr.workspaceId] at hworkspace
      exact hs u ⟨a, ha, x, hx, pending_iff.mpr hpending, y, hy, hworkspace, hyr.userId ▸ huser⟩
    · obtain rfl : user = u := Option.some.inj (hclaimed.symm.trans huser)
      rw [hworkspace, hxr.workspaceId] at hseat
      obtain ⟨y, hy, hyw, hyu⟩ | hnone := hseat
      · exact hs user ⟨a, ha, x, hx, pending_iff.mpr hpending, y, hy, hyw, hyu⟩
      · exact hnone x hx rfl
  | @invited _ workspace _ _ _ _ row _ hemail hrows hplace hunclaimed haddress =>
    obtain ⟨a, ha, r, hr, hpending, r', hr', hworkspace, huser⟩ := hcollides
    rw [addressOf_congr hemail] at ha
    rw [hrows, List.mem_append, List.mem_singleton] at hr hr'
    rcases hr' with hr' | rfl
    swap
    · rw [hunclaimed] at huser
      cases huser
    rcases hr with hr | rfl
    · exact hs u ⟨a, ha, r, hr, hpending, r', hr', hworkspace, huser⟩
    · obtain rfl : a = _ := (pending_iff.mp hpending).2.symm
      rw [haddress] at ha
      exact hok u ha r' hr' (hworkspace.trans hplace) huser
  | @moved user email _ hemail hrows =>
    obtain ⟨a, ha, r, hr, hpending, r', hr', hworkspace, huser⟩ := hcollides
    rw [addressOf_update hemail] at ha
    rw [hrows] at hr hr'
    split_ifs at ha with hsame
    · subst hsame
      exact hok a ha r hr hpending r' hr' hworkspace huser
    · exact hs u ⟨a, ha, r, hr, hpending, r', hr', hworkspace, huser⟩

/-- What holds in every state of a run of harmless steps. -/
theorem not_collides_of_run (h : RunOf (Members.step casefold) (Members.Harmless casefold)
    .start s) (u : Id) : ¬ s.Collides casefold u := by
  refine RunOf.invariant (P := fun s => ∀ u, ¬ s.Collides casefold u)
    (fun s e s' hs hok hnext => not_collides_step hs hok hnext) h ?_ u
  rintro u ⟨a, -, r, hr, -⟩
  cases hr

/-- Claiming the rows of an account succeeds exactly when no unclaimed row addressed to it is
in a workspace that it has a row of, and after harmless steps there is none. -/
theorem claim_succeeds_iff (casefold : Text → Text) :
    (∀ (s : Members Id) (user : Id), (∃ s', s.claimPendingMemberships casefold user = .ok s') ↔
      ¬ s.Collides casefold user) ∧
    ∀ s : Members Id, RunOf (Members.step casefold) (Members.Harmless casefold) .start s →
      ∀ user, ∃ s', s.claimPendingMemberships casefold user = .ok s' ∧
        ∀ u, ∀ r ∈ s'.rows, ∀ r' ∈ s'.rows, r.workspaceId = r'.workspaceId →
          r.userId = some u → r'.userId = some u → r = r' := by
  refine ⟨fun s user => exists_claim_iff, fun s h user => ?_⟩
  obtain ⟨s', hclaim⟩ := exists_claim_iff.mpr (not_collides_of_run h user)
  refine ⟨s', hclaim, fun u r hr r' hr' hworkspace hu hu' => ?_⟩
  exact s'.row_unique hr hr' hworkspace
    (Or.inr ⟨hu.trans hu'.symm, by rw [hu]; exact Option.some_ne_none _⟩)

/-- An address for the concrete runs. -/
def plainAddress : Address := ⟨"a@b.c".toList, by decide⟩

/-- The role that they give. -/
def invitedEditor : GivenRole := ⟨.editor, by decide⟩

/-- The owner of a new workspace invites an address; the account with it claims the row. -/
theorem claim_succeeds_invited : ∃ s : Members Nat,
    s.rows.any (Members.pending "d@e.f".toList) = true ∧
      ∃ s', s.claimPendingMemberships (List.map Char.toLower) 1 = .ok s' := by
  have hrun : ∃ s : Members Nat, RunOf (Members.step (List.map Char.toLower))
      (Members.Harmless (List.map Char.toLower)) .start s ∧
        s.rows.any (Members.pending "d@e.f".toList) = true := by
    refine ⟨_, .head ⟨.changeEmail 0 (some plainAddress), ?_, rfl⟩
      (.head ⟨.createWeb 0 1 2, trivial, rfl⟩
      (.head ⟨.changeEmail 1 (some ⟨"d@e.f".toList, by decide⟩), ?_, rfl⟩
      (.head ⟨.invite 0 1 (.preferring ⟨2, 1, some 0, [], [], .owner⟩) "d@e.f".toList
        invitedEditor 3, ?_, rfl⟩ .refl))), rfl⟩
    · rintro a - r ⟨⟩
    · intro a ha r hr hpending r' hr' _
      obtain rfl := List.mem_singleton.mp hr'
      decide
    · intro user ha r hr _
      obtain rfl := List.mem_singleton.mp hr
      rintro ⟨⟩
      exact absurd ha (by decide)
  obtain ⟨s, hrun, hany⟩ := hrun
  obtain ⟨s', hclaim, -⟩ := (claim_succeeds_iff (List.map Char.toLower)).2 s hrun 1
  exact ⟨s, hany, s', hclaim⟩

/-- A workspace is created through MCP, without an address; its owner invites itself. -/
def selfInvited : List (MemberEvent Nat) :=
  let row := ⟨2, 1, some 0, [], [], .owner⟩
  [.changeEmail 0 (some plainAddress), .createMcp 0 1 2, .claim 0,
    .invite 0 1 (.preferring row) "a@b.c".toList invitedEditor 3]

/-- The owner's next claim breaks the unique constraint, and so does every later one. -/
theorem owner_locked_out : ∃ s : Members Nat,
    RunOf (Members.step (List.map Char.toLower)) anyEvent .start s ∧
      s.claimPendingMemberships (List.map Char.toLower) 0 = .error .integrityError := by
  have hrun : ∃ s, replay (Members.step (List.map Char.toLower)) .start selfInvited = some s ∧
      s.claimPendingMemberships (List.map Char.toLower) 0 = .error .integrityError :=
    ⟨_, rfl, rfl⟩
  obtain ⟨s, hreplay, hclaim⟩ := hrun
  exact ⟨s, runOf_replay (fun _ _ _ => trivial) hreplay, hclaim⟩

end Maeglagi.Workspaces
