import Maeglagi.Workspaces.Credentials

/-!
# One default credential

Every request leaves each scope that has credentials with one that is the default. The index of
the table allows no second one.
-/

namespace Maeglagi.Workspaces

open Core

variable {Id : Type} [DecidableEq Id]

/-- Where there is a credential there is a default of its scope. -/
def HasDefault (rows : List (ProviderCredential Id)) : Prop :=
  ∀ r ∈ rows, ∃ d ∈ rows, d.scope = r.scope ∧ d.isDefault = true

section rows

variable {rows rows' : List (ProviderCredential Id)} {c : ProviderCredential Id} {scope : Scope Id}

omit [DecidableEq Id] in
/-- A new row is the default, or there is one. -/
theorem HasDefault.append (h : HasDefault rows)
    (hc : c.isDefault = true ∨ ∃ d ∈ rows, d.scope = c.scope ∧ d.isDefault = true) :
    HasDefault (rows ++ [c]) := by
  intro r hr
  rcases List.mem_append.mp hr with hr | hr
  · obtain ⟨d, hd, hdefault⟩ := h r hr
    exact ⟨d, List.mem_append_left _ hd, hdefault⟩
  · rw [List.mem_singleton.mp hr]
    rcases hc with hc | ⟨d, hd, hdefault⟩
    · exact ⟨c, List.mem_append_right _ (List.mem_singleton_self c), rfl, hc⟩
    · exact ⟨d, List.mem_append_left _ hd, hdefault⟩

omit [DecidableEq Id] in
/-- Rows that keep their scope and whether they are the default. -/
theorem HasDefault.map (h : HasDefault rows) {f : ProviderCredential Id → ProviderCredential Id}
    (hf : ∀ r ∈ rows, (f r).scope = r.scope ∧ (f r).isDefault = r.isDefault) :
    HasDefault (rows.map f) := by
  intro r' hr'
  obtain ⟨r, hr, rfl⟩ := List.mem_map.mp hr'
  obtain ⟨d, hd, hscope, hdefault⟩ := h r hr
  refine ⟨f d, List.mem_map_of_mem hd, ?_, ?_⟩
  · rw [(hf d hd).1, (hf r hr).1, hscope]
  · rw [(hf d hd).2, hdefault]

omit [DecidableEq Id] in
/-- A scope gets a default, and the rows of the others stay. -/
theorem HasDefault.chosen (h : HasDefault rows) (hin : ∀ r ∈ rows', r.scope = scope ∨ r ∈ rows)
    (hkeep : ∀ r ∈ rows, r.scope ≠ scope → r ∈ rows')
    (hdefault : ∃ d ∈ rows', d.scope = scope ∧ d.isDefault = true) : HasDefault rows' := by
  intro r hr
  by_cases hscope : r.scope = scope
  · rw [hscope]
    exact hdefault
  · obtain ⟨d, hd, hsame, hdefault⟩ := h r ((hin r hr).resolve_left hscope)
    exact ⟨d, hkeep d hd (hsame ▸ hscope), hsame, hdefault⟩

/-- Rows of other scopes are not cleared. -/
theorem mem_cleared {keep : Option Id} {r : ProviderCredential Id} (hr : r ∈ rows)
    (hscope : r.scope ≠ scope) : r ∈ Credentials.cleared scope keep rows :=
  mem_updateWhere_of_neg hr (by rw [decide_eq_false hscope, Bool.false_and])

/-- A cleared row is in the scope, or was there. -/
theorem of_mem_cleared {keep : Option Id} {r : ProviderCredential Id}
    (hr : r ∈ Credentials.cleared scope keep rows) : r.scope = scope ∨ r ∈ rows := by
  obtain ⟨x, hx, rfl⟩ := mem_updateWhere.mp hr
  split_ifs with hcond
  · exact .inl (of_decide_eq_true (Bool.and_eq_true_iff.mp hcond).1)
  · exact .inr hx

theorem map_id_cleared (scope : Scope Id) (keep : Option Id) (rows : List (ProviderCredential Id)) :
    (Credentials.cleared scope keep rows).map (·.id) = rows.map (·.id) :=
  map_updateWhere _ fun _ _ _ => rfl

/-- A row that is put in the place of one stands in the table. -/
theorem mem_replaced (h : c.id ∈ rows.map (·.id)) : c ∈ Credentials.replaced c rows := by
  obtain ⟨r, hr, heq⟩ := List.mem_map.mp h
  exact mem_updateWhere.mpr ⟨r, hr, if_pos (decide_eq_true heq)⟩

/-- The other rows stay. -/
theorem mem_replaced_of_ne {r : ProviderCredential Id} (hr : r ∈ rows) (hne : r.id ≠ c.id) :
    r ∈ Credentials.replaced c rows :=
  mem_updateWhere_of_neg hr (decide_eq_false hne)

theorem of_mem_replaced {r : ProviderCredential Id} (hr : r ∈ Credentials.replaced c rows) :
    r = c ∨ r ∈ rows := by
  obtain ⟨x, hx, rfl⟩ := mem_updateWhere.mp hr
  split_ifs
  · exact .inl rfl
  · exact .inr hx

end rows

section requests

variable {s s' : Credentials Id} {services : Services Id} {user : Requester Id}
  {c : ProviderCredential Id}

theorem nodup_map_id (s : Credentials Id) : (s.rows.map (·.id)).Nodup :=
  List.pairwise_map.mpr (s.stored.apart.imp fun hapart => hapart.1)

theorem commit_eq_ok {workspaces : List (OwnedWorkspace Id)} {rows : List (ProviderCredential Id)}
    (h : Credentials.commit workspaces rows = .ok s') : s'.rows = rows := by
  unfold Credentials.commit at h
  split_ifs at h
  cases h
  rfl

theorem ensure_eq_ok {condition : Bool} {e : CredentialError} {u : Unit}
    (h : ensure condition e = .ok u) : condition = true := by
  unfold ensure at h
  split_ifs at h with hcondition
  exact hcondition

/-- A credential that a request is about is a row of its scope. -/
theorem ownedCredential_eq_ok {workspaceId : Option Id} {credentialId : Id}
    (h : s.ownedCredential user workspaceId credentialId = .ok c) :
    c ∈ s.rows ∧ c.scope = scopeOf workspaceId user.id := by
  unfold Credentials.ownedCredential at h
  split at h
  · cases h
  · next credential hfind =>
    obtain ⟨_, hworkspace, h⟩ := bind_eq_ok.mp h
    obtain ⟨_, howner, h⟩ := bind_eq_ok.mp h
    cases h
    have hworkspace := of_decide_eq_true (ensure_eq_ok hworkspace)
    have howner := of_decide_eq_true (ensure_eq_ok howner)
    refine ⟨List.mem_of_find?_eq_some hfind, ?_⟩
    rw [ProviderCredential.scope, hworkspace]
    cases workspaceId with
    | none => rw [scopeOf, scopeOf, howner rfl]
    | some workspace => rfl

omit [DecidableEq Id] in
/-- Setting a secret keeps the scope of a credential and whether it is the default. -/
theorem setSecretIf_eq_ok {condition : Bool} {key : Text} {c' : ProviderCredential Id}
    (h : setSecretIf services condition c key = .ok c') :
    c'.id = c.id ∧ c'.scope = c.scope ∧ c'.isDefault = c.isDefault := by
  unfold setSecretIf at h
  split_ifs at h
  · obtain ⟨secret, -, h⟩ := bind_eq_ok.mp h
    cases h
    exact ⟨rfl, rfl, rfl⟩
  · cases h
    exact ⟨rfl, rfl, rfl⟩

theorem mem_inScope {scope : Scope Id} {r : ProviderCredential Id} :
    r ∈ s.inScope scope ↔ r ∈ s.rows ∧ r.scope = scope := by
  rw [Credentials.inScope, List.mem_filter, decide_eq_true_eq]

/-- A row that is the default unless its scope has one. -/
theorem HasDefault.append_unless (h : HasDefault s.rows) {scope : Scope Id}
    (hscope : c.scope = scope) (hc : c.isDefault = !(s.inScope scope).any (·.isDefault)) :
    HasDefault (s.rows ++ [c]) := by
  refine h.append ?_
  rw [hc]
  by_cases hany : (s.inScope scope).any (·.isDefault) = true
  · obtain ⟨d, hd, hdefault⟩ := List.any_eq_true.mp hany
    obtain ⟨hmem, hsame⟩ := mem_inScope.mp hd
    exact .inr ⟨d, hmem, hsame.trans hscope.symm, hdefault⟩
  · exact .inl (by rw [Bool.not_eq_true _ |>.mp hany, Bool.not_false])

theorem hasDefault_add {workspaceId : Option Id} {body : CredentialInput}
    (hs : HasDefault s.rows) (h : s.addCredential services user workspaceId body = .ok (s', c)) :
    HasDefault s'.rows := by
  obtain ⟨_, -, h⟩ := bind_eq_ok.mp h
  obtain ⟨key, -, h⟩ := bind_eq_ok.mp h
  obtain ⟨baseUrl, -, h⟩ := bind_eq_ok.mp h
  obtain ⟨_, -, h⟩ := bind_eq_ok.mp h
  obtain ⟨_, -, h⟩ := bind_eq_ok.mp h
  obtain ⟨credential, hset, h⟩ := bind_eq_ok.mp h
  obtain ⟨s'', hcommit, h⟩ := bind_eq_ok.mp h
  cases h
  rw [commit_eq_ok hcommit]
  obtain ⟨-, hscope, hdefault⟩ := setSecretIf_eq_ok hset
  exact hs.append_unless hscope hdefault

/-- A row that is put in the place of a like one leaves every scope its default. -/
theorem HasDefault.replaced (h : HasDefault s.rows) {changed : ProviderCredential Id}
    (hc : c ∈ s.rows) (hid : changed.id = c.id) (hscope : changed.scope = c.scope)
    (hdefault : changed.isDefault = c.isDefault) :
    HasDefault (Credentials.replaced changed s.rows) := by
  refine h.map fun r hr => ?_
  split_ifs with hcond
  · have heq : r = c :=
      eq_of_key_eq (nodup_map_id s) hr hc ((of_decide_eq_true hcond).trans hid)
    rw [hscope, hdefault, heq]
    exact ⟨rfl, rfl⟩
  · exact ⟨rfl, rfl⟩

theorem hasDefault_rotate {workspaceId : Option Id} {credentialId : Id} {body : CredentialRotation}
    (hs : HasDefault s.rows)
    (h : s.rotateCredential services user workspaceId credentialId body = .ok (s', c)) :
    HasDefault s'.rows := by
  obtain ⟨_, -, h⟩ := bind_eq_ok.mp h
  obtain ⟨credential, howned, h⟩ := bind_eq_ok.mp h
  obtain ⟨baseUrl, -, h⟩ := bind_eq_ok.mp h
  obtain ⟨_, -, h⟩ := bind_eq_ok.mp h
  obtain ⟨key, -, h⟩ := bind_eq_ok.mp h
  obtain ⟨_, -, h⟩ := bind_eq_ok.mp h
  obtain ⟨changed, hset, h⟩ := bind_eq_ok.mp h
  obtain ⟨s'', hcommit, h⟩ := bind_eq_ok.mp h
  cases h
  rw [commit_eq_ok hcommit]
  obtain ⟨hid, hscope, hdefault⟩ := setSecretIf_eq_ok hset
  exact hs.replaced (ownedCredential_eq_ok howned).1 hid hscope hdefault

/-- A default row in the place of one of a cleared scope is the default of that scope. -/
theorem HasDefault.replaced_cleared (h : HasDefault s.rows) {scope : Scope Id} {keep : Option Id}
    {row : ProviderCredential Id} (hc : c ∈ s.rows) (hsame : c.scope = scope) (hid : row.id = c.id)
    (hscope : row.scope = scope) (hdefault : row.isDefault = true) :
    HasDefault (Credentials.replaced row (Credentials.cleared scope keep s.rows)) := by
  have hmem : row.id ∈ (Credentials.cleared scope keep s.rows).map (·.id) := by
    rw [map_id_cleared, hid]
    exact List.mem_map_of_mem hc
  refine h.chosen (fun r hr => ?_) (fun r hr hother => ?_)
    ⟨row, mem_replaced hmem, hscope, hdefault⟩
  · rcases of_mem_replaced hr with rfl | hr
    · exact .inl hscope
    · exact of_mem_cleared hr
  · refine mem_replaced_of_ne (mem_cleared hr hother) fun heq => hother ?_
    rw [eq_of_key_eq (nodup_map_id s) hr hc (heq.trans hid), hsame]

theorem hasDefault_choose {workspaceId : Option Id} {credentialId : Id} (hs : HasDefault s.rows)
    (h : s.chooseDefaultCredential services user workspaceId credentialId = .ok (s', c)) :
    HasDefault s'.rows := by
  obtain ⟨_, -, h⟩ := bind_eq_ok.mp h
  obtain ⟨credential, howned, h⟩ := bind_eq_ok.mp h
  obtain ⟨_, -, h⟩ := bind_eq_ok.mp h
  obtain ⟨s'', hcommit, h⟩ := bind_eq_ok.mp h
  cases h
  rw [commit_eq_ok hcommit]
  obtain ⟨hmem, hscope⟩ := ownedCredential_eq_ok howned
  exact hs.replaced_cleared hmem hscope rfl hscope rfl

/-- Two members of a list. -/
theorem one_lt_length {α : Type} {l : List α} {x y : α} (hx : x ∈ l) (hy : y ∈ l) (hne : x ≠ y) :
    1 < l.length := by
  match l, hx, hy with
  | [z], hx, hy =>
    have heq : x = y := (List.mem_singleton.mp hx).trans (List.mem_singleton.mp hy).symm
    exact absurd heq hne
  | _ :: _ :: _, _, _ => exact Nat.succ_lt_succ (Nat.succ_pos _)

/-- A default credential is removed only where it is the last of its scope. -/
theorem hasDefault_remove {workspaceId : Option Id} {credentialId : Id} (hs : HasDefault s.rows)
    (h : s.removeCredential services user workspaceId credentialId = .ok s') :
    HasDefault s'.rows := by
  obtain ⟨_, -, h⟩ := bind_eq_ok.mp h
  obtain ⟨credential, howned, h⟩ := bind_eq_ok.mp h
  obtain ⟨_, hlast, h⟩ := bind_eq_ok.mp h
  obtain ⟨_, -, h⟩ := bind_eq_ok.mp h
  obtain ⟨_, -, h⟩ := bind_eq_ok.mp h
  obtain ⟨_, -, h⟩ := bind_eq_ok.mp h
  rw [commit_eq_ok h]
  obtain ⟨hmem, hscope⟩ := ownedCredential_eq_ok howned
  have hlast := ensure_eq_ok hlast
  intro r hr
  obtain ⟨hr, hne⟩ := List.mem_filter.mp hr
  obtain ⟨d, hd, hsame, hdefault⟩ := hs r hr
  refine ⟨d, List.mem_filter.mpr ⟨hd, decide_eq_true fun heq => ?_⟩, hsame, hdefault⟩
  -- the removed row would be the default of a scope with two rows
  have hdc : d = credential := eq_of_key_eq (nodup_map_id s) hd hmem heq
  have htwo : 1 < (s.inScope (scopeOf workspaceId user.id)).length := by
    refine one_lt_length (mem_inScope.mpr ⟨hd, hdc ▸ hscope⟩)
      (mem_inScope.mpr ⟨hr, hsame ▸ hdc ▸ hscope⟩) ?_
    rintro rfl
    exact of_decide_eq_true hne heq
  rw [← hdc, hdefault, decide_eq_true htwo] at hlast
  cases hlast

omit [DecidableEq Id] in
/-- The row of an upsert is the default of the workspace, in the place of the one it is from. -/
theorem upserted_eq_ok {workspaceId : Id} {credential : Option (ProviderCredential Id)}
    {body : CredentialInput} {baseUrl : Option Text} {key : Text}
    (h : Credentials.upserted services user workspaceId credential body baseUrl key = .ok c) :
    c.isDefault = true ∧ (credential = none → c.scope = .workspace workspaceId) ∧
      ∀ old ∈ credential, c.id = old.id ∧ c.scope = old.scope := by
  cases credential with
  | none =>
    obtain ⟨-, hscope, hdefault⟩ := setSecretIf_eq_ok h
    exact ⟨hdefault, fun _ => hscope, nofun⟩
  | some old =>
    obtain ⟨changed, hset, h⟩ := bind_eq_ok.mp h
    cases h
    obtain ⟨hid, hscope, -⟩ := setSecretIf_eq_ok hset
    refine ⟨rfl, nofun, ?_⟩
    rintro _ ⟨⟩
    exact ⟨hid, hscope⟩

theorem hasDefault_upsert {workspaceId : Id} {body : CredentialInput} (hs : HasDefault s.rows)
    (h : s.upsertDefaultCredential services user workspaceId body = .ok (s', c)) :
    HasDefault s'.rows := by
  obtain ⟨_, -, h⟩ := bind_eq_ok.mp h
  obtain ⟨baseUrl, -, h⟩ := bind_eq_ok.mp h
  obtain ⟨_, -, h⟩ := bind_eq_ok.mp h
  obtain ⟨key, -, h⟩ := bind_eq_ok.mp h
  obtain ⟨_, -, h⟩ := bind_eq_ok.mp h
  obtain ⟨row, hrow, h⟩ := bind_eq_ok.mp h
  obtain ⟨s'', hcommit, h⟩ := bind_eq_ok.mp h
  cases h
  rw [commit_eq_ok hcommit]
  obtain ⟨hdefault, hnew, hold⟩ := upserted_eq_ok hrow
  cases hfind : (s.inScope (.workspace workspaceId)).find? fun item =>
      decide (item.provider = body.provider) && decide (item.label = body.label) with
  | none =>
    rw [hfind] at hnew
    have hchosen : ∃ d ∈ Credentials.cleared (.workspace workspaceId) none s.rows ++ [c],
        d.scope = .workspace workspaceId ∧ d.isDefault = true :=
      ⟨c, List.mem_append_right _ (List.mem_singleton_self c), hnew rfl, hdefault⟩
    refine hs.chosen (fun r hr => ?_) (fun r hr hother => ?_) hchosen
    · rcases List.mem_append.mp hr with hr | hr
      · exact of_mem_cleared hr
      · rw [List.mem_singleton.mp hr]
        exact .inl (hnew rfl)
    · exact List.mem_append_left _ (mem_cleared hr hother)
  | some old =>
    obtain ⟨hid, hscope⟩ := hold old hfind
    obtain ⟨hmem, hsame⟩ := mem_inScope.mp (List.mem_of_find?_eq_some hfind)
    exact hs.replaced_cleared hmem hsame hid (hscope.trans hsame) hdefault

theorem suffixed_injective : Function.Injective Credentials.suffixed := by
  intro i j h
  have hdigits := List.append_cancel_left h
  simp only [toString, Nat.toList_repr] at hdigits
  rw [← Nat.ofDigitChars_ten_toDigits (n := i), hdigits, Nat.ofDigitChars_ten_toDigits]

/-- As many tries as there are labels find one that is free. -/
theorem freeLabel_notMem (taken : List Text) : Credentials.freeLabel taken ∉ taken := by
  unfold Credentials.freeLabel
  split_ifs with hplain
  · let tries := (List.range (taken.length + 1)).map fun i => Credentials.suffixed (i + 2)
    have hnodup : tries.Nodup := List.nodup_range.map fun i j h =>
      Nat.add_right_cancel (suffixed_injective h)
    have hfree : ∃ label ∈ tries, label ∉ taken := by
      by_contra hnone
      push Not at hnone
      have hle := hnodup.length_le_of_subset hnone
      rw [List.length_map, List.length_range] at hle
      omega
    obtain ⟨label, hlabel, hnot⟩ := hfree
    cases hfind : tries.find? fun label => decide (label ∉ taken) with
    | none =>
      have hall := List.find?_eq_none.mp hfind label hlabel
      exact absurd (decide_eq_true hnot) hall
    | some label =>
      have hnot := List.find?_some hfind
      exact of_decide_eq_true hnot
  · exact hplain

/-- The credentials after a workspace was created. -/
theorem createdCredential_eq_ok {chosen : Credentials.Chosen Id}
    {rows : List (ProviderCredential Id)}
    (h : s.createdCredential services user chosen = .ok (c, rows)) (hs : HasDefault s.rows) :
    HasDefault rows := by
  unfold Credentials.createdCredential at h
  split at h
  · cases h
    exact hs
  · obtain ⟨secret, -, h⟩ := bind_eq_ok.mp h
    cases h
    exact hs.append_unless rfl rfl

theorem hasDefault_createWorkspace {body : CreateWorkspaceRequest Id} (hs : HasDefault s.rows)
    (h : s.createWorkspace services user body = .ok s') : HasDefault s'.rows := by
  unfold Credentials.createWorkspace at h
  split_ifs at h
  · obtain ⟨_, -, h⟩ := bind_eq_ok.mp h
    rw [commit_eq_ok h]
    exact hs
  · obtain ⟨chosen, -, h⟩ := bind_eq_ok.mp h
    obtain ⟨_, -, h⟩ := bind_eq_ok.mp h
    obtain ⟨_, -, h⟩ := bind_eq_ok.mp h
    obtain ⟨⟨created, rows⟩, hcreated, h⟩ := bind_eq_ok.mp h
    rw [commit_eq_ok h]
    exact createdCredential_eq_ok hcreated hs

/-- One request leaves every scope that has credentials with a default. -/
theorem hasDefault_run {request : CredentialRequest Id} (hs : HasDefault s.rows)
    (h : s.run request = .ok s') : HasDefault s'.rows := by
  obtain ⟨services, user, operation⟩ := request
  cases operation with
  | add workspaceId body =>
    obtain ⟨⟨_, c⟩, hrun, h⟩ := bind_eq_ok.mp h
    cases h
    exact hasDefault_add hs hrun
  | rotate workspaceId credentialId body =>
    obtain ⟨⟨_, c⟩, hrun, h⟩ := bind_eq_ok.mp h
    cases h
    exact hasDefault_rotate hs hrun
  | choose workspaceId credentialId =>
    obtain ⟨⟨_, c⟩, hrun, h⟩ := bind_eq_ok.mp h
    cases h
    exact hasDefault_choose hs hrun
  | remove workspaceId credentialId => exact hasDefault_remove hs h
  | upsert workspaceId body =>
    obtain ⟨⟨_, c⟩, hrun, h⟩ := bind_eq_ok.mp h
    cases h
    exact hasDefault_upsert hs hrun
  | createWorkspace body => exact hasDefault_createWorkspace hs h

theorem hasDefault_after (request : CredentialRequest Id) (hs : HasDefault s.rows) :
    HasDefault (s.after request).rows := by
  unfold Credentials.after
  split
  · next s' h => exact hasDefault_run hs h
  · exact hs

/-- Every sequence of requests leaves every scope that has credentials with a default. -/
theorem hasDefault_foldl (requests : List (CredentialRequest Id)) {s : Credentials Id}
    (hs : HasDefault s.rows) : HasDefault (requests.foldl Credentials.after s).rows := by
  induction requests generalizing s with
  | nil => exact hs
  | cons request requests ih => exact ih (hasDefault_after request hs)

/-- A scope has at most one default, by the index of the table. -/
theorem length_defaults_le (s : Credentials Id) (scope : Scope Id) :
    ((s.inScope scope).filter (·.isDefault)).length ≤ 1 := by
  have happart : ((s.inScope scope).filter (·.isDefault)).Pairwise ProviderCredential.Apart :=
    (s.stored.apart.filter _).filter _
  have hin : ∀ r ∈ (s.inScope scope).filter (·.isDefault),
      r.scope = scope ∧ r.isDefault = true := fun r hr =>
    ⟨(mem_inScope.mp (List.mem_filter.mp hr).1).2, (List.mem_filter.mp hr).2⟩
  generalize (s.inScope scope).filter (·.isDefault) = defaults at happart hin
  match defaults with
  | [] => exact Nat.zero_le 1
  | [_] => exact Nat.le_refl 1
  | d :: d' :: rest =>
    have hd := hin d List.mem_cons_self
    have hd' := hin d' (List.mem_cons_of_mem d List.mem_cons_self)
    have hapart := List.rel_of_pairwise_cons happart List.mem_cons_self
    exact absurd ⟨hd.2, hd'.2⟩ (hapart.2 (hd.1.trans hd'.1.symm)).2

end requests

/-- After any sequence of requests a scope has exactly one default credential when it has a
credential, and none otherwise. -/
theorem one_default (requests : List (CredentialRequest Id)) (scope : Scope Id) :
    let credentials := (requests.foldl Credentials.after Credentials.start).inScope scope
    (credentials.filter (·.isDefault)).length = if credentials = [] then 0 else 1 := by
  intro credentials
  have hdefault : HasDefault (requests.foldl Credentials.after Credentials.start).rows :=
    hasDefault_foldl requests nofun
  split_ifs with hempty
  · rw [hempty, List.filter_nil, List.length_nil]
  · obtain ⟨r, hr⟩ := List.exists_mem_of_ne_nil credentials hempty
    obtain ⟨hr, hscope⟩ := mem_inScope.mp hr
    obtain ⟨d, hd, hsame, hd'⟩ := hdefault r hr
    have hpos := List.length_pos_of_mem
      (List.mem_filter.mpr ⟨mem_inScope.mpr ⟨hd, hsame.trans hscope⟩, hd'⟩)
    exact Nat.le_antisymm (length_defaults_le _ scope) hpos

end Maeglagi.Workspaces
