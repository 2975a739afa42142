import Maeglagi.Workspaces.People

/-!
# Merging aliases

The statements on the rows of the people: what they keep, and which aliases a merge leaves.
-/

namespace Maeglagi.Workspaces

open Core

variable {Id : Type}

/-- Aliases as `_clean_aliases` returns them. -/
structure CleanAliases (aliases : List Text) : Prop where
  nodup : aliases.Nodup
  each : ∀ a ∈ aliases, strip a = a ∧ a ≠ [] ∧ a.length ≤ 120

theorem clean_of_cleanAliases {values aliases : List Text} (h : cleanAliases values = some aliases) :
    CleanAliases aliases := by
  unfold cleanAliases at h
  dsimp only at h
  split_ifs at h with hany
  obtain rfl := Option.some.inj h
  refine ⟨nodup_eraseDups _, fun a ha => ?_⟩
  rw [List.mem_eraseDups] at ha
  obtain ⟨value, -, rfl⟩ := List.mem_map.mp ha
  have hok := List.any_eq_false.mp (Bool.not_eq_true _ ▸ hany) _ ha
  simp only [Bool.or_eq_true, decide_eq_true_eq, not_or, Nat.not_lt] at hok
  exact ⟨strip_strip value, hok.1, hok.2⟩

/-- Clean aliases raise nothing, and only those that repeat are dropped. -/
theorem cleanAliases_of_each {values : List Text}
    (h : ∀ a ∈ values, strip a = a ∧ a ≠ [] ∧ a.length ≤ 120) :
    cleanAliases values = some values.eraseDups := by
  have hmap : values.map strip = values := by
    conv_rhs => rw [← List.map_id values]
    exact List.map_congr_left fun a ha => (h a ha).1
  unfold cleanAliases
  dsimp only
  rw [hmap, if_neg]
  simp only [List.any_eq_true, not_exists, not_and, Bool.or_eq_true, decide_eq_true_eq, not_or,
    Nat.not_lt]
  exact fun a ha => ⟨(h a ha).2.1, (h a ha).2.2⟩

theorem eraseDups_eq_self {values : List Text} (h : values.Nodup) : values.eraseDups = values := by
  induction values with
  | nil => rfl
  | cons a values ih =>
    obtain ⟨ha, hrest⟩ := List.nodup_cons.mp h
    rw [List.eraseDups_cons, List.filter_eq_self.mpr, ih hrest]
    intro b hb
    have hne : b ≠ a := by
      rintro rfl
      exact ha hb
    simp [hne]

/-- A merge keeps what is there and adds what is not. -/
theorem cleanAliases_append {existing own : List Text} (he : CleanAliases existing)
    (ho : CleanAliases own) : ∃ aliases, cleanAliases (existing ++ own) = some aliases ∧
      CleanAliases aliases ∧ (∀ a, a ∈ aliases ↔ a ∈ existing ∨ a ∈ own) ∧
      (aliases = existing ↔ own ⊆ existing) := by
  have hsome : cleanAliases (existing ++ own) = some (existing ++ own).eraseDups := by
    refine cleanAliases_of_each fun a ha => ?_
    rcases List.mem_append.mp ha with h | h
    · exact he.each a h
    · exact ho.each a h
  have hmem : ∀ a, a ∈ (existing ++ own).eraseDups ↔ a ∈ existing ∨ a ∈ own := fun a => by
    rw [List.mem_eraseDups, List.mem_append]
  refine ⟨_, hsome, clean_of_cleanAliases hsome, hmem, fun heq a ha => ?_, fun hsub => ?_⟩
  · rw [← heq]
    exact (hmem a).mpr (.inr ha)
  · have hnone : own.removeAll existing = [] := by
      rw [List.removeAll, List.filter_eq_nil_iff]
      intro a ha
      simp [hsub ha]
    rw [List.eraseDups_append, eraseDups_eq_self he.nodup, hnone]
    simp

/-- Rows as the constraints of the table and the validators leave them. -/
structure Wellformed (rows : List (PersonRow Id)) : Prop where
  ids : (rows.map PersonRow.id).Nodup
  unique : ∀ r ∈ rows, ∀ r' ∈ rows, ∀ n, r.emailNormalized = some n →
    r'.emailNormalized = some n → r.id = r'.id
  clean : ∀ r ∈ rows, CleanAliases r.aliases
  stored : ∀ r ∈ rows, r.aliases.all storable = true

variable {rows rows' : List (PersonRow Id)}

/-- At most one row has a normalized address. -/
theorem Wellformed.countP_le (h : Wellformed rows) (n : Text) :
    rows.countP (fun r => decide (r.emailNormalized = some n)) ≤ 1 := by
  rw [List.countP_eq_length_filter]
  have hids : ((rows.filter fun r => decide (r.emailNormalized = some n)).map PersonRow.id).Nodup :=
    (List.filter_sublist.map PersonRow.id).nodup h.ids
  match hfilter : rows.filter fun r => decide (r.emailNormalized = some n) with
  | [] => simp [hfilter]
  | [r] => simp [hfilter]
  | r :: r' :: rest =>
    have hmem : ∀ x ∈ rows.filter fun r => decide (r.emailNormalized = some n),
        x ∈ rows ∧ x.emailNormalized = some n := fun x hx => by
      simpa using List.mem_filter.mp hx
    rw [hfilter] at hmem hids
    obtain ⟨hr, hn⟩ := hmem r (by simp)
    obtain ⟨hr', hn'⟩ := hmem r' (by simp)
    have heq := h.unique r hr r' hr' n hn hn'
    simp [heq] at hids

/-- The row with an id is one. -/
theorem Wellformed.eq_of_id (h : Wellformed rows) {r r' : PersonRow Id} (hr : r ∈ rows)
    (hr' : r' ∈ rows) (hid : r.id = r'.id) : r = r' :=
  eq_of_key_eq h.ids hr hr' hid

/-- What a merge writes: the aliases, if they are others than those it read, and that the row is
active. -/
theorem between_merge (loaded : PersonRow Id) (aliases : List Text) :
    RowChange.between loaded { loaded with aliases := aliases, archivedAt := none } =
      { name := none, email := none, emailNormalized := none, role := none
        aliases := written loaded.aliases aliases
        archivedAt := written loaded.archivedAt none } := by
  simp [RowChange.between, written]

variable [DecidableEq Id]

theorem wellformed_insertRow (h : Wellformed rows) {row : PersonRow Id}
    (hclean : CleanAliases row.aliases) (hinsert : insertRow rows row = .ok rows') :
    Wellformed rows' ∧ rows' = rows ++ [row] := by
  unfold insertRow at hinsert
  split_ifs at hinsert with hfits hconflict
  obtain rfl := Except.ok.inj hinsert
  simp only [List.any_eq_true, Bool.or_eq_true, decide_eq_true_eq, Bool.and_eq_true, not_exists,
    not_and, not_or] at hconflict
  have hrow : ∀ r ∈ rows, ∀ n, r.emailNormalized = some n → row.emailNormalized ≠ some n := by
    intro r hr n hn hrow
    refine (hconflict r hr).2 ?_ (hn.trans hrow.symm)
    simp [hrow]
  have hmem : ∀ r, r ∈ rows ++ [row] → r ∈ rows ∨ r = row := fun r hr => by
    simpa using List.mem_append.mp hr
  refine ⟨⟨?_, fun r hr r' hr' n hn hn' => ?_, fun r hr => ?_, fun r hr => ?_⟩, rfl⟩
  · rw [List.map_append, List.nodup_append]
    refine ⟨h.ids, by simp, ?_⟩
    intro id hid id' hid'
    obtain ⟨r, hr, rfl⟩ := List.mem_map.mp hid
    simp only [List.map_cons, List.map_nil, List.mem_singleton] at hid'
    rw [hid']
    exact (hconflict r hr).1
  · rcases hmem r hr with hold | rfl
    · rcases hmem r' hr' with hold' | rfl
      · exact h.unique r hold r' hold' n hn hn'
      · exact absurd hn' (hrow r hold n hn)
    · rcases hmem r' hr' with hold' | rfl
      · exact absurd hn (hrow r' hold' n hn')
      · rfl
  · rcases hmem r hr with hr | rfl
    · exact h.clean r hr
    · exact hclean
  · rcases hmem r hr with hr | rfl
    · exact h.stored r hr
    · simp only [Bool.not_eq_false, PersonRow.fits, Bool.and_eq_true] at hfits
      exact hfits.2

theorem wellformed_updateRow (h : Wellformed rows) {id : Id} {change : RowChange}
    (hclean : ∀ aliases, change.aliases = some aliases → CleanAliases aliases)
    (hupdate : updateRow rows id change = .ok rows') :
    Wellformed rows' ∧ rows' = updateWhere (fun r => decide (r.id = id)) change.apply rows := by
  unfold updateRow at hupdate
  split_ifs at hupdate with hfits hstale hconflict
  obtain rfl := Except.ok.inj hupdate
  simp only [List.any_eq_true, Bool.and_eq_true, decide_eq_true_eq, not_exists, not_and] at hconflict
  -- A row that another one shares its new address with would be in conflict.
  have hfree : ∀ r ∈ rows, ∀ r' ∈ rows, r.id = id → r'.id ≠ id → ∀ n,
      (change.apply r).emailNormalized = some n → r'.emailNormalized ≠ some n := by
    intro r hr r' hr' hid hid' n hn hn'
    cases hwritten : change.emailNormalized with
    | none =>
      simp only [RowChange.apply, hwritten, Option.getD_none] at hn
      exact hid' ((h.unique r hr r' hr' n hn hn').symm.trans hid)
    | some e =>
      simp only [RowChange.apply, hwritten, Option.getD_some] at hn
      have := hconflict r' hr' hid'
      simp [hwritten, hn, hn'] at this
  have hafter : ∀ x ∈ updateWhere (fun r => decide (r.id = id)) change.apply rows,
      ∃ r ∈ rows, x.id = r.id ∧ ((r.id = id ∧ x = change.apply r) ∨ (r.id ≠ id ∧ x = r)) := by
    intro x hx
    obtain ⟨r, hr, rfl⟩ := mem_updateWhere.mp hx
    by_cases hid : r.id = id
    · exact ⟨r, hr, by simp [hid, RowChange.apply], .inl ⟨hid, by simp [hid]⟩⟩
    · exact ⟨r, hr, by simp [hid], .inr ⟨hid, by simp [hid]⟩⟩
  refine ⟨⟨?_, fun x hx y hy n hn hn' => ?_, fun x hx => ?_, fun x hx => ?_⟩, rfl⟩
  · have hids : (updateWhere (fun r => decide (r.id = id)) change.apply rows).map PersonRow.id =
        rows.map PersonRow.id := map_updateWhere PersonRow.id fun r _ _ => rfl
    rw [hids]
    exact h.ids
  · obtain ⟨r, hr, hxid, hcase⟩ := hafter x hx
    obtain ⟨r', hr', hyid, hcase'⟩ := hafter y hy
    rw [hxid, hyid]
    rcases hcase with ⟨hid, rfl⟩ | ⟨hid, rfl⟩
    · rcases hcase' with ⟨hid', rfl⟩ | ⟨hid', rfl⟩
      · exact hid.trans hid'.symm
      · exact absurd hn' (hfree r hr y hr' hid hid' n hn)
    · rcases hcase' with ⟨hid', rfl⟩ | ⟨hid', rfl⟩
      · exact absurd hn (hfree r' hr' x hr hid' hid n hn')
      · exact h.unique x hr y hr' n hn hn'
  · obtain ⟨r, hr, -, ⟨-, rfl⟩ | ⟨-, rfl⟩⟩ := hafter x hx
    · cases haliases : change.aliases with
      | none => simpa [RowChange.apply, haliases] using h.clean r hr
      | some aliases => simpa [RowChange.apply, haliases] using hclean aliases haliases
    · exact h.clean x hr
  · obtain ⟨r, hr, -, ⟨-, rfl⟩ | ⟨-, rfl⟩⟩ := hafter x hx
    · cases haliases : change.aliases with
      | none => simpa [RowChange.apply, haliases] using h.stored r hr
      | some aliases =>
        simp only [Bool.not_eq_false, RowChange.fits, Bool.and_eq_true] at hfits
        have := hfits.2
        rw [haliases, Option.all_some] at this
        simpa [RowChange.apply, haliases] using this
    · exact h.stored x hr

/-- When the statement of a merge is executed. -/
theorem updateRow_merge (rows : List (PersonRow Id)) (loaded : PersonRow Id) (aliases : List Text) :
    (∃ rows', updateRow rows loaded.id
        (.between loaded { loaded with aliases := aliases, archivedAt := none }) = .ok rows') ↔
      (∃ r ∈ rows, r.id = loaded.id) ∧
        (aliases = loaded.aliases ∨ aliases.all storable = true) := by
  rw [between_merge]
  have hfits : RowChange.fits
      { name := none, email := none, emailNormalized := none, role := none
        aliases := written loaded.aliases aliases
        archivedAt := written loaded.archivedAt none } = true ↔
      aliases = loaded.aliases ∨ aliases.all storable = true := by
    unfold written
    by_cases haliases : aliases = loaded.aliases
    · simp [RowChange.fits, haliases]
    · simp [RowChange.fits, haliases]
  unfold updateRow
  constructor
  · rintro ⟨rows', hupdate⟩
    split_ifs at hupdate with hno hstale hconflict
    refine ⟨?_, hfits.mp (by simpa using hno)⟩
    simpa using hstale
  · rintro ⟨⟨r, hr, hid⟩, hok⟩
    rw [if_neg (by simp [hfits.mpr hok]), if_neg, if_neg (by simp)]
    · exact ⟨_, rfl⟩
    · simp only [List.all_eq_true, decide_eq_true_eq, not_forall, not_not]
      exact ⟨r, hr, hid⟩

end Maeglagi.Workspaces
