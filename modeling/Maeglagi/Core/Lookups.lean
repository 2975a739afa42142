import Mathlib.Data.List.Nodup
import Mathlib.Data.List.Perm.Basic
import Maeglagi.Core.Fallible

/-!
# Rows by their keys

Rows under distinct keys, found one by one or selected together: a selection by keys has as
many rows as there are keys exactly when each key has one, and is then what the lookups give
in some order.
-/

namespace Maeglagi.Core

variable {ρ κ β ε : Type} [DecidableEq κ] {key : ρ → κ} {rows : List ρ}

/-- Looking a key up among some of the rows finds the row under it. -/
theorem find?_key_eq_some_iff_of_subset (hkeys : (rows.map key).Nodup) {part : List ρ}
    (hpart : part ⊆ rows) {k : κ} {r : ρ} :
    part.find? (fun r => decide (key r = k)) = some r ↔ r ∈ part ∧ key r = k := by
  constructor
  · intro h
    exact ⟨List.mem_of_find?_eq_some h, by simpa using List.find?_some h⟩
  · rintro ⟨hr, rfl⟩
    cases hfind : part.find? fun r' => decide (key r' = key r) with
    | none =>
      have hno := List.find?_eq_none.mp hfind r hr
      simp at hno
    | some r' =>
      have hkey : key r' = key r := by simpa using List.find?_some hfind
      have hr' := List.mem_of_find?_eq_some hfind
      rw [List.inj_on_of_nodup_map hkeys (hpart hr') (hpart hr) hkey]

/-- Looking a key up finds the row under it. -/
theorem find?_key_eq_some_iff (hkeys : (rows.map key).Nodup) {k : κ} {r : ρ} :
    rows.find? (fun r => decide (key r = k)) = some r ↔ r ∈ rows ∧ key r = k :=
  find?_key_eq_some_iff_of_subset hkeys (List.Subset.refl rows)

/-- Looking a key up among the live rows finds the live row under it. -/
theorem filter_find?_key_eq_some_iff (hkeys : (rows.map key).Nodup) {live : ρ → Bool} {k : κ}
    {r : ρ} : (rows.find? fun r => decide (key r = k)).filter live = some r ↔
      r ∈ rows ∧ live r = true ∧ key r = k := by
  rw [Option.filter_eq_some_iff, find?_key_eq_some_iff hkeys]
  constructor
  · rintro ⟨⟨hr, hk⟩, hlive⟩
    exact ⟨hr, hlive, hk⟩
  · rintro ⟨hr, hlive, hk⟩
    exact ⟨⟨hr, hk⟩, hlive⟩

/-- The live rows under some keys are what the lookups of these keys give, in some order. -/
theorem filter_mem_perm_filterMap (hkeys : (rows.map key).Nodup) (live : ρ → Bool)
    {ks ks' : List κ} (hnodup : ks'.Nodup) (hsame : ∀ k, k ∈ ks ↔ k ∈ ks') :
    (rows.filter fun r => live r && decide (key r ∈ ks)).Perm
      (ks'.filterMap fun k => (rows.find? fun r => decide (key r = k)).filter live) := by
  refine (List.perm_ext_iff_of_nodup (List.Nodup.filter _ (List.Nodup.of_map key hkeys)) ?_).mpr
    fun r => ?_
  · refine List.Nodup.filterMap (fun k k' r hr hr' => ?_) hnodup
    rw [← ((filter_find?_key_eq_some_iff hkeys).mp hr).2.2]
    exact ((filter_find?_key_eq_some_iff hkeys).mp hr').2.2
  · simp only [List.mem_filter, List.mem_filterMap, Bool.and_eq_true, decide_eq_true_eq, hsame,
      filter_find?_key_eq_some_iff hkeys]
    constructor
    · rintro ⟨hr, hlive, hk⟩
      exact ⟨key r, hk, hr, hlive, rfl⟩
    · rintro ⟨k, hk, hr, hlive, rfl⟩
      exact ⟨hr, hlive, hk⟩

/-- Looking up one of the selected keys finds the live row under it. -/
theorem find?_filter_mem (hkeys : (rows.map key).Nodup) (live : ρ → Bool) {ks : List κ} {k : κ}
    (hk : k ∈ ks) :
    (rows.filter fun r => live r && decide (key r ∈ ks)).find? (fun r => decide (key r = k)) =
      (rows.find? fun r => decide (key r = k)).filter live := by
  refine Option.ext fun r => ?_
  rw [find?_key_eq_some_iff_of_subset hkeys (List.filter_subset_self _),
    filter_find?_key_eq_some_iff hkeys, List.mem_filter, Bool.and_eq_true, decide_eq_true_eq]
  constructor
  · rintro ⟨⟨hr, hlive, -⟩, rfl⟩
    exact ⟨hr, hlive, rfl⟩
  · rintro ⟨hr, hlive, rfl⟩
    exact ⟨⟨hr, hlive, hk⟩, rfl⟩

/-- Looking up one of the keys among the rows that were found for them. -/
theorem find?_filterMap_lookup {lookup : κ → Option ρ}
    (hlookup : ∀ k r, lookup k = some r → key r = k) {ks : List κ} {k : κ} (hk : k ∈ ks) :
    (ks.filterMap lookup).find? (fun r => decide (key r = k)) = lookup k := by
  induction ks with
  | nil => cases hk
  | cons k' ks ih =>
    by_cases heq : k = k'
    · subst heq
      cases hfound : lookup k with
      | some r =>
        rw [List.filterMap_cons_some hfound, List.find?_cons_of_pos]
        exact decide_eq_true (hlookup k r hfound)
      | none =>
        rw [List.filterMap_cons_none hfound, List.find?_eq_none]
        intro r hr hkey
        obtain ⟨k', -, hr⟩ := List.mem_filterMap.mp hr
        rw [← of_decide_eq_true hkey, hlookup k' r hr, hr] at hfound
        cases hfound
    · have hrest := ih ((List.mem_cons.mp hk).resolve_left heq)
      cases hfound : lookup k' with
      | some r =>
        rw [List.filterMap_cons_some hfound, List.find?_cons_of_neg, hrest]
        rw [decide_eq_true_eq, hlookup k' r hfound]
        exact fun h => heq h.symm
      | none => rw [List.filterMap_cons_none hfound, hrest]

omit [DecidableEq κ] in
/-- The keys of the rows that were found, when none is missing. -/
theorem map_key_filterMap_lookup {lookup : κ → Option ρ}
    (hlookup : ∀ k r, lookup k = some r → key r = k) {ks : List κ}
    (hall : ∀ k ∈ ks, (lookup k).isSome) : (ks.filterMap lookup).map key = ks := by
  induction ks with
  | nil => rfl
  | cons k ks ih =>
    obtain ⟨hk, hrest⟩ := List.forall_mem_cons.mp hall
    obtain ⟨r, hr⟩ := Option.isSome_iff_exists.mp hk
    rw [List.filterMap_cons_some hr, List.map_cons, hlookup k r hr, ih hrest]

/-- A selection by distinct keys is complete when each key has a live row. -/
theorem length_filter_mem_eq_iff (hkeys : (rows.map key).Nodup) (live : ρ → Bool) {ks : List κ}
    (hnodup : ks.Nodup) :
    (rows.filter fun r => live r && decide (key r ∈ ks)).length = ks.length ↔
      ∀ k ∈ ks, ((rows.find? fun r => decide (key r = k)).filter live).isSome := by
  rw [(filter_mem_perm_filterMap hkeys live hnodup fun _ => Iff.rfl).length_eq]
  exact List.filterMap_length_eq_length

omit [DecidableEq κ] in
/-- A loop of lookups that raises on a missing key succeeds when no key is missing, with what
the lookups give. -/
theorem mapM_lookup_eq_ok {f : κ → Option β} {lookup : κ → Except ε β}
    (hsome : ∀ k b, f k = some b → lookup k = .ok b)
    (hnone : ∀ k, f k = none → ∃ e, lookup k = .error e) {ks : List κ} {found : List β} :
    ks.mapM lookup = .ok found ↔ (∀ k ∈ ks, (f k).isSome) ∧ found = ks.filterMap f := by
  induction ks generalizing found with
  | nil =>
    rw [List.mapM_nil, pure_eq_ok]
    exact ⟨fun h => ⟨by simp, h.symm⟩, fun h => h.2.symm⟩
  | cons k ks ih =>
    rw [List.mapM_cons, bind_eq_ok]
    cases hk : f k with
    | none =>
      obtain ⟨e, he⟩ := hnone k hk
      simp [hk, he]
    | some b =>
      simp only [bind_eq_ok, ih, pure_eq_ok, List.forall_mem_cons, hk, Option.isSome_some,
        true_and, List.filterMap_cons_some hk, hsome k b hk]
      constructor
      · rintro ⟨b', hb, rest, ⟨hall, rfl⟩, rfl⟩
        obtain rfl := Except.ok.inj hb
        exact ⟨hall, rfl⟩
      · rintro ⟨hall, rfl⟩
        exact ⟨b, rfl, _, ⟨hall, rfl⟩, rfl⟩

end Maeglagi.Core
