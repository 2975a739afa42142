import Maeglagi.Resolution.Grouping

/-!
# What placing one mention does

One statement says everything a turn of the grouping pass can do to the groups, and
one induction principle carries a property of the groups along the whole pass.
-/

namespace Maeglagi.Resolution

open Core

variable {Id : Type}

/-- A group that some identified mention belongs to. -/
def Group.Identified (g : Group) : Prop := g.identifiers ≠ []

instance (g : Group) : Decidable g.Identified := inferInstanceAs (Decidable (_ ≠ _))

/-- The effect of placing a mention at a position: the joined groups become one new
group together with the mention, and the kept groups stay as they were. -/
structure Placed (rt : Runtime Id) (m : Mention) (start : Nat)
    (groups next joined kept : List Tracked) (new : Tracked) : Prop where
  before : groups.Perm (joined ++ kept)
  after : next.Perm (new :: kept)
  kind : new.1.kind = m.kind
  positions : ∀ i, i ∈ new.2 ↔ i = start ∨ ∃ t ∈ joined, i ∈ t.2
  identifiers : ∀ x, x ∈ new.1.identifiers ↔
    x ∈ m.identifiers ∨ ∃ t ∈ joined, x ∈ t.1.identifiers
  keys : ∀ x, x ∈ new.1.keys ↔ x ∈ m.keys rt ∨ ∃ t ∈ joined, x ∈ t.1.keys
  names : ∀ x, x ∈ new.1.names ↔ x ∈ m.name :: m.aliases ∨ ∃ t ∈ joined, x ∈ t.1.names
  joined_kind : ∀ t ∈ joined, t.1.kind = m.kind
  joined_by : ∀ t ∈ joined, (∃ x ∈ t.1.identifiers, x ∈ m.identifiers) ∨
    ((∃ x ∈ t.1.keys, x ∈ m.keys rt) ∧ (m.identifiers = [] ∨ t.1.identifiers = []))
  joined_identified : m.identifiers = [] →
    ∀ s ∈ joined, ∀ t ∈ joined, s.1.Identified → t.1.Identified → s = t
  kept_identifiers : ∀ t ∈ kept, t.1.kind = m.kind → ∀ x ∈ t.1.identifiers, x ∉ m.identifiers
  kept_names : ambiguous rt (groups.map Prod.fst) m = false →
    ∀ t ∈ kept, t.1.kind = m.kind → (∃ x ∈ t.1.keys, x ∈ m.keys rt) →
      m.identifiers ≠ [] ∧ t.1.Identified
  joined_ambiguous : ambiguous rt (groups.map Prod.fst) m = true → joined = []

theorem byIdentifier_iff {m : Mention} {g : Group} : byIdentifier m g = true ↔
    g.kind = m.kind ∧ ∃ x ∈ g.identifiers, x ∈ m.identifiers := by
  simp [byIdentifier]

theorem byName_iff {rt : Runtime Id} {m : Mention} {g : Group} : byName rt m g = true ↔
    g.kind = m.kind ∧ (∃ x ∈ g.keys, x ∈ m.keys rt) ∧ byIdentifier m g = false ∧
      (m.identifiers = [] ∨ g.identifiers = []) := by
  simp [byName, and_assoc]

/-- Absorbed groups contribute everything they know. -/
private theorem foldl_absorb (rest : List Tracked) (t : Tracked) :
    let merged := rest.foldl (fun (self other : Tracked) =>
      (self.1.absorb other.1, self.2 ++ other.2)) t
    merged.1.kind = t.1.kind ∧
      (∀ i, i ∈ merged.2 ↔ ∃ s ∈ t :: rest, i ∈ s.2) ∧
      (∀ x, x ∈ merged.1.identifiers ↔ ∃ s ∈ t :: rest, x ∈ s.1.identifiers) ∧
      (∀ x, x ∈ merged.1.keys ↔ ∃ s ∈ t :: rest, x ∈ s.1.keys) ∧
      ∀ x, x ∈ merged.1.names ↔ ∃ s ∈ t :: rest, x ∈ s.1.names := by
  induction rest generalizing t with
  | nil => simp
  | cons s rest ih =>
    obtain ⟨hkind, hpos, hids, hkeys, hnames⟩ := ih (t.1.absorb s.1, t.2 ++ s.2)
    refine ⟨hkind, fun i => ?_, fun x => ?_, fun x => ?_, fun x => ?_⟩
    · rw [List.foldl_cons, hpos]
      simp [or_assoc]
    · rw [List.foldl_cons, hids]
      simp [Group.absorb, List.mem_union_iff, or_assoc]
    · rw [List.foldl_cons, hkeys]
      simp [Group.absorb, List.mem_union_iff, or_assoc]
    · rw [List.foldl_cons, hnames]
      simp [Group.absorb, or_assoc]

/-- A leading group shares an identifier, or a name outside the homonym rule. -/
theorem leads_iff {rt : Runtime Id} {groups : List Group} {m : Mention} {g : Group} :
    leads rt groups m g = true ↔
      (groups.any (byIdentifier m) = true ∧ byIdentifier m g = true) ∨
      (groups.any (byIdentifier m) = false ∧ ambiguous rt groups m = false ∧
        byName rt m g = true) := by
  unfold leads
  cases groups.any (byIdentifier m) <;> cases ambiguous rt groups m <;> simp

theorem follows_iff {rt : Runtime Id} {groups : List Group} {m : Mention} {g : Group} :
    follows rt groups m g = true ↔
      groups.any (byIdentifier m) = true ∧ byName rt m g = true ∧ g.identifiers = [] := by
  simp [follows, and_assoc]

/-- An ambiguous mention has no identifiers and no group by identifier. -/
theorem ambiguous_iff {rt : Runtime Id} {groups : List Group} {m : Mention} :
    ambiguous rt groups m = true ↔
      groups.any (byIdentifier m) = false ∧ m.identifiers = [] ∧
        1 < (groups.filter fun g => byName rt m g && !g.identifiers.isEmpty).length := by
  simp [ambiguous, and_assoc]

/-- A bare mention that meets two identified groups by name is ambiguous. -/
theorem ambiguous_of_pair {rt : Runtime Id} {groups : List Tracked} {m : Mention}
    (hbare : m.identifiers = []) {s t : Tracked} (hs : s ∈ groups) (ht : t ∈ groups) (hst : s ≠ t)
    (hsn : byName rt m s.1 = true) (hsi : s.1.Identified) (htn : byName rt m t.1 = true)
    (hti : t.1.Identified) : ambiguous rt (groups.map Prod.fst) m = true := by
  refine ambiguous_iff.mpr ⟨?_, hbare, ?_⟩
  · simp [List.any_eq_false, byIdentifier, hbare, meets]
  · rw [List.filter_map, List.length_map]
    have hmem : ∀ u ∈ groups, byName rt m u.1 = true → u.1.Identified →
        u ∈ groups.filter ((fun g => byName rt m g && !g.identifiers.isEmpty) ∘ Prod.fst) := by
      intro u hu hn hi
      have hne : u.1.identifiers ≠ [] := hi
      exact List.mem_filter.mpr ⟨hu, by simp [hn, hne]⟩
    have hs' := hmem s hs hsn hsi
    have ht' := hmem t ht htn hti
    cases hf : groups.filter ((fun g => byName rt m g && !g.identifiers.isEmpty) ∘ Prod.fst) with
    | nil => simp [hf] at hs'
    | cons u rest =>
      cases rest with
      | nil =>
        rw [hf, List.mem_singleton] at hs' ht'
        exact absurd (hs'.trans ht'.symm) hst
      | cons _ _ => simp

/-- A bare mention that is not ambiguous meets at most one identified group by name. -/
private theorem identified_unique {rt : Runtime Id} {m : Mention} {joined kept : List Tracked}
    {groups : List Tracked} (hp : groups.Perm (joined ++ kept)) (hbare : m.identifiers = [])
    (hamb : ambiguous rt (groups.map Prod.fst) m = false)
    (hjoined : ∀ t ∈ joined, byName rt m t.1 = true) {s t : Tracked} (hs : s ∈ joined)
    (ht : t ∈ joined) (hsi : s.1.Identified) (hti : t.1.Identified) : s = t := by
  have hmem : ∀ u ∈ joined, u ∈ groups := fun u hu =>
    hp.mem_iff.mpr (List.mem_append_left _ hu)
  by_contra hst
  rw [ambiguous_of_pair hbare (hmem s hs) (hmem t ht) hst (hjoined s hs) hsi (hjoined t ht) hti]
    at hamb
  cases hamb

/-- What placing one mention does to the tracked groups. -/
theorem placeTracked_placed (rt : Runtime Id) (groups : List Tracked) (m : Mention)
    (start : Nat) : ∃ joined kept new,
      Placed rt m start groups (placeTracked rt groups m start) joined kept new := by
  obtain ⟨joined, kept, new, hbefore, hafter, hitem⟩ := gather_gathered
    (leads rt (groups.map Prod.fst) m ∘ Prod.fst) (follows rt (groups.map Prod.fst) m ∘ Prod.fst)
    (fun (self other : Tracked) => (self.1.absorb other.1, self.2 ++ other.2))
    (fun group => (group.1.add rt m, group.2 ++ [start]))
    ((Group.new m.kind).add rt m, [start]) groups
  have hmemGroups : ∀ t, t ∈ groups ↔ t ∈ joined ∨ t ∈ kept := fun t => by
    rw [hbefore.mem_iff, List.mem_append]
  have hany : ∀ t ∈ groups, byIdentifier m t.1 = true →
      (groups.map Prod.fst).any (byIdentifier m) = true := fun t ht hid =>
    List.any_eq_true.mpr ⟨t.1, List.mem_map_of_mem ht, hid⟩
  rcases hitem with ⟨rfl, rfl, hnone⟩ | ⟨t, rest, rfl, rfl, ⟨y, hy, hylead⟩, hjoined, hkept⟩
  · have hnone' : ∀ s ∈ groups, leads rt (groups.map Prod.fst) m s.1 = false := hnone
    have hnoid : (groups.map Prod.fst).any (byIdentifier m) = false := by
      rw [List.any_eq_false]
      rintro _ hg hid
      obtain ⟨s, hs, rfl⟩ := List.mem_map.mp hg
      have := hnone' s hs
      rw [leads_iff.mpr (Or.inl ⟨hany s hs hid, hid⟩)] at this
      cases this
    refine ⟨[], kept, _, hbefore, hafter, rfl, ?_, ?_, ?_, ?_, by simp, by simp, by simp, ?_, ?_,
      fun _ => rfl⟩
    · simp
    · simp [Group.add, Group.new]
    · simp [Group.add, Group.new]
    · simp [Group.add, Group.new]
    · intro s hs hk x hx hxm
      have hid : byIdentifier m s.1 = true := byIdentifier_iff.mpr ⟨hk, x, hx, hxm⟩
      have := hany s ((hmemGroups s).mpr (Or.inr hs)) hid
      rw [hnoid] at this
      cases this
    · intro hamb s hs hk hkeys
      have hsg := (hmemGroups s).mpr (Or.inr hs)
      have hid : byIdentifier m s.1 = false := by
        by_contra hid
        have := hany s hsg (by simpa using hid)
        rw [hnoid] at this
        cases this
      by_contra hcon
      have hname : byName rt m s.1 = true := by
        refine byName_iff.mpr ⟨hk, hkeys, hid, ?_⟩
        simpa [Group.Identified, imp_iff_not_or] using hcon
      have := hnone' s hsg
      rw [leads_iff.mpr (Or.inr ⟨hnoid, hamb, hname⟩)] at this
      cases this
  · obtain ⟨hkind, hpos, hids, hkeys, hnames⟩ := foldl_absorb rest t
    have hjoined' : ∀ s ∈ t :: rest, byIdentifier m s.1 = true ∨ byName rt m s.1 = true := by
      intro s hs
      rcases hjoined s hs with h | h
      · rcases leads_iff.mp h with ⟨_, h⟩ | ⟨_, _, h⟩
        · exact Or.inl h
        · exact Or.inr h
      · exact Or.inr (follows_iff.mp h).2.1
    have hjkind : ∀ s ∈ t :: rest, s.1.kind = m.kind := by
      intro s hs
      rcases hjoined' s hs with h | h
      · exact (byIdentifier_iff.mp h).1
      · exact (byName_iff.mp h).1
    have hnotamb : ambiguous rt (groups.map Prod.fst) m = true → False := by
      intro hamb
      rcases leads_iff.mp hylead with ⟨h, _⟩ | ⟨_, h, _⟩
      · rw [(ambiguous_iff.mp hamb).1] at h
        cases h
      · rw [hamb] at h
        cases h
    refine ⟨t :: rest, kept, _, hbefore, hafter, ?_, fun i => ?_, fun x => ?_, fun x => ?_,
      fun x => ?_, hjkind, ?_, ?_, ?_, ?_, fun hamb => (hnotamb hamb).elim⟩
    · exact hkind.trans (hjkind t (List.mem_cons_self ..))
    · rw [List.mem_append, List.mem_singleton, hpos, or_comm]
    · simp only [Group.add, List.mem_union_iff]
      rw [hids, or_comm]
    · simp only [Group.add, List.mem_union_iff]
      rw [hkeys, or_comm]
    · simp only [Group.add, List.mem_append]
      rw [hnames, or_comm]
    · intro s hs
      rcases hjoined' s hs with h | h
      · exact Or.inl (byIdentifier_iff.mp h).2
      · obtain ⟨_, hk, _, hb⟩ := byName_iff.mp h
        exact Or.inr ⟨hk, hb⟩
    · intro hbare s hs u hu
      have hname : ∀ v ∈ t :: rest, byName rt m v.1 = true := by
        intro v hv
        rcases hjoined' v hv with h | h
        · obtain ⟨_, x, _, hx⟩ := byIdentifier_iff.mp h
          simp [hbare] at hx
        · exact h
      have hamb : ambiguous rt (groups.map Prod.fst) m = false := by
        simpa using hnotamb
      exact identified_unique hbefore hbare hamb hname hs hu
    · intro s hs hk x hx hxm
      have hid : byIdentifier m s.1 = true := byIdentifier_iff.mpr ⟨hk, x, hx, hxm⟩
      have hlead : leads rt (groups.map Prod.fst) m s.1 = true :=
        leads_iff.mpr (Or.inl ⟨hany s ((hmemGroups s).mpr (Or.inr hs)) hid, hid⟩)
      have hnot : leads rt (groups.map Prod.fst) m s.1 = false := (hkept s hs).1
      rw [hlead] at hnot
      cases hnot
    · intro hamb s hs hk hkeys
      have hnl : leads rt (groups.map Prod.fst) m s.1 = false := (hkept s hs).1
      have hnf : follows rt (groups.map Prod.fst) m s.1 = false := (hkept s hs).2
      by_contra hcon
      have hor : m.identifiers = [] ∨ s.1.identifiers = [] := by
        simpa [Group.Identified, imp_iff_not_or] using hcon
      cases hai : (groups.map Prod.fst).any (byIdentifier m) with
      | true =>
        have hid : byIdentifier m s.1 = false := by
          by_contra hid
          rw [leads_iff.mpr (Or.inl ⟨hai, by simpa using hid⟩)] at hnl
          cases hnl
        have hname : byName rt m s.1 = true := byName_iff.mpr ⟨hk, hkeys, hid, hor⟩
        rcases hor with hbare | hbare
        · obtain ⟨g, _, hg⟩ := List.any_eq_true.mp hai
          obtain ⟨_, x, _, hx⟩ := byIdentifier_iff.mp hg
          simp [hbare] at hx
        · rw [follows_iff.mpr ⟨hai, hname, hbare⟩] at hnf
          cases hnf
      | false =>
        have hid : byIdentifier m s.1 = false := by
          by_contra hid
          rw [hany s ((hmemGroups s).mpr (Or.inr hs)) (by simpa using hid)] at hai
          cases hai
        rw [leads_iff.mpr (Or.inr ⟨hai, hamb, byName_iff.mpr ⟨hk, hkeys, hid, hor⟩⟩)] at hnl
        cases hnl

/-- A property of position and groups that every turn keeps holds after the pass. -/
theorem track_induct {rt : Runtime Id} {ms : List Mention} {P : Nat → List Tracked → Prop}
    (nil : P 0 [])
    (skip : ∀ n m groups, ms[n]? = some m → m.keys rt = [] → P n groups → P (n + 1) groups)
    (place : ∀ n m groups next joined kept new, ms[n]? = some m → m.keys rt ≠ [] →
      Placed rt m n groups next joined kept new → P n groups → P (n + 1) next) :
    P ms.length (track rt ms) := by
  have run : ∀ (todo : List Mention) (n : Nat) (groups : List Tracked), ms.drop n = todo →
      n + todo.length = ms.length → P n groups → P ms.length (trackFrom rt n groups todo) := by
    intro todo
    induction todo with
    | nil =>
      intro n groups _ hlen h
      rw [List.length_nil, Nat.add_zero] at hlen
      exact hlen ▸ h
    | cons m todo ih =>
      intro n groups hdrop hlen h
      have hm : ms[n]? = some m := by
        rw [← List.head?_drop, hdrop, List.head?_cons]
      have hdrop' : ms.drop (n + 1) = todo := by
        rw [← List.tail_drop, hdrop, List.tail_cons]
      have hlen' : n + 1 + todo.length = ms.length := by
        rw [List.length_cons] at hlen
        omega
      rw [trackFrom]
      split
      · next hk => exact ih (n + 1) groups hdrop' hlen' (skip n m groups hm hk h)
      · next hk =>
        obtain ⟨joined, kept, new, hp⟩ := placeTracked_placed rt groups m n
        exact ih (n + 1) _ hdrop' hlen' (place n m groups _ joined kept new hm hk hp h)
  exact run ms 0 [] rfl (Nat.zero_add _) nil

end Maeglagi.Resolution
