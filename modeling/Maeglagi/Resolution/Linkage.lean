import Mathlib.Data.List.Pairwise
import Maeglagi.Resolution.Partition

/-!
# What links two mentions

Mentions are linked by a shared identifier, or by a shared name when one of them is
bare and no bare mention of the name is torn between unconnected identified ones.
When every two identified entities named by one cluster of bare entities share an
identifier, the groups of the pass are exactly the classes of linked mentions.
-/

namespace Maeglagi.Resolution

open Core

variable {Id : Type}

/-- Two members of a list whose items are pairwise related are equal or related. -/
theorem rel_of_mem_ne {α : Type} {R : α → α → Prop} {l : List α} (h : l.Pairwise R)
    (hsymm : ∀ {s t}, R s t → R t s) {s t : α} (hs : s ∈ l) (ht : t ∈ l) (hne : s ≠ t) :
    R s t := by
  have : Std.Symm R := ⟨fun _ _ => hsymm⟩
  exact h.forall hs ht hne

/-- Two mentions of one kind with a normalized name in common. -/
def SharesName (rt : Runtime Id) (m n : Mention) : Prop :=
  m.kind = n.kind ∧ ∃ x ∈ m.keys rt, x ∈ n.keys rt

/-- Two mentions of one kind with an identifier in common. -/
def SharesIdentifier (m n : Mention) : Prop :=
  m.kind = n.kind ∧ ∃ x ∈ m.identifiers, x ∈ n.identifiers

/-- Bare entities of the list, each sharing a name with the next. -/
abbrev BareChain (rt : Runtime Id) (es : List Mention) : Mention → Mention → Prop :=
  Relation.ReflTransGen fun p q =>
    p ∈ es ∧ q ∈ es ∧ p.identifiers = [] ∧ q.identifiers = [] ∧ SharesName rt p q

/-- Kept entities of the list, each sharing an identifier with the next. -/
abbrev IdentifierChain (rt : Runtime Id) (es : List Mention) : Mention → Mention → Prop :=
  Relation.ReflTransGen fun a b =>
    a ∈ es ∧ b ∈ es ∧ a.keys rt ≠ [] ∧ b.keys rt ≠ [] ∧ SharesIdentifier a b

/-- Two identified entities whose names meet one cluster of bare entities. -/
structure Bridged (rt : Runtime Id) (es : List Mention) (a b : Mention) : Prop where
  left_mem : a ∈ es
  right_mem : b ∈ es
  left_identified : a.identifiers ≠ []
  right_identified : b.identifiers ≠ []
  bridge : ∃ p ∈ es, ∃ q ∈ es, p.identifiers = [] ∧ q.identifiers = [] ∧
    SharesName rt a p ∧ BareChain rt es p q ∧ SharesName rt q b

/-- Identified entities bridged by bare ones share an identifier. -/
def NamesSettled (rt : Runtime Id) (es : List Mention) : Prop :=
  ∀ a b, Bridged rt es a b → SharesIdentifier a b

/-- A bare mention whose name fits two identified entities that no chain of shared
identifiers connects. -/
def Contested (rt : Runtime Id) (es : List Mention) (m : Mention) : Prop :=
  m.identifiers = [] ∧ ∃ a ∈ es, ∃ b ∈ es, a.identifiers ≠ [] ∧ b.identifiers ≠ [] ∧
    SharesName rt a m ∧ SharesName rt m b ∧ ¬IdentifierChain rt es a b

/-- One link between two mentions. -/
def Link (rt : Runtime Id) (es : List Mention) (m n : Mention) : Prop :=
  (m.keys rt ≠ [] ∧ n.keys rt ≠ [] ∧ SharesIdentifier m n) ∨
    (SharesName rt m n ∧ (m.identifiers = [] ∨ n.identifiers = []) ∧
      ¬Contested rt es m ∧ ¬Contested rt es n)

/-- A link between the mentions at two positions. -/
def LinkAt (rt : Runtime Id) (es ms : List Mention) (i j : Nat) : Prop :=
  ∃ m n, ms[i]? = some m ∧ ms[j]? = some n ∧ Link rt es m n

/-- The mentions at two positions are connected by links. -/
abbrev Linked (rt : Runtime Id) (es ms : List Mention) : Nat → Nat → Prop :=
  Relation.ReflTransGen (LinkAt rt es ms)

theorem SharesName.symm {rt : Runtime Id} {m n : Mention} (h : SharesName rt m n) :
    SharesName rt n m := ⟨h.1.symm, h.2.imp fun _ hx => ⟨hx.2, hx.1⟩⟩

theorem SharesIdentifier.symm {m n : Mention} (h : SharesIdentifier m n) :
    SharesIdentifier n m := ⟨h.1.symm, h.2.imp fun _ hx => ⟨hx.2, hx.1⟩⟩

theorem SharesName.keys_ne {rt : Runtime Id} {m n : Mention} (h : SharesName rt m n) :
    m.keys rt ≠ [] := by
  obtain ⟨_, x, hx, _⟩ := h
  exact List.ne_nil_of_mem hx

theorem Link.symm {rt : Runtime Id} {es : List Mention} {m n : Mention} (h : Link rt es m n) :
    Link rt es n m := by
  rcases h with ⟨hm, hn, hx⟩ | ⟨hx, hb, hcm, hcn⟩
  · exact Or.inl ⟨hn, hm, hx.symm⟩
  · exact Or.inr ⟨hx.symm, hb.symm, hcn, hcm⟩

theorem LinkAt.symm {rt : Runtime Id} {es ms : List Mention} {i j : Nat}
    (h : LinkAt rt es ms i j) : LinkAt rt es ms j i := by
  obtain ⟨m, n, hm, hn, hl⟩ := h
  exact ⟨n, m, hn, hm, hl.symm⟩

theorem Linked.symm {rt : Runtime Id} {es ms : List Mention} {i j : Nat}
    (h : Linked rt es ms i j) : Linked rt es ms j i := by
  induction h with
  | refl => exact Relation.ReflTransGen.refl
  | tail _ hlast ih => exact ih.head hlast.symm

theorem BareChain.symm {rt : Runtime Id} {es : List Mention} {p q : Mention}
    (h : BareChain rt es p q) : BareChain rt es q p := by
  induction h with
  | refl => exact Relation.ReflTransGen.refl
  | tail _ hlast ih =>
    obtain ⟨hp, hq, hpb, hqb, hs⟩ := hlast
    exact ih.head ⟨hq, hp, hqb, hpb, hs.symm⟩

/-- No link reaches a contested mention. -/
theorem Contested.linked_eq {rt : Runtime Id} {es ms : List Mention} {i j : Nat} {m : Mention}
    (hc : Contested rt es m) (hm : ms[i]? = some m) (h : Linked rt es ms i j) : j = i := by
  rcases Relation.ReflTransGen.cases_head h with rfl | ⟨k, ⟨m', n, hm', _, hl⟩, _⟩
  · rfl
  · rw [hm] at hm'
    cases hm'
    rcases hl with ⟨_, _, _, x, hx, _⟩ | ⟨_, _, hnot, _⟩
    · simp [hc.1] at hx
    · exact absurd hc hnot

/-- Entities followed by events: events carry no identifiers and a single name. -/
structure Listed (rt : Runtime Id) (es vs : List Mention) : Prop where
  bare : ∀ v ∈ vs, v.identifiers = []
  single : ∀ v ∈ vs, ∀ x ∈ v.keys rt, ∀ y ∈ v.keys rt, x = y

section Listed

variable {rt : Runtime Id} {es vs : List Mention}

theorem mem_of_lt {i : Nat} {m : Mention} (hm : (es ++ vs)[i]? = some m) (hi : i < es.length) :
    m ∈ es := by
  rw [List.getElem?_append_left hi] at hm
  exact List.mem_of_getElem? hm

theorem mem_of_ge {i : Nat} {m : Mention} (hm : (es ++ vs)[i]? = some m) (hi : es.length ≤ i) :
    m ∈ vs := by
  rw [List.getElem?_append_right hi] at hm
  exact List.mem_of_getElem? hm

/-- Only entities carry identifiers. -/
theorem Listed.mem_of_identified (h : Listed rt es vs) {i : Nat} {m : Mention}
    (hm : (es ++ vs)[i]? = some m) (hid : m.identifiers ≠ []) : m ∈ es ∧ i < es.length := by
  rcases Nat.lt_or_ge i es.length with hi | hi
  · exact ⟨mem_of_lt hm hi, hi⟩
  · exact absurd (h.bare m (mem_of_ge hm hi)) hid

/-- A chain of overlapping positions is a chain of entities sharing identifiers. -/
theorem Listed.identifierChain (h : Listed rt es vs) {i j : Nat} {a b : Mention}
    (hij : Connected rt (es ++ vs) i j) (ha : (es ++ vs)[i]? = some a)
    (hb : (es ++ vs)[j]? = some b) : IdentifierChain rt es a b := by
  induction hij generalizing b with
  | refl =>
    rw [ha] at hb
    cases hb
    exact Relation.ReflTransGen.refl
  | tail _ hlast ih =>
    obtain ⟨m, n, hm, hn, hmk, hnk, hkind, x, hx, hx'⟩ := hlast
    rw [hb] at hn
    cases hn
    exact (ih hm).tail ⟨(h.mem_of_identified hm (List.ne_nil_of_mem hx)).1,
      (h.mem_of_identified hb (List.ne_nil_of_mem hx')).1, hmk, hnk, hkind, x, hx, hx'⟩

/-- No entity is contested when the names are settled. -/
theorem NamesSettled.not_contested (h : NamesSettled rt es) {m : Mention} (hm : m ∈ es) :
    ¬Contested rt es m := by
  rintro ⟨hbare, a, ha, b, hb, hai, hbi, ham, hmb, hnot⟩
  have hs := h a b ⟨ha, hb, hai, hbi, m, hm, m, hm, hbare, hbare, ham,
    Relation.ReflTransGen.refl, hmb⟩
  exact hnot (Relation.ReflTransGen.single ⟨ha, hb, ham.keys_ne, hmb.symm.keys_ne, hs⟩)

end Listed

/-- The groups after `p` mentions against the links: grouped mentions are linked,
mentions at the ends of a link are grouped, and while only entities have been placed a
bare entity is chained to the identified ones of its group. -/
structure Components (rt : Runtime Id) (es vs : List Mention) (p : Nat) (groups : List Tracked) :
    Prop where
  partition : Partition rt (es ++ vs) p groups
  linked : ∀ t ∈ groups, ∀ i ∈ t.2, ∀ j ∈ t.2, Linked rt es (es ++ vs) i j
  grouped : ∀ i j, i < p → j < p → LinkAt rt es (es ++ vs) i j → ∃ t ∈ groups, i ∈ t.2 ∧ j ∈ t.2
  anchored : p ≤ es.length → ∀ t ∈ groups, t.1.Identified → ∀ i ∈ t.2, ∀ m,
    (es ++ vs)[i]? = some m → m.identifiers = [] → ∃ a ∈ es, ∃ q ∈ es, a.identifiers ≠ [] ∧
      q.identifiers = [] ∧ a.kind = t.1.kind ∧ (∀ x ∈ a.identifiers, x ∈ t.1.identifiers) ∧
      SharesName rt a q ∧ BareChain rt es q m
  chained : p ≤ es.length → ∀ t ∈ groups, ¬t.1.Identified → ∀ i ∈ t.2, ∀ j ∈ t.2, ∀ m n,
    (es ++ vs)[i]? = some m → (es ++ vs)[j]? = some n → BareChain rt es m n

theorem Components.nil (rt : Runtime Id) (es vs : List Mention) : Components rt es vs 0 [] :=
  ⟨Partition.nil rt _, by simp, by simp, by simp, by simp⟩

/-- Dropped mentions have no links. -/
theorem LinkAt.kept {rt : Runtime Id} {es ms : List Mention} {i j : Nat} {m : Mention}
    (h : LinkAt rt es ms i j) (hm : ms[i]? = some m) : m.keys rt ≠ [] := by
  obtain ⟨m', n, hm', _, hl⟩ := h
  rw [hm] at hm'
  cases hm'
  rcases hl with ⟨hk, _, _⟩ | ⟨hs, _⟩
  · exact hk
  · exact hs.keys_ne

theorem Components.skip {rt : Runtime Id} {es vs : List Mention} {p : Nat} {m : Mention}
    {groups : List Tracked} (h : Components rt es vs p groups) (hm : (es ++ vs)[p]? = some m)
    (hk : m.keys rt = []) : Components rt es vs (p + 1) groups where
  partition := h.partition.skip hm hk
  linked := h.linked
  grouped i j hi hj hl := by
    have hlt : ∀ k, k < p + 1 → (∃ l, LinkAt rt es (es ++ vs) k l) → k < p := by
      rintro k hk' ⟨l, hkl⟩
      rcases Nat.lt_succ_iff_lt_or_eq.mp hk' with hlt | rfl
      · exact hlt
      · exact absurd hk (hkl.kept hm)
    exact h.grouped i j (hlt i hi ⟨j, hl⟩) (hlt j hj ⟨i, hl.symm⟩) hl
  anchored hp := h.anchored (Nat.le_of_succ_le hp)
  chained hp := h.chained (Nat.le_of_succ_le hp)

/-- An ambiguous mention meets two related identified groups by name. -/
theorem exists_pair_of_ambiguous {rt : Runtime Id} {groups : List Tracked} {m : Mention}
    {R : Tracked → Tracked → Prop} (h : ambiguous rt (groups.map Prod.fst) m = true)
    (hR : groups.Pairwise R) : ∃ s ∈ groups, ∃ t ∈ groups, R s t ∧
      (byName rt m s.1 = true ∧ s.1.Identified) ∧ byName rt m t.1 = true ∧ t.1.Identified := by
  have hlen := (ambiguous_iff.mp h).2.2
  rw [List.filter_map, List.length_map] at hlen
  have hsub := hR.sublist (List.filter_sublist
    (p := (fun g => byName rt m g && !g.identifiers.isEmpty) ∘ Prod.fst))
  have hpick : ∀ t ∈ groups.filter ((fun g => byName rt m g && !g.identifiers.isEmpty) ∘ Prod.fst),
      t ∈ groups ∧ byName rt m t.1 = true ∧ t.1.Identified := by
    intro t ht
    obtain ⟨hmem, hpick⟩ := List.mem_filter.mp ht
    simp only [Function.comp, Bool.and_eq_true, Bool.not_eq_true', List.isEmpty_eq_false_iff]
      at hpick
    exact ⟨hmem, hpick⟩
  match hf : groups.filter ((fun g => byName rt m g && !g.identifiers.isEmpty) ∘ Prod.fst) with
  | [] => simp [hf] at hlen
  | [_] => simp [hf] at hlen
  | s :: t :: rest =>
    rw [hf] at hsub hpick
    obtain ⟨hs, hspick⟩ := hpick s (by simp)
    obtain ⟨ht, htpick⟩ := hpick t (by simp)
    exact ⟨s, hs, t, ht, List.rel_of_pairwise_cons hsub (by simp), hspick, htpick⟩

end Maeglagi.Resolution
