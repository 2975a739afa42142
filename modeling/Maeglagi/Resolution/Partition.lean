import Mathlib.Logic.Relation
import Maeglagi.PlainRuntime
import Maeglagi.Resolution.Outcome
import Maeglagi.Resolution.Placement

/-!
# The identity partition of one extraction

The groups hold each kept mention exactly once, their identifiers and keys are
those of their mentions, groups of one kind never share an identifier, and the
identified mentions of a group are connected by shared identifiers.
-/

namespace Maeglagi.Resolution

section

open Core Temporal

variable {Id : Type}

/-- Two kept mentions of one kind that share an identifier. -/
def Overlap (rt : Runtime Id) (ms : List Mention) (i j : Nat) : Prop :=
  ∃ m n, ms[i]? = some m ∧ ms[j]? = some n ∧ m.keys rt ≠ [] ∧ n.keys rt ≠ [] ∧
    m.kind = n.kind ∧ ∃ x ∈ m.identifiers, x ∈ n.identifiers

/-- A chain of kept same-kind mentions, each sharing an identifier with the next. -/
abbrev Connected (rt : Runtime Id) (ms : List Mention) : Nat → Nat → Prop :=
  Relation.ReflTransGen (Overlap rt ms)

theorem Overlap.symm {rt : Runtime Id} {ms : List Mention} {i j : Nat} (h : Overlap rt ms i j) :
    Overlap rt ms j i := by
  obtain ⟨m, n, hm, hn, hmk, hnk, hk, x, hx, hx'⟩ := h
  exact ⟨n, m, hn, hm, hnk, hmk, hk.symm, x, hx', hx⟩

theorem Connected.symm {rt : Runtime Id} {ms : List Mention} {i j : Nat}
    (h : Connected rt ms i j) : Connected rt ms j i := by
  induction h with
  | refl => exact Relation.ReflTransGen.refl
  | tail _ hlast ih => exact ih.head hlast.symm

/-- The mention at the position carries identifiers. -/
def IdentifiedAt (ms : List Mention) (i : Nat) : Prop :=
  ∃ m, ms[i]? = some m ∧ m.identifiers ≠ []

/-- The tracked groups after the first `n` mentions. -/
structure Partition (rt : Runtime Id) (ms : List Mention) (n : Nat) (groups : List Tracked) :
    Prop where
  members : ∀ t ∈ groups, ∀ i ∈ t.2, i < n ∧
    ∃ m, ms[i]? = some m ∧ m.keys rt ≠ [] ∧ m.kind = t.1.kind
  covered : ∀ i m, i < n → ms[i]? = some m → m.keys rt ≠ [] → ∃ t ∈ groups, i ∈ t.2
  positions : groups.Pairwise fun s t => ∀ i ∈ s.2, i ∉ t.2
  identifiers : ∀ t ∈ groups, ∀ x, x ∈ t.1.identifiers ↔
    ∃ i ∈ t.2, ∃ m, ms[i]? = some m ∧ x ∈ m.identifiers
  keys : ∀ t ∈ groups, ∀ x, x ∈ t.1.keys ↔ ∃ i ∈ t.2, ∃ m, ms[i]? = some m ∧ x ∈ m.keys rt
  disjoint : groups.Pairwise fun s t =>
    s.1.kind = t.1.kind → ∀ x ∈ s.1.identifiers, x ∉ t.1.identifiers
  chained : ∀ t ∈ groups, ∀ i ∈ t.2, ∀ j ∈ t.2,
    IdentifiedAt ms i → IdentifiedAt ms j → Connected rt ms i j

theorem Partition.nil (rt : Runtime Id) (ms : List Mention) : Partition rt ms 0 [] :=
  ⟨by simp, by simp, List.Pairwise.nil, by simp, by simp, List.Pairwise.nil, by simp⟩

theorem Partition.skip {rt : Runtime Id} {ms : List Mention} {n : Nat} {m : Mention}
    {groups : List Tracked} (h : Partition rt ms n groups) (hm : ms[n]? = some m)
    (hk : m.keys rt = []) : Partition rt ms (n + 1) groups where
  members t ht i hi := ⟨Nat.lt_succ_of_lt (h.members t ht i hi).1, (h.members t ht i hi).2⟩
  covered i m' hi hm' hk' := by
    rcases Nat.lt_succ_iff_lt_or_eq.mp hi with hi | rfl
    · exact h.covered i m' hi hm' hk'
    · rw [hm] at hm'
      cases hm'
      exact absurd hk hk'
  positions := h.positions
  identifiers := h.identifiers
  keys := h.keys
  disjoint := h.disjoint
  chained := h.chained

section Place

variable {rt : Runtime Id} {ms : List Mention} {n : Nat} {m : Mention}
  {groups next joined kept : List Tracked} {new : Tracked}

/-- A group that holds an identified mention carries identifiers. -/
theorem Partition.identified (h : Partition rt ms n groups) {t : Tracked} (ht : t ∈ groups)
    {i : Nat} (hi : i ∈ t.2) (hid : IdentifiedAt ms i) : t.1.Identified := by
  obtain ⟨m, hm, hne⟩ := hid
  obtain ⟨x, hx⟩ := List.exists_mem_of_ne_nil _ hne
  exact List.ne_nil_of_mem ((h.identifiers t ht x).mpr ⟨i, hi, m, hm, hx⟩)

/-- An identified member of a joined group is connected to an identified newcomer. -/
theorem Partition.connected_start (h : Partition rt ms n groups) (hm : ms[n]? = some m)
    (hk : m.keys rt ≠ []) (hp : Placed rt m n groups next joined kept new)
    (hid : m.identifiers ≠ []) {t : Tracked} (ht : t ∈ joined) {i : Nat} (hi : i ∈ t.2)
    (hii : IdentifiedAt ms i) : Connected rt ms i n := by
  have htg : t ∈ groups := hp.before.mem_iff.mpr (List.mem_append_left _ ht)
  have hti := h.identified htg hi hii
  rcases hp.joined_by t ht with ⟨x, hx, hxm⟩ | ⟨_, hb⟩
  · obtain ⟨j, hj, m', hm', hx'⟩ := (h.identifiers t htg x).mp hx
    obtain ⟨_, m'', hm'', hk'', hkind⟩ := h.members t htg j hj
    rw [hm'] at hm''
    cases hm''
    have hchain := h.chained t htg i hi j hj hii ⟨m', hm', List.ne_nil_of_mem hx'⟩
    exact hchain.tail ⟨m', m, hm', hm, hk'', hk, hkind.trans (hp.joined_kind t ht), x, hx', hxm⟩
  · exact (hb.elim hid hti).elim

/-- One turn of the pass keeps the partition. -/
theorem Partition.place (h : Partition rt ms n groups) (hm : ms[n]? = some m)
    (hk : m.keys rt ≠ []) (hp : Placed rt m n groups next joined kept new) :
    Partition rt ms (n + 1) next := by
  have hj : ∀ t ∈ joined, t ∈ groups := fun t ht =>
    hp.before.mem_iff.mpr (List.mem_append_left _ ht)
  have hkg : ∀ t ∈ kept, t ∈ groups := fun t ht =>
    hp.before.mem_iff.mpr (List.mem_append_right _ ht)
  have hnext : ∀ t, t ∈ next ↔ t = new ∨ t ∈ kept := fun t => by
    rw [hp.after.mem_iff, List.mem_cons]
  have hsplit := fun {R : Tracked → Tracked → Prop} (hsymm : ∀ {s t}, R s t → R t s)
    (hR : groups.Pairwise R) => List.pairwise_append.mp
      ((hp.before.pairwise_iff hsymm).mp hR)
  refine ⟨?_, ?_, ?_, ?_, ?_, ?_, ?_⟩
  · intro t ht i hi
    rcases (hnext t).mp ht with rfl | ht
    · rcases (hp.positions i).mp hi with rfl | ⟨s, hs, hi⟩
      · exact ⟨Nat.lt_succ_self _, m, hm, hk, hp.kind.symm⟩
      · obtain ⟨hlt, m', hm', hk', hkind⟩ := h.members s (hj s hs) i hi
        exact ⟨Nat.lt_succ_of_lt hlt, m', hm', hk',
          hkind.trans ((hp.joined_kind s hs).trans hp.kind.symm)⟩
    · obtain ⟨hlt, hrest⟩ := h.members t (hkg t ht) i hi
      exact ⟨Nat.lt_succ_of_lt hlt, hrest⟩
  · intro i m' hi hm' hk'
    rcases Nat.lt_succ_iff_lt_or_eq.mp hi with hi | rfl
    · obtain ⟨t, ht, hit⟩ := h.covered i m' hi hm' hk'
      rcases List.mem_append.mp (hp.before.mem_iff.mp ht) with ht | ht
      · exact ⟨new, (hnext new).mpr (Or.inl rfl), (hp.positions i).mpr (Or.inr ⟨t, ht, hit⟩)⟩
      · exact ⟨t, (hnext t).mpr (Or.inr ht), hit⟩
    · exact ⟨new, (hnext new).mpr (Or.inl rfl), (hp.positions i).mpr (Or.inl rfl)⟩
  · have hsymm : ∀ {s t : Tracked}, (∀ i ∈ s.2, i ∉ t.2) → ∀ i ∈ t.2, i ∉ s.2 :=
      fun hst i ht hs => hst i hs ht
    obtain ⟨_, hkept, hcross⟩ := hsplit hsymm h.positions
    refine (hp.after.pairwise_iff hsymm).mpr (List.pairwise_cons.mpr ⟨fun t ht i hi hit => ?_, hkept⟩)
    rcases (hp.positions i).mp hi with rfl | ⟨s, hs, his⟩
    · exact absurd (h.members t (hkg t ht) i hit).1 (lt_irrefl _)
    · exact hcross s hs t ht i his hit
  · intro t ht x
    rcases (hnext t).mp ht with rfl | ht
    · rw [hp.identifiers]
      constructor
      · rintro (hx | ⟨s, hs, hx⟩)
        · exact ⟨n, (hp.positions n).mpr (Or.inl rfl), m, hm, hx⟩
        · obtain ⟨i, hi, hrest⟩ := (h.identifiers s (hj s hs) x).mp hx
          exact ⟨i, (hp.positions i).mpr (Or.inr ⟨s, hs, hi⟩), hrest⟩
      · rintro ⟨i, hi, m', hm', hx⟩
        rcases (hp.positions i).mp hi with rfl | ⟨s, hs, hi⟩
        · rw [hm] at hm'
          cases hm'
          exact Or.inl hx
        · exact Or.inr ⟨s, hs, (h.identifiers s (hj s hs) x).mpr ⟨i, hi, m', hm', hx⟩⟩
    · exact h.identifiers t (hkg t ht) x
  · intro t ht x
    rcases (hnext t).mp ht with rfl | ht
    · rw [hp.keys]
      constructor
      · rintro (hx | ⟨s, hs, hx⟩)
        · exact ⟨n, (hp.positions n).mpr (Or.inl rfl), m, hm, hx⟩
        · obtain ⟨i, hi, hrest⟩ := (h.keys s (hj s hs) x).mp hx
          exact ⟨i, (hp.positions i).mpr (Or.inr ⟨s, hs, hi⟩), hrest⟩
      · rintro ⟨i, hi, m', hm', hx⟩
        rcases (hp.positions i).mp hi with rfl | ⟨s, hs, hi⟩
        · rw [hm] at hm'
          cases hm'
          exact Or.inl hx
        · exact Or.inr ⟨s, hs, (h.keys s (hj s hs) x).mpr ⟨i, hi, m', hm', hx⟩⟩
    · exact h.keys t (hkg t ht) x
  · have hsymm : ∀ {s t : Tracked},
        (s.1.kind = t.1.kind → ∀ x ∈ s.1.identifiers, x ∉ t.1.identifiers) →
        t.1.kind = s.1.kind → ∀ x ∈ t.1.identifiers, x ∉ s.1.identifiers :=
      fun hst hkind x ht hs => hst hkind.symm x hs ht
    obtain ⟨_, hkept, hcross⟩ := hsplit hsymm h.disjoint
    refine (hp.after.pairwise_iff hsymm).mpr
      (List.pairwise_cons.mpr ⟨fun t ht hkind x hx hxt => ?_, hkept⟩)
    rcases (hp.identifiers x).mp hx with hx | ⟨s, hs, hx⟩
    · exact hp.kept_identifiers t ht (hkind.symm.trans hp.kind) x hxt hx
    · exact hcross s hs t ht ((hp.joined_kind s hs).trans (hp.kind.symm.trans hkind)) x hx hxt
  · intro t ht i hi j hj' hii hji
    rcases (hnext t).mp ht with rfl | ht
    · by_cases hid : m.identifiers = []
      · -- a bare newcomer joins at most one identified group
        have hstart : ∀ k, k ∈ t.2 → IdentifiedAt ms k →
            ∃ s ∈ joined, k ∈ s.2 ∧ s.1.Identified := by
          intro k hkt hki
          rcases (hp.positions k).mp hkt with rfl | ⟨s, hs, hks⟩
          · obtain ⟨m', hm', hne⟩ := hki
            rw [hm] at hm'
            cases hm'
            exact absurd hid hne
          · exact ⟨s, hs, hks, h.identified (hj s hs) hks hki⟩
        obtain ⟨s, hs, his, hsi⟩ := hstart i hi hii
        obtain ⟨u, hu, hju, hui⟩ := hstart j hj' hji
        have hsu := hp.joined_identified hid s hs u hu hsi hui
        exact h.chained s (hj s hs) i his j (hsu ▸ hju) hii hji
      · have hstart : ∀ k, k ∈ t.2 → IdentifiedAt ms k → Connected rt ms k n := by
          intro k hkt hki
          rcases (hp.positions k).mp hkt with rfl | ⟨s, hs, hks⟩
          · exact Relation.ReflTransGen.refl
          · exact h.connected_start hm hk hp hid hs hks hki
        exact (hstart i hi hii).trans (Connected.symm (hstart j hj' hji))
    · exact h.chained t (hkg t ht) i hi j hj' hii hji

end Place

/-- The pass partitions the kept mentions. -/
theorem track_partition (rt : Runtime Id) (ms : List Mention) :
    Partition rt ms ms.length (track rt ms) :=
  track_induct (Partition.nil rt ms) (fun _ _ _ hm hk h => h.skip hm hk)
    fun _ _ _ _ _ _ _ hm hk hp h => h.place hm hk hp

/-- A kept mention ends in some resolved entity. -/
theorem exists_endsIn {rt : Runtime Id} {ms : List Mention} {i : Nat} {m : Mention}
    (hm : ms[i]? = some m) (hk : m.keys rt ≠ []) : ∃ k, EndsIn rt ms i k := by
  obtain ⟨hlt, _⟩ := List.getElem?_eq_some_iff.mp hm
  obtain ⟨t, ht, hi⟩ := (track_partition rt ms).covered i m hlt hm hk
  obtain ⟨k, hkt⟩ := List.mem_iff_getElem?.mp ht
  exact ⟨k, t, hkt, hi⟩

theorem track_pairwise {rt : Runtime Id} {ms : List Mention} {R : Tracked → Tracked → Prop}
    (h : (track rt ms).Pairwise R) (hsymm : ∀ {s t}, R s t → R t s) {k l : Nat} {s t : Tracked}
    (hs : (track rt ms)[k]? = some s) (ht : (track rt ms)[l]? = some t) (hne : k ≠ l) : R s t := by
  obtain ⟨hk, rfl⟩ := List.getElem?_eq_some_iff.mp hs
  obtain ⟨hl, rfl⟩ := List.getElem?_eq_some_iff.mp ht
  rcases Nat.lt_or_gt_of_ne hne with hlt | hgt
  · exact List.pairwise_iff_getElem.mp h k l hk hl hlt
  · exact hsymm (List.pairwise_iff_getElem.mp h l k hl hk hgt)

/-- Two identified mentions of one entity are connected by shared identifiers. -/
theorem connected_of_together {rt : Runtime Id} {ms : List Mention} {i j : Nat}
    (h : Together rt ms i j) (hi : IdentifiedAt ms i) (hj : IdentifiedAt ms j) :
    Connected rt ms i j := by
  obtain ⟨k, ⟨s, hs, his⟩, ⟨t, ht, hjt⟩⟩ := h
  rw [hs] at ht
  cases ht
  exact (track_partition rt ms).chained s (List.mem_of_getElem? hs) i his j hjt hi hj

/-- The groups of one kind have disjoint identifiers. -/
theorem groupMentions_disjoint (rt : Runtime Id) (ms : List Mention) :
    (groupMentions rt ms).1.Pairwise fun g g' =>
      g.kind = g'.kind → ∀ x ∈ g.identifiers, x ∉ g'.identifiers := by
  rw [← map_fst_track, List.pairwise_map]
  exact (track_partition rt ms).disjoint

/-- A mention ends in at most one resolved entity. -/
theorem EndsIn.unique {rt : Runtime Id} {ms : List Mention} {i k l : Nat}
    (hk : EndsIn rt ms i k) (hl : EndsIn rt ms i l) : k = l := by
  obtain ⟨s, hs, his⟩ := hk
  obtain ⟨t, ht, hit⟩ := hl
  by_contra hne
  exact track_pairwise (track_partition rt ms).positions (fun h i ht hs => h i hs ht) hs ht hne
    i his hit

/-- Same-kind kept mentions that share an identifier end in one entity. -/
theorem together_of_overlap {rt : Runtime Id} {ms : List Mention} {i j : Nat}
    (h : Overlap rt ms i j) : Together rt ms i j := by
  have hpart := track_partition rt ms
  obtain ⟨m, n, hm, hn, hmk, hnk, hkind, x, hx, hx'⟩ := h
  obtain ⟨k, s, hs, his⟩ := exists_endsIn hm hmk
  obtain ⟨l, t, ht, hjt⟩ := exists_endsIn hn hnk
  have hsmem := List.mem_of_getElem? hs
  have htmem := List.mem_of_getElem? ht
  by_cases hkl : k = l
  · exact ⟨k, ⟨s, hs, his⟩, hkl ▸ ⟨t, ht, hjt⟩⟩
  · obtain ⟨_, m', hm', _, hsk⟩ := hpart.members s hsmem i his
    obtain ⟨_, n', hn', _, htk⟩ := hpart.members t htmem j hjt
    rw [hm] at hm'
    rw [hn] at hn'
    cases hm'
    cases hn'
    exact absurd ((hpart.identifiers t htmem x).mpr ⟨j, hjt, n, hn, hx'⟩)
      (track_pairwise hpart.disjoint (fun h hk x ht hs => h hk.symm x hs ht) hs ht hkl
        (hsk.symm.trans (hkind.trans htk)) x ((hpart.identifiers s hsmem x).mpr ⟨i, his, m, hm, hx⟩))

end

/-!
## Soundness of the identity partition

Which mentions of an extraction end in one resolved entity, as far as identifiers
decide it.
-/

section

open Core

variable {Id : Type} [DecidableEq Id]

/-- Every kept mention ends in one entity of the graph; a shared identifier puts two
mentions of a kind into one entity, identified mentions share one only along a chain of
shared identifiers, and groups of a kind have disjoint identifiers. -/
theorem identity_sound (rt : Runtime Id) (result : ExtractionResult) (info : SourceInfo Id)
    {ms : List Mention} (hms : mentions rt result info.trustedDirectoryIdentifiers = .ok ms) :
    (∀ i j, Overlap rt ms i j → Together rt ms i j) ∧
    (∀ i j, Together rt ms i j → IdentifiedAt ms i → IdentifiedAt ms j → Connected rt ms i j) ∧
    ((groupMentions rt ms).1.Pairwise fun g g' =>
      g.kind = g'.kind → ∀ x ∈ g.identifiers, x ∉ g'.identifiers) ∧
    (∀ i m, ms[i]? = some m → m.keys rt ≠ [] → ∃! k, EndsIn rt ms i k) ∧
    ∀ graph, resolveExtraction rt result info = .ok graph →
      graph.entities.map unlinked = (track rt ms).map fun t => t.1.toEntity rt info := by
  refine ⟨fun i j => together_of_overlap, fun i j => connected_of_together,
    groupMentions_disjoint rt ms, fun i m hm hk => ?_, fun graph h => map_unlinked_eq_track hms h⟩
  obtain ⟨k, hk⟩ := exists_endsIn hm hk
  exact ⟨k, hk, fun l hl => hl.unique hk⟩

/-- Two spellings of one mailbox, and a namesake without one. -/
def mailboxes : ExtractionResult :=
  ⟨[plainPerson "Kim" ["a@x"], plainPerson "Kim" [], plainPerson "Minsu" ["mailto:A@x"]], [], []⟩

theorem identity_sound_mailboxes : ∃ ms, mentions plainRuntime mailboxes [] = .ok ms ∧
    Together plainRuntime ms 0 2 ∧ ∃! k, EndsIn plainRuntime ms 1 k := by
  refine ⟨_, rfl, ?_⟩
  obtain ⟨hoverlap, _, _, hends, _⟩ := identity_sound plainRuntime mailboxes (plainSource "s") rfl
  refine ⟨hoverlap 0 2 ⟨_, _, rfl, rfl, ?_, ?_, rfl, "a@x".toList, ?_, ?_⟩, hends 1 _ rfl ?_⟩ <;>
    decide +kernel

end

end Maeglagi.Resolution
