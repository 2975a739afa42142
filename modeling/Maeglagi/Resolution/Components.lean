import Maeglagi.Resolution.Linkage

/-!
# The groups are the classes of linked mentions

When the names are settled, every turn of the pass keeps the groups in step with the
links: an entity is never ambiguous, and an event is ambiguous exactly when contested.
-/

namespace Maeglagi.Resolution

open Core

variable {Id : Type} {rt : Runtime Id} {es vs : List Mention} {p : Nat} {m : Mention}
  {groups next joined kept : List Tracked} {new : Tracked}

/-- The mention whose key a group has. -/
theorem Partition.exists_key {ms : List Mention} (h : Partition rt ms p groups) {t : Tracked}
    (ht : t ∈ groups) (hkind : t.1.kind = m.kind) (hkey : ∃ x ∈ t.1.keys, x ∈ m.keys rt) :
    ∃ i ∈ t.2, i < p ∧ ∃ n, ms[i]? = some n ∧ SharesName rt n m := by
  obtain ⟨x, hx, hxm⟩ := hkey
  obtain ⟨i, hi, n, hn, hxn⟩ := (h.keys t ht x).mp hx
  obtain ⟨hlt, n', hn', _, hkn⟩ := h.members t ht i hi
  rw [hn] at hn'
  cases hn'
  exact ⟨i, hi, hlt, n, hn, hkn.trans hkind, x, hxn, hxm⟩

/-- The mention whose identifier a group has. -/
theorem Partition.exists_identifier {ms : List Mention} (h : Partition rt ms p groups)
    {t : Tracked} (ht : t ∈ groups) {x : Text} (hx : x ∈ t.1.identifiers) :
    ∃ i ∈ t.2, i < p ∧ ∃ n, ms[i]? = some n ∧ x ∈ n.identifiers ∧ n.keys rt ≠ [] ∧
      n.kind = t.1.kind := by
  obtain ⟨i, hi, n, hn, hxn⟩ := (h.identifiers t ht x).mp hx
  obtain ⟨hlt, n', hn', hk, hkn⟩ := h.members t ht i hi
  rw [hn] at hn'
  cases hn'
  exact ⟨i, hi, hlt, n, hn, hxn, hk, hkn⟩

theorem Partition.identifiers_subset {ms : List Mention} (h : Partition rt ms p groups)
    {t : Tracked} (ht : t ∈ groups) {i : Nat} (hi : i ∈ t.2) {n : Mention}
    (hn : ms[i]? = some n) : ∀ x ∈ n.identifiers, x ∈ t.1.identifiers :=
  fun x hx => (h.identifiers t ht x).mpr ⟨i, hi, n, hn, hx⟩

/-- A position is in one group only. -/
theorem Partition.eq_of_position {ms : List Mention} (h : Partition rt ms p groups)
    {s t : Tracked} (hs : s ∈ groups) (ht : t ∈ groups) {i : Nat} (his : i ∈ s.2)
    (hit : i ∈ t.2) : s = t := by
  by_contra hne
  exact rel_of_mem_ne h.positions (fun hst i ht hs => hst i hs ht) hs ht hne i his hit

/-- An identified group that shares a name with a bare entity is anchored in it. -/
theorem Components.anchor (h : Components rt es vs p groups) (hp : p ≤ es.length) (hm : m ∈ es)
    {t : Tracked} (ht : t ∈ groups) (hti : t.1.Identified) (hkind : t.1.kind = m.kind)
    (hkey : ∃ x ∈ t.1.keys, x ∈ m.keys rt) (hbare : m.identifiers = []) :
    ∃ a ∈ es, ∃ q ∈ es, a.identifiers ≠ [] ∧ q.identifiers = [] ∧ a.kind = t.1.kind ∧
      (∀ x ∈ a.identifiers, x ∈ t.1.identifiers) ∧ SharesName rt a q ∧ BareChain rt es q m := by
  obtain ⟨i, hi, hlt, n, hn, hs⟩ := h.partition.exists_key ht hkind hkey
  have hnes := mem_of_lt hn (hlt.trans_le hp)
  by_cases hnb : n.identifiers = []
  · obtain ⟨a, ha, q, hq, hai, hqb, hak, hsub, hsq, hchain⟩ := h.anchored hp t ht hti i hi n hn hnb
    exact ⟨a, ha, q, hq, hai, hqb, hak, hsub, hsq, hchain.tail ⟨hnes, hm, hnb, hbare, hs⟩⟩
  · exact ⟨n, hnes, m, hm, hnb, hbare, hs.1.trans hkind.symm,
      h.partition.identifiers_subset ht hi hn, hs, Relation.ReflTransGen.refl⟩

/-- An entity is never ambiguous. -/
theorem Components.not_ambiguous (h : Components rt es vs p groups) (hset : NamesSettled rt es)
    (hp : p ≤ es.length) (hm : m ∈ es) : ambiguous rt (groups.map Prod.fst) m = false := by
  by_contra hamb
  have hamb : ambiguous rt (groups.map Prod.fst) m = true := by simpa using hamb
  have hbare := (ambiguous_iff.mp hamb).2.1
  obtain ⟨s, hs, t, ht, hdis, ⟨hsn, hsi⟩, htn, hti⟩ :=
    exists_pair_of_ambiguous hamb h.partition.disjoint
  obtain ⟨hsk, hskey, _⟩ := byName_iff.mp hsn
  obtain ⟨htk, htkey, _⟩ := byName_iff.mp htn
  obtain ⟨a, ha, q, hq, hai, hqb, hak, hasub, haq, hqm⟩ := h.anchor hp hm hs hsi hsk hskey hbare
  obtain ⟨b, hb, r, hr, hbi, hrb, hbk, hbsub, hbr, hrm⟩ := h.anchor hp hm ht hti htk htkey hbare
  obtain ⟨_, x, hx, hx'⟩ := hset a b
    ⟨ha, hb, hai, hbi, q, hq, r, hr, hqb, hrb, haq, hqm.trans hrm.symm, hbr.symm⟩
  exact hdis (hsk.trans htk.symm) x (hasub x hx) (hbsub x hx')

/-- A linked entity chain stays within one group once all entities are placed. -/
theorem Components.chain_subset (h : Components rt es vs p groups) (hp : es.length ≤ p)
    {t : Tracked} (ht : t ∈ groups) {i : Nat} (hi : i ∈ t.2) {a b : Mention}
    (ha : (es ++ vs)[i]? = some a) (hab : IdentifierChain rt es a b) :
    ∃ j ∈ t.2, (es ++ vs)[j]? = some b := by
  induction hab with
  | refl => exact ⟨i, hi, ha⟩
  | tail _ hlast ih =>
    obtain ⟨j, hj, hm⟩ := ih
    obtain ⟨_, hb, hmk, hnk, hshare⟩ := hlast
    obtain ⟨k, hk, hget⟩ := List.getElem_of_mem hb
    have hb' : (es ++ vs)[k]? = some es[k] := by
      rw [List.getElem?_append_left hk, List.getElem?_eq_getElem hk]
    rw [hget] at hb'
    obtain ⟨u, hu, hju, hku⟩ := h.grouped j k (h.partition.members t ht j hj).1
      (hk.trans_le hp) ⟨_, _, hm, hb', Or.inl ⟨hmk, hnk, hshare⟩⟩
    exact ⟨k, h.partition.eq_of_position hu ht hju hj ▸ hku, hb'⟩

/-- No mention of an identified group is contested: it would have no links, and be alone. -/
theorem Components.uncontested (h : Components rt es vs p groups) {t : Tracked} (ht : t ∈ groups)
    (hti : t.1.Identified) {i : Nat} (hi : i ∈ t.2) {n : Mention}
    (hn : (es ++ vs)[i]? = some n) : ¬Contested rt es n := by
  intro hc
  obtain ⟨x, hx⟩ := List.exists_mem_of_ne_nil _ hti
  obtain ⟨j, hj, _, n', hn', hxn, _⟩ := h.partition.exists_identifier ht hx
  have heq := hc.linked_eq hn (h.linked t ht i hi j hj)
  rw [heq, hn] at hn'
  cases hn'
  simp [hc.1] at hxn

/-- An ambiguous event is contested. -/
theorem Components.contested_of_ambiguous (h : Components rt es vs p groups)
    (hlist : Listed rt es vs) (hp : es.length ≤ p) (hm : m ∈ vs)
    (hamb : ambiguous rt (groups.map Prod.fst) m = true) : Contested rt es m := by
  obtain ⟨s, hs, t, ht, ⟨hpos, hdis⟩, ⟨hsn, hsi⟩, htn, hti⟩ := exists_pair_of_ambiguous hamb
    (h.partition.positions.and h.partition.disjoint)
  obtain ⟨hsk, hskey, _⟩ := byName_iff.mp hsn
  obtain ⟨htk, htkey, _⟩ := byName_iff.mp htn
  obtain ⟨i, hi, hilt, a, ha, ham⟩ := h.partition.exists_key hs hsk hskey
  obtain ⟨j, hj, hjlt, b, hb, hbm⟩ := h.partition.exists_key ht htk htkey
  have hab : SharesName rt a b := by
    obtain ⟨hak, x, hxa, hxm⟩ := ham
    obtain ⟨hbk, y, hyb, hym⟩ := hbm
    exact ⟨hak.trans hbk.symm, x, hxa, hlist.single m hm x hxm y hym ▸ hyb⟩
  have hids : a.identifiers ≠ [] ∧ b.identifiers ≠ [] := by
    by_contra hcon
    have hor : a.identifiers = [] ∨ b.identifiers = [] := by
      by_contra hnor
      exact hcon (not_or.mp hnor)
    obtain ⟨u, hu, hiu, hju⟩ := h.grouped i j hilt hjlt
      ⟨a, b, ha, hb, Or.inr ⟨hab, hor, h.uncontested hs hsi hi ha, h.uncontested ht hti hj hb⟩⟩
    have hsu := h.partition.eq_of_position hu hs hiu hi
    exact hpos j (hsu ▸ hju) hj
  refine ⟨hlist.bare m hm, a, (hlist.mem_of_identified ha hids.1).1, b,
    (hlist.mem_of_identified hb hids.2).1, hids.1, hids.2, ham, hbm.symm, fun hchain => ?_⟩
  obtain ⟨k, hk, hb'⟩ := h.chain_subset hp hs hi ha hchain
  obtain ⟨x, hx⟩ := List.exists_mem_of_ne_nil _ hids.2
  exact hdis (hsk.trans htk.symm) x (h.partition.identifiers_subset hs hk hb' x hx)
    (h.partition.identifiers_subset ht hj hb x hx)

/-- A contested event is ambiguous. -/
theorem Components.ambiguous_of_contested (h : Components rt es vs p groups)
    (hlist : Listed rt es vs) (hp : es.length ≤ p) (hc : Contested rt es m) :
    ambiguous rt (groups.map Prod.fst) m = true := by
  obtain ⟨hbare, a, ha, b, hb, hai, hbi, ham, hmb, hnot⟩ := hc
  have hplace : ∀ c ∈ es, c.identifiers ≠ [] → SharesName rt c m → ∃ i, ∃ t ∈ groups, i ∈ t.2 ∧
      (es ++ vs)[i]? = some c ∧ byName rt m t.1 = true ∧ t.1.Identified := by
    intro c hc hci hcm
    obtain ⟨i, hi, hget⟩ := List.getElem_of_mem hc
    have hc' : (es ++ vs)[i]? = some c := by
      rw [List.getElem?_append_left hi, List.getElem?_eq_getElem hi, hget]
    obtain ⟨t, ht, hit⟩ := h.partition.covered i c (hi.trans_le hp) hc' hcm.keys_ne
    obtain ⟨_, c', hc'', _, hkind⟩ := h.partition.members t ht i hit
    rw [hc'] at hc''
    cases hc''
    obtain ⟨hck, x, hx, hxm⟩ := hcm
    refine ⟨i, t, ht, hit, hc', byName_iff.mpr ⟨hkind.symm.trans hck, ⟨x, ?_, hxm⟩, ?_,
      Or.inl hbare⟩, h.partition.identified ht hit ⟨c, hc', hci⟩⟩
    · exact (h.partition.keys t ht x).mpr ⟨i, hit, c, hc', hx⟩
    · simp [byIdentifier, hbare, meets]
  obtain ⟨i, s, hs, his, ha', hsn, hsi⟩ := hplace a ha hai ham
  obtain ⟨j, t, ht, hjt, hb', htn, hti⟩ := hplace b hb hbi hmb.symm
  refine ambiguous_of_pair hbare hs ht (fun hst => hnot ?_) hsn hsi htn hti
  subst hst
  exact hlist.identifierChain
    (h.partition.chained s hs i his j hjt ⟨a, ha', hai⟩ ⟨b, hb', hbi⟩) ha' hb'

/-- A newcomer that joins groups is not contested. -/
theorem Components.not_contested (h : Components rt es vs p groups) (hlist : Listed rt es vs)
    (hset : NamesSettled rt es) (hm : (es ++ vs)[p]? = some m)
    (hp : Placed rt m p groups next joined kept new) {t : Tracked} (ht : t ∈ joined) :
    ¬Contested rt es m := by
  intro hc
  rcases Nat.lt_or_ge p es.length with hlt | hge
  · exact hset.not_contested (mem_of_lt hm hlt) hc
  · rw [hp.joined_ambiguous (h.ambiguous_of_contested hlist hge hc)] at ht
    exact absurd ht List.not_mem_nil

/-- Every mention of a joined group is linked to the newcomer. -/
theorem Components.linked_joined (h : Components rt es vs p groups) (hlist : Listed rt es vs)
    (hset : NamesSettled rt es) (hm : (es ++ vs)[p]? = some m) (hk : m.keys rt ≠ [])
    (hp : Placed rt m p groups next joined kept new) {t : Tracked} (ht : t ∈ joined) {i : Nat}
    (hi : i ∈ t.2) : Linked rt es (es ++ vs) i p := by
  have htg : t ∈ groups := hp.before.mem_iff.mpr (List.mem_append_left _ ht)
  have hlink : ∃ j ∈ t.2, LinkAt rt es (es ++ vs) j p := by
    rcases hp.joined_by t ht with ⟨x, hx, hxm⟩ | ⟨hkey, hb⟩
    · obtain ⟨j, hj, _, n, hn, hxn, hnk, hkind⟩ := h.partition.exists_identifier htg hx
      exact ⟨j, hj, n, m, hn, hm,
        Or.inl ⟨hnk, hk, hkind.trans (hp.joined_kind t ht), x, hxn, hxm⟩⟩
    · obtain ⟨j, hj, hlt, n, hn, hs⟩ := h.partition.exists_key htg (hp.joined_kind t ht) hkey
      have hcm := h.not_contested hlist hset hm hp ht
      refine ⟨j, hj, n, m, hn, hm, Or.inr ⟨hs, ?_, fun hc => ?_, hcm⟩⟩
      · refine hb.symm.imp_left fun hnil => ?_
        by_contra hne
        obtain ⟨x, hx⟩ := List.exists_mem_of_ne_nil _ hne
        have := h.partition.identifiers_subset htg hj hn x hx
        simp [hnil] at this
      · -- a contested event and the newcomer have their only name in common
        rcases Nat.lt_or_ge j es.length with hjlt | hjge
        · exact hset.not_contested (mem_of_lt hn hjlt) hc
        · obtain ⟨_, a, ha, b, hb', hai, hbi, han, hnb, hnot⟩ := hc
          have hmv := mem_of_ge hm (hjge.trans hlt.le)
          have hnv := mem_of_ge hn hjge
          obtain ⟨hnm, x, hxn, hxm⟩ := hs
          obtain ⟨hak, y, hya, hyn⟩ := han
          obtain ⟨hbk, z, hzn, hzb⟩ := hnb
          refine hcm ⟨hlist.bare m hmv, a, ha, b, hb', hai, hbi, ⟨hak.trans hnm, y, hya, ?_⟩,
            ⟨hnm.symm.trans hbk, z, ?_, hzb⟩, hnot⟩
          · exact hlist.single n hnv x hxn y hyn ▸ hxm
          · exact hlist.single n hnv x hxn z hzn ▸ hxm
  obtain ⟨j, hj, hl⟩ := hlink
  exact (h.linked t htg i hi j hj).tail hl

/-- The group of an earlier mention linked to the newcomer joins it. -/
theorem Components.joined_of_link (h : Components rt es vs p groups) (hlist : Listed rt es vs)
    (hset : NamesSettled rt es) (hm : (es ++ vs)[p]? = some m)
    (hp : Placed rt m p groups next joined kept new) {i : Nat} (hi : i < p)
    (hl : LinkAt rt es (es ++ vs) i p) : ∃ t ∈ joined, i ∈ t.2 := by
  obtain ⟨n, m', hn, hm', hlink⟩ := hl
  rw [hm] at hm'
  cases hm'
  obtain ⟨t, ht, hit⟩ := h.partition.covered i n hi hn
    (LinkAt.kept ⟨n, m, hn, hm, hlink⟩ hn)
  obtain ⟨_, n', hn', _, hkind⟩ := h.partition.members t ht i hit
  rw [hn] at hn'
  cases hn'
  rcases List.mem_append.mp (hp.before.mem_iff.mp ht) with htj | htk
  · exact ⟨t, htj, hit⟩
  exfalso
  rcases hlink with ⟨_, _, hnm, x, hxn, hxm⟩ | ⟨⟨hnm, x, hxn, hxm⟩, hb, _, hcm⟩
  · exact hp.kept_identifiers t htk (hkind.symm.trans hnm) x
      (h.partition.identifiers_subset ht hit hn x hxn) hxm
  · have hamb : ambiguous rt (groups.map Prod.fst) m = false := by
      by_contra hamb
      rcases Nat.lt_or_ge p es.length with hlt | hge
      · exact hamb (h.not_ambiguous hset hlt.le (mem_of_lt hm hlt))
      · exact hcm (h.contested_of_ambiguous hlist hge (mem_of_ge hm hge) (by simpa using hamb))
    obtain ⟨hmi, hti⟩ := hp.kept_names hamb t htk (hkind.symm.trans hnm)
      ⟨x, (h.partition.keys t ht x).mpr ⟨i, hit, n, hn, hxn⟩, hxm⟩
    obtain ⟨hmes, hplt⟩ := hlist.mem_of_identified hm hmi
    have hnb := hb.resolve_right hmi
    obtain ⟨a, ha, q, hq, hai, hqb, hak, hsub, haq, hqn⟩ :=
      h.anchored hplt.le t ht hti i hit n hn hnb
    obtain ⟨_, y, hya, hym⟩ := hset a m ⟨ha, hmes, hai, hmi, q, hq, n,
      mem_of_lt hn (hi.trans hplt), hqb, hnb, haq, hqn, hnm, x, hxn, hxm⟩
    exact hp.kept_identifiers t htk (hkind.symm.trans hnm) y (hsub y hya) hym

/-- A bare group joins the newcomer through a bare mention of its name. -/
theorem Components.bare_joined (h : Components rt es vs p groups)
    (hp : Placed rt m p groups next joined kept new) {t : Tracked} (ht : t ∈ joined)
    (hti : ¬t.1.Identified) :
    ∃ j ∈ t.2, j < p ∧ ∃ o, (es ++ vs)[j]? = some o ∧ o.identifiers = [] ∧ SharesName rt o m := by
  have htg : t ∈ groups := hp.before.mem_iff.mpr (List.mem_append_left _ ht)
  have hkey : ∃ x ∈ t.1.keys, x ∈ m.keys rt := by
    rcases hp.joined_by t ht with ⟨y, hyt, _⟩ | ⟨hkey, _⟩
    · exact absurd (List.ne_nil_of_mem hyt) hti
    · exact hkey
  obtain ⟨j, hj, hlt, o, ho, hom⟩ := h.partition.exists_key htg (hp.joined_kind t ht) hkey
  refine ⟨j, hj, hlt, o, ho, ?_, hom⟩
  by_contra hne
  exact hti (h.partition.identified htg hj ⟨o, ho, hne⟩)

/-- A bare entity that joins an identified group is anchored in it with all that it joins. -/
theorem Components.anchored_place (h : Components rt es vs p groups)
    (hm : (es ++ vs)[p]? = some m) (hp : Placed rt m p groups next joined kept new)
    (hlt : p < es.length) (hni : new.1.Identified) {i : Nat} (hi : i ∈ new.2) {n : Mention}
    (hn : (es ++ vs)[i]? = some n) (hnb : n.identifiers = []) :
    ∃ a ∈ es, ∃ q ∈ es, a.identifiers ≠ [] ∧ q.identifiers = [] ∧ a.kind = new.1.kind ∧
      (∀ x ∈ a.identifiers, x ∈ new.1.identifiers) ∧ SharesName rt a q ∧ BareChain rt es q n := by
  have hmes := mem_of_lt hm hlt
  have hj : ∀ t ∈ joined, t ∈ groups := fun t ht =>
    hp.before.mem_iff.mpr (List.mem_append_left _ ht)
  have hlift : ∀ t ∈ joined, t.1.Identified → ∀ o, (∃ a ∈ es, ∃ q ∈ es, a.identifiers ≠ [] ∧
      q.identifiers = [] ∧ a.kind = t.1.kind ∧ (∀ x ∈ a.identifiers, x ∈ t.1.identifiers) ∧
      SharesName rt a q ∧ BareChain rt es q o) → ∃ a ∈ es, ∃ q ∈ es, a.identifiers ≠ [] ∧
      q.identifiers = [] ∧ a.kind = new.1.kind ∧ (∀ x ∈ a.identifiers, x ∈ new.1.identifiers) ∧
      SharesName rt a q ∧ BareChain rt es q o := by
    rintro t ht _ o ⟨a, ha, q, hq, hai, hqb, hak, hsub, hrest⟩
    exact ⟨a, ha, q, hq, hai, hqb, hak.trans ((hp.joined_kind t ht).trans hp.kind.symm),
      fun x hx => (hp.identifiers x).mpr (Or.inr ⟨t, ht, hsub x hx⟩), hrest⟩
  by_cases hmb : m.identifiers = []
  · -- the one identified group joined anchors the newcomer, and through it the bare groups
    obtain ⟨x, hx⟩ := List.exists_mem_of_ne_nil _ hni
    obtain ⟨u, hu, hxu⟩ := ((hp.identifiers x).mp hx).resolve_left (by simp [hmb])
    have hui : u.1.Identified := List.ne_nil_of_mem hxu
    have hukey : ∃ x ∈ u.1.keys, x ∈ m.keys rt := by
      rcases hp.joined_by u hu with ⟨y, _, hym⟩ | ⟨hkey, _⟩
      · simp [hmb] at hym
      · exact hkey
    have hanchor := h.anchor hlt.le hmes (hj u hu) hui (hp.joined_kind u hu) hukey hmb
    rcases (hp.positions i).mp hi with rfl | ⟨t, ht, hit⟩
    · rw [hm] at hn
      cases hn
      exact hlift u hu hui m hanchor
    · by_cases hti : t.1.Identified
      · exact hlift t ht hti n (h.anchored hlt.le t (hj t ht) hti i hit n hn hnb)
      · obtain ⟨a, ha, q, hq, hai, hqb, hak, hsub, haq, hqm⟩ := hanchor
        obtain ⟨j, hjt, hjlt, o, ho, hob, hom⟩ := h.bare_joined hp ht hti
        have hon := h.chained hlt.le t (hj t ht) hti j hjt i hit o n ho hn
        refine hlift u hu hui n ⟨a, ha, q, hq, hai, hqb, hak, hsub, haq, ?_⟩
        exact (hqm.tail ⟨hmes, mem_of_lt ho (hjlt.trans hlt), hmb, hob, hom.symm⟩).trans hon
  · rcases (hp.positions i).mp hi with rfl | ⟨t, ht, hit⟩
    · rw [hm] at hn
      cases hn
      exact absurd hnb hmb
    · by_cases hti : t.1.Identified
      · exact hlift t ht hti n (h.anchored hlt.le t (hj t ht) hti i hit n hn hnb)
      · obtain ⟨j, hjt, hjlt, o, ho, hob, hom⟩ := h.bare_joined hp ht hti
        exact ⟨m, hmes, o, mem_of_lt ho (hjlt.trans hlt), hmb, hob, hp.kind.symm,
          fun x hx => (hp.identifiers x).mpr (Or.inl hx), hom.symm,
          h.chained hlt.le t (hj t ht) hti j hjt i hit o n ho hn⟩

/-- A group that stays bare is one chain of bare entities. -/
theorem Components.chained_place (h : Components rt es vs p groups)
    (hm : (es ++ vs)[p]? = some m) (hp : Placed rt m p groups next joined kept new)
    (hlt : p < es.length) (hni : ¬new.1.Identified) {i : Nat} (hi : i ∈ new.2) {n : Mention}
    (hn : (es ++ vs)[i]? = some n) : BareChain rt es m n := by
  have hnil : ∀ x, x ∉ new.1.identifiers := fun x hx => hni (List.ne_nil_of_mem hx)
  have hmb : m.identifiers = [] :=
    List.eq_nil_iff_forall_not_mem.mpr fun x hx => hnil x ((hp.identifiers x).mpr (Or.inl hx))
  rcases (hp.positions i).mp hi with rfl | ⟨t, ht, hit⟩
  · rw [hm] at hn
    cases hn
    exact Relation.ReflTransGen.refl
  · have htg : t ∈ groups := hp.before.mem_iff.mpr (List.mem_append_left _ ht)
    have hti : ¬t.1.Identified := by
      intro hti
      obtain ⟨x, hx⟩ := List.exists_mem_of_ne_nil _ hti
      exact hnil x ((hp.identifiers x).mpr (Or.inr ⟨t, ht, hx⟩))
    obtain ⟨j, hjt, hjlt, o, ho, hob, hom⟩ := h.bare_joined hp ht hti
    exact (h.chained hlt.le t htg hti j hjt i hit o n ho hn).head
      ⟨mem_of_lt hm hlt, mem_of_lt ho (hjlt.trans hlt), hmb, hob, hom.symm⟩

/-- One turn of the pass keeps the groups in step with the links. -/
theorem Components.place (h : Components rt es vs p groups) (hlist : Listed rt es vs)
    (hset : NamesSettled rt es) (hm : (es ++ vs)[p]? = some m) (hk : m.keys rt ≠ [])
    (hp : Placed rt m p groups next joined kept new) :
    Components rt es vs (p + 1) next := by
  have hkg : ∀ t ∈ kept, t ∈ groups := fun t ht =>
    hp.before.mem_iff.mpr (List.mem_append_right _ ht)
  have hnext : ∀ t, t ∈ next ↔ t = new ∨ t ∈ kept := fun t => by
    rw [hp.after.mem_iff, List.mem_cons]
  have hnew : ∀ i ∈ new.2, Linked rt es (es ++ vs) i p := by
    intro i hi
    rcases (hp.positions i).mp hi with rfl | ⟨t, ht, hit⟩
    · exact Relation.ReflTransGen.refl
    · exact h.linked_joined hlist hset hm hk hp ht hit
  have hearlier : ∀ i, i < p + 1 → LinkAt rt es (es ++ vs) i p → i ∈ new.2 := by
    intro i hi hl
    rcases Nat.lt_succ_iff_lt_or_eq.mp hi with hi | rfl
    · exact (hp.positions i).mpr (Or.inr (h.joined_of_link hlist hset hm hp hi hl))
    · exact (hp.positions i).mpr (Or.inl rfl)
  have hpnew : p ∈ new.2 := (hp.positions p).mpr (Or.inl rfl)
  refine ⟨h.partition.place hm hk hp, ?_, ?_, ?_, ?_⟩
  · intro t ht i hi j hj
    rcases (hnext t).mp ht with rfl | ht
    · exact (hnew i hi).trans (Linked.symm (hnew j hj))
    · exact h.linked t (hkg t ht) i hi j hj
  · intro i j hi hj hl
    rcases Nat.lt_succ_iff_lt_or_eq.mp hj with hjp | rfl
    · rcases Nat.lt_succ_iff_lt_or_eq.mp hi with hip | rfl
      · obtain ⟨t, ht, hit, hjt⟩ := h.grouped i j hip hjp hl
        rcases List.mem_append.mp (hp.before.mem_iff.mp ht) with htj | htk
        · exact ⟨new, (hnext new).mpr (Or.inl rfl), (hp.positions i).mpr (Or.inr ⟨t, htj, hit⟩),
            (hp.positions j).mpr (Or.inr ⟨t, htj, hjt⟩)⟩
        · exact ⟨t, (hnext t).mpr (Or.inr htk), hit, hjt⟩
      · exact ⟨new, (hnext new).mpr (Or.inl rfl), hpnew, hearlier j hj hl.symm⟩
    · exact ⟨new, (hnext new).mpr (Or.inl rfl), hearlier i hi hl, hpnew⟩
  · intro hle t ht hti i hi n hn hnb
    rcases (hnext t).mp ht with rfl | ht
    · exact h.anchored_place hm hp hle hti hi hn hnb
    · exact h.anchored (Nat.le_of_succ_le hle) t (hkg t ht) hti i hi n hn hnb
  · intro hle t ht hti i hi j hj n o hn ho
    rcases (hnext t).mp ht with rfl | ht
    · exact (BareChain.symm (h.chained_place hm hp hle hti hi hn)).trans
        (h.chained_place hm hp hle hti hj ho)
    · exact h.chained (Nat.le_of_succ_le hle) t (hkg t ht) hti i hi j hj n o hn ho

/-- The whole pass keeps the groups in step with the links. -/
theorem track_components (hlist : Listed rt es vs) (hset : NamesSettled rt es) :
    Components rt es vs (es ++ vs).length (track rt (es ++ vs)) :=
  track_induct (Components.nil rt es vs) (fun _ _ _ hm hk h => h.skip hm hk)
    fun _ _ _ _ _ _ _ hm hk hp h => h.place hlist hset hm hk hp

/-- Two mentions end in one entity when some group holds both. -/
theorem together_iff {ms : List Mention} {i j : Nat} :
    Together rt ms i j ↔ ∃ t ∈ track rt ms, i ∈ t.2 ∧ j ∈ t.2 := by
  constructor
  · rintro ⟨k, ⟨s, hs, his⟩, ⟨t, ht, hjt⟩⟩
    rw [hs] at ht
    cases ht
    exact ⟨s, List.mem_of_getElem? hs, his, hjt⟩
  · rintro ⟨t, ht, hit, hjt⟩
    obtain ⟨k, hk⟩ := List.mem_iff_getElem?.mp ht
    exact ⟨k, ⟨t, hk, hit⟩, ⟨t, hk, hjt⟩⟩

instance (ms : List Mention) (i j : Nat) : Decidable (Together rt ms i j) :=
  decidable_of_iff _ together_iff.symm

/-- With settled names, two mentions end in one entity exactly when they are kept and
linked. -/
theorem together_iff_linked (hlist : Listed rt es vs) (hset : NamesSettled rt es) {i j : Nat} :
    Together rt (es ++ vs) i j ↔
      (∃ m, (es ++ vs)[i]? = some m ∧ m.keys rt ≠ []) ∧ Linked rt es (es ++ vs) i j := by
  have h := track_components hlist hset
  have hlt : ∀ {k m}, (es ++ vs)[k]? = some m → k < (es ++ vs).length := fun hk =>
    (List.getElem?_eq_some_iff.mp hk).1
  rw [together_iff]
  constructor
  · rintro ⟨t, ht, hi, hj⟩
    obtain ⟨_, m, hm, hk, _⟩ := h.partition.members t ht i hi
    exact ⟨⟨m, hm, hk⟩, h.linked t ht i hi j hj⟩
  · rintro ⟨⟨m, hm, hk⟩, hl⟩
    induction hl with
    | refl =>
      obtain ⟨t, ht, hi⟩ := h.partition.covered i m (hlt hm) hm hk
      exact ⟨t, ht, hi, hi⟩
    | tail _ hlast ih =>
      obtain ⟨t, ht, hi, hj⟩ := ih
      have hlast' := hlast
      obtain ⟨_, _, hm₁, hm₂, _⟩ := hlast'
      obtain ⟨u, hu, hj', hk'⟩ := h.grouped _ _ (hlt hm₁) (hlt hm₂) hlast
      exact ⟨t, ht, hi, h.partition.eq_of_position hu ht hj' hj ▸ hk'⟩

end Maeglagi.Resolution
