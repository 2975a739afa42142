import Mathlib.Logic.Equiv.Basic
import Maeglagi.Resolution.Components
import Maeglagi.Resolution.Partition

/-!
# When the grouping does not depend on the order of mentions

With settled names every order of the mentions gives the same partition, and no bare
mention is ever put with one of several identified entities it fits. Conversely an
order-independent grouping needs every two identified entities bridged by bare ones to
be connected by shared identifiers.
-/

namespace Maeglagi.Resolution

open Core

variable {Id : Type}

/-- The second extraction names the same entities and the same events in other orders;
`σ` tells where each mention went. -/
structure Rearranged (result result' : ExtractionResult) (σ : Equiv.Perm Nat) : Prop where
  length : result'.entities.length = result.entities.length
  entities : ∀ i, i < result.entities.length → σ i < result.entities.length ∧
    result'.entities[σ i]? = result.entities[i]?
  events : ∀ i, result.entities.length ≤ i → result.entities.length ≤ σ i ∧
    result'.events[σ i - result.entities.length]? = result.events[i - result.entities.length]?

/-- No bare mention is in an identified entity while its name also fits another one. -/
def NeverGuesses (rt : Runtime Id) (ms : List Mention) : Prop :=
  ∀ i m, ms[i]? = some m → m.identifiers = [] → ∀ s ∈ track rt ms, ∀ t ∈ track rt ms, s ≠ t →
    s.1.Identified → t.1.Identified → s.1.kind = m.kind → t.1.kind = m.kind →
    (∃ x ∈ s.1.keys, x ∈ m.keys rt) → (∃ x ∈ t.1.keys, x ∈ m.keys rt) → i ∉ s.2

/-- Every order of the mentions gives the same partition, and none of them guesses. -/
def OrderFree (rt : Runtime Id) (result : ExtractionResult) (trusted : List Text) : Prop :=
  ∀ ms, mentions rt result trusted = .ok ms →
    ∀ result' σ, Rearranged result result' σ → ∀ ms', mentions rt result' trusted = .ok ms' →
      (∀ i j, Together rt ms i j ↔ Together rt ms' (σ i) (σ j)) ∧ NeverGuesses rt ms'

/-- The extracted entities as mentions. -/
def entityMentions (rt : Runtime Id) (result : ExtractionResult) (trusted : List Text) :
    List Mention := result.entities.map (entityMention rt trusted)

/-- The mentions of an extraction are its entities and then its events. -/
theorem mentions_eq_ok {rt : Runtime Id} {result : ExtractionResult} {trusted : List Text}
    {ms : List Mention} : mentions rt result trusted = .ok ms ↔
      ∃ vs, result.events.mapM (eventMention rt) = .ok vs ∧
        ms = entityMentions rt result trusted ++ vs := by
  simp only [mentions, bind_eq_ok, pure_eq_ok, entityMentions]
  constructor
  · rintro ⟨vs, hvs, h⟩
    exact ⟨vs, hvs, h.symm⟩
  · rintro ⟨vs, hvs, h⟩
    exact ⟨vs, hvs, h.symm⟩

/-- Events carry no identifiers and have one name. -/
theorem listed {rt : Runtime Id} {events : List ExtractedEvent} {vs : List Mention}
    (h : events.mapM (eventMention rt) = .ok vs) (es : List Mention) : Listed rt es vs := by
  have hv : ∀ v ∈ vs, v.identifiers = [] ∧ v.aliases = [] := by
    intro v hv
    obtain ⟨i, hi⟩ := List.mem_iff_getElem?.mp hv
    rw [getElem?_of_mapM_eq_ok h i] at hi
    obtain ⟨event, _, hevent⟩ := Option.bind_eq_some_iff.mp hi
    cases hok : eventMention rt event with
    | error e => simp [hok, Except.toOption] at hevent
    | ok w =>
      simp only [hok, Except.toOption, Option.some.injEq] at hevent
      subst hevent
      simp only [eventMention, bind_eq_ok, pure_eq_ok] at hok
      obtain ⟨_, _, rfl⟩ := hok
      exact ⟨rfl, rfl⟩
  refine ⟨fun v hm => (hv v hm).1, fun v hm x hx y hy => ?_⟩
  simp only [Mention.keys, (hv v hm).2, List.map_cons, List.map_nil, List.mem_filter,
    List.mem_dedup, List.mem_singleton] at hx hy
  exact hx.1.trans hy.1.symm

/-- Rearranging the extraction rearranges its mentions. -/
theorem Rearranged.getElem? {rt : Runtime Id} {result result' : ExtractionResult}
    {σ : Equiv.Perm Nat} (trusted : List Text) (h : Rearranged result result' σ)
    {vs vs' : List Mention} (hvs : result.events.mapM (eventMention rt) = .ok vs)
    (hvs' : result'.events.mapM (eventMention rt) = .ok vs') (i : Nat) :
    (entityMentions rt result' trusted ++ vs')[σ i]? =
      (entityMentions rt result trusted ++ vs)[i]? := by
  have hlen : (entityMentions rt result trusted).length = result.entities.length :=
    List.length_map _
  have hlen' : (entityMentions rt result' trusted).length = result.entities.length :=
    (List.length_map _).trans h.length
  rcases Nat.lt_or_ge i result.entities.length with hi | hi
  · obtain ⟨hσ, hget⟩ := h.entities i hi
    rw [List.getElem?_append_left (hlen'.symm ▸ hσ), List.getElem?_append_left (hlen.symm ▸ hi),
      entityMentions, entityMentions, List.getElem?_map, List.getElem?_map, hget]
  · obtain ⟨hσ, hget⟩ := h.events i hi
    rw [List.getElem?_append_right (hlen'.symm ▸ hσ), List.getElem?_append_right (hlen.symm ▸ hi),
      hlen, hlen', getElem?_of_mapM_eq_ok hvs', getElem?_of_mapM_eq_ok hvs, hget]

/-- Rearranging the extraction keeps which entities it has. -/
theorem Rearranged.mem_iff (rt : Runtime Id) {result result' : ExtractionResult}
    {σ : Equiv.Perm Nat} (trusted : List Text) (h : Rearranged result result' σ) (m : Mention) :
    m ∈ entityMentions rt result' trusted ↔ m ∈ entityMentions rt result trusted := by
  have hmem : ∀ e, e ∈ result'.entities ↔ e ∈ result.entities := by
    intro e
    simp only [List.mem_iff_getElem?]
    constructor
    · rintro ⟨k, hk⟩
      have hklt := (List.getElem?_eq_some_iff.mp hk).1
      rcases Nat.lt_or_ge (σ.symm k) result.entities.length with hlt | hge
      · refine ⟨σ.symm k, ?_⟩
        rw [← (h.entities _ hlt).2, Equiv.apply_symm_apply, hk]
      · have := (h.events _ hge).1
        rw [Equiv.apply_symm_apply] at this
        exact absurd (h.length ▸ hklt) (not_lt.mpr this)
    · rintro ⟨k, hk⟩
      exact ⟨σ k, (h.entities k (List.getElem?_eq_some_iff.mp hk).1).2.trans hk⟩
  simp only [entityMentions, List.mem_map, hmem]

section Congr

variable {rt : Runtime Id} {es es' : List Mention}

private theorem bareChain_mono (h : ∀ m, m ∈ es' ↔ m ∈ es) {p q : Mention}
    (hc : BareChain rt es' p q) : BareChain rt es p q :=
  hc.lift id fun _ _ ⟨hp, hq, hrest⟩ => ⟨(h _).mp hp, (h _).mp hq, hrest⟩

private theorem identifierChain_mono (h : ∀ m, m ∈ es' ↔ m ∈ es) {a b : Mention}
    (hc : IdentifierChain rt es' a b) : IdentifierChain rt es a b :=
  hc.lift id fun _ _ ⟨ha, hb, hrest⟩ => ⟨(h _).mp ha, (h _).mp hb, hrest⟩

private theorem contested_mono (h : ∀ m, m ∈ es' ↔ m ∈ es) {m : Mention}
    (hc : Contested rt es' m) : Contested rt es m := by
  obtain ⟨hbare, a, ha, b, hb, hai, hbi, ham, hmb, hnot⟩ := hc
  exact ⟨hbare, a, (h a).mp ha, b, (h b).mp hb, hai, hbi, ham, hmb,
    fun hchain => hnot (identifierChain_mono (fun m => (h m).symm) hchain)⟩

private theorem link_mono (h : ∀ m, m ∈ es' ↔ m ∈ es) {m n : Mention} (hl : Link rt es' m n) :
    Link rt es m n := by
  rcases hl with hid | ⟨hs, hb, hm, hn⟩
  · exact Or.inl hid
  · have hback : ∀ m, Contested rt es m → Contested rt es' m := fun _ =>
      contested_mono fun m => (h m).symm
    exact Or.inr ⟨hs, hb, fun hc => hm (hback m hc), fun hc => hn (hback n hc)⟩

/-- Links only depend on which entities there are and what stands at the positions. -/
theorem Linked.map {ms ms' : List Mention} (h : ∀ m, m ∈ es' ↔ m ∈ es) {f : Nat → Nat}
    (hf : ∀ i, ms[f i]? = ms'[i]?) {i j : Nat} (hl : Linked rt es' ms' i j) :
    Linked rt es ms (f i) (f j) :=
  hl.lift f fun k l ⟨m, n, hm, hn, hlink⟩ =>
    ⟨m, n, (hf k).trans hm, (hf l).trans hn, link_mono h hlink⟩

/-- Settled names do not depend on the order of the entities. -/
theorem NamesSettled.congr (hset : NamesSettled rt es) (h : ∀ m, m ∈ es' ↔ m ∈ es) :
    NamesSettled rt es' := by
  rintro a b ⟨ha, hb, hai, hbi, p, hp, q, hq, hpb, hqb, hap, hpq, hqb'⟩
  exact hset a b ⟨(h a).mp ha, (h b).mp hb, hai, hbi, p, (h p).mp hp, q, (h q).mp hq, hpb, hqb,
    hap, bareChain_mono h hpq, hqb'⟩

end Congr

/-- With settled names no bare mention is put with one of several entities it fits. -/
theorem NamesSettled.neverGuesses {rt : Runtime Id} {es vs : List Mention}
    (hset : NamesSettled rt es) (hlist : Listed rt es vs) : NeverGuesses rt (es ++ vs) := by
  have h := track_components hlist hset
  intro i m hm hbare s hs t ht hst hsi hti hsk htk _ htkey his
  obtain ⟨j, hj, hjlt, n, hn, hnm⟩ := h.partition.exists_key ht htk htkey
  obtain ⟨u, hu, hiu, hju⟩ := h.grouped i j (h.partition.members s hs i his).1 hjlt
    ⟨m, n, hm, hn, Or.inr ⟨hnm.symm, Or.inl hbare, h.uncontested hs hsi his hm,
      h.uncontested ht hti hj hn⟩⟩
  exact hst ((h.partition.eq_of_position hu hs hiu his).symm.trans
    (h.partition.eq_of_position hu ht hju hj))

/-- With settled names the grouping does not depend on the order. -/
theorem NamesSettled.orderFree {rt : Runtime Id} {result : ExtractionResult}
    {trusted : List Text} (hset : NamesSettled rt (entityMentions rt result trusted)) :
    OrderFree rt result trusted := by
  intro ms hms result' σ hσ ms' hms'
  obtain ⟨vs, hvs, rfl⟩ := mentions_eq_ok.mp hms
  obtain ⟨vs', hvs', rfl⟩ := mentions_eq_ok.mp hms'
  have hmem := hσ.mem_iff rt trusted
  have hget := hσ.getElem? trusted hvs hvs'
  have hset' := hset.congr hmem
  refine ⟨fun i j => ?_, hset'.neverGuesses (listed hvs' _)⟩
  rw [together_iff_linked (listed hvs _) hset, together_iff_linked (listed hvs' _) hset', hget]
  refine and_congr_right fun _ => ⟨fun hl => ?_, fun hl => ?_⟩
  · exact Linked.map (fun m => (hmem m).symm) hget hl
  · have hback := Linked.map hmem (f := σ.symm) (fun k => by
      rw [← hget, Equiv.apply_symm_apply]) hl
    rwa [Equiv.symm_apply_apply, Equiv.symm_apply_apply] at hback

theorem Together.trans {rt : Runtime Id} {ms : List Mention} {i j k : Nat}
    (hij : Together rt ms i j) (hjk : Together rt ms j k) : Together rt ms i k := by
  obtain ⟨l, hi, hj⟩ := hij
  obtain ⟨l', hj', hk⟩ := hjk
  exact ⟨l, hi, hj.unique hj' ▸ hk⟩

/-- The first two mentions are grouped when they share a name and one of them is bare. -/
theorem together_first_two {rt : Runtime Id} {ms : List Mention} {m₀ m₁ : Mention}
    (h₀ : ms[0]? = some m₀) (h₁ : ms[1]? = some m₁) (hs : SharesName rt m₀ m₁)
    (hb : m₀.identifiers = [] ∨ m₁.identifiers = []) : Together rt ms 0 1 := by
  suffices hrun : (ms.length = 0 → track rt ms = []) ∧
      (ms.length = 1 → ∃ t, track rt ms = [t] ∧ t.1.kind = m₀.kind ∧
        (∀ x ∈ m₀.keys rt, x ∈ t.1.keys) ∧ (∀ x ∈ t.1.identifiers, x ∈ m₀.identifiers) ∧
          0 ∈ t.2) ∧
      (2 ≤ ms.length → ∃ t ∈ track rt ms, 0 ∈ t.2 ∧ 1 ∈ t.2) from
    together_iff.mpr (hrun.2.2 (List.getElem?_eq_some_iff.mp h₁).1)
  refine track_induct (P := fun n groups =>
    (n = 0 → groups = []) ∧
    (n = 1 → ∃ t, groups = [t] ∧ t.1.kind = m₀.kind ∧ (∀ x ∈ m₀.keys rt, x ∈ t.1.keys) ∧
      (∀ x ∈ t.1.identifiers, x ∈ m₀.identifiers) ∧ 0 ∈ t.2) ∧
    (2 ≤ n → ∃ t ∈ groups, 0 ∈ t.2 ∧ 1 ∈ t.2)) ⟨by simp, by simp, by simp⟩ ?_ ?_
  · rintro n m groups hm hk ⟨_, _, hlater⟩
    match n with
    | 0 =>
      rw [h₀] at hm
      cases hm
      exact absurd hk hs.keys_ne
    | 1 =>
      rw [h₁] at hm
      cases hm
      exact absurd hk hs.symm.keys_ne
    | n + 2 => exact ⟨by simp, by simp, fun _ => hlater (by omega)⟩
  · rintro n m groups next joined kept new hm hk hp ⟨hzero, hone, hlater⟩
    match n with
    | 0 =>
      rw [h₀] at hm
      cases hm
      rw [hzero rfl] at hp
      obtain ⟨rfl, rfl⟩ := List.append_eq_nil_iff.mp (List.nil_perm.mp hp.before)
      refine ⟨by simp, fun _ => ⟨new, List.perm_singleton.mp hp.after, hp.kind, fun x hx =>
        (hp.keys x).mpr (Or.inl hx), fun x hx => ?_, (hp.positions 0).mpr (Or.inl rfl)⟩, by simp⟩
      simpa using (hp.identifiers x).mp hx
    | 1 =>
      rw [h₁] at hm
      cases hm
      obtain ⟨t, rfl, hkind, hkeys, hids, ht⟩ := hone rfl
      have htk := hs.1
      obtain ⟨_, x, hx, hx'⟩ := hs
      have htmem : t ∈ joined ∨ t ∈ kept :=
        List.mem_append.mp (hp.before.mem_iff.mp (List.mem_singleton_self t))
      have hjoin : t ∈ joined := by
        refine htmem.resolve_right fun hkept => ?_
        have hamb : ambiguous rt ([t].map Prod.fst) m₁ = false := by
          by_contra hamb
          have hlen := (ambiguous_iff.mp (by simpa using hamb)).2.2
          exact absurd hlen (not_lt.mpr (List.length_filter_le _ _))
        obtain ⟨hm₁, hti⟩ := hp.kept_names hamb t hkept (hkind.trans htk) ⟨x, hkeys x hx, hx'⟩
        obtain ⟨y, hy⟩ := List.exists_mem_of_ne_nil _ hti
        exact hb.elim (List.ne_nil_of_mem (hids y hy)) hm₁
      refine ⟨by simp, by simp, fun _ => ⟨new, hp.after.mem_iff.mpr (List.mem_cons_self ..),
        (hp.positions 0).mpr (Or.inr ⟨t, hjoin, ht⟩), (hp.positions 1).mpr (Or.inl rfl)⟩⟩
    | n + 2 =>
      obtain ⟨t, ht, h0, h1⟩ := hlater (by omega)
      refine ⟨by simp, by simp, fun _ => ?_⟩
      rcases List.mem_append.mp (hp.before.mem_iff.mp ht) with hj | hk'
      · exact ⟨new, hp.after.mem_iff.mpr (List.mem_cons_self ..),
          (hp.positions 0).mpr (Or.inr ⟨t, hj, h0⟩), (hp.positions 1).mpr (Or.inr ⟨t, hj, h1⟩)⟩
      · exact ⟨t, hp.after.mem_iff.mpr (List.mem_cons_of_mem _ hk'), h0, h1⟩

/-- Two entities can be moved to the front. -/
theorem exists_rearranged_front (result : ExtractionResult) {i j : Nat} (hij : i ≠ j)
    (hi : i < result.entities.length) (hj : j < result.entities.length) :
    ∃ result' σ, Rearranged result result' σ ∧ result'.events = result.events ∧
      σ i = 0 ∧ σ j = 1 := by
  let σ : Equiv.Perm Nat := (Equiv.swap 0 i).trans (Equiv.swap (Equiv.swap 0 i j) 1)
  have hj' : Equiv.swap 0 i j ≠ 0 := by
    intro h
    have := congrArg (Equiv.swap 0 i) h
    rw [Equiv.swap_apply_self, Equiv.swap_apply_left] at this
    exact hij this.symm
  have hσi : σ i = 0 := by
    simp only [σ, Equiv.trans_apply, Equiv.swap_apply_right]
    exact Equiv.swap_apply_of_ne_of_ne hj'.symm (by decide)
  have hσj : σ j = 1 := by
    simp only [σ, Equiv.trans_apply, Equiv.swap_apply_left]
  have hswap : ∀ {a b k : Nat}, a < result.entities.length → b < result.entities.length →
      k < result.entities.length → Equiv.swap a b k < result.entities.length := by
    intro a b k ha hb hk
    rw [Equiv.swap_apply_def]
    split_ifs <;> assumption
  have hone : 1 < result.entities.length := by omega
  have hzero : 0 < result.entities.length := by omega
  have hσ : ∀ k, k < result.entities.length → σ k < result.entities.length := fun k hk =>
    hswap (hswap hzero hi hj) hone (hswap hzero hi hk)
  have hσ' : ∀ k, k < result.entities.length → σ.symm k < result.entities.length := by
    intro k hk
    simp only [σ, Equiv.symm_trans_apply, Equiv.symm_swap]
    exact hswap hzero hi (hswap (hswap hzero hi hj) hone hk)
  have hfix : ∀ k, result.entities.length ≤ k → σ k = k := by
    intro k hk
    have hne : ∀ {a}, a < result.entities.length → k ≠ a := by omega
    simp only [σ, Equiv.trans_apply]
    rw [Equiv.swap_apply_of_ne_of_ne (hne hzero) (hne hi),
      Equiv.swap_apply_of_ne_of_ne (hne (hswap hzero hi hj)) (hne hone)]
  refine ⟨{ result with
    entities := (List.range result.entities.length).map fun k =>
      result.entities.getD (σ.symm k) result.entities[i] }, σ,
    ⟨by simp, fun k hk => ⟨hσ k hk, ?_⟩, fun k hk => ?_⟩, rfl, hσi, hσj⟩
  · simp only [List.getElem?_map, List.getElem?_range (hσ k hk), Option.map_some,
      Equiv.symm_apply_apply, List.getD_eq_getElem _ _ hk, List.getElem?_eq_getElem hk]
  · rw [hfix k hk]
    exact ⟨hk, rfl⟩

/-- An order-independent grouping puts two entities together that share a name, when one
of them is bare. -/
theorem OrderFree.together {rt : Runtime Id} {result : ExtractionResult} {trusted : List Text}
    (h : OrderFree rt result trusted) {vs : List Mention}
    (hvs : result.events.mapM (eventMention rt) = .ok vs) {i j : Nat} (hij : i ≠ j)
    {m n : Mention} (hm : (entityMentions rt result trusted)[i]? = some m)
    (hn : (entityMentions rt result trusted)[j]? = some n) (hs : SharesName rt m n)
    (hb : m.identifiers = [] ∨ n.identifiers = []) :
    Together rt (entityMentions rt result trusted ++ vs) i j := by
  have hlen : (entityMentions rt result trusted).length = result.entities.length :=
    List.length_map _
  have hi := (List.getElem?_eq_some_iff.mp hm).1
  have hj := (List.getElem?_eq_some_iff.mp hn).1
  obtain ⟨result', σ, hσ, hev, hσi, hσj⟩ :=
    exists_rearranged_front result hij (hlen ▸ hi) (hlen ▸ hj)
  have hvs' : result'.events.mapM (eventMention rt) = .ok vs := by rw [hev, hvs]
  have hget := hσ.getElem? trusted hvs hvs'
  have hpart := (h _ (mentions_eq_ok.mpr ⟨vs, hvs, rfl⟩) result' σ hσ _
    (mentions_eq_ok.mpr ⟨vs, hvs', rfl⟩)).1 i j
  rw [hpart, hσi, hσj]
  refine together_first_two ?_ ?_ hs hb
  · rw [← hσi, hget, List.getElem?_append_left hi, hm]
  · rw [← hσj, hget, List.getElem?_append_left hj, hn]

/-- An order-independent grouping connects the entities that bare ones bridge. -/
theorem OrderFree.identifierChain {rt : Runtime Id} {result : ExtractionResult}
    {trusted : List Text} (h : OrderFree rt result trusted) {vs : List Mention}
    (hvs : result.events.mapM (eventMention rt) = .ok vs) {a b : Mention}
    (hab : Bridged rt (entityMentions rt result trusted) a b) :
    IdentifierChain rt (entityMentions rt result trusted) a b := by
  obtain ⟨ha, hb, hai, hbi, p, hp, q, hq, hpb, hqb, hap, hpq, hqb'⟩ := hab
  have hlist := listed hvs (entityMentions rt result trusted)
  have hleft : ∀ {i m}, (entityMentions rt result trusted)[i]? = some m →
      (entityMentions rt result trusted ++ vs)[i]? = some m := fun hm => by
    rw [List.getElem?_append_left (List.getElem?_eq_some_iff.mp hm).1, hm]
  obtain ⟨i, hi⟩ := List.mem_iff_getElem?.mp ha
  obtain ⟨j, hj⟩ := List.mem_iff_getElem?.mp hb
  obtain ⟨k, hk⟩ := List.mem_iff_getElem?.mp hp
  have hne : ∀ {i k : Nat} {m n : Mention}, (entityMentions rt result trusted)[i]? = some m →
      (entityMentions rt result trusted)[k]? = some n → m.identifiers ≠ [] →
      n.identifiers = [] → i ≠ k := by
    rintro i _ m n hm hn hmi hni rfl
    rw [hm] at hn
    cases hn
    exact hmi hni
  have hchain : ∃ l, (entityMentions rt result trusted)[l]? = some q ∧
      Together rt (entityMentions rt result trusted ++ vs) i l := by
    clear hqb' hqb hq
    induction hpq with
    | refl => exact ⟨k, hk, h.together hvs (hne hi hk hai hpb) hi hk hap (Or.inr hpb)⟩
    | tail _ hlast ih =>
      obtain ⟨l, hl, hil⟩ := ih
      obtain ⟨_, hr, hqb, hrb, hs⟩ := hlast
      obtain ⟨o, ho⟩ := List.mem_iff_getElem?.mp hr
      by_cases hlo : l = o
      · exact ⟨o, ho, hlo ▸ hil⟩
      · exact ⟨o, ho, hil.trans (h.together hvs hlo hl ho hs (Or.inl hqb))⟩
  obtain ⟨l, hl, hil⟩ := hchain
  have hij := hil.trans (h.together hvs (hne hj hl hbi hqb).symm hl hj hqb' (Or.inl hqb))
  exact hlist.identifierChain
    (connected_of_together hij ⟨a, hleft hi, hai⟩ ⟨b, hleft hj, hbi⟩) (hleft hi) (hleft hj)

/-- With single identifiers, connected entities share one. -/
theorem IdentifierChain.shares {rt : Runtime Id} {es : List Mention}
    (hone : ∀ m ∈ es, ∀ x ∈ m.identifiers, ∀ y ∈ m.identifiers, x = y) {a b : Mention} (ha : a.identifiers ≠ [])
    (h : IdentifierChain rt es a b) : SharesIdentifier a b := by
  obtain ⟨x, hx⟩ := List.exists_mem_of_ne_nil _ ha
  suffices hb : a.kind = b.kind ∧ x ∈ b.identifiers from ⟨hb.1, x, hx, hb.2⟩
  induction h with
  | refl => exact ⟨rfl, hx⟩
  | tail _ hlast ih =>
    obtain ⟨hc, _, _, _, hkind, y, hy, hy'⟩ := hlast
    have hxy : x = y := hone _ hc x ih.2 y hy
    exact ⟨ih.1.trans hkind, hxy ▸ hy'⟩

/-- Settled names make the grouping independent of the order; an order-independent
grouping connects bridged entities by identifiers; and where no entity carries two
identifiers, the settled names are exactly the order-independent ones. -/
theorem orderFree_of_namesSettled (rt : Runtime Id) (result : ExtractionResult)
    (trusted : List Text) {ms : List Mention} (hms : mentions rt result trusted = .ok ms) :
    (NamesSettled rt (entityMentions rt result trusted) → OrderFree rt result trusted) ∧
    (OrderFree rt result trusted → ∀ a b, Bridged rt (entityMentions rt result trusted) a b →
      IdentifierChain rt (entityMentions rt result trusted) a b) ∧
    ((∀ m ∈ entityMentions rt result trusted,
        ∀ x ∈ m.identifiers, ∀ y ∈ m.identifiers, x = y) →
      (OrderFree rt result trusted ↔ NamesSettled rt (entityMentions rt result trusted))) := by
  obtain ⟨vs, hvs, _⟩ := mentions_eq_ok.mp hms
  refine ⟨fun hset => hset.orderFree, fun h a b hab => h.identifierChain hvs hab,
    fun hone => ⟨fun h a b hab => ?_, fun hset => hset.orderFree⟩⟩
  exact (h.identifierChain hvs hab).shares hone hab.left_identified

theorem orderFree_mailboxes : OrderFree plainRuntime mailboxes [] := by
  refine (orderFree_of_namesSettled plainRuntime mailboxes [] rfl).1 fun a b hab => ?_
  have hshare : ∀ a ∈ entityMentions plainRuntime mailboxes [],
      ∀ b ∈ entityMentions plainRuntime mailboxes [], a.identifiers ≠ [] → b.identifiers ≠ [] →
        a.kind = b.kind ∧ ∃ x ∈ a.identifiers, x ∈ b.identifiers := by decide +kernel
  exact hshare a hab.left_mem b hab.right_mem hab.left_identified hab.right_identified

/-- A bare name before the two people it fits. -/
def namesakes : ExtractionResult :=
  ⟨[plainPerson "Kim" [], plainPerson "Kim" ["a@x"], plainPerson "Kim" ["b@x"]], [], []⟩

/-- The bare name is put with the first of the two. -/
theorem not_orderFree_namesakes : ¬OrderFree plainRuntime namesakes [] := by
  intro h
  have hsame : Rearranged namesakes namesakes (Equiv.refl Nat) :=
    ⟨rfl, fun _ hi => ⟨hi, rfl⟩, fun _ hi => ⟨hi, rfl⟩⟩
  have hnever := (h _ rfl namesakes _ hsame _ rfl).2 0 _ rfl rfl
  have hguess : ∃ s ∈ track plainRuntime (entityMentions plainRuntime namesakes [] ++ []),
      ∃ t ∈ track plainRuntime (entityMentions plainRuntime namesakes [] ++ []), s ≠ t ∧
        s.1.Identified ∧ t.1.Identified ∧ s.1.kind = .person ∧ t.1.kind = .person ∧
        "kim".toList ∈ s.1.keys ∧ "kim".toList ∈ t.1.keys ∧ 0 ∈ s.2 := by decide +kernel
  obtain ⟨s, hs, t, ht, hst, hsi, hti, hsk, htk, hskey, htkey, hpos⟩ := hguess
  have hkim : "kim".toList ∈ (entityMention plainRuntime [] (plainPerson "Kim" [])).keys
      plainRuntime := by decide +kernel
  exact hnever s hs t ht hst hsi hti hsk htk ⟨_, hskey, hkim⟩ ⟨_, htkey, hkim⟩ hpos

end Maeglagi.Resolution
