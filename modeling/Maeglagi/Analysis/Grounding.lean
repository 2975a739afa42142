import Maeglagi.Analysis.Directory
import Maeglagi.PlainRuntime
import Maeglagi.Resolution.OrderFree
import Maeglagi.Resolution.Partition

/-!
# Where directory identifiers come from

Which mention brings an identifier of the directory's namespace into the graph, and when a
quotation of such a mention stands in the source.
-/

namespace Maeglagi

open Core Resolution

variable {Id : Type} [DecidableEq Id]

section canonical
variable (rt : Runtime Id) (result : AnalysisResult) (directory : Option (Snapshot Id))
  (sourceText : Text)

/-- The resolver's arguments after canonicalization. -/
def canonicalInfo (info : SourceInfo Id) : SourceInfo Id :=
  { info with trustedDirectoryIdentifiers :=
      (canonicalizeDirectoryEntities rt result directory sourceText).2 }

/-- The resolver on a canonicalized result. -/
def resolveCanonical (info : SourceInfo Id) : Except PyError (ResolvedGraph Id) :=
  resolveExtraction rt
    (canonicalizeDirectoryEntities rt result directory sourceText).1.toExtractionResult
    (canonicalInfo rt result directory sourceText info)

/-- The mention that the resolver makes of an extracted entity. -/
def canonicalMention (item : ExtractedEntity) : Mention :=
  entityMention rt (canonicalizeDirectoryEntities rt result directory sourceText).2
    (canonicalEntity rt result directory sourceText item)

/-- The extracted entity at the position ends in the graph's entity at a position. -/
def MentionEndsIn (i k : Nat) : Prop :=
  ∃ ms, mentions rt
      (canonicalizeDirectoryEntities rt result directory sourceText).1.toExtractionResult
      (canonicalizeDirectoryEntities rt result directory sourceText).2 = .ok ms ∧
    EndsIn rt ms i k

/-- A quotation of the entity stands in the source and contains a label or the email of the
record. -/
def Quotes (item : ExtractedEntity) (e : DirectoryEntry Id) : Prop :=
  ∃ ref ∈ item.sourceRefs, strip ref <:+: sourceText ∧
    ((∃ label ∈ e.name :: e.aliases, label ≠ [] ∧ label <:+: ref) ∨
      ∃ email ∈ e.email, rt.casefold email <:+: rt.casefold ref)

/-- Every directory identifier of the graph names a record of the snapshot that is the only match
of a mention in its entity, and a quotation of that mention stands in the source and contains a
label or the email of the record. -/
def DirectoryGrounded (graph : ResolvedGraph Id) : Prop :=
  ∀ k g x, graph.entities[k]? = some g → x ∈ g.identifiers → isDirectory x = true →
    ∃ i item e, result.entities[i]? = some item ∧
      MentionEndsIn rt result directory sourceText i k ∧
      e ∈ directoryEntries directory ∧ x = directoryIdentifier rt e ∧
      recordOf rt result directory sourceText item = some e ∧
      SoleMatch rt (directoryEntries directory) (item.unclaimed rt) e ∧
      Quotes rt sourceText item e

end canonical

omit [DecidableEq Id] in
theorem isDirectory_directoryIdentifier (rt : Runtime Id) (e : DirectoryEntry Id) :
    isDirectory (directoryIdentifier rt e) = true := by
  unfold isDirectory directoryIdentifier
  rw [List.append_assoc, List.isPrefixOf_iff_prefix]
  exact List.prefix_append ..

theorem colon_notMem_lower (k : EntityKind) : ':' ∉ k.value.map Char.toLower := by
  cases k <;> decide +kernel

theorem lower_injective : Function.Injective fun k : EntityKind => k.value.map Char.toLower := by
  have hnd : (EntityKind.all.map fun k => k.value.map Char.toLower).Nodup := by decide +kernel
  exact fun a b h => List.inj_on_of_nodup_map hnd a.mem_all b.mem_all h

omit [DecidableEq Id] in
/-- The identifier of a record determines its kind and its id. -/
theorem directoryIdentifier_inj {rt : Runtime Id} {e e' : DirectoryEntry Id}
    (h : directoryIdentifier rt e = directoryIdentifier rt e') :
    e.kind = e'.kind ∧ e.id = e'.id := by
  unfold directoryIdentifier at h
  rw [List.append_assoc, List.append_assoc] at h
  obtain ⟨hkind, hid⟩ := append_colon_inj (colon_notMem_lower _) (colon_notMem_lower _)
    (List.append_cancel_left h)
  exact ⟨lower_injective hkind, rt.str_injective hid⟩

variable {rt : Runtime Id} {result : AnalysisResult} {directory : Option (Snapshot Id)}
  {sourceText : Text} {info : SourceInfo Id} {graph : ResolvedGraph Id}

/-- The normal form of the identifier of every record is the identifier itself. -/
def PlainIdentifiers (rt : Runtime Id) (directory : Option (Snapshot Id)) : Prop :=
  ∀ e ∈ directoryEntries directory,
    normalizeIdentifier rt (directoryIdentifier rt e) = directoryIdentifier rt e

/-- Only the record of an entity gives its mention a directory identifier. -/
theorem mem_canonicalMention (hplain : PlainIdentifiers rt directory) {item : ExtractedEntity}
    (hitem : item ∈ result.entities) {x : Text} (hx : isDirectory x = true) :
    x ∈ (canonicalMention rt result directory sourceText item).identifiers ↔
      ∃ e, recordOf rt result directory sourceText item = some e ∧
        x = directoryIdentifier rt e := by
  have hmem : ∀ identifiers : List Text,
      x ∈ keptIdentifiers rt (canonicalizeDirectoryEntities rt result directory sourceText).2
        identifiers ↔ (∃ v ∈ identifiers, normalizeIdentifier rt v = x) ∧
        x ∈ (canonicalizeDirectoryEntities rt result directory sourceText).2 := by
    intro identifiers
    have hne : x ≠ [] := by
      rintro rfl
      exact absurd hx (by decide +kernel)
    simp [keptIdentifiers, hx, hne]
  have hunclaimed : ∀ v ∈ (item.unclaimed rt).identifiers, normalizeIdentifier rt v ≠ x := by
    rintro v hv rfl
    have := (List.mem_filter.mp hv).2
    simp [hx] at this
  rw [canonicalMention, entityMention, hmem, canonicalEntity]
  cases hrecord : recordOf rt result directory sourceText item with
  | none =>
    simp only [Option.elim_none, reduceCtorEq, false_and, exists_false, iff_false, not_and]
    rintro ⟨v, hv, hvx⟩
    exact absurd hvx (hunclaimed v hv)
  | some e =>
    have hnormal : normalizeIdentifier rt (directoryIdentifier rt e) = directoryIdentifier rt e :=
      hplain e (soleMatch_of_recordOf hrecord).1
    have htrusted : directoryIdentifier rt e ∈
        (canonicalizeDirectoryEntities rt result directory sourceText).2 := by
      rw [canonicalize_trusted]
      exact List.mem_map_of_mem (List.mem_filterMap.mpr ⟨item, hitem, hrecord⟩)
    simp only [Option.elim_some, Option.some.injEq, exists_eq_left', ExtractedEntity.recorded]
    constructor
    · rintro ⟨⟨v, hv, hvx⟩, -⟩
      split at hv
      · exact absurd hvx (hunclaimed v hv)
      · rcases List.mem_append.mp hv with hv | hv
        · exact absurd hvx (hunclaimed v hv)
        · rw [List.mem_singleton.mp hv, hnormal] at hvx
          exact hvx.symm
    · rintro rfl
      refine ⟨⟨directoryIdentifier rt e, ?_, hnormal⟩, htrusted⟩
      split
      · assumption
      · exact List.mem_append_right _ (List.mem_singleton_self _)

omit [DecidableEq Id] in
theorem directoryIdentifier_congr {e e' : DirectoryEntry Id} (hkind : e'.kind = e.kind)
    (hid : e'.id = e.id) : directoryIdentifier rt e' = directoryIdentifier rt e := by
  rw [directoryIdentifier, directoryIdentifier, hkind, hid]

theorem kind_canonicalMention (item : ExtractedEntity) :
    (canonicalMention rt result directory sourceText item).kind = item.kind := by
  rw [canonicalMention, canonicalEntity]
  cases recordOf rt result directory sourceText item <;> rfl

/-- The mentions after canonicalization: those of the extracted entities, and then the events,
which have no identifiers. -/
theorem canonical_mentions {ms : List Mention} (h : mentions rt
    (canonicalizeDirectoryEntities rt result directory sourceText).1.toExtractionResult
    (canonicalizeDirectoryEntities rt result directory sourceText).2 = .ok ms) :
    ∃ vs, ms = result.entities.map (canonicalMention rt result directory sourceText) ++ vs ∧
      ∀ v ∈ vs, v.identifiers = [] := by
  obtain ⟨vs, hvs, rfl⟩ := mentions_eq_ok.mp h
  refine ⟨vs, ?_, (listed hvs []).bare⟩
  rw [entityMentions, canonicalize_entities, List.map_map]
  rfl

/-- An identifier of the graph's `k`-th entity is one of a mention that ends there. -/
theorem mem_identifiers_iff {result : ExtractionResult} (info : SourceInfo Id) {ms : List Mention}
    (hms : mentions rt result info.trustedDirectoryIdentifiers = .ok ms)
    (h : resolveExtraction rt result info = .ok graph) {k : Nat} {g : GraphEntity Id}
    (hg : graph.entities[k]? = some g) {x : Text} :
    x ∈ g.identifiers ↔ ∃ i m, EndsIn rt ms i k ∧ ms[i]? = some m ∧ x ∈ m.identifiers := by
  have hentities := map_unlinked_eq_track hms h
  have hk := congrArg (fun entities => entities[k]?) hentities
  simp only [List.getElem?_map, hg, Option.map_some] at hk
  obtain ⟨t, ht, heq⟩ := Option.map_eq_some_iff.mp hk.symm
  have hids : g.identifiers = sortedSet t.1.identifiers := by
    rw [← unlinked_identifiers, ← heq]
    rfl
  rw [hids, mem_sortedSet, (track_partition rt ms).identifiers t (List.mem_of_getElem? ht)]
  constructor
  · rintro ⟨i, hi, m, hm, hx⟩
    exact ⟨i, m, ⟨t, ht, hi⟩, hm, hx⟩
  · rintro ⟨i, m, ⟨s, hs, hi⟩, hm, hx⟩
    obtain rfl := Option.some.inj (hs.symm.trans ht)
    exact ⟨i, hi, m, hm, hx⟩

/-- The graph has the entity that a mention ends in. -/
theorem exists_entity_of_endsIn {result : ExtractionResult} (info : SourceInfo Id)
    {ms : List Mention} (hms : mentions rt result info.trustedDirectoryIdentifiers = .ok ms)
    (h : resolveExtraction rt result info = .ok graph) {i k : Nat} (hk : EndsIn rt ms i k) :
    ∃ g, graph.entities[k]? = some g := by
  obtain ⟨t, ht, -⟩ := hk
  have hlen := congrArg List.length (map_unlinked_eq_track hms h)
  rw [List.length_map, List.length_map] at hlen
  obtain ⟨hlt, -⟩ := List.getElem?_eq_some_iff.mp ht
  exact ⟨_, List.getElem?_eq_getElem (hlen ▸ hlt)⟩

omit [DecidableEq Id] in
/-- A mention that ends in an entity has a key. -/
theorem keys_ne_of_endsIn {ms : List Mention} {i k : Nat} {m : Mention} (h : EndsIn rt ms i k)
    (hm : ms[i]? = some m) : m.keys rt ≠ [] := by
  obtain ⟨t, ht, hi⟩ := h
  obtain ⟨-, n, hn, hkeys, -⟩ := (track_partition rt ms).members t (List.mem_of_getElem? ht) i hi
  obtain rfl := Option.some.inj (hn.symm.trans hm)
  exact hkeys

/-- Every directory identifier of the graph is grounded exactly when each record that some entity
stands for, under a name with a key, is quoted for such an entity. -/
theorem directoryGrounded_iff (hplain : PlainIdentifiers rt directory)
    (h : resolveCanonical rt result directory sourceText info = .ok graph) :
    DirectoryGrounded rt result directory sourceText graph ↔
      ∀ item ∈ result.entities, ∀ e, recordOf rt result directory sourceText item = some e →
        (canonicalMention rt result directory sourceText item).keys rt ≠ [] →
        ∃ other ∈ result.entities, ∃ e',
          recordOf rt result directory sourceText other = some e' ∧
          e'.kind = e.kind ∧ e'.id = e.id ∧
          (canonicalMention rt result directory sourceText other).keys rt ≠ [] ∧
          Quotes rt sourceText other e' := by
  obtain ⟨run⟩ := resolveExtraction_resolved h
  obtain ⟨ms, hms⟩ : ∃ ms, mentions rt
      (canonicalizeDirectoryEntities rt result directory sourceText).1.toExtractionResult
      (canonicalizeDirectoryEntities rt result directory sourceText).2 = .ok ms :=
    ⟨run.ms, run.mentions_ok⟩
  obtain ⟨vs, hvs, hbare⟩ := canonical_mentions hms
  have hids : ∀ {k g x}, graph.entities[k]? = some g → (x ∈ g.identifiers ↔
      ∃ i m, EndsIn rt ms i k ∧ ms[i]? = some m ∧ x ∈ m.identifiers) := fun hg =>
    mem_identifiers_iff (canonicalInfo rt result directory sourceText info) hms h hg
  have hget : ∀ {i : Nat} {item}, result.entities[i]? = some item →
      ms[i]? = some (canonicalMention rt result directory sourceText item) := by
    intro i item hitem
    obtain ⟨hlt, -⟩ := List.getElem?_eq_some_iff.mp hitem
    rw [hvs, List.getElem?_append_left (by simpa using hlt), List.getElem?_map, hitem]
    rfl
  have hitemOf : ∀ {i : Nat} {m x}, ms[i]? = some m → x ∈ m.identifiers →
      ∃ item, result.entities[i]? = some item ∧
        m = canonicalMention rt result directory sourceText item := by
    intro i m x hm hx
    rw [hvs] at hm
    rcases Nat.lt_or_ge i (result.entities.map
      (canonicalMention rt result directory sourceText)).length with hi | hi
    · rw [List.getElem?_append_left hi, List.getElem?_map] at hm
      obtain ⟨item, hitem, rfl⟩ := Option.map_eq_some_iff.mp hm
      exact ⟨item, hitem, rfl⟩
    · rw [List.getElem?_append_right hi] at hm
      rw [hbare m (List.mem_of_getElem? hm)] at hx
      cases hx
  have hgiven : ∀ {item e}, item ∈ result.entities →
      recordOf rt result directory sourceText item = some e → directoryIdentifier rt e ∈
        (canonicalMention rt result directory sourceText item).identifiers := fun hitem hrecord =>
    (mem_canonicalMention hplain hitem (isDirectory_directoryIdentifier rt _)).mpr
      ⟨_, hrecord, rfl⟩
  constructor
  · intro hgrounded item hitem e hrecord hkeys
    obtain ⟨i, hi⟩ := List.mem_iff_getElem?.mp hitem
    obtain ⟨k, hk⟩ := exists_endsIn (hget hi) hkeys
    obtain ⟨g, hg⟩ := exists_entity_of_endsIn (canonicalInfo rt result directory sourceText info)
      hms h hk
    have hx := (hids hg).mpr ⟨i, _, hk, hget hi, hgiven hitem hrecord⟩
    obtain ⟨j, other, e', hj, ⟨ms', hms', hends⟩, -, hsame, hrecord', -, hquotes⟩ :=
      hgrounded k g _ hg hx (isDirectory_directoryIdentifier rt e)
    obtain rfl : ms' = ms := Except.ok.inj (hms'.symm.trans hms)
    obtain ⟨hkind, hid⟩ := directoryIdentifier_inj hsame
    exact ⟨other, List.mem_of_getElem? hj, e', hrecord', hkind.symm, hid.symm,
      keys_ne_of_endsIn hends (hget hj), hquotes⟩
  · intro hquoted k g x hg hx hdirectory
    obtain ⟨i, m, hends, hm, hxm⟩ := (hids hg).mp hx
    obtain ⟨item, hitem, rfl⟩ := hitemOf hm hxm
    have hmem := List.mem_of_getElem? hitem
    obtain ⟨e, hrecord, rfl⟩ := (mem_canonicalMention hplain hmem hdirectory).mp hxm
    obtain ⟨other, hother, e', hrecord', hkind, hid, hkeys, hquotes⟩ :=
      hquoted item hmem e hrecord (keys_ne_of_endsIn hends hm)
    obtain ⟨j, hj⟩ := List.mem_iff_getElem?.mp hother
    have hsole := soleMatch_of_recordOf hrecord
    have hsole' := soleMatch_of_recordOf hrecord'
    -- the two mentions share the identifier of the record
    have hoverlap : Overlap rt ms i j := by
      refine ⟨_, _, hm, hget hj, keys_ne_of_endsIn hends hm, hkeys, ?_, _, hxm, ?_⟩
      · rw [kind_canonicalMention, kind_canonicalMention]
        exact hsole.2.1.symm.trans (hkind.symm.trans hsole'.2.1)
      · rw [← directoryIdentifier_congr hkind hid]
        exact hgiven hother hrecord'
    obtain ⟨l, hil, hjl⟩ := together_of_overlap hoverlap
    obtain rfl := hil.unique hends
    exact ⟨j, other, e', hj, ⟨ms, hms, hjl⟩, hsole'.1,
      (directoryIdentifier_congr hkind hid).symm, hrecord', hsole', hquotes⟩

/-- The directory with the one person Kim. -/
def kimDirectory : Option (Snapshot Text) :=
  some ⟨none, [], [⟨"p".toList, "Kim".toList, none, some "kim@x".toList, []⟩], []⟩

/-- A result that names one person, with an email and quotations. -/
def mentionOf (name : String) (refs : List String) : AnalysisResult :=
  { entities := [⟨name.toList, .person, [], ["kim@x".toList], refs.map String.toList⟩]
    events := []
    relations := []
    classification := ⟨.meeting, [], []⟩
    contexts := []
    warnings := []
    usage := [] }

theorem directoryGrounded_kim : ∃ graph,
    resolveCanonical plainRuntime (mentionOf "Kim" ["Kim spoke"]) kimDirectory
        "Kim spoke".toList (plainSource "s") = .ok graph ∧
      DirectoryGrounded plainRuntime (mentionOf "Kim" ["Kim spoke"]) kimDirectory
        "Kim spoke".toList graph := by
  have hplain : PlainIdentifiers plainRuntime kimDirectory := by
    unfold PlainIdentifiers
    decide +kernel
  obtain ⟨graph, hgraph⟩ : ∃ graph, resolveCanonical plainRuntime (mentionOf "Kim" ["Kim spoke"])
      kimDirectory "Kim spoke".toList (plainSource "s") = .ok graph := ⟨_, rfl⟩
  refine ⟨graph, hgraph, (directoryGrounded_iff hplain hgraph).mpr ?_⟩
  rintro item hitem e hrecord hkeys
  obtain rfl := List.mem_singleton.mp hitem
  refine ⟨_, hitem, e, hrecord, rfl, rfl, hkeys, "Kim spoke".toList, by decide +kernel,
    by decide +kernel, .inl ⟨"Kim".toList, ?_, by decide +kernel, by decide +kernel⟩⟩
  cases hrecord
  exact List.mem_cons_self ..

/-- The email of the record stands only in a quotation that is not in the source. -/
theorem not_directoryGrounded_email : ∃ graph,
    resolveCanonical plainRuntime (mentionOf "K" ["K spoke", "mail kim@x"]) kimDirectory
        "K spoke".toList (plainSource "s") = .ok graph ∧
      ¬DirectoryGrounded plainRuntime (mentionOf "K" ["K spoke", "mail kim@x"]) kimDirectory
        "K spoke".toList graph := by
  refine ⟨_, rfl, fun h => ?_⟩
  obtain ⟨i, item, e, hitem, -, -, -, hrecord, -, ref, href, hquoted, hcontains⟩ :=
    h 0 _ "directory:person:p".toList rfl (by decide +kernel) (by decide +kernel)
  obtain rfl := List.mem_singleton.mp (List.mem_of_getElem? hitem)
  cases hrecord
  revert hquoted hcontains
  rcases List.mem_cons.mp href with rfl | href
  · decide +kernel
  · rw [List.mem_singleton.mp href]
    decide +kernel

end Maeglagi
