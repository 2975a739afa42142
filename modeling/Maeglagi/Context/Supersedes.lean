import Mathlib.Logic.Relation
import Maeglagi.Core.Dict
import Maeglagi.Core.Sorting
import Maeglagi.Runtime

/-!
# Superseded timeline records

`_superseded_by` of the HTTP timeline maps a record to the last record to occur of those
that name its key as replaced. Nothing there compares the two: the map follows time, and
has no cycle, exactly when the records say so themselves.
-/

namespace Maeglagi.Context

open Core

variable {Id : Type} [DecidableEq Id]

/-- The columns of a `ContextRecord` that decide which records replace which. -/
structure TimelineRecord (Id : Type) where
  id : Id
  ownerId : Id
  workspaceId : Id
  key : Option Text
  supersedes : Option Text
  occurredAt : Option Instant
  createdAt : Instant
  deriving DecidableEq

/-- Rows of `contexts`, told apart by their primary key. -/
structure Timeline (Id : Type) where
  records : List (TimelineRecord Id)
  ids : (records.map (·.id)).Nodup

/-- `_occurred` -/
def TimelineRecord.occurred (x : TimelineRecord Id) : Instant := x.occurredAt.getD x.createdAt

/-- The key that a record says it replaces. -/
def TimelineRecord.target (x : TimelineRecord Id) : Option Text :=
  x.supersedes.filter fun t => !t.isEmpty

/-- The record `newer` replaces `older`. -/
def replacesRecord (newer older : TimelineRecord Id) : Bool :=
  newer.target.any fun target => decide (older.id ≠ newer.id) &&
    decide (older.ownerId = newer.ownerId) && decide (older.workspaceId = newer.workspaceId) &&
    decide (older.key = some target)

/-- `_superseded_by` -/
def supersededBy (records : List (TimelineRecord Id)) : Dict Id Id :=
  (sortBy TimelineRecord.occurred records).foldl (fun replaced newer =>
    records.foldl (fun replaced older =>
      if replacesRecord newer older then replaced.set older.id newer.id else replaced) replaced)
    Dict.empty

/-- The records that replace `x`. -/
def LatestFor (records : List (TimelineRecord Id)) (x y : TimelineRecord Id) : Prop :=
  LastOf TimelineRecord.occurred (replacesRecord · x) records y

/-- The first record leads to the second in the map, and they occur at the same moment. -/
def SameMoment (records : List (TimelineRecord Id)) (x y : TimelineRecord Id) : Prop :=
  x ∈ records ∧ LatestFor records x y ∧ x.occurred = y.occurred

omit [DecidableEq Id] in
theorem Timeline.nodup (t : Timeline Id) : t.records.Nodup := List.Nodup.of_map _ t.ids

/-- One successor is written to the records it replaces. -/
theorem get?_replaceAll {records : List (TimelineRecord Id)} (newer : TimelineRecord Id)
    (replaced : Dict Id Id) (k : Id) :
    (records.foldl (fun replaced older =>
      if replacesRecord newer older then replaced.set older.id newer.id else replaced)
        replaced).get? k =
      if ∃ older ∈ records, older.id = k ∧ replacesRecord newer older = true then some newer.id
      else replaced.get? k := by
  induction records generalizing replaced with
  | nil => simp
  | cons older records ih =>
    rw [List.foldl_cons, ih]
    by_cases hrest : ∃ older ∈ records, older.id = k ∧ replacesRecord newer older = true
    · have hall : ∃ x ∈ older :: records, x.id = k ∧ replacesRecord newer x = true := by
        obtain ⟨x, hx, h⟩ := hrest
        exact ⟨x, List.mem_cons_of_mem _ hx, h⟩
      rw [if_pos hrest, if_pos hall]
    · rw [if_neg hrest]
      by_cases hfirst : older.id = k ∧ replacesRecord newer older = true
      · rw [if_pos hfirst.2, if_pos ⟨older, List.mem_cons_self .., hfirst⟩, ← hfirst.1,
          Dict.get?_set_self]
      · have hnone : ¬ ∃ x ∈ older :: records, x.id = k ∧ replacesRecord newer x = true := by
          rintro ⟨x, hx, h⟩
          rcases List.mem_cons.mp hx with rfl | hx
          · exact hfirst h
          · exact hrest ⟨x, hx, h⟩
        rw [if_neg hnone]
        split_ifs with hreplaces
        · exact Dict.get?_set_ne _ _ fun hk => hfirst ⟨hk.symm, hreplaces⟩
        · rfl

/-- The map sends a record to the last of the records that replace it. -/
theorem get?_supersededBy {t : Timeline Id} {x : TimelineRecord Id} (hx : x ∈ t.records) :
    (supersededBy t.records).get? x.id =
      (((sortBy TimelineRecord.occurred t.records).filter (replacesRecord · x)).getLast?).map
        (·.id) := by
  have hone : ∀ newer : TimelineRecord Id,
      (∃ older ∈ t.records, older.id = x.id ∧ replacesRecord newer older = true) ↔
        replacesRecord newer x = true := by
    intro newer
    constructor
    · rintro ⟨older, holder, hid, h⟩
      obtain rfl := List.inj_on_of_nodup_map t.ids holder hx hid
      exact h
    · exact fun h => ⟨x, hx, rfl, h⟩
  suffices hfold : ∀ (l : List (TimelineRecord Id)) (replaced : Dict Id Id),
      (l.foldl (fun replaced newer => t.records.foldl (fun replaced older =>
        if replacesRecord newer older then replaced.set older.id newer.id else replaced) replaced)
          replaced).get? x.id =
        (((l.filter (replacesRecord · x)).getLast?).map (·.id)).or (replaced.get? x.id) by
    rw [supersededBy, hfold, Dict.get?_empty, Option.or_none]
  intro l
  induction l with
  | nil => simp
  | cons newer l ih =>
    intro replaced
    rw [List.foldl_cons, ih, get?_replaceAll, if_congr (hone newer) rfl rfl, List.filter_cons]
    split_ifs with h
    · rw [List.getLast?_cons]
      cases (l.filter (replacesRecord · x)).getLast? <;> rfl
    · rfl

/-- The map sends `x` to `y` exactly when `y` is the latest record that replaces it. -/
theorem get?_supersededBy_iff {t : Timeline Id} {x y : TimelineRecord Id} (hx : x ∈ t.records)
    (hy : y ∈ t.records) :
    (supersededBy t.records).get? x.id = some y.id ↔ LatestFor t.records x y := by
  rw [get?_supersededBy hx, LatestFor, ← getLast?_sortBy_filter t.nodup, Option.map_eq_some_iff]
  constructor
  · rintro ⟨y', hlast, hid⟩
    have hy' := mem_sortBy.mp (List.mem_filter.mp (List.mem_of_getLast? hlast)).1
    obtain rfl := List.inj_on_of_nodup_map t.ids hy' hy hid
    exact hlast
  · exact fun h => ⟨y, h, rfl⟩

/-- Whatever the map holds is about two of the records. -/
theorem exists_latestFor {t : Timeline Id} {k v : Id}
    (h : (supersededBy t.records).get? k = some v) :
    ∃ x ∈ t.records, ∃ y ∈ t.records, x.id = k ∧ y.id = v ∧ LatestFor t.records x y := by
  have hkey : k ∈ t.records.map (·.id) := by
    by_contra hk
    suffices hnone : ∀ (l : List (TimelineRecord Id)) (replaced : Dict Id Id),
        replaced.get? k = none → (l.foldl (fun replaced newer =>
          t.records.foldl (fun replaced older =>
            if replacesRecord newer older then replaced.set older.id newer.id else replaced)
              replaced) replaced).get? k = none by
      rw [supersededBy, hnone _ _ rfl] at h
      cases h
    intro l
    induction l with
    | nil => exact fun _ h => h
    | cons newer l ih =>
      intro replaced hreplaced
      rw [List.foldl_cons]
      apply ih
      rw [get?_replaceAll, if_neg ?_, hreplaced]
      rintro ⟨older, holder, rfl, -⟩
      exact hk (List.mem_map_of_mem holder)
  obtain ⟨x, hx, rfl⟩ := List.mem_map.mp hkey
  have hlast := h
  rw [get?_supersededBy hx, Option.map_eq_some_iff] at hlast
  obtain ⟨y, hlast, rfl⟩ := hlast
  have hlatest : LatestFor t.records x y := lastOf_sortBy t.nodup hlast
  exact ⟨x, hx, y, hlatest.1.1, rfl, rfl, hlatest⟩

/-- Along steps that never go down, a path between equal values stays level. -/
theorem transGen_level {α κ : Type} [LinearOrder κ] {R : α → α → Prop} {f : α → κ}
    (hle : ∀ a b, R a b → f a ≤ f b) {a b : α} (h : Relation.TransGen R a b) :
    f a ≤ f b ∧ (f a = f b → Relation.TransGen (fun a b => R a b ∧ f a = f b) a b) := by
  induction h with
  | single hab => exact ⟨hle _ _ hab, fun heq => .single ⟨hab, heq⟩⟩
  | tail _ hbc ih =>
    obtain ⟨hab, hlevel⟩ := ih
    have hlast := hle _ _ hbc
    refine ⟨hab.trans hlast, fun heq => ?_⟩
    have hmid := le_antisymm hab (heq ▸ hlast)
    exact .tail (hlevel hmid) ⟨hbc, hmid.symm.trans heq⟩

/-- The map respects time and has no cycle exactly when every record that is replaced at all
is replaced by one that occurs no earlier, and no records of one moment replace each other
in a circle. -/
theorem supersededBy_respects_time_iff (t : Timeline Id) :
    ((∀ x ∈ t.records, ∀ y ∈ t.records, (supersededBy t.records).get? x.id = some y.id →
        x.occurred ≤ y.occurred) ∧
      ∀ k, ¬ Relation.TransGen (fun k k' => (supersededBy t.records).get? k = some k') k k) ↔
    (∀ x ∈ t.records, (∃ y ∈ t.records, replacesRecord y x = true) →
        ∃ y ∈ t.records, replacesRecord y x = true ∧ x.occurred ≤ y.occurred) ∧
      ∀ x, ¬ Relation.TransGen (SameMoment t.records) x x := by
  constructor
  · rintro ⟨htime, hacyclic⟩
    refine ⟨fun x hx => ?_, fun x hcycle => hacyclic x.id ?_⟩
    · rintro ⟨z, hz, hreplaces⟩
      have hlast : ∃ y, LatestFor t.records x y :=
        exists_lastOf (p := (replacesRecord · x)) t.nodup hz hreplaces
      obtain ⟨y, hlatest⟩ := hlast
      have hy := hlatest.1.1
      exact ⟨y, hy, hlatest.1.2, htime x hx y hy ((get?_supersededBy_iff hx hy).mpr hlatest)⟩
    · refine Relation.TransGen.lift TimelineRecord.id (fun a b hab => ?_) _ _ hcycle
      obtain ⟨ha, hlatest, -⟩ := hab
      exact (get?_supersededBy_iff ha hlatest.1.1).mpr hlatest
  · rintro ⟨htime, hlevel⟩
    have hstep : ∀ x y, x ∈ t.records ∧ LatestFor t.records x y → x.occurred ≤ y.occurred := by
      rintro x y ⟨hx, hlatest⟩
      obtain ⟨z, hz, hreplaces, hle⟩ := htime x hx ⟨y, hlatest.1⟩
      exact hle.trans (hlatest.2 z hz hreplaces).1
    refine ⟨fun x hx y hy h => hstep x y ⟨hx, (get?_supersededBy_iff hx hy).mp h⟩, ?_⟩
    intro k hcycle
    -- the cycle of ids is one of records
    have hrecords : ∀ k k', Relation.TransGen
        (fun k k' => (supersededBy t.records).get? k = some k') k k' →
        ∃ x ∈ t.records, ∃ y ∈ t.records, x.id = k ∧ y.id = k' ∧
          Relation.TransGen (fun x y => x ∈ t.records ∧ LatestFor t.records x y) x y := by
      intro k k' h
      induction h with
      | single h =>
        obtain ⟨x, hx, y, hy, hxk, hyk, hlatest⟩ := exists_latestFor h
        exact ⟨x, hx, y, hy, hxk, hyk, .single ⟨hx, hlatest⟩⟩
      | tail _ h ih =>
        obtain ⟨x, hx, y, hy, hxk, rfl, hpath⟩ := ih
        obtain ⟨y', hy', z, hz, hyy, hzk, hlatest⟩ := exists_latestFor h
        obtain rfl := List.inj_on_of_nodup_map t.ids hy' hy hyy
        exact ⟨x, hx, z, hz, hxk, hzk, hpath.tail ⟨hy, hlatest⟩⟩
    obtain ⟨x, hx, y, hy, hxk, hyk, hpath⟩ := hrecords k k hcycle
    obtain rfl := List.inj_on_of_nodup_map t.ids hx hy (hxk.trans hyk.symm)
    have hsame := (transGen_level (f := TimelineRecord.occurred) hstep hpath).2 rfl
    refine hlevel x (Relation.TransGen.mono (fun a b hab => ?_) _ _ hsame)
    exact ⟨hab.1.1, hab.1.2, hab.2⟩

/-- A decision, and an earlier one that names it as replaced. -/
def restatedTimeline : Timeline Nat where
  records :=
    [⟨0, 0, 0, some "a".toList, none, some (instantAt 2), instantAt 2⟩,
      ⟨1, 0, 0, some "b".toList, some "a".toList, some (instantAt 1), instantAt 3⟩]
  ids := by decide

/-- The decision is mapped to one that occurred before it. -/
theorem supersededBy_restated :
    ¬ ∀ x ∈ restatedTimeline.records, ∀ y ∈ restatedTimeline.records,
      (supersededBy restatedTimeline.records).get? x.id = some y.id →
        x.occurred ≤ y.occurred := by
  intro h
  have hmap : (supersededBy restatedTimeline.records).get? 0 = some 1 := by decide +kernel
  have hle := h _ (List.mem_cons_self ..) _ (List.mem_cons_of_mem _ (List.mem_singleton_self _)) hmap
  revert hle
  decide

end Maeglagi.Context
