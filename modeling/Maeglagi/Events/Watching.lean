import Maeglagi.Events.Channel

/-!
# What a channel watches

The runs of the current generation watch exactly the ids that the channel synced last, each
once. The count includes a run that is handled and the ids that a `sync` is about to stream;
both are back in streams when the callbacks have returned.
-/

namespace Maeglagi.Events

open Core

namespace Channel

variable {c : Channel} {run : Run} {runs rest : List Run} {pending synced ids : List SourceId}

/-- The runs of the current generation. -/
def live (c : Channel) : List Run := c.runs.filter fun run => decide (run.generation = c.generation)

theorem mem_ids {id : SourceId} : id ∈ c.ids ↔ id ∈ c.requested ∧ id ∉ c.invalid := by
  simp [ids]

theorem nodup_ids (c : Channel) : c.ids.Nodup := nodup_sortedSet _

/-- Ids are read back from their key. -/
theorem key_injective {ids ids' : List SourceId} (h : key ids = key ids') : ids = ids' := by
  have hclean : ∀ ids : List SourceId, ∀ t ∈ ids.map Subtype.val, t ≠ [] ∧ ',' ∉ t := by
    intro ids t ht
    obtain ⟨id, -, rfl⟩ := List.mem_map.mp ht
    exact id.2
  exact List.map_injective_iff.mpr Subtype.val_injective
    (intercalate_injective (hclean ids) (hclean ids') h)

/-- Invalid ids that are asked for are kept. -/
theorem mem_invalid_prune {id : SourceId} (hid : id ∈ c.requested) :
    id ∈ c.prune.invalid ↔ id ∈ c.invalid := by
  simp only [prune, invalid, List.mem_map, List.mem_filter, decide_eq_true_eq]
  constructor
  · rintro ⟨entry, ⟨hentry, -⟩, rfl⟩
    exact ⟨entry, hentry, rfl⟩
  · rintro ⟨entry, hentry, rfl⟩
    exact ⟨entry, ⟨hentry, hid⟩, rfl⟩

@[simp] theorem ids_prune : c.prune.ids = c.ids :=
  congrArg sortedSet (List.filter_congr fun _ hid =>
    decide_eq_decide.mpr (not_congr (mem_invalid_prune hid)))

theorem exists_settle (c : Channel) :
    ∃ failing state, c.settle = { c with failing := failing, connectionState := state } := by
  have hfold : ∀ (l : List Nat) (c : Channel), ∃ failing state,
      l.foldl (fun c run => c.markRun run false) c =
        { c with failing := failing, connectionState := state } := by
    intro l
    induction l with
    | nil => exact fun c => ⟨_, _, rfl⟩
    | cons run l ih => exact fun c => ih (c.markRun run false)
  exact hfold c.failing c

/-- What `start` leaves as it is. -/
theorem start_frame (c : Channel) (signal generation : Nat) (batch : List SourceId) :
    (c.start signal generation batch).handling = c.handling ∧
    (c.start signal generation batch).syncing = c.syncing ∧
    (c.start signal generation batch).subscribers = c.subscribers ∧
    (c.start signal generation batch).invalidIds = c.invalidIds ∧
    (c.start signal generation batch).generation = c.generation := by
  rw [start]
  split
  · exact ⟨rfl, rfl, rfl, rfl, rfl⟩
  · exact ⟨rfl, rfl, rfl, rfl, rfl⟩

/-- Two runs that are started with a signal that is not aborted. -/
theorem start_start {signal generation : Nat} {first second : List SourceId}
    (hsignal : signal ∉ c.aborted) (hgen : generation = c.generation) :
    (c.start signal generation first).start signal generation second = { c with
      runs := c.runs ++ [⟨c.serials, first, signal, generation, 0, false⟩,
        ⟨c.serials + 1, second, signal, generation, 0, false⟩]
      serials := c.serials + 1 + 1 } := by
  have hgoes : ¬(signal ∈ c.aborted ∨ generation ≠ c.generation) := by simp [hsignal, hgen]
  have hfirst : c.start signal generation first = { c with
      runs := c.runs ++ [⟨c.serials, first, signal, generation, 0, false⟩]
      serials := c.serials + 1 } := if_neg hgoes
  rw [hfirst, start, if_neg hgoes]
  simp

theorem exists_foldl_start (signal generation : Nat) (batches : List (List SourceId))
    (c : Channel) : ∃ started serials,
    batches.foldl (start signal generation) c =
      { c with runs := c.runs ++ started, serials := serials } ∧
    ((signal ∉ c.aborted ∧ generation = c.generation) → started.map Run.ids = batches) ∧
    ∀ run ∈ started, run.generation = c.generation ∧ run.signal = signal ∧ signal ∉ c.aborted := by
  induction batches generalizing c with
  | nil => exact ⟨[], c.serials, by simp, fun _ => rfl, by simp⟩
  | cons batch batches ih =>
    rw [List.foldl_cons]
    by_cases hstale : signal ∈ c.aborted ∨ generation ≠ c.generation
    · obtain ⟨started, serials, hfold, -, hstarted⟩ := ih c
      refine ⟨started, serials, by rw [start, if_pos hstale, hfold], ?_, hstarted⟩
      rintro ⟨hsignal, hgen⟩
      exact absurd hstale (by simp [hsignal, hgen])
    · obtain ⟨started, serials, hfold, hids, hstarted⟩ := ih
        { c with
          runs := c.runs ++ [⟨c.serials, batch, signal, generation, 0, false⟩]
          serials := c.serials + 1 }
      obtain ⟨hsignal, hgen⟩ := not_or.mp hstale
      rw [start, if_neg hstale, hfold]
      refine ⟨⟨c.serials, batch, signal, generation, 0, false⟩ :: started, serials, by simp,
        fun h => congrArg (batch :: ·) (hids h), ?_⟩
      rintro run (_ | ⟨_, hrun⟩)
      · exact ⟨not_not.mp hgen, rfl, hsignal⟩
      · exact hstarted run hrun

/-- Streaming some ids starts runs of the current generation for them. -/
theorem exists_stream (c : Channel) (ids : List SourceId) :
    ∃ started serials controller controllers,
    c.stream ids = { c with
      runs := c.runs ++ started, serials := serials, controller := controller,
      controllers := controllers } ∧
    (c.controllers ∉ c.aborted → started.flatMap Run.ids = ids) ∧
    (∀ run ∈ started, (0 < run.ids.length ∧ run.ids.length ≤ batchSize) ∧
      run.generation = c.generation ∧ run.signal ∉ c.aborted) ∧
    (controller = c.controller ∧ controllers = c.controllers ∨
      controller = some c.controllers ∧ controllers = c.controllers + 1) := by
  by_cases hids : ids = []
  · refine ⟨[], c.serials, c.controller, c.controllers, ?_, fun _ => by simp [hids], by simp,
      .inl ⟨rfl, rfl⟩⟩
    rw [stream, if_pos hids, List.append_nil]
  · obtain ⟨started, serials, hfold, hbatches, hstarted⟩ := exists_foldl_start c.controllers
      c.generation (slices batchSize ids)
      { c with controller := some c.controllers, controllers := c.controllers + 1 }
    refine ⟨started, serials, some c.controllers, c.controllers + 1, ?_, ?_, ?_,
      .inr ⟨rfl, rfl⟩⟩
    · rw [stream, if_neg hids, hfold]
    · intro hfresh
      rw [List.flatMap_def, hbatches ⟨hfresh, rfl⟩, flatten_slices (by decide)]
    · intro run hrun
      obtain ⟨hgen, hsignal, hfresh⟩ := hstarted run hrun
      have hslice : run.ids ∈ slices batchSize ids := by
        rw [← hbatches ⟨hfresh, rfl⟩]
        exact List.mem_map_of_mem hrun
      exact ⟨⟨length_pos_of_mem_slices (by decide) hslice, length_le_of_mem_slices hslice⟩, hgen,
        hsignal ▸ hfresh⟩

/-- What `stream` leaves as it is. -/
theorem stream_frame (c : Channel) (ids : List SourceId) :
    (c.stream ids).subscribers = c.subscribers ∧ (c.stream ids).invalidIds = c.invalidIds ∧
    (c.stream ids).handling = c.handling ∧ (c.stream ids).syncing = c.syncing := by
  obtain ⟨started, serials, controller, controllers, h, -⟩ := exists_stream c ids
  rw [h]
  exact ⟨rfl, rfl, rfl, rfl⟩

/-- What `sync` leaves as it is. -/
theorem sync_frame (c : Channel) :
    c.sync.subscribers = c.subscribers ∧ c.sync.invalidIds = c.prune.invalidIds ∧
    c.sync.handling = c.handling := by
  by_cases hkey : key c.prune.ids = c.prune.idsKey
  · rw [sync, if_pos hkey]
    exact ⟨rfl, rfl, rfl⟩
  · obtain ⟨failing, state, hsettle⟩ := exists_settle (c.prune.restart c.prune.ids)
    simp only [sync, if_neg hkey, hsettle]
    split
    · exact ⟨rfl, rfl, rfl⟩
    · obtain ⟨hsubs, hinvalid, hhandling, -⟩ := stream_frame
        { c.prune.restart c.prune.ids with failing := failing, connectionState := state }
        c.prune.ids
      exact ⟨hsubs, hinvalid, hhandling⟩

/-- The ids to be watched are read from the subscribers and the invalid ids. -/
theorem ids_congr {c' : Channel} (hsubs : c'.subscribers = c.subscribers)
    (hinvalid : c'.invalidIds = c.invalidIds) : c'.ids = c.ids := by
  have hrequested : c'.requested = c.requested := by rw [requested, hsubs, requested]
  have hmarked : c'.invalid = c.invalid := by rw [invalid, hinvalid, invalid]
  rw [Channel.ids, hrequested, hmarked, Channel.ids]

@[simp] theorem ids_start {signal generation : Nat} :
    (c.start signal generation ids).ids = c.ids :=
  ids_congr (start_frame c signal generation ids).2.2.1 (start_frame c signal generation ids).2.2.2.1

@[simp] theorem ids_stream : (c.stream ids).ids = c.ids :=
  ids_congr (stream_frame c ids).1 (stream_frame c ids).2.1

@[simp] theorem ids_sync : c.sync.ids = c.ids :=
  (ids_congr (c := c.prune) (sync_frame c).1 (sync_frame c).2.1).trans ids_prune

/-- The ids that the runs of a generation watch. -/
def watched (generation : Nat) (runs : List Run) : List SourceId :=
  (runs.filter fun run => decide (run.generation = generation)).flatMap Run.ids

theorem watched_append {generation : Nat} {runs' : List Run} :
    watched generation (runs ++ runs') = watched generation runs ++ watched generation runs' := by
  simp [watched]

theorem watched_perm {generation : Nat} {runs' : List Run} (h : runs.Perm runs') :
    (watched generation runs).Perm (watched generation runs') :=
  (h.filter _).flatMap_right _

theorem watched_all {generation : Nat} (h : ∀ run ∈ runs, run.generation = generation) :
    watched generation runs = runs.flatMap Run.ids := by
  rw [watched, List.filter_eq_self.mpr fun run hrun => decide_eq_true (h run hrun)]

theorem watched_none {generation : Nat} (h : ∀ run ∈ runs, run.generation ≠ generation) :
    watched generation runs = [] := by
  rw [watched, List.filter_eq_nil_iff.mpr fun run hrun => by simpa using h run hrun]
  rfl

theorem mem_watched {generation : Nat} {id : SourceId} :
    id ∈ watched generation runs ↔ ∃ run ∈ runs, run.generation = generation ∧ id ∈ run.ids := by
  simp [watched, and_assoc]

/-- The run of the outcome whose callbacks are running. -/
def handled (c : Channel) : List Run := (c.handling.map Handling.run).toList

/-- A batch of the size of one, of no later generation; a current one is not aborted. -/
def Sound (c : Channel) (run : Run) : Prop :=
  (0 < run.ids.length ∧ run.ids.length ≤ batchSize) ∧ run.generation ≤ c.generation ∧
    (run.generation = c.generation → run.signal ∉ c.aborted)

/-- The runs of the channel and some that are in hand watch the synced ids, but for those that
are pending. -/
structure Covers (c : Channel) (rest : List Run) (pending synced : List SourceId) : Prop where
  idsKey : c.idsKey = key synced
  covered : (watched c.generation (c.runs ++ rest) ++ pending).Perm synced
  sound : ∀ run ∈ c.runs ++ rest, c.Sound run
  made : (∀ k ∈ c.aborted, k < c.controllers) ∧ ∀ k ∈ c.controller, k < c.controllers

theorem Covers.stream (h : Covers c rest (ids ++ pending) synced) :
    Covers (c.stream ids) rest pending synced := by
  obtain ⟨started, serials, controller, controllers, heq, hids, hstarted, hmade⟩ :=
    exists_stream c ids
  have hfresh : c.controllers ∉ c.aborted := fun hmem => Nat.lt_irrefl _ (h.made.1 _ hmem)
  rw [heq]
  refine ⟨h.idsKey, ?_, fun run hrun => ?_, ?_⟩
  · refine List.Perm.trans ?_ h.covered
    have hnew : watched c.generation started = ids :=
      (watched_all fun run hrun => (hstarted run hrun).2.1).trans (hids hfresh)
    simp only [watched_append, List.append_assoc, hnew]
    exact (List.perm_append_comm_assoc _ _ _).append_left _
  · have hcase : run ∈ started ∨ run ∈ c.runs ++ rest := by
      simp only [List.mem_append] at hrun ⊢
      tauto
    rcases hcase with hrun | hrun
    · obtain ⟨hbatch, hgen, hsignal⟩ := hstarted run hrun
      exact ⟨hbatch, hgen.le, fun _ => hsignal⟩
    · exact h.sound run hrun
  · obtain ⟨rfl, rfl⟩ | ⟨rfl, rfl⟩ := hmade
    · exact h.made
    · refine ⟨fun k hk => Nat.lt_succ_of_lt (h.made.1 k hk), fun k hk => ?_⟩
      cases hk
      exact Nat.lt_succ_self _

/-- The channel after `sync` has given up its streams. -/
theorem Covers.restart (h : Covers c rest pending synced) (ids : List SourceId)
    (hsyncing : c.syncing.flatten = []) : Covers (c.restart ids) rest (ids ++ c.syncing.flatten) ids := by
  have hold : ∀ run ∈ c.runs ++ rest, run.generation ≠ c.generation + 1 := fun run hrun =>
    Nat.ne_of_lt (Nat.lt_succ_of_le (h.sound run hrun).2.1)
  refine ⟨rfl, ?_, fun run hrun => ⟨(h.sound run hrun).1,
    Nat.le_succ_of_le (h.sound run hrun).2.1, fun heq => absurd heq (hold run hrun)⟩, ?_, ?_⟩
  · change (watched (c.generation + 1) (c.runs ++ rest) ++ _).Perm ids
    rw [watched_none hold, hsyncing, List.nil_append, List.append_nil]
  · intro k hk
    rcases List.mem_append.mp hk with hk | hk
    · exact h.made.2 k (Option.mem_toList.mp hk)
    · exact h.made.1 k hk
  · simp [Channel.restart]

theorem sync_of_eq (hkey : key c.ids = c.idsKey) : c.sync = c.prune := by
  rw [sync]
  simp only [ids_prune]
  exact if_pos hkey

theorem sync_of_ne (hkey : key c.ids ≠ c.idsKey) {settled : Channel}
    (hsettled : (c.prune.restart c.ids).settle = settled) :
    c.sync = { settled with syncing := c.ids :: settled.syncing } ∨
    c.sync = settled.stream c.ids := by
  subst hsettled
  rw [sync]
  simp only [ids_prune]
  rw [if_neg (show ¬key c.ids = c.prune.idsKey from hkey)]
  split
  · exact .inl rfl
  · exact .inr rfl

theorem syncing_sync (c : Channel) :
    c.sync.syncing = c.syncing ∨ c.sync.syncing = c.ids :: c.syncing := by
  by_cases hkey : key c.ids = c.idsKey
  · rw [sync_of_eq hkey]
    exact .inl rfl
  · obtain ⟨failing, state, hsettle⟩ := exists_settle (c.prune.restart c.ids)
    rcases sync_of_ne hkey hsettle with heq | heq
    · rw [heq]
      exact .inr rfl
    · rw [heq, (stream_frame _ c.ids).2.2.2]
      exact .inl rfl

/-- A `sync` that sees another key starts over with the ids to be watched. -/
theorem Covers.sync_of_ne (h : Covers c rest pending synced) (hkey : key c.ids ≠ c.idsKey)
    (hsyncing : c.syncing.flatten = []) :
    Covers c.sync rest c.sync.syncing.flatten c.ids ∧ c.generation < c.sync.generation := by
  have hpruned : Covers c.prune rest pending synced := ⟨h.idsKey, h.covered, h.sound, h.made⟩
  have hrestart := hpruned.restart c.ids hsyncing
  obtain ⟨failing, state, hsettle⟩ := exists_settle (c.prune.restart c.ids)
  have hsettled : Covers { c.prune.restart c.ids with
      failing := failing, connectionState := state } rest (c.ids ++ c.syncing.flatten) c.ids :=
    ⟨hrestart.idsKey, hrestart.covered, hrestart.sound, hrestart.made⟩
  rcases Channel.sync_of_ne hkey hsettle with heq | heq
  · rw [heq]
    exact ⟨⟨hsettled.idsKey, hsettled.covered, hsettled.sound, hsettled.made⟩, Nat.lt_succ_self _⟩
  · obtain ⟨started, serials, controller, controllers, hstream, -⟩ := exists_stream _ c.ids
    refine ⟨?_, by rw [heq, hstream]; exact Nat.lt_succ_self _⟩
    rw [heq, (stream_frame _ c.ids).2.2.2]
    exact hsettled.stream

end Channel

end Maeglagi.Events
