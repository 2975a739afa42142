import Maeglagi.Events.Watching

/-!
# Channels that no callback disturbs

When the callbacks of a `sync` that is about to stream leave the ids to be watched as they are,
the channel watches exactly these ids between its operations. A callback that unsubscribes
there leaves a stream for an id that nobody asks for.
-/

namespace Maeglagi.Events

open Core

namespace Channel

variable {c : Channel} {run run' : Run} {status : PermanentStatus}
  {rest rest' : List Run} {pending synced : List SourceId}

/-- The live runs watch the requested ids that are not invalid, each in one batch of at most
a hundred. -/
structure WatchesExactly (c : Channel) : Prop where
  disjoint : c.live.Pairwise fun r s => List.Disjoint r.ids s.ids
  nodup : ∀ run ∈ c.live, run.ids.Nodup
  short : ∀ run ∈ c.live, run.ids.length ≤ 100
  together : ∀ id, (∃ run ∈ c.live, id ∈ run.ids) ↔ id ∈ c.requested ∧ id ∉ c.invalid

/-- No callback of a `sync` that is about to stream changes the ids to be watched. -/
def Undisturbed (c : Channel) : ChannelEvent → Prop
  | .subscribe subscriber => (∃ ids ∈ c.syncing, ids ≠ []) → (c.add subscriber).ids = c.ids
  | .unsubscribe key => (∃ ids ∈ c.syncing, ids ≠ []) → (c.delete key).ids = c.ids
  | _ => True

/-- What holds at every moment at which callbacks run, and between operations: the channel
covers the ids that it synced last, which are the ids to be watched unless ids are being
marked. -/
structure Balanced (c : Channel) (synced : List SourceId) : Prop where
  covers : Covers c c.handled c.syncing.flatten synced
  wanted : c.ids = synced ∨
    c.syncing = [] ∧ ∃ run status rest, c.handling = some (.marking run status rest)
  marked : ∀ run status rest, c.handling = some (.marking run status rest) →
    run.generation = c.generation → ∀ id ∈ run.ids, id ∈ rest ∨ id ∈ c.invalid

/-- Between operations the ids to be watched are covered. -/
theorem Covers.balanced (h : Covers c [] [] synced) (hidle : c.Idle) (hids : c.ids = synced) :
    ∃ synced, Balanced c synced := by
  obtain ⟨hhandling, hsyncing⟩ := hidle
  refine ⟨synced, ?_, .inl hids, fun run status rest heq => ?_⟩
  · rw [handled, hhandling, hsyncing]
    exact h
  · rw [hhandling] at heq
    cases heq

/-- A `sync` restores the balance, unless it changes the ids of a `sync` that is about to
stream. -/
theorem Covers.balanced_sync (h : Covers c c.handled c.syncing.flatten synced)
    (hmarked : ∀ run status rest, c.handling = some (.marking run status rest) →
      run.generation = c.generation → ∀ id ∈ run.ids, id ∈ rest ∨ id ∈ c.invalid)
    (hcalm : c.ids = synced ∨ c.syncing.flatten = []) : ∃ synced, Balanced c.sync synced := by
  by_cases hkey : key c.ids = c.idsKey
  · have hids : c.ids = synced := key_injective (hkey.trans h.idsKey)
    rw [sync_of_eq hkey]
    refine ⟨synced, ⟨h.idsKey, h.covered, h.sound, h.made⟩, .inl (ids_prune.trans hids), ?_⟩
    intro run status rest hhandling hgen id hid
    rcases hmarked run status rest hhandling hgen id hid with hrest | hinvalid
    · exact .inl hrest
    · have hhandling' : c.handling = some (.marking run status rest) := hhandling
      have hmem : run ∈ c.runs ++ c.handled := by simp [handled, hhandling', Handling.run]
      have hwatched : id ∈ c.ids := hids ▸ h.covered.subset
        (List.mem_append_left _ (mem_watched.mpr ⟨run, hmem, hgen, hid⟩))
      exact absurd hinvalid (mem_ids.mp hwatched).2
  · have hsyncing : c.syncing.flatten = [] :=
      hcalm.resolve_left fun hids => hkey (by rw [hids, h.idsKey])
    obtain ⟨hcovers, hlater⟩ := h.sync_of_ne hkey hsyncing
    have hhandling := (sync_frame c).2.2
    refine ⟨c.ids, ?_, .inl ids_sync, fun run status rest heq hgen => ?_⟩
    · rw [handled, hhandling]
      exact hcovers
    · rw [hhandling] at heq
      have hmem : run ∈ c.runs ++ c.handled := by simp [handled, heq, Handling.run]
      have hold := (h.sound run hmem).2.1
      omega

/-- What else a run records makes no difference. -/
theorem Covers.update (h : Covers c [run] pending synced) (run' : Run) (hids : run'.ids = run.ids)
    (hgen : run'.generation = run.generation) (hsignal : run'.signal = run.signal) :
    Covers c [run'] pending synced := by
  have hone : watched c.generation [run'] = watched c.generation [run] := by
    simp only [watched, List.filter_cons, hgen, List.filter_nil]
    split <;> simp [hids]
  have hwatched : watched c.generation (c.runs ++ [run']) =
      watched c.generation (c.runs ++ [run]) := by
    rw [watched_append, watched_append, hone]
  refine ⟨h.idsKey, hwatched ▸ h.covered, fun r hr => ?_, h.made⟩
  rcases List.mem_append.mp hr with hr | hr
  · exact h.sound r (List.mem_append_left _ hr)
  · obtain ⟨hbatch, hold, hgoing⟩ := h.sound run (by simp)
    rw [List.mem_singleton.mp hr]
    exact ⟨hids ▸ hbatch, hgen ▸ hold, hgen ▸ hsignal ▸ hgoing⟩

theorem Covers.perm {runs : List Run} (h : Covers c rest pending synced)
    (hperm : (runs ++ rest').Perm (c.runs ++ rest)) :
    Covers { c with runs := runs } rest' pending synced :=
  ⟨h.idsKey, ((watched_perm hperm).append_right _).trans h.covered,
    fun r hr => h.sound r (hperm.subset hr), h.made⟩

theorem Covers.resume (h : Covers c [run] pending synced) :
    Covers (c.resume run) [] pending synced :=
  h.perm (by rw [List.append_nil]; exact (List.perm_append_singleton run c.runs).symm)

/-- A run of another generation leaves nothing unwatched. -/
theorem Covers.drop (h : Covers c [run] pending synced) (hgen : run.generation ≠ c.generation) :
    Covers c [] pending synced := by
  have hnone : watched c.generation [run] = [] := watched_none (by simpa using hgen)
  have hwatched : watched c.generation (c.runs ++ [run]) = watched c.generation (c.runs ++ []) := by
    rw [watched_append, hnone, List.append_nil, List.append_nil]
  exact ⟨h.idsKey, hwatched ▸ h.covered,
    fun r hr => h.sound r (List.mem_append_left _ (by simpa using hr)), h.made⟩

/-- A stale run is not of the current generation. -/
theorem Covers.old_of_stale (h : Covers c [run] pending synced) (hstale : c.Stale run) :
    run.generation ≠ c.generation := by
  rcases hstale with hsignal | hgen
  · exact fun hgen => (h.sound run (by simp)).2.2 hgen hsignal
  · exact hgen

/-- Cutting a run in two watches the same ids; runs of another generation are not started. -/
theorem Covers.cut (h : Covers c [run] pending synced) (hids : 1 < run.ids.length) :
    Covers ((c.start run.signal run.generation (run.ids.take (run.ids.length / 2))).start run.signal
      run.generation (run.ids.drop (run.ids.length / 2))) [] pending synced := by
  by_cases hgen : run.generation = c.generation
  · obtain ⟨hbatch, hold, hgoing⟩ := h.sound run (by simp)
    rw [start_start (hgoing hgen) hgen]
    refine ⟨h.idsKey, ?_, fun r hr => ?_, h.made⟩
    · refine List.Perm.trans (List.Perm.of_eq ?_) h.covered
      simp [watched, hgen]
    · have hcase : r ∈ c.runs ∨ r.generation = c.generation ∧ r.signal = run.signal ∧
          (r.ids = run.ids.take (run.ids.length / 2) ∨ r.ids = run.ids.drop (run.ids.length / 2)) := by
        simp only [List.append_nil, List.mem_append, List.mem_cons, List.not_mem_nil, or_false] at hr
        obtain hr | rfl | rfl := hr
        · exact .inl hr
        · exact .inr ⟨hgen, rfl, .inl rfl⟩
        · exact .inr ⟨hgen, rfl, .inr rfl⟩
      rcases hcase with hr | ⟨hr, hsignal, hhalf⟩
      · exact h.sound r (List.mem_append_left _ hr)
      · refine ⟨?_, hr.le, fun _ => hsignal ▸ hgoing hgen⟩
        have hle := hbatch.2
        rcases hhalf with hhalf | hhalf
        · rw [hhalf, List.length_take]
          omega
        · rw [hhalf, List.length_drop]
          omega
  · have hstale : ∀ c' : Channel, c'.generation = c.generation →
        ∀ batch, c'.start run.signal run.generation batch = c' := fun c' heq batch =>
      if_pos (.inr (heq ▸ hgen))
    rw [hstale c rfl, hstale c rfl]
    exact h.drop hgen

/-- Marking the ids of a run that is in hand. What a callback does in between is covered as for
any other; the last `sync` sees that the ids are not to be watched any more. -/
theorem Covers.balanced_mark {ids : List SourceId} (h : Covers c [run] [] synced) (hidle : c.Idle)
    (hids : run.generation = c.generation → ∀ id ∈ run.ids, id ∈ ids ∨ id ∈ c.invalid) :
    ∃ synced, Balanced (c.mark run status ids) synced := by
  induction ids generalizing c with
  | nil =>
    obtain ⟨hhandling, hsyncing⟩ := hidle
    have hhandled : c.handled = [] := by rw [handled, hhandling]; rfl
    have hsynced : c.syncing.flatten = [] := by rw [hsyncing]; rfl
    by_cases hgen : run.generation = c.generation
    · -- the run is current, so the ids synced last are not the ids to be watched
      have hkey : key c.ids ≠ c.idsKey := by
        intro hkey
        have hsame : c.ids = synced := key_injective (hkey.trans h.idsKey)
        obtain ⟨id, hid⟩ := List.exists_mem_of_length_pos (h.sound run (by simp)).1.1
        have hwatched : id ∈ c.ids := hsame ▸ h.covered.subset (List.mem_append_left _
          (mem_watched.mpr ⟨run, by simp, hgen, hid⟩))
        exact (mem_ids.mp hwatched).2 ((hids hgen id hid).resolve_left (by simp))
      obtain ⟨hcovers, hlater⟩ := h.sync_of_ne hkey hsynced
      have hdone := hcovers.drop (by omega)
      refine ⟨c.ids, ?_, .inl ids_sync, fun run status rest heq => ?_⟩
      · rw [mark, handled, (sync_frame c).2.2, hhandling]
        exact hdone
      · rw [mark, (sync_frame c).2.2, hhandling] at heq
        cases heq
    · rw [mark]
      have hdropped : Covers c c.handled c.syncing.flatten synced := by
        rw [hhandled, hsynced]
        exact h.drop hgen
      refine hdropped.balanced_sync (fun run status rest heq => ?_) (.inr hsynced)
      rw [hhandling] at heq
      cases heq
  | cons id ids ih =>
    by_cases hinvalid : id ∈ c.invalid
    · rw [mark, if_pos hinvalid]
      refine ih h hidle fun hgen id' hid' => ?_
      rcases hids hgen id' hid' with hmem | hmem
      · rcases List.mem_cons.mp hmem with rfl | hmem
        · exact .inr hinvalid
        · exact .inl hmem
      · exact .inr hmem
    · let marked : Channel := { c with invalidIds := c.invalidIds ++ [(id, status)] }
      have hmarked : run.generation = c.generation →
          ∀ id' ∈ run.ids, id' ∈ ids ∨ id' ∈ marked.invalid := by
        intro hgen id' hid'
        have hcase := hids hgen id' hid'
        simp only [marked, invalid, List.mem_cons, List.map_append, List.mem_append,
          List.map_cons, List.map_nil, List.not_mem_nil] at hcase ⊢
        tauto
      rw [mark, if_neg hinvalid]
      simp only
      split
      · refine ⟨synced, ⟨h.idsKey, ?_, h.sound, h.made⟩, .inr ⟨hidle.2, run, status, ids, rfl⟩, ?_⟩
        · rw [show ({ marked with handling := some (.marking run status ids) } : Channel).syncing =
            [] from hidle.2]
          exact h.covered
        · intro run' status' rest' heq hgen
          cases heq
          exact hmarked hgen
      · exact ih (c := marked) ⟨h.idsKey, h.covered, h.sound, h.made⟩ hidle hmarked

theorem Covers.balanced_refuse (h : Covers c [run] [] synced) (hidle : c.Idle)
    (hids : c.ids = synced) : ∃ synced, Balanced (c.refuse run status) synced := by
  rw [refuse]
  split
  · next hcut =>
    refine (h.cut hcut.2).balanced ?_ ?_
    · simp only [Idle, start_frame]
      exact hidle
    · rw [ids_start, ids_start]
      exact hids
  · exact h.balanced_mark hidle fun _ id hid => .inl hid

theorem Covers.balanced_finish (h : Covers c [run] [] synced) (hidle : c.Idle)
    (hids : c.ids = synced) (hstale : c.Stale run) : ∃ synced, Balanced (c.finish run) synced := by
  have hgen := h.old_of_stale hstale
  rw [finish, if_neg hgen]
  exact (h.drop hgen).balanced hidle hids

theorem Covers.balanced_delay (h : Covers c [run] [] synced) (hidle : c.Idle)
    (hids : c.ids = synced) : ∃ synced, Balanced (c.delay run) synced := by
  rw [delay]
  split
  · next hstale => exact h.balanced_finish hidle hids hstale
  · exact (h.update { run with waiting := true } rfl rfl rfl).resume.balanced hidle hids

theorem Covers.balanced_job (h : Covers c [run] [] synced) (hidle : c.Idle)
    (hids : c.ids = synced) : ∃ synced, Balanced (c.proceed (.job run)) synced := by
  have hresumed := (h.update { run with retry := 0 } rfl rfl rfl).resume
  exact Covers.balanced ⟨hresumed.idsKey, hresumed.covered, hresumed.sound, hresumed.made⟩ hidle hids

/-- The run that is handled is in hand when its callbacks have returned. -/
theorem Balanced.resumed {handling : Handling} (h : Balanced c synced) (hsyncing : c.syncing = [])
    (hhandling : c.handling = some handling) :
    Covers { c with handling := none } [handling.run] [] synced := by
  have hc := h.covers
  rw [handled, hhandling, hsyncing] at hc
  exact ⟨hc.idsKey, hc.covered, hc.sound, hc.made⟩

/-- The ids synced last are the ids to be watched, unless ids are being marked. -/
theorem Balanced.ids_of_handling {handling : Handling} (h : Balanced c synced)
    (hhandling : c.handling = some handling) :
    c.ids = synced ∨ ∃ run status rest, handling = .marking run status rest := by
  rcases h.wanted with hids | ⟨-, run, status, rest, heq⟩
  · exact .inl hids
  · exact .inr ⟨run, status, rest, Option.some.inj (hhandling.symm.trans heq)⟩

/-- What follows the callbacks of a run restores the balance. -/
theorem Balanced.proceed {handling : Handling} (h : Balanced c synced) (hsyncing : c.syncing = [])
    (hhandling : c.handling = some handling) :
    ∃ synced, Balanced (({ c with handling := none } : Channel).proceed handling) synced := by
  have hcovers := h.resumed hsyncing hhandling
  have hids := h.ids_of_handling hhandling
  have hidle : ({ c with handling := none } : Channel).Idle := ⟨rfl, hsyncing⟩
  cases handling with
  | job run => exact hcovers.balanced_job hidle (hids.resolve_right (by simp))
  | failed run => exact hcovers.balanced_delay hidle (hids.resolve_right (by simp))
  | refused run status => exact hcovers.balanced_refuse hidle (hids.resolve_right (by simp))
  | marking run status rest =>
    exact hcovers.balanced_mark hidle (h.marked run status rest hhandling)

/-- Callbacks of a run that is in hand begin, other than for an id it marks. -/
theorem Covers.balanced_pause (handling : Handling) (h : Covers c [handling.run] [] synced)
    (hidle : c.Idle) (hids : c.ids = synced)
    (hmarking : ∀ run status rest, handling ≠ .marking run status rest) :
    ∃ synced, Balanced { c with handling := some handling } synced := by
  refine ⟨synced, ⟨h.idsKey, ?_, h.sound, h.made⟩, .inl hids, fun run status rest heq => ?_⟩
  · rw [show ({ c with handling := some handling } : Channel).syncing = [] from hidle.2]
    exact h.covered
  · exact absurd (Option.some.inj heq) (hmarking run status rest)

/-- An outcome for a run that is in hand keeps the balance. -/
theorem Covers.balanced_take {outcome : Outcome} (h : Covers c [run] [] synced) (hidle : c.Idle)
    (hids : c.ids = synced) : ∃ synced, Balanced (c.take run outcome) synced := by
  cases outcome with
  | job sourceId =>
    by_cases hstale : c.Stale run
    · rw [show c.take run (.job sourceId) = c.finish run from if_pos hstale]
      exact h.balanced_finish hidle hids hstale
    · cases sourceId with
      | none =>
        rw [show c.take run (.job none) = c.resume run from if_neg hstale]
        exact h.resume.balanced hidle hids
      | some id =>
        rw [take, if_neg hstale]
        split
        · exact Covers.balanced_pause (.job run) h hidle hids (by simp)
        · exact h.balanced_job hidle hids
  | ended => exact h.balanced_delay hidle hids
  | failed =>
    have hfailed := h.update { run with retry := run.retry + 1 } rfl rfl rfl
    have hmarked : Covers (c.markRun run.serial true) [{ run with retry := run.retry + 1 }] []
        synced := ⟨hfailed.idsKey, hfailed.covered, hfailed.sound, hfailed.made⟩
    rw [take]
    split
    · next hsignal => exact h.balanced_finish hidle hids (.inl hsignal)
    · dsimp only
      split
      · split
        · exact Covers.balanced_pause (.failed _) hmarked hidle hids (by simp)
        · exact hmarked.balanced_delay hidle hids
      · exact hfailed.balanced_delay hidle hids
  | refused status =>
    have hmarked : Covers (c.markRun run.serial false) [run] [] synced :=
      ⟨h.idsKey, h.covered, h.sound, h.made⟩
    rw [take]
    split
    · next hsignal => exact h.balanced_finish hidle hids (.inl hsignal)
    · split
      · dsimp only
        split
        · exact Covers.balanced_pause (.refused run status) hmarked hidle hids (by simp)
        · exact hmarked.balanced_refuse hidle hids
      · exact (h.update { run with retry := run.retry + 1 } rfl rfl rfl).balanced_delay
          hidle hids

/-- Between operations the ids synced last are the ids to be watched. -/
theorem Balanced.of_idle (h : Balanced c synced) (hidle : c.Idle) :
    Covers c [] [] synced ∧ c.ids = synced := by
  have hc := h.covers
  rw [handled, hidle.1, hidle.2] at hc
  refine ⟨hc, h.wanted.resolve_right ?_⟩
  rintro ⟨-, run, status, rest, heq⟩
  rw [hidle.1] at heq
  cases heq

/-- A run that is taken out of the list is in hand. -/
theorem Balanced.taken (h : Balanced c synced) (hidle : c.Idle) (hrun : run ∈ c.runs) :
    Covers { c with runs := c.runs.erase run } [run] [] synced :=
  (h.of_idle hidle).1.perm
    (by rw [List.append_nil]
        exact (List.perm_append_singleton run _).trans (List.perm_cons_erase hrun).symm)

/-- Every event that disturbs no `sync` keeps the balance. -/
theorem Balanced.step {c' : Channel} {event : ChannelEvent} (h : Balanced c synced)
    (hcalm : c.Undisturbed event) (hstep : c.step event = some c') :
    ∃ synced, Balanced c' synced := by
  have hsync : ∀ subscribers,
      ((∃ ids ∈ c.syncing, ids ≠ []) → ({ c with subscribers := subscribers } : Channel).ids = c.ids) →
      ∃ synced, Balanced ({ c with subscribers := subscribers } : Channel).sync synced := by
    intro subscribers hcalm
    have hc := h.covers
    have hsame : Covers ({ c with subscribers := subscribers } : Channel) c.handled
        c.syncing.flatten synced := ⟨hc.idsKey, hc.covered, hc.sound, hc.made⟩
    refine hsame.balanced_sync h.marked ?_
    by_cases hopen : ∃ ids ∈ c.syncing, ids ≠ []
    · refine .inl ((hcalm hopen).trans (h.wanted.resolve_right ?_))
      rintro ⟨hnil, -⟩
      simp [hnil] at hopen
    · refine .inr (List.flatten_eq_nil_iff.mpr fun ids hids => ?_)
      by_contra hne
      exact hopen ⟨ids, hids, hne⟩
  cases event with
  | subscribe subscriber =>
    cases hstep
    rw [add]
    split
    · next hmem =>
      rw [Undisturbed, add, if_pos hmem] at hcalm
      exact hsync c.subscribers hcalm
    · next hmem =>
      rw [Undisturbed, add, if_neg hmem] at hcalm
      exact hsync _ hcalm
  | unsubscribe key =>
    cases hstep
    exact hsync _ hcalm
  | outcome run outcome =>
    rw [Channel.step] at hstep
    split at hstep
    · next hpossible =>
      cases hstep
      obtain ⟨hidle, hrun, -⟩ := hpossible
      exact (h.taken hidle hrun).balanced_take hidle (h.of_idle hidle).2
    · cases hstep
  | timer run =>
    rw [Channel.step] at hstep
    split at hstep
    · next hpossible =>
      obtain ⟨hidle, hrun, -⟩ := hpossible
      have htaken := h.taken hidle hrun
      cases hstep
      split
      · next hstale => exact htaken.balanced_finish hidle (h.of_idle hidle).2 hstale
      · exact (htaken.update { run with waiting := false } rfl rfl rfl).resume.balanced
          hidle (h.of_idle hidle).2
    · cases hstep
  | callbacksReturn =>
    rw [Channel.step] at hstep
    split at hstep
    · next ids outer hsyncing =>
      cases hstep
      have hc := h.covers
      rw [hsyncing, List.flatten_cons] at hc
      have hcovers : Covers { c with syncing := outer } c.handled (ids ++ outer.flatten) synced :=
        ⟨hc.idsKey, hc.covered, hc.sound, hc.made⟩
      have hids : c.ids = synced := h.wanted.resolve_right (by simp [hsyncing])
      obtain ⟨-, hinvalid, hhandling, hsyncing'⟩ :=
        stream_frame ({ c with syncing := outer } : Channel) ids
      refine ⟨synced, ?_, .inl (ids_stream.trans hids), fun run status rest heq => ?_⟩
      · rw [handled, hhandling, hsyncing']
        exact hcovers.stream
      · rw [hhandling] at heq
        obtain ⟨started, serials, controller, controllers, hstream, -⟩ :=
          exists_stream ({ c with syncing := outer } : Channel) ids
        rw [hstream]
        exact h.marked run status rest heq
    · next handling hsyncing hhandling =>
      cases hstep
      exact h.proceed hsyncing hhandling
    · cases hstep

theorem balanced_new : Balanced .new [] := by
  refine ⟨⟨rfl, .refl _, by simp [new, handled], by simp [new]⟩, .inl rfl, ?_⟩
  intro run status rest heq
  cases heq

/-- In a run that disturbs no `sync` the channel watches, between two operations, exactly the
ids to be watched. -/
theorem watchesExactly_of_run (h : RunOf Channel.step Undisturbed .new c) (hidle : c.Idle) :
    c.WatchesExactly := by
  have hbalanced : ∃ synced, Balanced c synced :=
    h.invariant (P := fun c => ∃ synced, Balanced c synced)
      (fun c event c' hb hcalm hstep => hb.elim fun synced hb => hb.step hcalm hstep)
      ⟨[], balanced_new⟩
  obtain ⟨synced, hb⟩ := hbalanced
  obtain ⟨hcovers, hids⟩ := hb.of_idle hidle
  have hperm : (c.live.flatMap Run.ids).Perm c.ids := by
    have hc := hcovers.covered
    rw [List.append_nil, List.append_nil] at hc
    exact hids ▸ hc
  have hnodup := List.nodup_flatMap.mp (hperm.nodup_iff.mpr (nodup_ids c))
  refine ⟨hnodup.2, hnodup.1, fun run hrun => ?_, fun id => ?_⟩
  · have hmem : run ∈ c.runs ++ [] := List.mem_append_left _ (List.mem_filter.mp hrun).1
    exact (hcovers.sound run hmem).1.2
  · rw [← mem_ids, ← hperm.mem_iff, List.mem_flatMap]

/-- The ids and the subscribers of the runs below. -/
def firstId : SourceId := ⟨['a'], by simp⟩

/-- Another id. -/
def secondId : SourceId := ⟨['b'], by simp⟩

/-- The stream of both ids, at its attempt of the given number. -/
def sharedRun (retry : Nat) (waiting : Bool) : Run :=
  ⟨1, [firstId, secondId], 1, 2, retry, waiting⟩

/-- Two views ask for one id each, their stream fails three times, and the second view goes;
the callback that tells the first view of the connection unsubscribes it. -/
def disturbance : List ChannelEvent :=
  [.subscribe ⟨0, [firstId]⟩, .subscribe ⟨1, [secondId]⟩,
    .outcome (sharedRun 0 false) .failed, .timer (sharedRun 1 true),
    .outcome (sharedRun 1 false) .failed, .timer (sharedRun 2 true),
    .outcome (sharedRun 2 false) .failed, .callbacksReturn,
    .unsubscribe 1, .unsubscribe 0, .callbacksReturn]

/-- After the disturbance a stream watches the first id, which nobody asks for. -/
theorem disturbed_watches_unrequested :
    ¬∀ c, RunOf Channel.step anyEvent .new c → c.Idle → c.WatchesExactly := by
  intro hall
  have hreplay : ∃ c, replay Channel.step .new disturbance = some c ∧ c.Idle ∧
      c.requested = [] ∧ ∃ run ∈ c.live, firstId ∈ run.ids :=
    ⟨(replay Channel.step .new disturbance).getD .new, by decide +kernel, by decide +kernel,
      by decide +kernel, by decide +kernel⟩
  obtain ⟨c, hc, hidle, hnone, hwatched⟩ := hreplay
  have hrequested := ((hall c (runOf_replay (fun _ _ _ => trivial) hc) hidle).together firstId).mp
    hwatched
  rw [hnone] at hrequested
  cases hrequested.1

end Channel

end Maeglagi.Events
