import Maeglagi.Contention.Slots

/-!
# The slots are sound

The users of the gates are counted, so that an entry stays until the last of them has left. All
tasks of a workspace then meet at one lock, and all tasks at one capacity.
-/

namespace Maeglagi.Contention

open Core Core.Asyncio

variable {W : Type}

/-- The activation is not over. -/
def Activation.live (a : Activation W) : Bool := decide (a.progress ≠ .left)

/-- The activation holds the lock of its workspace. -/
def Activation.holds (a : Activation W) : Bool :=
  match a.progress with
  | .locked | .waitsCapacity _ | .inside => true
  | _ => false

/-- The body of the slot runs. -/
def Activation.isInside (a : Activation W) : Bool := decide (a.progress = .inside)

/-- Counting after one of the activations got on. -/
theorem countP_set_add {activations : List (Activation W)} {i : Nat} {a : Activation W}
    (ha : activations[i]? = some a) (p : Activation W → Bool) (b : Activation W) :
    (activations.set i b).countP p + (if p a then 1 else 0) =
      activations.countP p + (if p b then 1 else 0) := by
  obtain ⟨hi, heq⟩ := List.getElem?_eq_some_iff.mp ha
  have hone : (if p a then 1 else 0) ≤ activations.countP p := by
    split_ifs with hp
    · exact List.countP_pos_iff.mpr ⟨a, List.mem_of_getElem? ha, hp⟩
    · exact Nat.zero_le _
  rw [List.countP_set hi, heq]
  omega

theorem live_of_holds {a : Activation W} (h : a.holds = true) : a.live = true := by
  cases hprogress : a.progress <;> simp [Activation.holds, Activation.live, hprogress] at h ⊢

theorem live_of_isInside {a : Activation W} (h : a.isInside = true) : a.live = true := by
  simp only [Activation.isInside, decide_eq_true_eq] at h
  simp [Activation.live, h]

namespace Slots

/-- How many activations have a property. -/
def count (s : Slots W) (p : Activation W → Bool) : Nat := s.activations.countP p

theorem count_pos {s : Slots W} {a : Activation W} {p : Activation W → Bool} (hmem : a ∈ s.activations) (hp : p a = true) :
    0 < s.count p :=
  List.countP_pos_iff.mpr ⟨a, hmem, hp⟩

theorem exists_of_count_pos {s : Slots W} {p : Activation W → Bool} (h : 0 < s.count p) :
    ∃ a ∈ s.activations, p a = true :=
  List.countP_pos_iff.mp h

section
variable (s : Slots W) (w : W) (g k : Nat)

theorem workspaces_countLocal (g' : Nat) :
    ((s.countLocal g).localGates g').workspaces = (s.localGates g').workspaces := by
  unfold countLocal
  by_cases hg : g' = g
  · subst hg
    simp
  · simp [hg]

theorem capacity_countLocal (g' : Nat) :
    ((s.countLocal g).localGates g').capacity = (s.localGates g').capacity := by
  unfold countLocal
  by_cases hg : g' = g
  · subst hg
    simp
  · simp [hg]

theorem lock_join (k' : Nat) : ((s.join w g k).gates k').lock = (s.gates k').lock := by
  unfold join
  by_cases hk : k' = k
  · subst hk
    simp
  · simp [hk]

theorem count_join (p : Activation W → Bool) :
    (s.join w g k).count p = s.count p + if p ⟨w, g, k, .registered⟩ then 1 else 0 := by
  unfold join count
  rw [List.countP_append, List.countP_singleton]

end

/-- The entry of the loop is the one that `setdefault` returns. -/
theorem entry_openLocal (s : Slots W) : s.openLocal.2.entry = some s.openLocal.1 := by
  unfold openLocal
  split
  · assumption
  · rfl

theorem workspaces_of_openLocal {s : Slots W} {g k : Nat} {w : W}
    (h : (s.openLocal.2.localGates g).workspaces w = some k) :
    (s.localGates g).workspaces w = some k := by
  unfold openLocal at h
  split at h
  · exact h
  · by_cases hg : g = s.madeLocal
    · subst hg
      simp [newLocalGates] at h
    · simpa [hg] using h

theorem openLocal_of_entry {s : Slots W} {g : Nat} (h : s.entry = some g) : s.openLocal = (g, s) := by
  unfold openLocal
  rw [h]

theorem activations_openLocal (s : Slots W) : s.openLocal.2.activations = s.activations := by
  unfold openLocal
  split
  · rfl
  · rfl

end Slots

variable [DecidableEq W]

/-- The activation is one of the workspace and has the property. -/
def Activation.inWorkspace (w : W) (p : Activation W → Bool) (a : Activation W) : Bool :=
  decide (a.workspace = w) && p a

namespace Slots

/-- The gates of the activation are the entries of the loop and of its workspace. -/
def Opened (s : Slots W) (a : Activation W) : Prop :=
  s.entry = some a.gates ∧ (s.localGates a.gates).workspaces a.workspace = some a.gate

/-- Every activation that is not over has the gates of the entries, and these count what they
are used for. -/
structure Sound (s : Slots W) : Prop where
  opened : ∀ a ∈ s.activations, a.live = true → s.Opened a
  users : ∀ g, s.entry = some g → (s.localGates g).users = s.count Activation.live
  gateUsers : ∀ g w k, s.entry = some g → (s.localGates g).workspaces w = some k →
    (s.gates k).users = s.count (Activation.inWorkspace w Activation.live)
  distinct : ∀ g w w' k, (s.localGates g).workspaces w = some k →
    (s.localGates g).workspaces w' = some k → w = w'
  made : ∀ g w k, (s.localGates g).workspaces w = some k → k < s.madeGates
  lock : ∀ g w k, s.entry = some g → (s.localGates g).workspaces w = some k →
    (s.gates k).lock.Counts (s.count (Activation.inWorkspace w Activation.holds))
  capacity : ∀ g, s.entry = some g →
    (s.localGates g).capacity.Counts 4 (s.count Activation.isInside)

/-- No entry is left behind. -/
structure Tidy (s : Slots W) : Prop where
  loop : ∀ g, s.entry = some g → 0 < s.count Activation.live
  workspace : ∀ g w k, (s.localGates g).workspaces w = some k →
    s.entry = some g ∧ 0 < s.count (Activation.inWorkspace w Activation.live)

variable {s s' : Slots W} {i : Nat} {a : Activation W}

/-- What only live activations have, none of a workspace without an entry has. -/
theorem Sound.count_eq_zero (h : s.Sound) {p : Activation W → Bool}
    (hp : ∀ a, p a = true → a.live = true)
    (hno : ∀ a, p a = true → ¬s.Opened a) : s.count p = 0 := by
  rcases Nat.eq_zero_or_pos (s.count p) with hzero | hpos
  · exact hzero
  · obtain ⟨a, hmem, ha⟩ := exists_of_count_pos hpos
    exact absurd (h.opened a hmem (hp a ha)) (hno a ha)

theorem sound_start : (start : Slots W).Sound where
  opened := fun a ha => by simp [start] at ha
  users := fun g hg => by simp [start] at hg
  gateUsers := fun g w k hg => by simp [start] at hg
  distinct := fun g w w' k hw => by simp [start, newLocalGates] at hw
  made := fun g w k hw => by simp [start, newLocalGates] at hw
  lock := fun g w k hg => by simp [start] at hg
  capacity := fun g hg => by simp [start] at hg

theorem tidy_start : (start : Slots W).Tidy where
  loop := fun g hg => by simp [start] at hg
  workspace := fun g w k hw => by simp [start, newLocalGates] at hw

theorem sound_openLocal (h : s.Sound) : s.openLocal.2.Sound := by
  unfold openLocal
  split
  · exact h
  · rename_i hnone
    have hgone : ∀ p : Activation W → Bool, (∀ a, p a = true → a.live = true) → s.count p = 0 :=
      fun p hp => h.count_eq_zero hp fun a _ ho => by
        rw [ho.1] at hnone
        cases hnone
    refine ⟨fun a ha hlive => ?_, fun g hg => ?_, fun g w k hg hw => ?_, fun g w w' k hw hw' => ?_,
      fun g w k hw => ?_, fun g w k hg hw => ?_, fun g hg => ?_⟩
    · have := (h.opened a ha hlive).1
      rw [hnone] at this
      cases this
    · obtain rfl := Option.some.inj hg
      have := hgone Activation.live fun a ha => ha
      simp only [Function.update_self]
      change 0 = (s.count Activation.live : Int)
      rw [this]
      rfl
    · obtain rfl := Option.some.inj hg
      simp [newLocalGates] at hw
    · by_cases hg : g = s.madeLocal
      · subst hg
        simp [newLocalGates] at hw
      · simp only [Function.update_of_ne hg] at hw hw'
        exact h.distinct g w w' k hw hw'
    · by_cases hg : g = s.madeLocal
      · subst hg
        simp [newLocalGates] at hw
      · simp only [Function.update_of_ne hg] at hw
        exact h.made g w k hw
    · obtain rfl := Option.some.inj hg
      simp [newLocalGates] at hw
    · obtain rfl := Option.some.inj hg
      have := hgone Activation.isInside fun a ha => live_of_isInside ha
      simp only [Function.update_self]
      change Semaphore.Counts _ 4 (s.count Activation.isInside)
      rw [this]
      exact Semaphore.counts_new 4

/-- What `setdefault` leaves is as it was, but for the entry of the workspace. -/
theorem opened_openGate {g : Nat} (hg : s.entry = some g) (w : W) :
    (s.openGate g w).2.entry = some g ∧
      ((s.openGate g w).2.localGates g).workspaces w = some (s.openGate g w).1 := by
  unfold openGate
  split
  · exact ⟨hg, ‹_›⟩
  · exact ⟨hg, by simp⟩

section
variable {g : Nat} {w : W} (hnone : (s.localGates g).workspaces w = none)
include hnone

theorem openGate_of_none : s.openGate g w = (s.madeGates,
    { s with
      localGates := Function.update s.localGates g
        { s.localGates g with
          workspaces := Function.update (s.localGates g).workspaces w (some s.madeGates) }
      gates := Function.update s.gates s.madeGates newGate
      madeGates := s.madeGates + 1 }) := by
  unfold openGate
  rw [hnone]

theorem workspaces_openGate (g' : Nat) (w' : W) :
    ((s.openGate g w).2.localGates g').workspaces w' =
      if g' = g ∧ w' = w then some s.madeGates else (s.localGates g').workspaces w' := by
  rw [openGate_of_none hnone]
  by_cases hg : g' = g
  · subst hg
    by_cases hw : w' = w
    · subst hw
      simp
    · simp [hw]
  · simp [hg]

theorem users_openGate (g' : Nat) :
    ((s.openGate g w).2.localGates g').users = (s.localGates g').users := by
  rw [openGate_of_none hnone]
  by_cases hg : g' = g
  · subst hg
    simp
  · simp [hg]

theorem capacity_openGate (g' : Nat) :
    ((s.openGate g w).2.localGates g').capacity = (s.localGates g').capacity := by
  rw [openGate_of_none hnone]
  by_cases hg : g' = g
  · subst hg
    simp
  · simp [hg]

theorem gates_openGate (k : Nat) :
    (s.openGate g w).2.gates k = if k = s.madeGates then newGate else s.gates k := by
  rw [openGate_of_none hnone]
  by_cases hk : k = s.madeGates
  · subst hk
    simp
  · simp [hk]

end

theorem sound_openGate {g : Nat} (h : s.Sound) (hg : s.entry = some g) (w : W) :
    (s.openGate g w).2.Sound := by
  cases hnone : (s.localGates g).workspaces w with
  | some k =>
    unfold openGate
    rw [hnone]
    exact h
  | none =>
    have hentry : (s.openGate g w).2.entry = s.entry := by rw [openGate_of_none hnone]
    have hcount : ∀ p, (s.openGate g w).2.count p = s.count p := by
      intro p
      rw [openGate_of_none hnone]
      rfl
    have hgone : ∀ p : Activation W → Bool, (∀ a, p a = true → a.live = true) →
        s.count (Activation.inWorkspace w p) = 0 := by
      intro p hp
      refine h.count_eq_zero (fun a ha => ?_) fun a ha ho => ?_
      · simp only [Activation.inWorkspace, Bool.and_eq_true] at ha
        exact hp a ha.2
      · simp only [Activation.inWorkspace, Bool.and_eq_true, decide_eq_true_eq] at ha
        obtain rfl := Option.some.inj (ho.1.symm.trans hg)
        rw [← ha.1, ho.2] at hnone
        cases hnone
    refine ⟨fun a ha hlive => ?_, fun g' hg' => ?_, fun g' w' k hg' hw' => ?_,
      fun g' w₁ w₂ k hw₁ hw₂ => ?_, fun g' w' k hw' => ?_, fun g' w' k hg' hw' => ?_,
      fun g' hg' => ?_⟩
    · rw [openGate_of_none hnone] at ha
      obtain ⟨hopen, hgate⟩ := h.opened a ha hlive
      refine ⟨hentry.trans hopen, ?_⟩
      rw [workspaces_openGate hnone, if_neg, hgate]
      rintro ⟨hg', hw'⟩
      rw [hg', hw', hnone] at hgate
      cases hgate
    · rw [users_openGate hnone, hcount]
      exact h.users g' (hentry.symm.trans hg')
    · rw [workspaces_openGate hnone] at hw'
      rw [hcount, gates_openGate hnone]
      split_ifs at hw' with hsame
      · obtain rfl := Option.some.inj hw'
        rw [if_pos rfl, hsame.2, hgone _ fun _ ha => ha]
        rfl
      · rw [if_neg (Nat.ne_of_lt (h.made _ _ _ hw'))]
        exact h.gateUsers g' w' k (hentry.symm.trans hg') hw'
    · rw [workspaces_openGate hnone] at hw₁ hw₂
      split_ifs at hw₁ hw₂ with h₁ h₂ h₂
      · rw [h₁.2, h₂.2]
      · exact absurd (Option.some.inj hw₁).symm (Nat.ne_of_lt (h.made _ _ _ hw₂))
      · exact absurd (Option.some.inj hw₂).symm (Nat.ne_of_lt (h.made _ _ _ hw₁))
      · exact h.distinct g' w₁ w₂ k hw₁ hw₂
    · rw [workspaces_openGate hnone] at hw'
      rw [openGate_of_none hnone]
      split_ifs at hw' with hsame
      · obtain rfl := Option.some.inj hw'
        exact Nat.lt_succ_self _
      · exact Nat.lt_succ_of_lt (h.made g' w' k hw')
    · rw [workspaces_openGate hnone] at hw'
      rw [hcount, gates_openGate hnone]
      split_ifs at hw' with hsame
      · obtain rfl := Option.some.inj hw'
        rw [if_pos rfl, hsame.2, hgone _ fun _ ha => live_of_holds ha]
        exact Lock.counts_new
      · rw [if_neg (Nat.ne_of_lt (h.made _ _ _ hw'))]
        exact h.lock g' w' k (hentry.symm.trans hg') hw'
    · rw [capacity_openGate hnone, hcount]
      exact h.capacity g' (hentry.symm.trans hg')

section
variable (s : Slots W) (w : W) (g : Nat)

/-- The count of the loop may be raised behind the entry of the workspace. -/
theorem openGate_countLocal :
    (s.countLocal g).openGate g w = ((s.openGate g w).1, (s.openGate g w).2.countLocal g) := by
  have hsame := congrFun (s.workspaces_countLocal g g) w
  cases hw : (s.localGates g).workspaces w with
  | some k =>
    unfold openGate
    rw [hsame, hw]
  | none =>
    rw [openGate_of_none (hsame.trans hw), openGate_of_none hw]
    simp [countLocal]

end

/-- A task that has the entries is counted by them. -/
theorem sound_join {w : W} {g k : Nat} (h : s.Sound) (hg : s.entry = some g)
    (hw : (s.localGates g).workspaces w = some k) : ((s.countLocal g).join w g k).Sound := by
  have hcount : ∀ p, ((s.countLocal g).join w g k).count p =
      s.count p + if p ⟨w, g, k, .registered⟩ then 1 else 0 := fun p => count_join _ w g k p
  have hspaces : ∀ g', (((s.countLocal g).join w g k).localGates g').workspaces =
      (s.localGates g').workspaces := s.workspaces_countLocal g
  refine ⟨fun a ha hlive => ?_, fun g' hg' => ?_, fun g' w' k' hg' hw' => ?_,
    fun g' w₁ w₂ k' hw₁ hw₂ => ?_, fun g' w' k' hw' => ?_, fun g' w' k' hg' hw' => ?_,
    fun g' hg' => ?_⟩
  · have hbefore : s.Opened a := by
      rcases List.mem_append.mp ha with hold | hnew
      · exact h.opened a hold hlive
      · rw [List.mem_singleton] at hnew
        rw [hnew]
        exact ⟨hg, hw⟩
    exact ⟨hbefore.1, by rw [hspaces, hbefore.2]⟩
  · obtain rfl := Option.some.inj (hg.symm.trans hg')
    have husers := h.users g hg
    rw [hcount]
    simp [join, countLocal, husers, Activation.live]
  · obtain rfl := Option.some.inj (hg.symm.trans hg')
    rw [hspaces] at hw'
    have husers := h.gateUsers g w' k' hg hw'
    rw [hcount]
    by_cases hk : k' = k
    · subst hk
      obtain rfl := h.distinct g w w' k' hw hw'
      simp [join, countLocal, husers, Activation.inWorkspace, Activation.live]
    · have hne : w ≠ w' := by
        rintro rfl
        exact hk (Option.some.inj (hw'.symm.trans hw))
      simp [join, countLocal, husers, Activation.inWorkspace, hk, hne]
  · rw [hspaces] at hw₁ hw₂
    exact h.distinct g' w₁ w₂ k' hw₁ hw₂
  · rw [hspaces] at hw'
    exact h.made g' w' k' hw'
  · rw [hspaces] at hw'
    rw [hcount, lock_join, if_neg (by simp [Activation.inWorkspace, Activation.holds])]
    exact h.lock g' w' k' hg' hw'
  · rw [hcount, if_neg (by simp [Activation.isInside])]
    have hcapacity : (((s.countLocal g).join w g k).localGates g').capacity =
      (s.localGates g').capacity := s.capacity_countLocal g g'
    rw [hcapacity]
    exact h.capacity g' hg'

theorem register_eq (s : Slots W) (w : W) :
    s.register w =
      ((s.openLocal.2.openGate s.openLocal.1 w).2.countLocal s.openLocal.1).join w s.openLocal.1
        (s.openLocal.2.openGate s.openLocal.1 w).1 := by
  unfold register
  dsimp only
  rw [openGate_countLocal]

theorem sound_register (h : s.Sound) (w : W) : (s.register w).Sound := by
  rw [register_eq]
  obtain ⟨hg, hw⟩ := opened_openGate s.entry_openLocal w
  exact sound_join (sound_openGate (sound_openLocal h) s.entry_openLocal w) hg hw

theorem workspaces_of_openGate {g g' k : Nat} {w w' : W}
    (h : ((s.openGate g w).2.localGates g').workspaces w' = some k) :
    (g' = g ∧ w' = w) ∨ (s.localGates g').workspaces w' = some k := by
  cases hw : (s.localGates g).workspaces w with
  | some _ =>
    unfold openGate at h
    rw [hw] at h
    exact .inr h
  | none =>
    rw [workspaces_openGate hw] at h
    split_ifs at h with hsame
    · exact .inl hsame
    · exact .inr h

theorem activations_openGate (s : Slots W) (g : Nat) (w : W) :
    (s.openGate g w).2.activations = s.activations := by
  unfold openGate
  split
  · rfl
  · rfl

/-- The activation that a task starts with. -/
def entered (s : Slots W) (w : W) : Activation W :=
  ⟨w, s.openLocal.1, (s.openLocal.2.openGate s.openLocal.1 w).1, .registered⟩

theorem activations_register (s : Slots W) (w : W) :
    (s.register w).activations = s.activations ++ [s.entered w] := by
  rw [register_eq]
  change (s.openLocal.2.openGate s.openLocal.1 w).2.activations ++ [s.entered w] = _
  rw [activations_openGate, activations_openLocal]

theorem count_register (s : Slots W) (w : W) (p : Activation W → Bool) :
    (s.register w).count p = s.count p + if p (s.entered w) then 1 else 0 := by
  unfold count
  rw [activations_register, List.countP_append, List.countP_singleton]

theorem entry_register (s : Slots W) (w : W) : (s.register w).entry = some s.openLocal.1 := by
  rw [register_eq]
  exact (opened_openGate s.entry_openLocal w).1

/-- Whoever enters counts for the entries that are made for it. -/
theorem tidy_register (h : s.Tidy) (w : W) : (s.register w).Tidy := by
  refine ⟨fun g _ => ?_, fun g w' k hw' => ?_⟩
  · rw [count_register, if_pos (by simp [Activation.live, entered])]
    exact Nat.succ_pos _
  · rw [entry_register, count_register]
    have hopen : ((s.openLocal.2.openGate s.openLocal.1 w).2.localGates g).workspaces w' = some k := by
      rw [register_eq] at hw'
      rw [← workspaces_countLocal _ s.openLocal.1]
      exact hw'
    rcases workspaces_of_openGate hopen with ⟨rfl, rfl⟩ | hold
    · refine ⟨rfl, ?_⟩
      rw [if_pos (by simp [Activation.inWorkspace, Activation.live, entered])]
      exact Nat.succ_pos _
    · obtain ⟨hentry, hpos⟩ := h.workspace g w' k (workspaces_of_openLocal hold)
      rw [openLocal_of_entry hentry]
      exact ⟨rfl, Nat.lt_of_lt_of_le hpos (Nat.le_add_right _ _)⟩

end Slots

end Maeglagi.Contention
