import Maeglagi.Contention.Gates

/-!
# Runs of the slots

Whatever the tasks do and whenever they are cancelled, each step moves one activation on, with
the lock or the capacity that it uses.
-/

namespace Maeglagi.Contention

open Core Core.Asyncio

variable {W : Type}

namespace Slots

variable {s s' : Slots W} {i : Nat} {a : Activation W} {progress : Progress}

theorem mem_of_mem_set {b : Activation W} (h : b ∈ s.activations.set i { a with progress := progress })
    (ha : s.activations[i]? = some a) (hlive : b.live = true) (hbefore : a.live = true) :
    ∃ c ∈ s.activations, c.live = true ∧ c.workspace = b.workspace ∧ c.gates = b.gates ∧
      c.gate = b.gate := by
  rcases List.mem_or_eq_of_mem_set h with hold | rfl
  · exact ⟨b, hold, hlive, rfl, rfl, rfl⟩
  · exact ⟨a, List.mem_of_getElem? ha, hbefore, rfl, rfl, rfl⟩

/-- Counting what the workspace of an activation does, after the activation got on. -/
theorem count_set (ha : s.activations[i]? = some a) (p : Activation W → Bool)
    (hs' : s'.activations = s.activations.set i { a with progress := progress }) :
    s'.count p + (if p a then 1 else 0) =
      s.count p + if p { a with progress := progress } then 1 else 0 := by
  unfold count
  rw [hs']
  exact countP_set_add ha p _

/-- Counting that does not tell the two apart stays. -/
theorem count_set_of_eq (ha : s.activations[i]? = some a) {p : Activation W → Bool}
    (hs' : s'.activations = s.activations.set i { a with progress := progress })
    (hp : p { a with progress := progress } = p a) : s'.count p = s.count p := by
  have := count_set ha p hs'
  rw [hp] at this
  omega

variable [DecidableEq W]

theorem inWorkspace_self (p : Activation W → Bool) :
    Activation.inWorkspace a.workspace p { a with progress := progress } =
      p { a with progress := progress } := by
  simp [Activation.inWorkspace]

theorem inWorkspace_of_ne {w : W} {p : Activation W → Bool} (hw : a.workspace ≠ w) :
    Activation.inWorkspace w p { a with progress := progress } = Activation.inWorkspace w p a := by
  simp [Activation.inWorkspace, hw]

/-- A step of the lock of a gate, with the activation that takes it. -/
theorem sound_setLock (h : s.Sound) (ha : s.activations[i]? = some a) (hlive : a.live = true)
    (hnext : progress ≠ .left) (hbody : a.isInside = decide (progress = .inside)) {lock : Lock Nat}
    (hlock : ∀ others, (s.gates a.gate).lock.Counts (others + if a.holds then 1 else 0) →
      lock.Counts (others + if { a with progress := progress }.holds then 1 else 0)) :
    (s.setLock i a lock progress).Sound := by
  have hopen := h.opened a (List.mem_of_getElem? ha) hlive
  have hlive' : Activation.live { a with progress := progress } = a.live := by
    simp [Activation.live, hnext] at hlive ⊢
    simpa using hlive
  have hset : ∀ p : Activation W → Bool, p { a with progress := progress } = p a →
      (s.setLock i a lock progress).count p = s.count p := fun p hp => count_set_of_eq ha rfl hp
  refine ⟨fun b hb hbl => ?_, fun g hg => ?_, fun g w k hg hw => ?_, h.distinct, h.made,
    fun g w k hg hw => ?_, fun g hg => ?_⟩
  · obtain ⟨c, hc, hcl, hw, hgs, hgate⟩ := mem_of_mem_set hb ha hbl hlive
    have := h.opened c hc hcl
    unfold Opened at this ⊢
    rw [hw, hgs, hgate] at this
    exact this
  · rw [hset _ hlive']
    exact h.users g hg
  · rw [hset _ (by simp only [Activation.inWorkspace, hlive'])]
    have := h.gateUsers g w k hg hw
    by_cases hk : k = a.gate
    · subst hk
      simpa [setLock] using this
    · simpa [setLock, hk] using this
  · have hbefore := h.lock g w k hg hw
    by_cases hk : k = a.gate
    · subst hk
      obtain rfl := Option.some.inj (hopen.1.symm.trans hg)
      obtain rfl := h.distinct _ _ _ _ hw hopen.2
      have hcount := count_set ha (Activation.inWorkspace a.workspace Activation.holds)
        (show (s.setLock i a lock progress).activations = _ from rfl)
      have hmine : Activation.inWorkspace a.workspace Activation.holds a = a.holds := by
        simp [Activation.inWorkspace]
      rw [hmine, inWorkspace_self] at hcount
      have hone : (if a.holds then 1 else 0) ≤
          s.count (Activation.inWorkspace a.workspace Activation.holds) := by
        split_ifs with hholds
        · exact count_pos (List.mem_of_getElem? ha) (hmine.trans hholds)
        · exact Nat.zero_le _
      obtain ⟨others, hothers⟩ := Nat.exists_eq_add_of_le' hone
      rw [hothers] at hbefore hcount
      have hafter := hlock others hbefore
      have heq : (s.setLock i a lock progress).count
          (Activation.inWorkspace a.workspace Activation.holds) =
            others + if Activation.holds { a with progress := progress } then 1 else 0 := by
        omega
      rw [heq]
      simpa [setLock] using hafter
    · have hne : a.workspace ≠ w := by
        rintro rfl
        obtain rfl := Option.some.inj (hopen.1.symm.trans hg)
        exact hk (Option.some.inj (hw.symm.trans hopen.2))
      rw [hset _ (inWorkspace_of_ne hne)]
      simpa [setLock, hk] using hbefore
  · rw [hset _ (by simp only [hbody]; rfl)]
    exact h.capacity g hg

omit [DecidableEq W] in
theorem workspaces_setCapacity (s : Slots W) (i : Nat) (a : Activation W)
    (capacity : Semaphore Nat) (progress : Progress) (g : Nat) :
    ((s.setCapacity i a capacity progress).localGates g).workspaces =
      (s.localGates g).workspaces := by
  unfold setCapacity
  by_cases hg : g = a.gates
  · subst hg
    simp
  · simp [hg]

/-- A step of the capacity, with the activation that takes it. -/
theorem sound_setCapacity (h : s.Sound) (ha : s.activations[i]? = some a)
    (hlive : a.live = true) (hnext : progress ≠ .left) {capacity : Semaphore Nat}
    (hholds : Activation.holds { a with progress := progress } = a.holds)
    (hcapacity : ∀ others,
      (s.localGates a.gates).capacity.Counts 4 (others + if a.isInside then 1 else 0) →
      capacity.Counts 4 (others + if progress = .inside then 1 else 0)) :
    (s.setCapacity i a capacity progress).Sound := by
  have hopen := h.opened a (List.mem_of_getElem? ha) hlive
  have hlive' : Activation.live { a with progress := progress } = a.live := by
    simp [Activation.live, hnext] at hlive ⊢
    simpa using hlive
  have hset : ∀ p : Activation W → Bool, p { a with progress := progress } = p a →
      (s.setCapacity i a capacity progress).count p = s.count p :=
    fun p hp => count_set_of_eq ha rfl hp
  have hspaces := s.workspaces_setCapacity i a capacity progress
  refine ⟨fun b hb hbl => ?_, fun g hg => ?_, fun g w k hg hw => ?_, fun g w₁ w₂ k hw₁ hw₂ => ?_,
    fun g w k hw => ?_, fun g w k hg hw => ?_, fun g hg => ?_⟩
  · obtain ⟨c, hc, hcl, hw, hgs, hgate⟩ := mem_of_mem_set hb ha hbl hlive
    have := h.opened c hc hcl
    unfold Opened at this ⊢
    rw [hw, hgs, hgate] at this
    rw [hspaces]
    exact this
  · rw [hset _ hlive']
    have := h.users g hg
    obtain rfl := Option.some.inj (hopen.1.symm.trans hg)
    simpa [setCapacity] using this
  · rw [hspaces] at hw
    rw [hset _ (by simp only [Activation.inWorkspace, hlive'])]
    exact h.gateUsers g w k hg hw
  · rw [hspaces] at hw₁ hw₂
    exact h.distinct g w₁ w₂ k hw₁ hw₂
  · rw [hspaces] at hw
    exact h.made g w k hw
  · rw [hspaces] at hw
    rw [hset _ (by simp only [Activation.inWorkspace, hholds])]
    exact h.lock g w k hg hw
  · obtain rfl := Option.some.inj (hopen.1.symm.trans hg)
    have hbefore := h.capacity a.gates hg
    have hcount := count_set ha Activation.isInside
      (show (s.setCapacity i a capacity progress).activations = _ from rfl)
    have hone : (if a.isInside then 1 else 0) ≤ s.count Activation.isInside := by
      split_ifs with hinside
      · exact count_pos (List.mem_of_getElem? ha) hinside
      · exact Nat.zero_le _
    obtain ⟨others, hothers⟩ := Nat.exists_eq_add_of_le' hone
    rw [hothers] at hbefore hcount
    have hafter := hcapacity others hbefore
    have hnow : (if Activation.isInside { a with progress := progress } then 1 else 0) =
        if progress = .inside then 1 else 0 := by
      simp [Activation.isInside]
    have heq : (s.setCapacity i a capacity progress).count Activation.isInside =
        others + if progress = .inside then 1 else 0 := by
      omega
    rw [heq]
    simpa [setCapacity] using hafter

/-- An activation that stays live leaves no entry behind. -/
theorem tidy_of_set (h : s.Tidy) (ha : s.activations[i]? = some a) (hlive : a.live = true)
    (hnext : progress ≠ .left) (hentry : s'.entry = s.entry)
    (hspaces : ∀ g, (s'.localGates g).workspaces = (s.localGates g).workspaces)
    (hs' : s'.activations = s.activations.set i { a with progress := progress }) : s'.Tidy := by
  have hlive' : Activation.live { a with progress := progress } = a.live := by
    simp [Activation.live, hnext] at hlive ⊢
    simpa using hlive
  refine ⟨fun g hg => ?_, fun g w k hw => ?_⟩
  · rw [count_set_of_eq ha hs' hlive']
    exact h.loop g (hentry.symm.trans hg)
  · rw [hspaces] at hw
    rw [hentry, count_set_of_eq ha hs' (by simp only [Activation.inWorkspace, hlive'])]
    exact h.workspace g w k hw

/-- The slots are sound, and nothing is left behind. -/
structure Kept (s : Slots W) : Prop where
  sound : s.Sound
  tidy : s.Tidy

section
variable (s) (i) (a)

theorem entry_unregister :
    (s.unregister i a).entry =
      if (s.localGates a.gates).users - 1 = 0 then none else s.entry := rfl

theorem workspaces_unregister (g : Nat) (w : W) :
    ((s.unregister i a).localGates g).workspaces w =
      if (g = a.gates ∧ w = a.workspace) ∧ (s.gates a.gate).users - 1 = 0 then none
      else (s.localGates g).workspaces w := by
  unfold unregister
  by_cases hg : g = a.gates
  · subst hg
    by_cases hzero : (s.gates a.gate).users - 1 = 0
    · by_cases hw : w = a.workspace
      · subst hw
        simp [hzero]
      · simp [hzero, hw]
    · simp [hzero]
  · simp [hg]

theorem users_unregister :
    ((s.unregister i a).localGates a.gates).users = (s.localGates a.gates).users - 1 := by
  simp [unregister]

theorem gateUsers_unregister :
    ((s.unregister i a).gates a.gate).users = (s.gates a.gate).users - 1 := by
  simp [unregister]

theorem capacity_unregister (g : Nat) :
    ((s.unregister i a).localGates g).capacity = (s.localGates g).capacity := by
  unfold unregister
  by_cases hg : g = a.gates
  · subst hg
    simp
  · simp [hg]

theorem lock_unregister (k : Nat) :
    ((s.unregister i a).gates k).lock = (s.gates k).lock := by
  unfold unregister
  by_cases hk : k = a.gate
  · subst hk
    simp
  · simp [hk]

end

/-- The last users take the entries away. -/
theorem kept_unregister (h : s.Kept) (ha : s.activations[i]? = some a)
    (hregistered : a.progress = .registered) : (s.unregister i a).Kept := by
  obtain ⟨hsound, htidy⟩ := h
  have hmem := List.mem_of_getElem? ha
  have hlive : a.live = true := by simp [Activation.live, hregistered]
  obtain ⟨hentry, hgate⟩ := hsound.opened a hmem hlive
  have hacts : (s.unregister i a).activations =
      s.activations.set i { a with progress := .left } := rfl
  have hleft : Activation.live { a with progress := Progress.left } = false := rfl
  have hholds : Activation.holds { a with progress := Progress.left } = a.holds := by
    simp [Activation.holds, hregistered]
  have hinside : Activation.isInside { a with progress := Progress.left } = a.isInside := by
    simp [Activation.isInside, hregistered]
  have hall : (s.unregister i a).count Activation.live + 1 = s.count Activation.live := by
    have := count_set ha Activation.live hacts
    rw [hlive, hleft] at this
    simpa using this
  have hown : (s.unregister i a).count (Activation.inWorkspace a.workspace Activation.live) + 1 =
      s.count (Activation.inWorkspace a.workspace Activation.live) := by
    have hmine : Activation.inWorkspace a.workspace Activation.live a = true := by
      simp [Activation.inWorkspace, hlive]
    have := count_set ha (Activation.inWorkspace a.workspace Activation.live) hacts
    rw [hmine, inWorkspace_self, hleft] at this
    simpa using this
  have hother : ∀ w, w ≠ a.workspace → ∀ p, (s.unregister i a).count (Activation.inWorkspace w p) =
      s.count (Activation.inWorkspace w p) :=
    fun w hw p => count_set_of_eq ha hacts (inWorkspace_of_ne hw.symm)
  have husers := hsound.users _ hentry
  have hgateUsers := hsound.gateUsers _ _ _ hentry hgate
  -- An entry that is still there was there, and not for the last user.
  have hstill : ∀ g, (s.unregister i a).entry = some g → s.entry = some g ∧ g = a.gates := by
    intro g hg
    rw [entry_unregister] at hg
    split_ifs at hg
    exact ⟨hg, Option.some.inj (hg.symm.trans hentry)⟩
  have hspace : ∀ g w k, ((s.unregister i a).localGates g).workspaces w = some k →
      (s.localGates g).workspaces w = some k ∧
        (g = a.gates → w = a.workspace → (s.gates a.gate).users - 1 ≠ 0) := by
    intro g w k hw
    rw [workspaces_unregister] at hw
    split_ifs at hw with hlast
    exact ⟨hw, fun hg hw' hzero => hlast ⟨⟨hg, hw'⟩, hzero⟩⟩
  refine ⟨⟨fun b hb hbl => ?_, fun g hg => ?_, fun g w k hg hw => ?_, fun g w₁ w₂ k hw₁ hw₂ => ?_,
    fun g w k hw => ?_, fun g w k hg hw => ?_, fun g hg => ?_⟩, fun g hg => ?_, fun g w k hw => ?_⟩
  · have hold : b ∈ s.activations := by
      rcases List.mem_or_eq_of_mem_set hb with hold | rfl
      · exact hold
      · cases hbl
    have hpos : 0 < (s.unregister i a).count Activation.live := count_pos hb hbl
    obtain ⟨hb₁, hb₂⟩ := hsound.opened b hold hbl
    refine ⟨?_, ?_⟩
    · rw [entry_unregister, if_neg (by omega), hb₁]
    · rw [workspaces_unregister, if_neg, hb₂]
      rintro ⟨⟨-, hw⟩, hzero⟩
      have : 0 < (s.unregister i a).count (Activation.inWorkspace a.workspace Activation.live) :=
        count_pos hb (by simp [Activation.inWorkspace, hw, hbl])
      omega
  · obtain ⟨-, rfl⟩ := hstill g hg
    rw [users_unregister]
    omega
  · obtain ⟨hg, rfl⟩ := hstill g hg
    obtain ⟨hw, -⟩ := hspace _ w k hw
    have hbefore := hsound.gateUsers _ w k hg hw
    by_cases hk : k = a.gate
    · subst hk
      obtain rfl := hsound.distinct _ _ _ _ hw hgate
      rw [gateUsers_unregister]
      omega
    · have hne : w ≠ a.workspace := by
        rintro rfl
        exact hk (Option.some.inj (hw.symm.trans hgate))
      rw [hother w hne, ← hbefore]
      simp [unregister, hk]
  · exact hsound.distinct g w₁ w₂ k (hspace g w₁ k hw₁).1 (hspace g w₂ k hw₂).1
  · exact hsound.made g w k (hspace g w k hw).1
  · rw [lock_unregister, count_set_of_eq ha hacts (by simp only [Activation.inWorkspace, hholds])]
    exact hsound.lock g w k (hstill g hg).1 (hspace g w k hw).1
  · rw [capacity_unregister, count_set_of_eq ha hacts hinside]
    exact hsound.capacity g (hstill g hg).1
  · rw [entry_unregister] at hg
    split_ifs at hg with hlast
    omega
  · obtain ⟨hw, hnotlast⟩ := hspace g w k hw
    obtain ⟨hg, hpos⟩ := htidy.workspace g w k hw
    obtain rfl := Option.some.inj (hg.symm.trans hentry)
    have hpos' : 0 < (s.unregister i a).count (Activation.inWorkspace w Activation.live) := by
      by_cases hw' : w = a.workspace
      · subst hw'
        have := hnotlast rfl rfl
        omega
      · rw [hother w hw']
        exact hpos
    refine ⟨?_, hpos'⟩
    obtain ⟨b, hb, hbl⟩ := exists_of_count_pos hpos'
    simp only [Activation.inWorkspace, Bool.and_eq_true] at hbl
    have : 0 < (s.unregister i a).count Activation.live := count_pos hb hbl.2
    rw [entry_unregister, if_neg (by omega), hentry]

omit [DecidableEq W] in
/-- An activation where it stands, after it got on. -/
theorem getElem?_set_self (ha : s.activations[i]? = some a) (b : Activation W) :
    (s.activations.set i b)[i]? = some b := by
  obtain ⟨hi, -⟩ := List.getElem?_eq_some_iff.mp ha
  simp [hi]

theorem kept_setLock (h : s.Kept) (ha : s.activations[i]? = some a) (hlive : a.live = true)
    (hnext : progress ≠ .left) (hbody : a.isInside = decide (progress = .inside)) {lock : Lock Nat}
    (hlock : ∀ others, (s.gates a.gate).lock.Counts (others + if a.holds then 1 else 0) →
      lock.Counts (others + if Activation.holds { a with progress := progress } then 1 else 0)) :
    (s.setLock i a lock progress).Kept where
  sound := sound_setLock h.sound ha hlive hnext hbody hlock
  tidy := tidy_of_set h.tidy ha hlive hnext rfl (fun _ => rfl) rfl

theorem kept_setCapacity (h : s.Kept) (ha : s.activations[i]? = some a) (hlive : a.live = true)
    (hnext : progress ≠ .left) {capacity : Semaphore Nat}
    (hholds : Activation.holds { a with progress := progress } = a.holds)
    (hcapacity : ∀ others,
      (s.localGates a.gates).capacity.Counts 4 (others + if a.isInside then 1 else 0) →
      capacity.Counts 4 (others + if progress = .inside then 1 else 0)) :
    (s.setCapacity i a capacity progress).Kept where
  sound := sound_setCapacity h.sound ha hlive hnext hholds hcapacity
  tidy := tidy_of_set h.tidy ha hlive hnext rfl (s.workspaces_setCapacity i a capacity progress) rfl

theorem kept_acquireCapacity (h : s.Kept) (ha : s.activations[i]? = some a)
    (hlocked : a.progress = .locked) : (s.acquireCapacity i a).Kept := by
  have hlive : a.live = true := by simp [Activation.live, hlocked]
  unfold acquireCapacity
  split
  · rename_i capacity hcapacity
    refine kept_setCapacity h ha hlive (by simp) (by simp [Activation.holds, hlocked])
      fun others hothers => ?_
    simp only [Activation.isInside, hlocked] at hothers
    exact hothers.tryAcquire hcapacity
  · refine kept_setCapacity h ha hlive (by simp) (by simp [Activation.holds, hlocked])
      fun others hothers => ?_
    simp only [Activation.isInside, hlocked] at hothers
    exact hothers.enqueue i

theorem kept_acquireLock (h : s.Kept) (ha : s.activations[i]? = some a)
    (hregistered : a.progress = .registered) : (s.acquireLock i a).Kept := by
  have hlive : a.live = true := by simp [Activation.live, hregistered]
  unfold acquireLock
  split
  · rename_i lock hlock
    refine kept_acquireCapacity (kept_setLock h ha hlive (by simp)
      (by simp [Activation.isInside, hregistered]) fun others hothers => ?_)
      (getElem?_set_self ha _) rfl
    simp only [Activation.holds, hregistered] at hothers
    exact hothers.tryAcquire hlock
  · refine kept_setLock h ha hlive (by simp) (by simp [Activation.isInside, hregistered])
      fun others hothers => ?_
    simp only [Activation.holds, hregistered] at hothers
    exact hothers.enqueue i

theorem kept_releaseLock (h : s.Kept) (ha : s.activations[i]? = some a)
    (hlocked : a.progress = .locked) : (s.releaseLock i a).Kept := by
  have hlive : a.live = true := by simp [Activation.live, hlocked]
  unfold releaseLock
  refine kept_unregister (kept_setLock h ha hlive (by simp)
    (by simp [Activation.isInside, hlocked]) fun others hothers => ?_)
    (getElem?_set_self ha _) rfl
  simp only [Activation.holds, hlocked] at hothers
  exact hothers.release

variable {e : SlotEvent W}

/-- What a step does to the slots. -/
inductive Effect (s : Slots W) : SlotEvent W → Slots W → Prop
  | entered (w : W) :
      Effect s (.enter w) ((s.register w).acquireLock s.activations.length (s.entered w))
  | gotLock {i : Nat} {a : Activation W} (ha : s.activations[i]? = some a)
      (hprogress : a.progress = .waitsLock false)
      (hfuture : futureOf (s.gates a.gate).lock.waiters i = some .resolved) :
      Effect s (.resume i)
        ((s.setLock i a ((s.gates a.gate).lock.resumed i) .locked).acquireCapacity i
          { a with progress := .locked })
  | gotCapacity {i : Nat} {a : Activation W} (ha : s.activations[i]? = some a)
      (hprogress : a.progress = .waitsCapacity false)
      (hfuture : futureOf (s.localGates a.gates).capacity.waiters i = some .resolved) :
      Effect s (.resume i)
        (s.setCapacity i a ((s.localGates a.gates).capacity.resumed i) .inside)
  | lockCancelled {i : Nat} {a : Activation W} {before after : Bool}
      (ha : s.activations[i]? = some a) (hprogress : a.progress = .waitsLock before) :
      Effect s (.cancel i)
        (s.setLock i a ((s.gates a.gate).lock.cancelled i) (.waitsLock after))
  | capacityCancelled {i : Nat} {a : Activation W} {before after : Bool}
      (ha : s.activations[i]? = some a) (hprogress : a.progress = .waitsCapacity before) :
      Effect s (.cancel i)
        (s.setCapacity i a ((s.localGates a.gates).capacity.cancelled i) (.waitsCapacity after))
  | lockThrown {i : Nat} {a : Activation W} {mustCancel : Bool}
      (ha : s.activations[i]? = some a) (hprogress : a.progress = .waitsLock mustCancel) :
      Effect s (.throw i)
        ((s.setLock i a ((s.gates a.gate).lock.thrown i) .registered).unregister i
          { a with progress := .registered })
  | capacityThrown {i : Nat} {a : Activation W} {mustCancel : Bool}
      (ha : s.activations[i]? = some a) (hprogress : a.progress = .waitsCapacity mustCancel) :
      Effect s (.throw i)
        ((s.setCapacity i a ((s.localGates a.gates).capacity.thrown i) .locked).releaseLock i
          { a with progress := .locked })
  | ended {i : Nat} {a : Activation W} (ha : s.activations[i]? = some a)
      (hprogress : a.progress = .inside) :
      Effect s (.leave i)
        ((s.setCapacity i a (s.localGates a.gates).capacity.release .locked).releaseLock i
          { a with progress := .locked })

theorem getElem?_register (s : Slots W) (w : W) :
    (s.register w).activations[s.activations.length]? = some (s.entered w) := by
  rw [activations_register]
  simp

theorem effect_of_step (h : s.step e = some s') : Effect s e s' := by
  cases e with
  | enter w =>
    simp only [step, getElem?_register] at h
    obtain rfl := Option.some.inj h
    exact .entered w
  | resume i =>
    simp only [step] at h
    split at h
    · cases h
    · rename_i a ha
      split_ifs at h with hlock hcapacity
      · obtain rfl := Option.some.inj h
        exact .gotLock ha hlock.1 hlock.2
      · obtain rfl := Option.some.inj h
        exact .gotCapacity ha hcapacity.1 hcapacity.2
  | cancel i =>
    simp only [step] at h
    split at h
    · cases h
    · rename_i a ha
      split at h
      · obtain rfl := Option.some.inj h
        exact .lockCancelled ha ‹_›
      · obtain rfl := Option.some.inj h
        exact .capacityCancelled ha ‹_›
      · cases h
  | throw i =>
    simp only [step] at h
    split at h
    · cases h
    · rename_i a ha
      split at h
      · split_ifs at h
        obtain rfl := Option.some.inj h
        exact .lockThrown ha ‹_›
      · split_ifs at h
        obtain rfl := Option.some.inj h
        exact .capacityThrown ha ‹_›
      · cases h
  | leave i =>
    simp only [step] at h
    split at h
    · cases h
    · rename_i a ha
      split_ifs at h with hinside
      obtain rfl := Option.some.inj h
      exact .ended ha hinside

/-- A step keeps the slots sound and tidy. -/
theorem kept_step (h : s.Kept) (hstep : s.step e = some s') : s'.Kept := by
  cases effect_of_step hstep with
  | entered w =>
    have hregistered : (s.register w).Kept :=
      ⟨sound_register h.sound w, tidy_register h.tidy w⟩
    exact kept_acquireLock hregistered (s.getElem?_register w) rfl
  | @gotLock i a ha hprogress hfuture =>
    have hlive : a.live = true := by simp [Activation.live, hprogress]
    refine kept_acquireCapacity (kept_setLock h ha hlive (by simp)
      (by simp [Activation.isInside, hprogress]) fun others hothers => ?_)
      (getElem?_set_self ha _) rfl
    simp only [Activation.holds, hprogress] at hothers
    exact hothers.resumed hfuture
  | @gotCapacity i a ha hprogress hfuture =>
    have hlive : a.live = true := by simp [Activation.live, hprogress]
    refine kept_setCapacity h ha hlive (by simp) (by simp [Activation.holds, hprogress])
      fun others hothers => ?_
    simp only [Activation.isInside, hprogress] at hothers
    exact hothers.resumed hfuture
  | @lockCancelled i a before after ha hprogress =>
    have hlive : a.live = true := by simp [Activation.live, hprogress]
    refine kept_setLock h ha hlive (by simp) (by simp [Activation.isInside, hprogress])
      fun others hothers => ?_
    simp only [Activation.holds, hprogress] at hothers
    exact hothers.cancelled i
  | @capacityCancelled i a before after ha hprogress =>
    have hlive : a.live = true := by simp [Activation.live, hprogress]
    refine kept_setCapacity h ha hlive (by simp) (by simp [Activation.holds, hprogress])
      fun others hothers => ?_
    simp only [Activation.isInside, hprogress] at hothers
    exact hothers.cancelled i
  | @lockThrown i a mustCancel ha hprogress =>
    have hlive : a.live = true := by simp [Activation.live, hprogress]
    refine kept_unregister (kept_setLock h ha hlive (by simp)
      (by simp [Activation.isInside, hprogress]) fun others hothers => ?_)
      (getElem?_set_self ha _) rfl
    simp only [Activation.holds, hprogress] at hothers
    exact hothers.thrown i
  | @capacityThrown i a mustCancel ha hprogress =>
    have hlive : a.live = true := by simp [Activation.live, hprogress]
    refine kept_releaseLock (kept_setCapacity h ha hlive (by simp)
      (by simp [Activation.holds, hprogress]) fun others hothers => ?_)
      (getElem?_set_self ha _) rfl
    simp only [Activation.isInside, hprogress] at hothers
    exact hothers.thrown i
  | @ended i a ha hprogress =>
    have hlive : a.live = true := by simp [Activation.live, hprogress]
    refine kept_releaseLock (kept_setCapacity h ha hlive (by simp)
      (by simp [Activation.holds, hprogress]) fun others hothers => ?_)
      (getElem?_set_self ha _) rfl
    simp only [Activation.isInside, hprogress] at hothers
    exact hothers.release

/-- The activations go on: each keeps its gates, and one that is over stays over. -/
def Continues (s s' : Slots W) : Prop :=
  ∀ (i : Nat) (a : Activation W), s.activations[i]? = some a →
    ∃ progress, s'.activations[i]? = some { a with progress := progress } ∧
      (a.progress = .left → progress = .left)

omit [DecidableEq W] in
theorem Continues.refl (s : Slots W) : s.Continues s := fun _ a ha => ⟨a.progress, ha, id⟩

omit [DecidableEq W] in
theorem Continues.trans {s'' : Slots W} (h : s.Continues s') (h' : s'.Continues s'') :
    s.Continues s'' := by
  intro i a ha
  obtain ⟨mid, hmid, hleft⟩ := h i a ha
  obtain ⟨last, hlast, hleft'⟩ := h' i _ hmid
  exact ⟨last, hlast, fun hgone => hleft' (hleft hgone)⟩

omit [DecidableEq W] in
theorem continues_set (ha : s.activations[i]? = some a) (hlive : a.progress ≠ .left)
    (hs' : s'.activations = s.activations.set i { a with progress := progress }) :
    s.Continues s' := by
  intro j b hb
  rw [hs']
  by_cases hij : i = j
  · subst hij
    obtain rfl := Option.some.inj (ha.symm.trans hb)
    exact ⟨progress, getElem?_set_self ha _, fun hleft => absurd hleft hlive⟩
  · exact ⟨b.progress, by rw [List.getElem?_set_ne hij, hb], id⟩

omit [DecidableEq W] in
theorem continues_acquireCapacity (ha : s.activations[i]? = some a)
    (hlive : a.progress ≠ .left) : s.Continues (s.acquireCapacity i a) := by
  unfold acquireCapacity
  split
  · exact continues_set ha hlive rfl
  · exact continues_set ha hlive rfl

omit [DecidableEq W] in
theorem continues_acquireLock (ha : s.activations[i]? = some a) (hlive : a.progress ≠ .left) :
    s.Continues (s.acquireLock i a) := by
  unfold acquireLock
  split
  · exact (continues_set ha hlive rfl).trans
      (continues_acquireCapacity (getElem?_set_self ha _) (by simp))
  · exact continues_set ha hlive rfl

theorem continues_releaseLock (ha : s.activations[i]? = some a) (hlive : a.progress ≠ .left) :
    s.Continues (s.releaseLock i a) := by
  have hlocked : s.Continues (s.setLock i a (s.gates a.gate).lock.release .registered) :=
    continues_set ha hlive rfl
  exact hlocked.trans (continues_set (getElem?_set_self ha _) (by simp) rfl)

theorem continues_register (s : Slots W) (w : W) : s.Continues (s.register w) := by
  intro i a ha
  obtain ⟨hi, -⟩ := List.getElem?_eq_some_iff.mp ha
  exact ⟨a.progress, by rw [activations_register, List.getElem?_append_left hi, ha], id⟩

theorem continues_step (hstep : s.step e = some s') : s.Continues s' := by
  cases effect_of_step hstep with
  | entered w =>
    exact (s.continues_register w).trans
      (continues_acquireLock (s.getElem?_register w) (by simp [entered]))
  | gotLock ha hprogress =>
    exact (continues_set ha (by simp [hprogress]) rfl).trans
      (continues_acquireCapacity (getElem?_set_self ha _) (by simp))
  | gotCapacity ha hprogress => exact continues_set ha (by simp [hprogress]) rfl
  | lockCancelled ha hprogress => exact continues_set ha (by simp [hprogress]) rfl
  | capacityCancelled ha hprogress => exact continues_set ha (by simp [hprogress]) rfl
  | @lockThrown i a _ ha hprogress =>
    have hthrown : s.Continues (s.setLock i a ((s.gates a.gate).lock.thrown i) .registered) :=
      continues_set ha (by simp [hprogress]) rfl
    exact hthrown.trans (continues_set (getElem?_set_self ha _) (by simp) rfl)
  | capacityThrown ha hprogress =>
    exact (continues_set ha (by simp [hprogress]) rfl).trans
      (continues_releaseLock (getElem?_set_self ha _) (by simp))
  | ended ha hprogress =>
    exact (continues_set ha (by simp [hprogress]) rfl).trans
      (continues_releaseLock (getElem?_set_self ha _) (by simp))

theorem kept_of_run (h : RunOf step anyEvent start s) : s.Kept :=
  RunOf.invariant (P := Kept) (fun _ _ _ hs _ hnext => kept_step hs hnext) h
    ⟨sound_start, tidy_start⟩

theorem continues_of_run (h : RunOf step anyEvent s s') : s.Continues s' :=
  RunOf.lift (P := fun _ => True) Continues.refl Continues.trans (fun _ _ _ _ _ _ => trivial)
    (fun _ _ _ _ _ hnext => continues_step hnext) h trivial

/-- At most one task of a workspace is inside. -/
theorem Kept.alone (h : s.Kept) (w : W) :
    s.count (Activation.inWorkspace w Activation.isInside) ≤ 1 := by
  rcases Nat.eq_zero_or_pos (s.count (Activation.inWorkspace w Activation.isInside)) with
    hzero | hpos
  · omega
  · obtain ⟨a, hmem, ha⟩ := exists_of_count_pos hpos
    simp only [Activation.inWorkspace, Bool.and_eq_true, decide_eq_true_eq] at ha
    obtain ⟨rfl, hinside⟩ := ha
    obtain ⟨hg, hw⟩ := h.sound.opened a hmem (live_of_isInside hinside)
    have hheld := (h.sound.lock _ _ _ hg hw).held_le
    have hmono : s.count (Activation.inWorkspace a.workspace Activation.isInside) ≤
        s.count (Activation.inWorkspace a.workspace Activation.holds) := by
      refine List.countP_mono_left fun b _ hb => ?_
      simp only [Activation.inWorkspace, Activation.isInside, Bool.and_eq_true,
        decide_eq_true_eq] at hb ⊢
      exact ⟨hb.1, by simp [Activation.holds, hb.2]⟩
    omega

/-- At most four tasks are inside. -/
theorem Kept.inside_le (h : s.Kept) : s.count Activation.isInside ≤ 4 := by
  rcases Nat.eq_zero_or_pos (s.count Activation.isInside) with hzero | hpos
  · omega
  · obtain ⟨a, hmem, ha⟩ := exists_of_count_pos hpos
    exact (h.sound.capacity _ (h.sound.opened a hmem (live_of_isInside ha)).1).held_le

/-- Without a task that is inside or waits, no entry is left. -/
theorem Kept.empty (h : s.Kept) (hnone : ∀ a ∈ s.activations, a.progress = .left) :
    s.entry = none ∧ ∀ g w, (s.localGates g).workspaces w = none := by
  have hdead : ∀ p : Activation W → Bool, (∀ a, p a = true → a.live = true) → s.count p = 0 := by
    intro p hp
    rcases Nat.eq_zero_or_pos (s.count p) with hzero | hpos
    · exact hzero
    · obtain ⟨a, hmem, ha⟩ := exists_of_count_pos hpos
      have := hp a ha
      simp [Activation.live, hnone a hmem] at this
  refine ⟨?_, fun g w => ?_⟩
  · cases hentry : s.entry with
    | none => rfl
    | some g =>
      have := h.tidy.loop g hentry
      rw [hdead _ fun _ ha => ha] at this
      cases this
  · cases hw : (s.localGates g).workspaces w with
    | none => rfl
    | some k =>
      obtain ⟨-, hpos⟩ := h.tidy.workspace g w k hw
      rw [hdead _ fun a ha => by
        simp only [Activation.inWorkspace, Bool.and_eq_true] at ha
        exact ha.2] at hpos
      cases hpos

/-- Whatever enters, leaves and is cancelled: one task of a workspace and four in all are inside
at most; as long as a task waits or is inside, the entries are the gates it found; and when none
is left, neither is an entry. -/
theorem sound_of_run (h : RunOf step anyEvent (start : Slots W) s) :
    (∀ w, s.count (Activation.inWorkspace w Activation.isInside) ≤ 1) ∧
      s.count Activation.isInside ≤ 4 ∧
      (∀ (s' : Slots W) (i : Nat) (a : Activation W), s.activations[i]? = some a →
        RunOf step anyEvent s s' →
        ∃ progress, s'.activations[i]? = some { a with progress := progress } ∧
          (progress ≠ .left → s.Opened a ∧ s'.Opened a)) ∧
      ((∀ a ∈ s.activations, a.progress = .left) →
        s.entry = none ∧ ∀ g w, (s.localGates g).workspaces w = none) := by
  have hkept := kept_of_run h
  refine ⟨hkept.alone, hkept.inside_le, fun s' i a ha hrun => ?_, hkept.empty⟩
  obtain ⟨progress, hlast, hleft⟩ := continues_of_run hrun i a ha
  refine ⟨progress, hlast, fun hlive => ?_⟩
  have hbefore : a.live = true := by
    simp only [Activation.live, decide_eq_true_eq]
    exact fun hgone => hlive (hleft hgone)
  have hafter := (kept_of_run (h.trans hrun)).sound.opened _ (List.mem_of_getElem? hlast)
    (by simp [Activation.live, hlive])
  exact ⟨hkept.sound.opened a (List.mem_of_getElem? ha) hbefore, hafter⟩

/-- Two tasks of one workspace: the first leaves after the second, which waited, was cancelled
while the lock was already its own, and the loop has no entry left. -/
theorem sound_of_run_cancelled : ∃ s : Slots Nat,
    s.activations.length = 2 ∧ s.entry = none ∧ s.count Activation.isInside ≤ 4 := by
  have hrun : ∃ s : Slots Nat,
      replay step start [.enter 0, .enter 0, .leave 0, .cancel 1, .throw 1] = some s ∧
        s.activations.length = 2 ∧ ∀ a ∈ s.activations, a.progress = .left :=
    ⟨_, rfl, rfl, by decide⟩
  obtain ⟨s, hreplay, hlength, hleft⟩ := hrun
  obtain ⟨-, hfour, -, hempty⟩ := sound_of_run (runOf_replay (fun _ _ _ => trivial) hreplay)
  exact ⟨s, hlength, (hempty hleft).1, hfour⟩

end Slots

end Maeglagi.Contention
