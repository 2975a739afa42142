import Maeglagi.Events.Delivery

/-!
# No update is lost

Along every run in which no stream waits for a message whose read timed out, a quiet open
stream has sent the committed jobs, and whatever drops a notification resets the streams that
wait for it. A read that times out while the connection still answers loses the update.
-/

namespace Maeglagi.Events

open Core

variable {Id P : Type} [DecidableEq Id] {home : Id → Id × Id}

namespace Broker

variable {s s' t : Broker Id P} {sub next : Subscription Id P}

variable [DecidableEq P]

/-! ## Runs -/

omit [DecidableEq P] in
/-- A subscriber's key is not used again. -/
theorem Effect.arrived {event : Event Id P} (heffect : Effect home s event s')
    (h : ∀ key, s.arrivals ≤ key → s.subscribers key = none) :
    s.arrivals ≤ s'.arrivals ∧ ∀ key, s'.arrivals ≤ key → s'.subscribers key = none := by
  cases heffect with
  | reset harrivals hsubs =>
    rw [harrivals, hsubs]
    exact ⟨Nat.le_refl _, fun key hkey => by simp [resetSubscribers, h key hkey]⟩
  | carry harrivals hsubs =>
    rw [harrivals, hsubs]
    exact ⟨Nat.le_refl _, h⟩
  | drop => exact ⟨Nat.le_refl _, h⟩
  | dispatch => exact ⟨Nat.le_refl _, fun key hkey => by simp [Broker.dispatch, h key hkey]⟩
  | subscribe =>
    refine ⟨Nat.le_succ _, fun key hkey => ?_⟩
    have hlt : s.arrivals < key := hkey
    exact (Function.update_of_ne (Nat.ne_of_gt hlt) _ _).trans (h key (Nat.le_of_lt hlt))
  | stream key sub next hissued hsub =>
    refine ⟨Nat.le_refl _, fun x hx => ?_⟩
    refine (Function.update_of_ne (fun heq => ?_) _ _).trans (h x hx)
    rw [← heq, h x hx] at hsub
    cases hsub

/-- The streams after an event are served. -/
theorem Sound.step {event : Event Id P} (h : s.Sound home) (htimely : Timely home s event)
    (hstep : s.step home event = some s') : s'.Sound home := by
  obtain ⟨hwired, heffect⟩ := effect_of_step h.wired hstep
  refine ⟨hwired, (heffect.arrived h.arrived).2, fun key x hx => ?_⟩
  cases heffect with
  | reset harrivals hsubs =>
    rw [hsubs] at hx
    obtain ⟨sub, hsub, rfl⟩ := Option.map_eq_some_iff.mp hx
    exact (h.served key sub hsub).reset
  | carry harrivals hsubs hdark hdue hunder hjobs =>
    rw [hsubs] at hx
    refine (h.served key x hx).carry (fun _ h => h) hdark (fun hyes _ _ src _ hp => .inl ?_)
      fun hyes src => ?_
    · rcases hp with hp | hp
      · exact .inl (hdue hyes hp)
      · exact (hunder hyes src).imp id fun h => by omega
    · rcases hjobs src with hsame | hgone | hissued
      · exact .inl hsame
      · exact .inr (.inl hgone)
      · exact .inr (.inr ((hunder hyes src).imp id fun h => by omega))
  | drop src hevent htask =>
    have hserved := h.served key x hx
    have hunread : s.unread = some src := by simp [unread, htask]
    refine hserved.carry (fun _ h => h) (fun h => h)
      (fun _ hnot hreset src' hsrc hp => .inl ?_) fun _ _ => .inl rfl
    refine hp.done hunread rfl rfl rfl rfl fun heq => hreset ?_
    subst hevent
    rw [heq] at hsrc
    exact htimely src htask key x hx
      (Subscription.accepts_message hsrc (hserved.owned hnot src hsrc))
  | dispatch src hissued htask =>
    obtain ⟨sub, hsub, rfl⟩ := Option.map_eq_some_iff.mp hx
    exact ((h.served key sub hsub).offer htask).congr rfl rfl fun _ hp => hp
  | subscribe owner workspace sources hissued hhealthy =>
    by_cases heq : key = s.arrivals
    · rw [heq] at hx
      have hnew := (Function.update_self ..).symm.trans hx
      obtain rfl := Option.some.inj hnew
      refine ⟨fun hno => absurd rfl hno, fun hno => absurd rfl hno, fun _ _ => .inl rfl,
        fun hno => ?_⟩
      have hyes : s.healthy = false := hno
      rw [hhealthy] at hyes
      cases hyes
    · have hold := (Function.update_of_ne heq _ _).symm.trans hx
      exact (h.served key x hold).congr rfl rfl fun _ hp => hp
  | stream key' sub next hissued hsub hgoes =>
    by_cases heq : key = key'
    · rw [heq] at hx
      have hnext := (Function.update_self ..).symm.trans hx
      exact ((h.served key' sub hsub).goes (hgoes x hnext)).congr rfl rfl fun _ hp => hp
    · have hold := (Function.update_of_ne heq _ _).symm.trans hx
      exact (h.served key x hold).congr rfl rfl fun _ hp => hp

omit [DecidableEq P] in
/-- Every other event is timely. -/
theorem timely_of_ne {event : Event Id P} (h : event ≠ .probed true) : Timely home s event := by
  unfold Timely
  split
  · exact absurd rfl h
  · trivial

/-- Every state that a fresh process reaches is sound. -/
theorem sound_of_reaches (h : Reaches home (Timely home) s) : s.Sound home := by
  obtain ⟨jobs, hrun⟩ := h
  refine hrun.invariant (fun _ _ _ hs htimely hstep => hs.step htimely hstep) ?_
  exact ⟨⟨fun _ => rfl, fun _ => Connection.noConfusion⟩, fun _ _ => rfl,
    fun _ _ hsub => nomatch hsub⟩

/-- An event that takes a notification away hands it to the streams that accept it, or a reset
of these is done or due. -/
theorem Sound.handed {event : Event Id P} (h : s.Sound home) (htimely : Timely home s event)
    (hstep : s.step home event = some s') {src : Id}
    (hless : s'.underway src < s.underway src + issued event src) {key : Nat}
    (hsub : s'.subscribers key = some sub) (haccepts : sub.accepts (message home src)) :
    some (message home src) ∈ sub.queue ∨ sub.IsReset ∨ s'.ResetDue := by
  obtain ⟨-, heffect⟩ := effect_of_step h.wired hstep
  cases heffect with
  | reset harrivals hsubs =>
    rw [hsubs] at hsub
    obtain ⟨old, -, rfl⟩ := Option.map_eq_some_iff.mp hsub
    exact .inr (.inl old.isReset_reset)
  | carry harrivals hsubs hdark hdue hunder =>
    rw [hsubs] at hsub
    by_cases hhealthy : s.healthy = true
    · rcases hunder hhealthy src with hdue' | hkept
      · exact .inr (.inr hdue')
      · omega
    · exact .inr (.inl ((h.served key sub hsub).dark (Bool.eq_false_iff.mpr hhealthy)))
  | drop src' hevent htask =>
    subst hevent
    have hdone : s.underway src = underway { s with task := .waiting } src +
        if src = src' then 1 else 0 := underway_done (by simp [unread, htask]) rfl rfl rfl
    by_cases heq : src = src'
    · rw [heq] at haccepts
      exact .inr (.inl (htimely src' htask key sub hsub haccepts))
    · rw [if_neg heq] at hdone
      have hzero : issued (.probed true : Event Id P) src = 0 := rfl
      omega
  | dispatch src' hissued htask =>
    have hdone : s.underway src = underway { s.dispatch (message home src') with
        task := .waiting } src + if src = src' then 1 else 0 :=
      underway_done (by simp [unread, htask]) rfl rfl rfl
    by_cases heq : src = src'
    · obtain ⟨old, -, rfl⟩ := Option.map_eq_some_iff.mp hsub
      rw [← heq, Subscription.accepts_offer] at haccepts
      rw [← heq]
      exact (Subscription.offered haccepts).imp id .inl
    · rw [if_neg heq] at hdone
      have hzero := hissued src
      omega
  | subscribe owner workspace sources hissued hhealthy =>
    have hzero := hissued src
    have hsame : (s.subscribe owner workspace sources).underway src = s.underway src := rfl
    omega
  | stream key' sub' next hissued =>
    have hzero := hissued src
    have hsame : underway { s with subscribers := Function.update s.subscribers key' next } src =
      s.underway src := rfl
    omega

/-- A reset that is done or due for a stream stays so until the stream ends. -/
theorem Sound.due {event : Event Id P} (h : s.Sound home)
    (hstep : s.step home event = some s') {key : Nat} (hkey : key < s.arrivals)
    (hdue : ∀ x, s.subscribers key = some x → x.IsReset ∨ s.ResetDue)
    (hsub : s'.subscribers key = some sub) : sub.IsReset ∨ s'.ResetDue := by
  obtain ⟨-, heffect⟩ := effect_of_step h.wired hstep
  cases heffect with
  | reset harrivals hsubs =>
    rw [hsubs] at hsub
    obtain ⟨old, -, rfl⟩ := Option.map_eq_some_iff.mp hsub
    exact .inl old.isReset_reset
  | carry harrivals hsubs hdark hkept =>
    rw [hsubs] at hsub
    by_cases hhealthy : s.healthy = true
    · exact (hdue sub hsub).imp id (hkept hhealthy)
    · exact .inl ((h.served key sub hsub).dark (Bool.eq_false_iff.mpr hhealthy))
  | drop => exact hdue sub hsub
  | dispatch =>
    obtain ⟨old, hold, rfl⟩ := Option.map_eq_some_iff.mp hsub
    exact (hdue old hold).imp Subscription.IsReset.offer id
  | subscribe =>
    have hold := (Function.update_of_ne (Nat.ne_of_lt hkey) _ _).symm.trans hsub
    exact hdue sub hold
  | stream key' old next hissued hold hgoes =>
    by_cases heq : key = key'
    · rw [heq] at hsub hdue
      have hnext := (Function.update_self ..).symm.trans hsub
      exact (hdue old hold).imp (fun h => h.goes (hgoes sub hnext)) id
    · exact hdue sub ((Function.update_of_ne heq _ _).symm.trans hsub)

/-- A reset that is done or due for a stream stays so along a run. -/
theorem Sound.due_of_run {key : Nat} (h : s.Sound home) (hkey : key < s.arrivals)
    (hdue : ∀ x, s.subscribers key = some x → x.IsReset ∨ s.ResetDue)
    (hrun : RunOf (Broker.step home) (Timely home) s t) :
    ∀ x, t.subscribers key = some x → x.IsReset ∨ t.ResetDue := by
  have hall : t.Sound home ∧ key < t.arrivals ∧
      ∀ x, t.subscribers key = some x → x.IsReset ∨ t.ResetDue := by
    refine hrun.invariant (P := fun u => u.Sound home ∧ key < u.arrivals ∧
      ∀ x, u.subscribers key = some x → x.IsReset ∨ u.ResetDue)
      (fun u event u' hu htimely hstep => ?_) ⟨h, hkey, hdue⟩
    obtain ⟨hsound, hlt, hall⟩ := hu
    have heffect := (effect_of_step hsound.wired hstep).2
    exact ⟨hsound.step htimely hstep, Nat.lt_of_lt_of_le hlt (heffect.arrived hsound.arrived).1,
      fun x hx => hsound.due hstep hlt hall hx⟩
  exact hall.2.2

omit [DecidableEq P] in
/-- A quiet open stream has sent the committed jobs. -/
theorem Sound.settled (h : s.Sound home) {key : Nat} (hsub : s.subscribers key = some sub)
    (hopen : sub.IsOpen) (hqueue : sub.queue = []) (hquiet : s.Quiet) {src : Id}
    (hsrc : src ∈ sub.sourceIds) {payload : P} (hjob : s.jobs src = some payload) :
    sub.sent src = some payload := by
  have hphase : sub.phase = .streaming [] := hopen
  obtain ⟨hwire, hnotifications, hunread, hconnection⟩ := hquiet
  have hserved := h.served key sub hsub
  have hcovered := hserved.covered src hsrc
  have hidle : ¬ s.Pending src := by
    rintro ((hlost | hdue) | hunder)
    · exact hconnection hlost
    · rw [hnotifications] at hdue
      cases hdue
    · rw [underway, hwire, hnotifications, hunread] at hunder
      simp at hunder
  simp only [Covered, Subscription.IsReset, Subscription.held, hphase, hqueue, hidle,
    List.not_mem_nil, reduceCtorEq, false_or] at hcovered
  have hcurrent := hserved.current (by simp [hphase]) src hsrc
    (by simp [Subscription.toSend, hphase])
  exact hcurrent.trans (hcovered payload hjob)

/-- Along every run that passes no awaited message over, a quiet open stream has sent the
committed jobs, and the streams that wait for a notification which is taken away have its
message or are reset, now or as soon as nothing is in flight. -/
theorem no_lost_update (h : Reaches home (Timely home) s) :
    (∀ key sub, s.subscribers key = some sub → sub.IsOpen → sub.queue = [] → s.Quiet →
      ∀ src ∈ sub.sourceIds, ∀ payload, s.jobs src = some payload →
        sub.sent src = some payload) ∧
    ∀ event s', Timely home s event → s.step home event = some s' →
      ∀ src, s'.underway src < s.underway src + issued event src →
        ∀ key sub, s'.subscribers key = some sub → sub.accepts (message home src) →
          some (message home src) ∈ sub.queue ∨
            ∀ t, RunOf (step home) (Timely home) s' t →
              ∀ later, t.subscribers key = some later → later.IsReset ∨ t.ResetDue := by
  have hsound := sound_of_reaches h
  refine ⟨fun key sub hsub hopen hqueue hquiet src hsrc payload hjob =>
    hsound.settled hsub hopen hqueue hquiet hsrc hjob, ?_⟩
  intro event s' htimely hstep src hless key sub hsub haccepts
  rcases hsound.handed htimely hstep hless hsub haccepts with hqueued | hdue
  · exact .inl hqueued
  · have hnext := hsound.step htimely hstep
    have hkey : key < s'.arrivals := by
      by_contra hge
      rw [hnext.arrived key (Nat.le_of_not_lt hge)] at hsub
      cases hsub
    refine .inr fun t hrun => hnext.due_of_run hkey (fun x hx => ?_) hrun
    obtain rfl := Option.some.inj (hsub.symm.trans hx)
    exact hdue

/-- Every source of the examples belongs to one account and one workspace. -/
def demoHome : Nat → Nat × Nat := fun _ => (1, 2)

/-- A stream opens, and a commit reaches the listener. -/
def demoCommit : List (Event Nat Nat) :=
  [.subscribe 1 2 [7], .stream 0 .load, .stream 0 .sendInitial, .commit 7 5, .deliver, .take]

/-- The message of the commit is found, and the stream reads and sends the job. -/
def demoDelivered : Broker Nat Nat :=
  (replay (step demoHome) (start fun _ => some 4)
    (demoCommit ++ [.found, .stream 0 .take, .stream 0 .read, .stream 0 .send])).getD
      (start fun _ => none)

/-- The read of the message times out, and the connection still answers. -/
def demoTimedOut : Broker Nat Nat :=
  (replay (step demoHome) (start fun _ => some 4)
    (demoCommit ++ [.fetchTimeout, .probed true])).getD (start fun _ => none)

/-- The stream of the example that is read in time has sent what is committed. -/
theorem no_lost_update_delivered :
    ∃ sub, demoDelivered.subscribers 0 = some sub ∧ sub.sent 7 = some 5 := by
  have hreplay : replay (step demoHome) (start fun _ => some 4) (demoCommit ++
      [.found, .stream 0 .take, .stream 0 .read, .stream 0 .send]) = some demoDelivered := rfl
  have hreaches : Reaches demoHome (Timely demoHome) demoDelivered := by
    refine ⟨fun _ => some 4, runOf_replay (fun s e he => timely_of_ne ?_) hreplay⟩
    rintro rfl
    simp [demoCommit] at he
  refine ⟨_, rfl, ?_⟩
  exact (no_lost_update hreaches).1 0 _ rfl rfl rfl ⟨rfl, rfl, rfl, by decide⟩ 7 (by decide) 5 rfl

/-- A message whose read times out while the connection answers is lost: nothing is in flight,
and the open stream keeps the payload from before the commit. -/
theorem update_lost :
    Reaches demoHome anyEvent demoTimedOut ∧
      ∃ sub, demoTimedOut.subscribers 0 = some sub ∧ sub.IsOpen ∧ sub.queue = [] ∧
        demoTimedOut.Quiet ∧ 7 ∈ sub.sourceIds ∧ demoTimedOut.jobs 7 = some 5 ∧
        sub.sent 7 = some 4 := by
  have hreplay : replay (step demoHome) (start fun _ => some 4)
      (demoCommit ++ [.fetchTimeout, .probed true]) = some demoTimedOut := rfl
  exact ⟨⟨fun _ => some 4, runOf_replay (fun _ _ _ => trivial) hreplay⟩, _, rfl, rfl, rfl,
    ⟨rfl, rfl, rfl, by decide⟩, by decide, rfl, rfl⟩

end Broker

end Maeglagi.Events
