import Maeglagi.Events.Broker

/-!
# What one event does to the streams

Every committed change of a job that a stream follows is on its way to the stream, or the
stream is about to end. An event resets the subscribers, keeps what is underway, hands a
message over, or passes a message over whose read timed out.
-/

namespace Maeglagi.Events

open Core

variable {Id P : Type} [DecidableEq Id] {home : Id → Id × Id}

namespace Subscription

/-- The payload of a source that the stream holds, sent or being sent. -/
def held (sub : Subscription Id P) (sourceId : Id) : Option P :=
  match sub.phase with
  | .sending src payload => if src = sourceId then some payload else sub.seen sourceId
  | _ => sub.seen sourceId

/-- The initial payloads that are left to send. -/
def toSend (sub : Subscription Id P) : List Id :=
  match sub.phase with
  | .streaming sources => sources
  | _ => []

/-- The stream ends when it comes to the end of its queue. -/
def IsReset (sub : Subscription Id P) : Prop := none ∈ sub.queue

/-- The stream waits at its queue. -/
def IsOpen (sub : Subscription Id P) : Prop := sub.phase = .streaming []

end Subscription

/-- The listener waits for a notification or handles one. -/
def Task.working : Task Id → Bool
  | .waiting => true
  | .fetching _ => true
  | .probing _ => true
  | _ => false

namespace Broker

/-- A reset of all subscribers is due. -/
def ResetDue (s : Broker Id P) : Prop := s.connection = .lost ∨ none ∈ s.notifications

/-- The notification that the listener works on. -/
def unread (s : Broker Id P) : Option Id :=
  match s.task with
  | .fetching src => some src
  | .probing src => src
  | _ => none

/-- The notifications of a source that have not been dispatched. -/
def underway (s : Broker Id P) (sourceId : Id) : Nat :=
  s.wire.count sourceId + s.notifications.count (some sourceId) +
    if s.unread = some sourceId then 1 else 0

/-- A notification of the source or a reset is on its way. -/
def Pending (s : Broker Id P) (sourceId : Id) : Prop := s.ResetDue ∨ 0 < s.underway sourceId

/-- Nothing is in flight. -/
def Quiet (s : Broker Id P) : Prop :=
  s.wire = [] ∧ s.notifications = [] ∧ s.unread = none ∧ s.connection ≠ .lost

/-- The stream has an up-to-date payload of the source, or will get to read one, or ends. -/
def Covered (home : Id → Id × Id) (s : Broker Id P) (sub : Subscription Id P)
    (sourceId : Id) : Prop :=
  sub.phase = .loading ∨ sub.phase = .reading sourceId ∨
    some (message home sourceId) ∈ sub.queue ∨ sub.IsReset ∨ s.Pending sourceId ∨
    ∀ payload, s.jobs sourceId = some payload → sub.held sourceId = some payload

/-- What holds of every stream. -/
structure Served (home : Id → Id × Id) (s : Broker Id P) (sub : Subscription Id P) : Prop where
  owned : sub.phase ≠ .loading → ∀ src ∈ sub.sourceIds,
    home src = (sub.ownerId, sub.workspaceId)
  current : sub.phase ≠ .loading → ∀ src ∈ sub.sourceIds, src ∉ sub.toSend →
    sub.sent src = sub.seen src
  covered : ∀ src ∈ sub.sourceIds, s.Covered home sub src
  dark : s.healthy = false → sub.IsReset

/-- A healthy broker is at work on a connection it has not closed. -/
structure Wired (s : Broker Id P) : Prop where
  working : s.healthy = true → s.task.working = true
  connected : s.healthy = true → s.connection ≠ .closed

/-- What holds in every state. -/
structure Sound (home : Id → Id × Id) (s : Broker Id P) : Prop where
  wired : s.Wired
  arrived : ∀ key, s.arrivals ≤ key → s.subscribers key = none
  served : ∀ key sub, s.subscribers key = some sub → s.Served home sub

/-- No message whose read timed out is passed over while a stream wants it: the check of the
connection that follows such a timeout fails, or only streams that end accept the message. -/
def Timely (home : Id → Id × Id) (s : Broker Id P) : Event Id P → Prop
  | .probed true => ∀ src, s.task = .probing (some src) → ∀ key sub,
      s.subscribers key = some sub → sub.accepts (message home src) → sub.IsReset
  | _ => True

/-- The notifications of a source that an event issues. -/
def issued (event : Event Id P) (sourceId : Id) : Nat :=
  match event with
  | .commit src _ => if src = sourceId then 1 else 0
  | _ => 0

end Broker

/-! ## One subscriber -/

namespace Subscription

omit [DecidableEq Id] in
/-- A reset leaves the end of the stream in the queue. -/
theorem isReset_reset (sub : Subscription Id P) : sub.reset.IsReset :=
  List.mem_singleton.mpr rfl

theorem accepts_message {sub : Subscription Id P} {src : Id} (hmem : src ∈ sub.sourceIds)
    (hhome : home src = (sub.ownerId, sub.workspaceId)) : sub.accepts (message home src) := by
  simp [accepts, message, hhome, hmem]

/-- What an offer leaves: the subscriber itself, or its reset, or a longer queue. -/
theorem offer_cases (event : SourceEventKey Id) (sub : Subscription Id P) :
    (sub.accepts event = false ∧ sub.offer event = sub) ∨
      (sub.accepts event ∧ sub.offer event = sub.reset) ∨
      (sub.accepts event ∧ sub.offer event = { sub with queue := sub.queue ++ [some event] }) := by
  unfold offer
  cases h : sub.accepts event with
  | false => exact .inl ⟨rfl, rfl⟩
  | true =>
    by_cases hroom : sub.queue.length < queueSize
    · exact .inr (.inr ⟨rfl, by simp [hroom]⟩)
    · exact .inr (.inl ⟨rfl, by simp [hroom]⟩)

/-- An offer leaves what the subscriber accepts. -/
theorem accepts_offer (event other : SourceEventKey Id) (sub : Subscription Id P) :
    (sub.offer event).accepts other = sub.accepts other := by
  rcases offer_cases event sub with ⟨-, heq⟩ | ⟨-, heq⟩ | ⟨-, heq⟩ <;> rw [heq] <;> rfl

/-- A subscriber that an event is offered to has it in its queue or is reset. -/
theorem offered {event : SourceEventKey Id} {sub : Subscription Id P} (h : sub.accepts event) :
    some event ∈ (sub.offer event).queue ∨ (sub.offer event).IsReset := by
  rcases offer_cases event sub with ⟨hno, -⟩ | ⟨-, heq⟩ | ⟨-, heq⟩
  · rw [h] at hno
    cases hno
  · rw [heq]
    exact .inr (isReset_reset sub)
  · rw [heq]
    exact .inl (List.mem_append_right _ (List.mem_singleton.mpr rfl))

/-- Nothing leaves the queue of a subscriber that is offered an event, short of a reset. -/
theorem mem_offer {event : SourceEventKey Id} {sub : Subscription Id P}
    {entry : Option (SourceEventKey Id)} (h : entry ∈ sub.queue) :
    entry ∈ (sub.offer event).queue ∨ (sub.offer event).IsReset := by
  rcases offer_cases event sub with ⟨-, heq⟩ | ⟨-, heq⟩ | ⟨-, heq⟩
  · rw [heq]
    exact .inl h
  · rw [heq]
    exact .inr (isReset_reset sub)
  · rw [heq]
    exact .inl (List.mem_append_left _ h)

/-- A subscriber that is reset stays so. -/
theorem IsReset.offer {event : SourceEventKey Id} {sub : Subscription Id P} (h : sub.IsReset) :
    (sub.offer event).IsReset :=
  (mem_offer h).elim id id

/-- How a stream goes on. -/
inductive Goes (home : Id → Id × Id) (jobs : Id → Option P) (sub : Subscription Id P) :
    Subscription Id P → Prop where
  | load (initial : Id → Option P) (hphase : sub.phase = .loading)
      (hrows : ∀ src ∈ sub.sourceIds,
        home src = (sub.ownerId, sub.workspaceId) ∧ initial src = jobs src) :
      Goes home jobs sub { sub with phase := .streaming sub.sourceIds, seen := initial }
  | sendInitial (src : Id) (rest : List Id) (hphase : sub.phase = .streaming (src :: rest)) :
      Goes home jobs sub { sub with phase := .streaming rest,
                                    sent := Function.update sub.sent src (sub.seen src) }
  | take (event : SourceEventKey Id) (rest : List (Option (SourceEventKey Id)))
      (hphase : sub.phase = .streaming []) (hqueue : sub.queue = some event :: rest) :
      Goes home jobs sub { sub with phase := .reading event.sourceId, queue := rest }
  | read (src : Id) (payload : P) (hphase : sub.phase = .reading src)
      (hjob : jobs src = some payload) :
      Goes home jobs sub { sub with phase := .sending src payload }
  | skip (src : Id) (payload : P) (hphase : sub.phase = .sending src payload)
      (hseen : sub.seen src = some payload) :
      Goes home jobs sub { sub with phase := .streaming [] }
  | send (src : Id) (payload : P) (hphase : sub.phase = .sending src payload) :
      Goes home jobs sub { sub with phase := .streaming [],
                                    seen := Function.update sub.seen src (some payload),
                                    sent := Function.update sub.sent src (some payload) }

/-- A job that is read is committed. -/
theorem job_eq_some {jobs : Id → Option P} {sub : Subscription Id P} {src : Id} {payload : P}
    (h : sub.job home jobs src = some payload) :
    home src = (sub.ownerId, sub.workspaceId) ∧ jobs src = some payload := by
  unfold job at h
  split at h
  · exact ⟨‹_›, h⟩
  · cases h

variable [DecidableEq P] in
/-- Every action after which a stream goes on is one of these. -/
theorem goes_of_act {jobs : Id → Option P} {sub next : Subscription Id P} {action : Action}
    (h : sub.act home jobs action = some (some next)) : Goes home jobs sub next := by
  cases action with
  | load =>
    unfold act at h
    dsimp only at h
    split at h
    · split at h
      · rename_i hphase hall
        obtain rfl := Option.some.inj (Option.some.inj h)
        refine .load _ hphase fun src hsrc => ?_
        have hsome := List.all_eq_true.mp hall src hsrc
        rw [if_pos hsrc] at hsome ⊢
        obtain ⟨payload, hjob⟩ := Option.isSome_iff_exists.mp hsome
        obtain ⟨hhome, hjobs⟩ := job_eq_some hjob
        exact ⟨hhome, hjob.trans hjobs.symm⟩
      · cases h
    · cases h
  | sendInitial =>
    unfold act at h
    dsimp only at h
    split at h
    · obtain rfl := Option.some.inj (Option.some.inj h)
      exact .sendInitial _ _ ‹_›
    · cases h
  | take =>
    unfold act at h
    dsimp only at h
    split at h
    · cases h
    · obtain rfl := Option.some.inj (Option.some.inj h)
      exact .take _ _ ‹_› ‹_›
    · cases h
  | read =>
    unfold act at h
    dsimp only at h
    split at h
    · split at h
      · cases h
      · obtain rfl := Option.some.inj (Option.some.inj h)
        exact .read _ _ ‹_› (job_eq_some ‹_›).2
    · cases h
  | send =>
    unfold act at h
    dsimp only at h
    split at h
    · split at h
      · obtain rfl := Option.some.inj (Option.some.inj h)
        exact .skip _ _ ‹_› ‹_›
      · obtain rfl := Option.some.inj (Option.some.inj h)
        exact .send _ _ ‹_›
    · cases h
  | close => cases h

/-- A stream that goes on is reset if it was. -/
theorem IsReset.goes {jobs : Id → Option P} {sub next : Subscription Id P} (h : sub.IsReset)
    (hgoes : Goes home jobs sub next) : next.IsReset := by
  cases hgoes with
  | take event rest _ hqueue =>
    unfold IsReset at h
    rw [hqueue] at h
    exact (List.mem_cons.mp h).resolve_left (Option.some_ne_none event).symm
  | _ => exact h

end Subscription

/-! ## One stream -/

namespace Broker

variable {s s' : Broker Id P} {sub next : Subscription Id P}

/-- A reset serves a stream in every state. -/
theorem Served.reset (h : s.Served home sub) : s'.Served home sub.reset where
  owned := h.owned
  current := h.current
  covered _ _ := .inr (.inr (.inr (.inl sub.isReset_reset)))
  dark _ := sub.isReset_reset

/-- What becomes of the rest of the system serves a stream as long as the changes that are on
their way stay so or reach its queue, and new ones are on their way. -/
theorem Served.carry (h : s.Served home sub) {queue : List (Option (SourceEventKey Id))}
    (hqueue : ∀ entry ∈ sub.queue, entry ∈ queue)
    (hdark : s.healthy = true → s'.healthy = true)
    (hpending : s.healthy = true → sub.phase ≠ .loading → ¬ sub.IsReset →
      ∀ src ∈ sub.sourceIds, s.Pending src → s'.Pending src ∨ some (message home src) ∈ queue)
    (hjobs : s.healthy = true → ∀ src, s'.jobs src = s.jobs src ∨ s'.jobs src = none ∨
      s'.Pending src) : s'.Served home { sub with queue := queue } where
  owned := h.owned
  current := h.current
  covered := by
    intro src hsrc
    by_cases hreset : sub.IsReset
    · exact .inr (.inr (.inr (.inl (hqueue _ hreset))))
    have hhealthy : s.healthy = true := by
      by_contra hno
      exact hreset (h.dark (Bool.eq_false_iff.mpr hno))
    by_cases hloading : sub.phase = .loading
    · exact .inl hloading
    rcases h.covered src hsrc with hl | hr | hq | hs | hp | hknown
    · exact .inl hl
    · exact .inr (.inl hr)
    · exact .inr (.inr (.inl (hqueue _ hq)))
    · exact absurd hs hreset
    · rcases hpending hhealthy hloading hreset src hsrc hp with hp' | hq
      · exact .inr (.inr (.inr (.inr (.inl hp'))))
      · exact .inr (.inr (.inl hq))
    · rcases hjobs hhealthy src with hsame | hgone | hp
      · refine .inr (.inr (.inr (.inr (.inr fun payload hpayload => ?_))))
        exact hknown payload (hsame ▸ hpayload)
      · refine .inr (.inr (.inr (.inr (.inr fun payload hpayload => ?_))))
        rw [hgone] at hpayload
        cases hpayload
      · exact .inr (.inr (.inr (.inr (.inl hp))))
  dark hno := by
    refine hqueue _ (h.dark (Bool.eq_false_iff.mpr fun hyes => ?_))
    rw [hdark hyes] at hno
    cases hno

/-- A stream is served wherever nothing it depends on is different. -/
theorem Served.congr (h : s.Served home sub) (hjobs : s'.jobs = s.jobs)
    (hhealthy : s'.healthy = s.healthy) (hpending : ∀ src, s.Pending src → s'.Pending src) :
    s'.Served home sub :=
  h.carry (fun _ h => h) (fun hyes => hhealthy.trans hyes)
    (fun _ _ _ src _ hp => .inl (hpending src hp)) fun _ src => .inl (congrFun hjobs src)

/-- A stream that goes on is served. -/
theorem Served.goes (h : s.Served home sub) (hgoes : Subscription.Goes home s.jobs sub next) :
    s.Served home next := by
  have hdark : s.healthy = false → next.IsReset := fun hno => (h.dark hno).goes hgoes
  cases hgoes with
  | load initial hphase hrows =>
    refine ⟨fun _ src hsrc => (hrows src hsrc).1, fun _ src hsrc hno => absurd hsrc hno,
      fun src hsrc => ?_, hdark⟩
    have hheld : ∀ payload, s.jobs src = some payload → initial src = some payload :=
      fun payload hpayload => (hrows src hsrc).2.trans hpayload
    exact .inr (.inr (.inr (.inr (.inr hheld))))
  | sendInitial src rest hphase =>
    have hnot : sub.phase ≠ .loading := by simp [hphase]
    refine ⟨fun _ => h.owned hnot, fun _ x hx hno => ?_, fun x hx => ?_, hdark⟩
    · by_cases heq : x = src
      · rw [heq]
        exact Function.update_self ..
      · have hrest : x ∉ sub.toSend := by
          unfold Subscription.toSend
          rw [hphase]
          exact fun hmem => (List.mem_cons.mp hmem).elim heq hno
        exact (Function.update_of_ne heq _ _).trans (h.current hnot x hx hrest)
    · have hcovered := h.covered x hx
      simp only [Covered, Subscription.held, hphase, reduceCtorEq, false_or] at hcovered
      exact .inr (.inr hcovered)
  | take event rest hphase hqueue =>
    have hnot : sub.phase ≠ .loading := by simp [hphase]
    have hsent : sub.toSend = [] := by simp [Subscription.toSend, hphase]
    refine ⟨fun _ => h.owned hnot, fun _ x hx _ => h.current hnot x hx (by simp [hsent]),
      fun x hx => ?_, hdark⟩
    have hcovered := h.covered x hx
    simp only [Covered, Subscription.held, Subscription.IsReset, hphase, hqueue, reduceCtorEq,
      false_or, List.mem_cons, Option.some.injEq] at hcovered
    rcases hcovered with (hthis | hlater) | hrest
    · exact .inr (.inl (by rw [← hthis]; rfl))
    · exact .inr (.inr (.inl hlater))
    · exact .inr (.inr (.inr hrest))
  | read src payload hphase hjob =>
    have hnot : sub.phase ≠ .loading := by simp [hphase]
    have hsent : sub.toSend = [] := by simp [Subscription.toSend, hphase]
    refine ⟨fun _ => h.owned hnot, fun _ x hx _ => h.current hnot x hx (by simp [hsent]),
      fun x hx => ?_, hdark⟩
    by_cases heq : src = x
    · refine .inr (.inr (.inr (.inr (.inr fun p hp => ?_))))
      rw [← heq, hjob] at hp
      simp [Subscription.held, heq, Option.some.inj hp]
    · have hcovered := h.covered x hx
      simp only [Covered, Subscription.held, hphase, reduceCtorEq, false_or,
        Phase.reading.injEq, heq] at hcovered
      refine .inr (.inr ?_)
      simp only [Subscription.held, heq, if_false]
      exact hcovered
  | skip src payload hphase hseen =>
    have hnot : sub.phase ≠ .loading := by simp [hphase]
    have hsent : sub.toSend = [] := by simp [Subscription.toSend, hphase]
    refine ⟨fun _ => h.owned hnot, fun _ x hx _ => h.current hnot x hx (by simp [hsent]),
      fun x hx => ?_, hdark⟩
    have hheld : sub.held x = sub.seen x := by
      by_cases heq : src = x
      · simp [Subscription.held, hphase, ← heq, hseen]
      · simp [Subscription.held, hphase, heq]
    have hcovered := h.covered x hx
    simp only [Covered, hheld, hphase, reduceCtorEq, false_or] at hcovered
    exact .inr (.inr hcovered)
  | send src payload hphase =>
    have hnot : sub.phase ≠ .loading := by simp [hphase]
    have hsent : sub.toSend = [] := by simp [Subscription.toSend, hphase]
    refine ⟨fun _ => h.owned hnot, fun _ x hx _ => ?_, fun x hx => ?_, hdark⟩
    · by_cases heq : x = src
      · simp [heq]
      · simpa [heq] using h.current hnot x hx (by simp [hsent])
    · have hheld : Function.update sub.seen src (some payload) x = sub.held x := by
        by_cases heq : x = src
        · simp [Subscription.held, hphase, heq]
        · simp [Subscription.held, hphase, heq, Ne.symm heq]
      have hcovered := h.covered x hx
      simp only [Covered, ← hheld, hphase, reduceCtorEq, false_or] at hcovered
      exact .inr (.inr hcovered)

/-- Only the notification that the listener works on stops being underway when it is done. -/
theorem underway_done {src x : Id} (hunread : s.unread = some src) (hnot : s'.unread = none)
    (hwire : s'.wire = s.wire) (hnotifications : s'.notifications = s.notifications) :
    s.underway x = s'.underway x + if x = src then 1 else 0 := by
  unfold underway
  rw [hunread, hnot, hwire, hnotifications]
  by_cases heq : x = src
  · simp [heq]
  · simp [heq, Ne.symm heq]

/-- What is pending besides the notification that the listener has done stays so. -/
theorem Pending.done {src x : Id} (h : s.Pending x) (hunread : s.unread = some src)
    (hnot : s'.unread = none) (hwire : s'.wire = s.wire)
    (hnotifications : s'.notifications = s.notifications)
    (hconnection : s'.connection = s.connection) (hne : x ≠ src) : s'.Pending x := by
  rcases h with hdue | hunder
  · exact .inl (hdue.imp hconnection.trans fun h => hnotifications ▸ h)
  · have hdone := underway_done (x := x) hunread hnot hwire hnotifications
    rw [if_neg hne] at hdone
    exact .inr (by omega)

/-- A message that is dispatched serves the streams. -/
theorem Served.offer {src : Id} (h : s.Served home sub) (htask : s.task = .fetching src) :
    Served home { s with task := .waiting } (sub.offer (message home src)) := by
  have hunread : s.unread = some src := by simp [unread, htask]
  rcases Subscription.offer_cases (message home src) sub with ⟨hno, heq⟩ | ⟨-, heq⟩ | ⟨-, heq⟩
  · rw [heq]
    refine h.carry (fun _ h => h) (fun h => h) (fun _ hnot _ x hx hp => .inl ?_)
      fun _ _ => .inl rfl
    refine hp.done hunread rfl rfl rfl rfl fun hxsrc => ?_
    rw [← hxsrc, Subscription.accepts_message hx (h.owned hnot x hx)] at hno
    cases hno
  · rw [heq]
    exact h.reset
  · rw [heq]
    refine h.carry (fun _ h => List.mem_append_left _ h) (fun h => h)
      (fun _ _ _ x hx hp => ?_) fun _ _ => .inl rfl
    by_cases hxsrc : x = src
    · rw [hxsrc]
      exact .inr (List.mem_append_right _ (List.mem_singleton.mpr rfl))
    · exact .inl (hp.done hunread rfl rfl rfl rfl hxsrc)

/-! ## One event -/

/-- What an event does to the subscribers, with what it keeps underway. -/
inductive Effect (home : Id → Id × Id) (s : Broker Id P) (event : Event Id P) :
    Broker Id P → Prop where
  | reset {s' : Broker Id P} (harrivals : s'.arrivals = s.arrivals)
      (hsubs : s'.subscribers = s.resetSubscribers.subscribers) : Effect home s event s'
  | carry {s' : Broker Id P} (harrivals : s'.arrivals = s.arrivals)
      (hsubs : s'.subscribers = s.subscribers)
      (hdark : s.healthy = true → s'.healthy = true)
      (hdue : s.healthy = true → s.ResetDue → s'.ResetDue)
      (hunder : s.healthy = true → ∀ src,
        s'.ResetDue ∨ s.underway src + issued event src ≤ s'.underway src)
      (hjobs : ∀ src, s'.jobs src = s.jobs src ∨ s'.jobs src = none ∨ 0 < issued event src) :
      Effect home s event s'
  | drop (src : Id) (hevent : event = .probed true) (htask : s.task = .probing (some src)) :
      Effect home s event { s with task := .waiting }
  | dispatch (src : Id) (hissued : ∀ x, issued event x = 0) (htask : s.task = .fetching src) :
      Effect home s event { s.dispatch (message home src) with task := .waiting }
  | subscribe (owner workspace : Id) (sources : List Id) (hissued : ∀ x, issued event x = 0)
      (hhealthy : s.healthy = true) : Effect home s event (s.subscribe owner workspace sources)
  | stream (key : Nat) (sub : Subscription Id P) (next : Option (Subscription Id P))
      (hissued : ∀ x, issued event x = 0) (hsub : s.subscribers key = some sub)
      (hgoes : ∀ x, next = some x → Subscription.Goes home s.jobs sub x) :
      Effect home s event { s with subscribers := Function.update s.subscribers key next }

omit [DecidableEq Id] in
/-- A step that keeps the health of the broker. -/
theorem Wired.keep (h : s.Wired) (hhealthy : s'.healthy = s.healthy)
    (htask : s'.task = s.task ∨ s'.task.working = true)
    (hconnection : s'.connection = s.connection ∨ s'.connection ≠ .closed) : s'.Wired where
  working hyes := by
    rcases htask with heq | hworking
    · rw [heq]
      exact h.working (hhealthy.symm.trans hyes)
    · exact hworking
  connected hyes := by
    rcases hconnection with heq | hopen
    · rw [heq]
      exact h.connected (hhealthy.symm.trans hyes)
    · exact hopen

omit [DecidableEq Id] in
/-- A broker that is not healthy promises nothing. -/
theorem Wired.dark (hno : s.healthy = false) : s.Wired where
  working hyes := by
    rw [hno] at hyes
    cases hyes
  connected hyes := by
    rw [hno] at hyes
    cases hyes

omit [DecidableEq Id] in
/-- A broker that does not work is not healthy. -/
theorem Wired.unhealthy (h : s.Wired) (hidle : s.task.working = false) : s.healthy = false := by
  cases hhealthy : s.healthy with
  | false => rfl
  | true =>
    rw [h.working hhealthy] at hidle
    cases hidle

/-- An event that changes no subscriber and issues nothing, with what it does to the rest. -/
theorem Effect.quiet {event : Event Id P} (harrivals : s'.arrivals = s.arrivals)
    (hsubs : s'.subscribers = s.subscribers) (hhealthy : s'.healthy = s.healthy) (hjobs : s'.jobs = s.jobs)
    (hissued : ∀ src, issued event src = 0)
    (hdue : s.healthy = true → s.ResetDue → s'.ResetDue)
    (hunder : s.healthy = true → ∀ src, s'.ResetDue ∨ s.underway src ≤ s'.underway src) :
    Effect home s event s' := by
  refine .carry harrivals hsubs (fun h => hhealthy.trans h) hdue (fun h src => ?_)
    fun src => .inl (congrFun hjobs src)
  rw [hissued src]
  exact hunder h src

/-- An event that moves the listener to another await. -/
theorem Effect.retask {event : Event Id P} {task : Task Id} (hissued : ∀ src, issued event src = 0)
    (hunread : unread { s with task := task } = s.unread) :
    Effect home s event { s with task := task } := by
  refine .quiet rfl rfl rfl rfl hissued (fun _ hdue => hdue) fun _ x => .inr (Nat.le_of_eq ?_)
  unfold underway
  rw [hunread]

/-- An event of a broker that is not healthy which changes no subscriber. -/
theorem Effect.dark {event : Event Id P} (harrivals : s'.arrivals = s.arrivals)
    (hsubs : s'.subscribers = s.subscribers) (hno : s.healthy = false) (hjobs : s'.jobs = s.jobs) : Effect home s event s' := by
  have habsurd : s.healthy ≠ true := by simp [hno]
  exact .carry harrivals hsubs (fun h => absurd h habsurd) (fun h => absurd h habsurd)
    (fun h => absurd h habsurd) fun src => .inl (congrFun hjobs src)

variable [DecidableEq P]

/-- Every event has one of these effects, and the health of the broker says what it said. -/
theorem effect_of_step {event : Event Id P} (h : s.Wired)
    (hstep : s.step home event = some s') : s'.Wired ∧ Effect home s event s' := by
  cases event with
  | commit src payload =>
    unfold step at hstep
    dsimp only at hstep
    split at hstep
    · cases hstep
    obtain rfl := Option.some.inj hstep
    refine ⟨h.keep rfl (.inl rfl) (.inl rfl), .carry rfl rfl (fun h => h) (fun _ hdue => hdue)
      (fun hhealthy x => ?_) fun x => ?_⟩
    · by_cases hlost : s.connection = .lost
      · exact .inl (.inl hlost)
      · have hup : s.connection = .up := by
          cases hc : s.connection with
          | up => rfl
          | lost => exact absurd hc hlost
          | closed => exact absurd hc (h.connected hhealthy)
        refine .inr (Nat.le_of_eq ?_)
        show s.wire.count x + s.notifications.count (some x) +
            (if s.unread = some x then 1 else 0) + (if src = x then 1 else 0) =
          (if s.connection = .up then s.wire ++ [src] else s.wire).count x +
            s.notifications.count (some x) + if s.unread = some x then 1 else 0
        rw [if_pos hup, List.count_append, List.count_singleton]
        simp only [beq_iff_eq]
        omega
    · by_cases heq : x = src
      · exact .inr (.inr (by simp [issued, heq]))
      · exact .inl (Function.update_of_ne heq _ _)
  | delete src =>
    obtain rfl := Option.some.inj hstep
    refine ⟨h.keep rfl (.inl rfl) (.inl rfl), .carry rfl rfl (fun h => h) (fun _ hdue => hdue)
      (fun _ x => .inr (Nat.le_refl _)) fun x => ?_⟩
    by_cases heq : x = src
    · exact .inr (.inl (by simp [heq]))
    · exact .inl (Function.update_of_ne heq _ _)
  | deliver =>
    unfold step at hstep
    dsimp only at hstep
    split at hstep
    · cases hstep
    rename_i src rest hwire
    obtain rfl := Option.some.inj hstep
    unfold notify
    split
    · refine ⟨h.keep rfl (.inl rfl) (.inl rfl), .quiet rfl rfl rfl rfl (fun _ => rfl)
        (fun _ hdue => ?_) fun _ x => .inr ?_⟩
      · exact hdue.imp id fun h => List.mem_append_left _ h
      · show s.wire.count x + s.notifications.count (some x) +
            (if s.unread = some x then 1 else 0) ≤
          rest.count x + (s.notifications ++ [some src]).count (some x) +
            if s.unread = some x then 1 else 0
        rw [hwire, List.count_append, List.count_cons, List.count_singleton]
        simp only [beq_iff_eq, Option.some.injEq]
        omega
    · exact ⟨h.keep rfl (.inl rfl) (.inl rfl), .reset rfl rfl⟩
  | lose =>
    unfold step at hstep
    dsimp only at hstep
    split at hstep
    · obtain rfl := Option.some.inj hstep
      exact ⟨h.keep rfl (.inl rfl) (.inr Connection.noConfusion), .quiet rfl rfl rfl rfl (fun _ => rfl)
        (fun _ _ => .inl rfl) fun _ _ => .inl (.inl rfl)⟩
    · cases hstep
  | terminate =>
    unfold step at hstep
    dsimp only at hstep
    split at hstep
    · obtain rfl := Option.some.inj hstep
      have hdue : s.terminated.ResetDue := .inr (List.mem_singleton.mpr rfl)
      exact ⟨h.keep rfl (.inl rfl) (.inl rfl), .quiet rfl rfl rfl rfl (fun _ => rfl)
        (fun _ _ => hdue) fun _ _ => .inl hdue⟩
    · cases hstep
  | take =>
    unfold step at hstep
    dsimp only at hstep
    split at hstep
    · obtain rfl := Option.some.inj hstep
      exact ⟨.dark rfl, .reset rfl rfl⟩
    · rename_i src rest htask hnotifications
      obtain rfl := Option.some.inj hstep
      refine ⟨h.keep rfl (.inr rfl) (.inl rfl), .quiet rfl rfl rfl rfl (fun _ => rfl)
        (fun _ hdue => ?_) fun _ x => .inr ?_⟩
      · refine hdue.imp id fun h => ?_
        rw [hnotifications] at h
        exact (List.mem_cons.mp h).resolve_left (Option.some_ne_none src).symm
      · simp only [underway, unread, htask, hnotifications, List.count_cons, beq_iff_eq,
          Option.some.injEq, reduceCtorEq, if_false]
        omega
    · cases hstep
  | idle =>
    unfold step at hstep
    dsimp only at hstep
    split at hstep
    · rename_i htask
      obtain rfl := Option.some.inj hstep
      exact ⟨h.keep rfl (.inr rfl) (.inl rfl), .retask (fun _ => rfl) (by simp [unread, htask])⟩
    · cases hstep
  | found =>
    unfold step at hstep
    dsimp only at hstep
    split at hstep
    · obtain rfl := Option.some.inj hstep
      exact ⟨h.keep rfl (.inr rfl) (.inl rfl), .dispatch _ (fun _ => rfl) ‹_›⟩
    · cases hstep
  | gone =>
    unfold step at hstep
    dsimp only at hstep
    split at hstep
    · obtain rfl := Option.some.inj hstep
      exact ⟨h.keep rfl (.inr rfl) (.inl rfl), .reset rfl rfl⟩
    · cases hstep
  | fetchTimeout =>
    unfold step at hstep
    dsimp only at hstep
    split at hstep
    · rename_i src htask
      obtain rfl := Option.some.inj hstep
      exact ⟨h.keep rfl (.inr rfl) (.inl rfl), .retask (fun _ => rfl) (by simp [unread, htask])⟩
    · cases hstep
  | fetchFails =>
    unfold step at hstep
    dsimp only at hstep
    split at hstep
    · obtain rfl := Option.some.inj hstep
      exact ⟨.dark rfl, .reset rfl rfl⟩
    · cases hstep
  | probed alive =>
    unfold step at hstep
    dsimp only at hstep
    split at hstep
    · rename_i message htask
      obtain rfl := Option.some.inj hstep
      cases alive with
      | false =>
        have hdue : s.terminated.ResetDue := .inr (List.mem_singleton.mpr rfl)
        exact ⟨h.keep rfl (.inr rfl) (.inl rfl), .quiet rfl rfl rfl rfl (fun _ => rfl)
          (fun _ _ => hdue) fun _ _ => .inl hdue⟩
      | true =>
        refine ⟨h.keep rfl (.inr rfl) (.inl rfl), ?_⟩
        cases message with
        | none => exact .retask (fun _ => rfl) (by simp [unread, htask])
        | some src => exact .drop src rfl htask
    · cases hstep
  | closed clean =>
    unfold step at hstep
    dsimp only at hstep
    split at hstep
    · rename_i htask
      have hno : s.healthy = false := h.unhealthy (by rw [htask]; rfl)
      cases clean with
      | false =>
        obtain rfl := Option.some.inj hstep
        exact ⟨.dark hno, .dark rfl rfl hno rfl⟩
      | true =>
        obtain rfl := Option.some.inj hstep
        exact ⟨.dark hno, .dark rfl rfl hno rfl⟩
    · cases hstep
  | listening =>
    unfold step at hstep
    dsimp only at hstep
    split at hstep
    · rename_i htask _
      have hno : s.healthy = false := h.unhealthy (by rw [htask]; rfl)
      obtain rfl := Option.some.inj hstep
      exact ⟨.dark hno, .dark rfl rfl hno rfl⟩
    · cases hstep
  | connectFails =>
    unfold step at hstep
    dsimp only at hstep
    split at hstep
    · rename_i htask
      have hno : s.healthy = false := h.unhealthy (by rw [htask]; rfl)
      obtain rfl := Option.some.inj hstep
      exact ⟨.dark hno, .dark rfl rfl hno rfl⟩
    · cases hstep
  | connected =>
    unfold step at hstep
    dsimp only at hstep
    split at hstep
    · split at hstep
      · cases hstep
      · rename_i hopen
        obtain rfl := Option.some.inj hstep
        exact ⟨⟨fun _ => rfl, fun _ => hopen⟩, .reset rfl rfl⟩
    · cases hstep
  | subscribe owner workspace sources =>
    unfold step at hstep
    dsimp only at hstep
    split at hstep
    · obtain rfl := Option.some.inj hstep
      exact ⟨h.keep rfl (.inl rfl) (.inl rfl), .subscribe owner workspace sources (fun _ => rfl) ‹_›⟩
    · cases hstep
  | stream key action =>
    unfold step at hstep
    dsimp only at hstep
    split at hstep
    · cases hstep
    · split at hstep
      · cases hstep
      · rename_i sub hsub _ next hact
        obtain rfl := Option.some.inj hstep
        refine ⟨h.keep rfl (.inl rfl) (.inl rfl),
          .stream key sub next (fun _ => rfl) hsub fun x hx => ?_⟩
        rw [hx] at hact
        exact Subscription.goes_of_act hact
  | stop =>
    obtain rfl := Option.some.inj hstep
    exact ⟨.dark rfl, .reset rfl rfl⟩

end Broker

end Maeglagi.Events
