import LinuxPtp.Clock.MgmtManage
import LinuxPtp.Lib.KeyedList

/-!
# Event subscriptions

The subscribers of a clock: `clock_update_subscription` and `clock_prune_subscriptions`
of `ptpClockSubscription.c`, and `clock_send_notification` of `ptpClock.c`.  Clients
subscribe, subscriptions run out and events are told of in any order.
-/

namespace LinuxPtp.Clock

open Bmc KeyedList

/-- `struct clock_subscriber`; `Addr` is the type of a transport address. -/
structure ClockSubscriber (Addr : Type) where
  events : Vector UInt8 64
  targetPortIdentity : PortIdentity
  addr : Addr
  sequenceId : UInt16
  expiration : ℤ

/-- What `clock_update_subscription` has of a request. -/
structure SubscribeRequest (Addr : Type) where
  sourcePortIdentity : PortIdentity
  address : Addr
  bitmask : Vector UInt8 64
  duration : UInt16

structure Notification (Addr : Type) where
  event : Fin 512
  sequenceId : UInt16
  targetPortIdentity : PortIdentity
  address : Addr

/-- The subscribers of a clock, and the notifications it has sent. -/
structure Subscriptions (Addr : Type) where
  subscribers : List (ClockSubscriber Addr)
  sent : List (Notification Addr)

variable {Addr : Type}

/-- The mask has no event: the subscriber is to be removed. -/
def SubscribeRequest.remove (req : SubscribeRequest Addr) : Bool :=
  req.bitmask.toList.all (· == 0)

/-- A subscriber with the address, the events and the time of the request. -/
def ClockSubscriber.renew (req : SubscribeRequest Addr) (now : ℤ)
    (s : ClockSubscriber Addr) : ClockSubscriber Addr :=
  { s with
    addr := req.address
    events := req.bitmask
    expiration := now + req.duration.toNat }

def SubscribeRequest.subscriber (req : SubscribeRequest Addr) (now : ℤ) :
    ClockSubscriber Addr where
  events := req.bitmask
  targetPortIdentity := req.sourcePortIdentity
  addr := req.address
  sequenceId := 0
  expiration := now + req.duration.toNat

/-- `clock_update_subscription`; `memory` tells whether `malloc` succeeds. -/
def updateSubscription (memory : Bool) (now : ℤ) (req : SubscribeRequest Addr)
    (subscribers : List (ClockSubscriber Addr)) : List (ClockSubscriber Addr) :=
  match subscribers.findIdx? fun s => s.targetPortIdentity == req.sourcePortIdentity with
  | some i =>
      if req.remove then subscribers.eraseIdx i
      else subscribers.modify i (ClockSubscriber.renew req now)
  | none =>
      if req.remove then subscribers
      else if memory then req.subscriber now :: subscribers else subscribers

/-- `clock_prune_subscriptions`. -/
def pruneSubscriptions (now : ℤ) :
    List (ClockSubscriber Addr) → List (ClockSubscriber Addr)
  | [] => []
  | s :: rest =>
      if s.expiration ≤ now then pruneSubscriptions now rest
      else s :: pruneSubscriptions now rest

/-- The bit of an event in the mask of a subscriber. -/
def ClockSubscriber.wants (event : Fin 512) (s : ClockSubscriber Addr) : Bool :=
  (s.events.get ⟨event / 8, by omega⟩) &&& (1 <<< UInt8.ofNat (event % 8)) != 0

def ClockSubscriber.notification (event : Fin 512) (s : ClockSubscriber Addr) :
    Notification Addr where
  event := event
  sequenceId := s.sequenceId
  targetPortIdentity := s.targetPortIdentity
  address := s.addr

/-- `clock_send_notification`: the messages, and the subscribers after them. -/
def sendNotification (event : Fin 512) :
    List (ClockSubscriber Addr) → List (Notification Addr) × List (ClockSubscriber Addr)
  | [] => ([], [])
  | s :: rest =>
      let (sent, kept) := sendNotification event rest
      if s.wants event then
        (s.notification event :: sent, { s with sequenceId := s.sequenceId + 1 } :: kept)
      else (sent, s :: kept)

/-- What happens to the subscriptions; every call looks at the clock at a time of its
own. -/
inductive SubscriptionCall (Addr : Type) where
  | update (req : SubscribeRequest Addr) (now : ℤ) (memory : Bool)
  | prune (now : ℤ)
  | notify (event : Fin 512)

namespace Subscriptions

def empty : Subscriptions Addr := ⟨[], []⟩

def call (state : Subscriptions Addr) : SubscriptionCall Addr → Subscriptions Addr
  | .update req now memory =>
      { state with subscribers := updateSubscription memory now req state.subscribers }
  | .prune now => { state with subscribers := pruneSubscriptions now state.subscribers }
  | .notify event =>
      { subscribers := (sendNotification event state.subscribers).2
        sent := state.sent ++ (sendNotification event state.subscribers).1 }

def after (calls : List (SubscriptionCall Addr)) : Subscriptions Addr :=
  calls.foldl call empty

theorem after_concat (calls : List (SubscriptionCall Addr))
    (last : SubscriptionCall Addr) : after (calls ++ [last]) = (after calls).call last := by
  rw [after, List.foldl_append]
  rfl

end Subscriptions

/-! ## One call -/

abbrev Held (subscribers : List (ClockSubscriber Addr)) : Prop :=
  Unique ClockSubscriber.targetPortIdentity subscribers

theorem pruneSubscriptions_eq (now : ℤ) (subscribers : List (ClockSubscriber Addr)) :
    pruneSubscriptions now subscribers =
      subscribers.filter fun s => now < s.expiration := by
  induction subscribers with
  | nil => rfl
  | cons s rest ih =>
    rw [pruneSubscriptions, List.filter_cons, ih]
    by_cases hout : s.expiration ≤ now
    · rw [if_pos hout, if_neg (by simpa using hout)]
    · rw [if_neg hout, if_pos (by simpa using hout)]

/-- The subscriber after an event. -/
def ClockSubscriber.told (event : Fin 512) (s : ClockSubscriber Addr) :
    ClockSubscriber Addr :=
  if s.wants event then { s with sequenceId := s.sequenceId + 1 } else s

@[simp]
theorem told_targetPortIdentity (event : Fin 512) (s : ClockSubscriber Addr) :
    (s.told event).targetPortIdentity = s.targetPortIdentity := by
  rw [ClockSubscriber.told]
  split <;> rfl

theorem sendNotification_eq (event : Fin 512) (subscribers : List (ClockSubscriber Addr)) :
    sendNotification event subscribers =
      ((subscribers.filter (·.wants event)).map (·.notification event),
        subscribers.map (·.told event)) := by
  induction subscribers with
  | nil => rfl
  | cons s rest ih =>
    rw [sendNotification, ih, List.filter_cons, List.map_cons, ClockSubscriber.told]
    dsimp only
    split <;> rfl

@[simp]
theorem renew_targetPortIdentity (req : SubscribeRequest Addr) (now : ℤ)
    (s : ClockSubscriber Addr) :
    (s.renew req now).targetPortIdentity = s.targetPortIdentity := rfl

/-- A request with a mask takes out every subscriber of its client, or changes every
one, or adds the client if it has none. -/
theorem updateSubscription_eq (memory : Bool) (now : ℤ) (req : SubscribeRequest Addr)
    {subscribers : List (ClockSubscriber Addr)} (hheld : Held subscribers) :
    updateSubscription memory now req subscribers =
      if req.remove then
        subscribers.filter fun s => s.targetPortIdentity ≠ req.sourcePortIdentity
      else if ∃ s ∈ subscribers, s.targetPortIdentity = req.sourcePortIdentity then
        subscribers.map fun s =>
          if s.targetPortIdentity = req.sourcePortIdentity then s.renew req now else s
      else if memory then req.subscriber now :: subscribers else subscribers := by
  unfold updateSubscription
  split
  case h_1 i hfound =>
    have hsome : ∃ s ∈ subscribers, s.targetPortIdentity = req.sourcePortIdentity := by
      have hany := congrArg Option.isSome hfound
      rw [List.findIdx?_isSome, Option.isSome_some, List.any_eq_true] at hany
      simpa using hany
    rw [if_pos hsome, hheld.eraseIdx_eq hfound, hheld.modify_eq hfound]
  case h_2 hnone =>
    have hno : ∀ s ∈ subscribers, s.targetPortIdentity ≠ req.sourcePortIdentity := by
      simpa [List.findIdx?_eq_none_iff] using hnone
    have hnot : ¬∃ s ∈ subscribers, s.targetPortIdentity = req.sourcePortIdentity :=
      fun ⟨s, hs, hsame⟩ => hno s hs hsame
    rw [if_neg hnot, List.filter_eq_self.mpr fun s hs => by simpa using hno s hs]

theorem held_updateSubscription (memory : Bool) (now : ℤ) (req : SubscribeRequest Addr)
    {subscribers : List (ClockSubscriber Addr)} (hheld : Held subscribers) :
    Held (updateSubscription memory now req subscribers) := by
  rw [updateSubscription_eq memory now req hheld]
  split
  · exact hheld.filter _
  split
  · refine hheld.map fun s => ?_
    split <;> rfl
  · rename_i hnot
    split
    · exact unique_cons.mpr ⟨fun s hs hsame => hnot ⟨s, hs, hsame⟩, hheld⟩
    · exact hheld

theorem Held.call {state : Subscriptions Addr} (hheld : Held state.subscribers)
    (call : SubscriptionCall Addr) : Held (state.call call).subscribers := by
  cases call with
  | update req now memory => exact held_updateSubscription memory now req hheld
  | prune now =>
    simp only [Subscriptions.call, pruneSubscriptions_eq]
    exact hheld.filter _
  | notify event =>
    simp only [Subscriptions.call, sendNotification_eq]
    exact hheld.map (told_targetPortIdentity event)

/-- No client has two subscriptions. -/
theorem held_after (calls : List (SubscriptionCall Addr)) :
    Held (Subscriptions.after calls).subscribers := by
  induction calls using List.reverseRecOn with
  | nil => exact List.nodup_nil
  | append_singleton calls last ih =>
    rw [Subscriptions.after_concat]
    exact ih.call last

/-! ## What a request does -/

section

variable {memory : Bool} {now : ℤ} {req : SubscribeRequest Addr}
  {subscribers : List (ClockSubscriber Addr)}

/-- The subscriber that a request leaves for its client. -/
theorem updateSubscription_self (hheld : Held subscribers) {s : ClockSubscriber Addr}
    (hs : s ∈ updateSubscription memory now req subscribers)
    (hsame : s.targetPortIdentity = req.sourcePortIdentity) :
    req.remove = false ∧
      ((∃ old ∈ subscribers, s = old.renew req now) ∨
        s = req.subscriber now ∧
          ∀ old ∈ subscribers, old.targetPortIdentity ≠ req.sourcePortIdentity) := by
  rw [updateSubscription_eq memory now req hheld] at hs
  split at hs
  · rw [List.mem_filter] at hs
    simp [hsame] at hs
  rename_i hkeep
  refine ⟨by simpa using hkeep, ?_⟩
  split at hs
  · obtain ⟨old, hold, hnew⟩ := List.mem_map.mp hs
    split at hnew
    · exact Or.inl ⟨old, hold, hnew.symm⟩
    · rename_i hother
      exact absurd (hnew ▸ hsame) hother
  · rename_i hno
    have hnone : ∀ old ∈ subscribers,
        old.targetPortIdentity ≠ req.sourcePortIdentity :=
      fun old hold hsame => hno ⟨old, hold, hsame⟩
    split at hs
    · rcases List.mem_cons.mp hs with hnew | hold
      · exact Or.inr ⟨hnew, hnone⟩
      · exact absurd hsame (hnone s hold)
    · exact absurd hsame (hnone s hs)

/-- A request leaves the other subscribers alone. -/
theorem updateSubscription_other (hheld : Held subscribers) {s : ClockSubscriber Addr}
    (hother : s.targetPortIdentity ≠ req.sourcePortIdentity) :
    s ∈ updateSubscription memory now req subscribers ↔ s ∈ subscribers := by
  rw [updateSubscription_eq memory now req hheld]
  split
  · simp [hother]
  split
  · rw [List.mem_map]
    constructor
    · rintro ⟨old, hold, rfl⟩
      split at hother
      · exact absurd ‹_› hother
      · rwa [if_neg hother]
    · exact fun hs => ⟨s, hs, if_neg hother⟩
  split
  · rw [List.mem_cons]
    refine or_iff_right fun hnew => hother ?_
    rw [hnew]
    rfl
  · rfl

/-- A request with a mask leaves its client a subscriber, unless there is no memory for
a new one. -/
theorem exists_updateSubscription (hheld : Held subscribers) (hmask : req.remove = false)
    (hroom : memory = true ∨
      ∃ old ∈ subscribers, old.targetPortIdentity = req.sourcePortIdentity) :
    ∃ s ∈ updateSubscription memory now req subscribers,
      s.targetPortIdentity = req.sourcePortIdentity := by
  rw [updateSubscription_eq memory now req hheld, if_neg (by simp [hmask])]
  by_cases hsome : ∃ old ∈ subscribers, old.targetPortIdentity = req.sourcePortIdentity
  · obtain ⟨old, hold, hsame⟩ := hsome
    rw [if_pos ⟨old, hold, hsame⟩]
    exact ⟨old.renew req now, List.mem_map.mpr ⟨old, hold, if_pos hsame⟩, hsame⟩
  · rw [if_neg hsome, if_pos (hroom.resolve_right hsome)]
    exact ⟨_, List.mem_cons_self, rfl⟩

end

/-! ## The latest request -/

def latestRequest (client : PortIdentity) (calls : List (SubscriptionCall Addr)) :
    Option (SubscribeRequest Addr × ℤ) :=
  calls.reverse.findSome? fun
    | .update req now _ => if req.sourcePortIdentity = client then some (req, now) else none
    | .prune _ | .notify _ => none

/-- The subscriber is as a request with a mask has made it. -/
def ClockSubscriber.Made (s : ClockSubscriber Addr) (req : SubscribeRequest Addr)
    (now : ℤ) : Prop :=
  req.remove = false ∧ s.events = req.bitmask ∧ s.addr = req.address ∧
    s.expiration = now + req.duration.toNat

theorem latestRequest_concat (client : PortIdentity)
    (calls : List (SubscriptionCall Addr)) (last : SubscriptionCall Addr) :
    latestRequest client (calls ++ [last]) =
      match last with
      | .update req now _ =>
          if req.sourcePortIdentity = client then some (req, now)
          else latestRequest client calls
      | .prune _ | .notify _ => latestRequest client calls := by
  rw [latestRequest, List.reverse_append, List.reverse_singleton,
    List.singleton_append, List.findSome?_cons]
  cases last with
  | update req now memory => by_cases hsame : req.sourcePortIdentity = client <;>
      simp [hsame, latestRequest]
  | prune now => rfl
  | notify event => rfl

theorem ClockSubscriber.made_told {s : ClockSubscriber Addr} {event : Fin 512}
    {req : SubscribeRequest Addr} {now : ℤ} (hmade : s.Made req now) :
    (s.told event).Made req now := by
  rw [told]
  split
  · exact hmade
  · exact hmade

/-- Every subscriber is as the latest request of its client has made it. -/
theorem made_after (calls : List (SubscriptionCall Addr)) :
    ∀ s ∈ (Subscriptions.after calls).subscribers, ∃ req now,
      latestRequest s.targetPortIdentity calls = some (req, now) ∧ s.Made req now := by
  induction calls using List.reverseRecOn with
  | nil => exact fun s hs => absurd hs List.not_mem_nil
  | append_singleton calls last ih =>
    intro s hs
    have hheld := held_after calls
    rw [Subscriptions.after_concat] at hs
    rw [latestRequest_concat]
    cases last with
    | update req now memory =>
      by_cases hsame : s.targetPortIdentity = req.sourcePortIdentity
      · refine ⟨req, now, if_pos hsame.symm, ?_⟩
        obtain ⟨hmask, hmade⟩ := updateSubscription_self hheld hs hsame
        rcases hmade with ⟨old, -, rfl⟩ | ⟨rfl, -⟩
        · exact ⟨hmask, rfl, rfl, rfl⟩
        · exact ⟨hmask, rfl, rfl, rfl⟩
      · dsimp only
        rw [if_neg (Ne.symm hsame)]
        exact ih s ((updateSubscription_other hheld hsame).mp hs)
    | prune now =>
      simp only [Subscriptions.call, pruneSubscriptions_eq] at hs
      exact ih s (List.mem_of_mem_filter hs)
    | notify event =>
      simp only [Subscriptions.call, sendNotification_eq] at hs
      obtain ⟨old, hold, rfl⟩ := List.mem_map.mp hs
      obtain ⟨req, now, hlatest, hmade⟩ := ih old hold
      exact ⟨req, now, by rwa [told_targetPortIdentity], ClockSubscriber.made_told hmade⟩

/-! ## Sequence numbers -/

/-- The sequence numbers of the notifications of a client, in the order they were
sent. -/
def numbersTo (client : PortIdentity) (sent : List (Notification Addr)) : List UInt16 :=
  (sent.filter fun n => n.targetPortIdentity = client).map Notification.sequenceId

/-- A client has a subscription. -/
def Subscriptions.Has (state : Subscriptions Addr) (client : PortIdentity) : Prop :=
  ∃ s ∈ state.subscribers, s.targetPortIdentity = client

/-- The client has a subscription through all of the later calls. -/
def HasThroughout (client : PortIdentity) (before later : List (SubscriptionCall Addr)) :
    Prop :=
  ∀ i, 0 < i → i ≤ later.length →
    (Subscriptions.after (before ++ later.take i)).Has client

/-- The numbers from 0 on, as many as there are. -/
def CountsUp (numbers : List UInt16) : Prop :=
  numbers = (List.range numbers.length).map UInt16.ofNat

/-- What a client has been sent since it was added, and the number it gets next. -/
structure Numbered (client : PortIdentity) (before : ℕ) (state : Subscriptions Addr) :
    Prop where
  recorded : before ≤ state.sent.length
  countsUp : CountsUp (numbersTo client (state.sent.drop before))
  next : ∀ s ∈ state.subscribers, s.targetPortIdentity = client →
    s.sequenceId = UInt16.ofNat (numbersTo client (state.sent.drop before)).length

theorem countsUp_concat {numbers : List UInt16} (hcounts : CountsUp numbers) :
    CountsUp (numbers ++ [UInt16.ofNat numbers.length]) := by
  rw [CountsUp, List.length_append, List.length_singleton, List.range_succ,
    List.map_append, ← hcounts]
  rfl

theorem numbersTo_append (client : PortIdentity) (first second : List (Notification Addr)) :
    numbersTo client (first ++ second) =
      numbersTo client first ++ numbersTo client second := by
  rw [numbersTo, List.filter_append, List.map_append]
  rfl

/-- The one notification of a client, if its subscription has the event. -/
theorem numbersTo_sendNotification {event : Fin 512}
    {subscribers : List (ClockSubscriber Addr)} (hheld : Held subscribers)
    {s : ClockSubscriber Addr} (hs : s ∈ subscribers) :
    numbersTo s.targetPortIdentity (sendNotification event subscribers).1 =
      if s.wants event then [s.sequenceId] else [] := by
  have hwanted : ((subscribers.filter (·.wants event)).map (·.notification event)).filter
      (fun n => n.targetPortIdentity = s.targetPortIdentity) =
      ([s].filter (·.wants event)).map (·.notification event) := by
    rw [← hheld.filter_key hs, List.filter_map, List.filter_filter, List.filter_filter]
    congr 2
    funext other
    exact Bool.and_comm _ _
  rw [numbersTo, sendNotification_eq, hwanted, List.filter_cons, List.filter_nil]
  split <;> rfl

/-- A call after which the client has a subscription goes on with its numbers. -/
theorem Numbered.call {client : PortIdentity} {before : ℕ} {state : Subscriptions Addr}
    (hnumbered : Numbered client before state) (hheld : Held state.subscribers)
    (hfresh : state.Has client ∨ numbersTo client (state.sent.drop before) = [])
    {last : SubscriptionCall Addr} (hhas : (state.call last).Has client) :
    Numbered client before (state.call last) := by
  cases last with
  | update req now memory =>
    refine ⟨hnumbered.recorded, hnumbered.countsUp, fun s hs hclient => ?_⟩
    simp only [Subscriptions.call] at hs ⊢
    by_cases hsame : s.targetPortIdentity = req.sourcePortIdentity
    · rcases (updateSubscription_self hheld hs hsame).2 with ⟨old, hold, rfl⟩ | ⟨rfl, hnone⟩
      · exact hnumbered.next old hold hclient
      · have hempty : numbersTo client (state.sent.drop before) = [] := by
          refine hfresh.resolve_left fun ⟨old, hold, holdClient⟩ => hnone old hold ?_
          rw [holdClient, ← hclient, hsame]
        rw [hempty]
        rfl
    · exact hnumbered.next s ((updateSubscription_other hheld hsame).mp hs) hclient
  | prune now =>
    refine ⟨hnumbered.recorded, hnumbered.countsUp, fun s hs hclient => ?_⟩
    simp only [Subscriptions.call, pruneSubscriptions_eq] at hs
    exact hnumbered.next s (List.mem_of_mem_filter hs) hclient
  | notify event =>
    obtain ⟨told, htold, hclient⟩ := hhas
    simp only [Subscriptions.call, sendNotification_eq] at htold
    obtain ⟨s, hs, rfl⟩ := List.mem_map.mp htold
    rw [told_targetPortIdentity] at hclient
    subst hclient
    have hnext := hnumbered.next s hs rfl
    have hsent := @numbersTo_sendNotification _ event _ hheld s hs
    have hdrop : ((state.call (.notify event)).sent.drop before) =
        state.sent.drop before ++ (sendNotification event state.subscribers).1 :=
      List.drop_append_of_le_length hnumbered.recorded
    have hafter : ∀ other ∈ (state.call (.notify event)).subscribers,
        other.targetPortIdentity = s.targetPortIdentity → other = s.told event := by
      intro other hother hsame
      refine (hheld.call (.notify event)).eq_of_key hother ?_
        (hsame.trans (told_targetPortIdentity event s).symm)
      simp only [Subscriptions.call, sendNotification_eq]
      exact List.mem_map_of_mem hs
    refine ⟨?_, ?_, fun other hother hsame => ?_⟩
    · simp only [Subscriptions.call, List.length_append]
      exact hnumbered.recorded.trans (Nat.le_add_right _ _)
    · rw [hdrop, numbersTo_append, hsent]
      split
      · rw [hnext]
        exact countsUp_concat hnumbered.countsUp
      · rw [List.append_nil]
        exact hnumbered.countsUp
    · rw [hafter other hother hsame, hdrop, numbersTo_append, hsent, ClockSubscriber.told]
      split
      · rw [List.length_append, List.length_singleton, UInt16.ofNat_add, ← hnext]
        rfl
      · rw [List.append_nil]
        exact hnext

/-- From the call that adds a client on, as long as it has a subscription, its
notifications are numbered one after the other. -/
theorem numbered_after {client : PortIdentity} {before later : List (SubscriptionCall Addr)}
    (hnew : ¬(Subscriptions.after before).Has client)
    (hhas : HasThroughout client before later) :
    Numbered client (Subscriptions.after before).sent.length
      (Subscriptions.after (before ++ later)) := by
  induction later using List.reverseRecOn with
  | nil =>
    rw [List.append_nil]
    have hnone : (Subscriptions.after before).sent.drop
        (Subscriptions.after before).sent.length = [] := List.drop_length
    refine ⟨le_rfl, ?_, fun s hs hclient => absurd ⟨s, hs, hclient⟩ hnew⟩
    rw [hnone]
    rfl
  | append_singleton later last ih =>
    have hbefore : HasThroughout client before later := by
      intro i hpos hi
      have := hhas i hpos (hi.trans (by simp))
      rwa [List.take_append_of_le_length hi] at this
    have hlast := hhas (later.length + 1) (Nat.succ_pos _) (by simp)
    rw [List.take_of_length_le (by simp)] at hlast
    rw [← List.append_assoc, Subscriptions.after_concat] at hlast ⊢
    refine (ih hbefore).call (held_after _) ?_ hlast
    rcases Nat.eq_zero_or_pos later.length with hzero | hpos
    · right
      rw [List.length_eq_zero_iff.mp hzero, List.append_nil, List.drop_length]
      rfl
    · left
      have := hbefore later.length hpos le_rfl
      rwa [List.take_length] at this

/-! ## Subscriptions are kept exactly -/

/-- The subscriptions after some calls are those that the clients have asked for, and
each further call does to them what it says. -/
structure KeptExactly (calls : List (SubscriptionCall Addr)) : Prop where
  unique : Held (Subscriptions.after calls).subscribers
  latest : ∀ s ∈ (Subscriptions.after calls).subscribers, ∃ req now,
    latestRequest s.targetPortIdentity calls = some (req, now) ∧ s.Made req now
  subscribed : ∀ req now memory, req.remove = false →
    memory = true ∨ (Subscriptions.after calls).Has req.sourcePortIdentity →
      (Subscriptions.after (calls ++ [.update req now memory])).Has req.sourcePortIdentity
  removed : ∀ req now memory, req.remove = true →
    ¬(Subscriptions.after (calls ++ [.update req now memory])).Has req.sourcePortIdentity
  others : ∀ req now memory s, s.targetPortIdentity ≠ req.sourcePortIdentity →
    (s ∈ (Subscriptions.after (calls ++ [.update req now memory])).subscribers ↔
      s ∈ (Subscriptions.after calls).subscribers)
  notified : ∀ event, (Subscriptions.after (calls ++ [.notify event])).sent =
    (Subscriptions.after calls).sent ++
      ((Subscriptions.after calls).subscribers.filter (·.wants event)).map
        (·.notification event)
  told : ∀ event, (Subscriptions.after (calls ++ [.notify event])).subscribers =
    (Subscriptions.after calls).subscribers.map (·.told event)
  quiet : ∀ req now memory,
    (Subscriptions.after (calls ++ [.update req now memory])).sent =
        (Subscriptions.after calls).sent ∧
      (Subscriptions.after (calls ++ [.prune now])).sent = (Subscriptions.after calls).sent
  numbered : ∀ client before later, calls = before ++ later →
    ¬(Subscriptions.after before).Has client → HasThroughout client before later →
      CountsUp (numbersTo client ((Subscriptions.after calls).sent.drop
        (Subscriptions.after before).sent.length))
  pruned : ∀ now, (Subscriptions.after (calls ++ [.prune now])).subscribers =
    (Subscriptions.after calls).subscribers.filter fun s => now < s.expiration

theorem after_keptExactly (calls : List (SubscriptionCall Addr)) : KeptExactly calls where
  unique := held_after calls
  latest := made_after calls
  subscribed req now memory hmask hroom := by
    rw [Subscriptions.after_concat]
    exact exists_updateSubscription (held_after calls) hmask hroom
  removed req now memory hmask := by
    rw [Subscriptions.after_concat]
    rintro ⟨s, hs, hsame⟩
    have hkeep := (updateSubscription_self (held_after calls) hs hsame).1
    exact Bool.false_ne_true (hkeep.symm.trans hmask)
  others req now memory s hother := by
    rw [Subscriptions.after_concat]
    exact updateSubscription_other (held_after calls) hother
  notified event := by
    rw [Subscriptions.after_concat, Subscriptions.call, sendNotification_eq]
  told event := by
    rw [Subscriptions.after_concat, Subscriptions.call, sendNotification_eq]
  quiet req now memory := by
    rw [Subscriptions.after_concat, Subscriptions.after_concat]
    exact ⟨rfl, rfl⟩
  numbered client before later hcalls hnew hhas := by
    subst hcalls
    exact (numbered_after hnew hhas).countsUp
  pruned now := by
    rw [Subscriptions.after_concat, Subscriptions.call, pruneSubscriptions_eq]

/-! ## Subscriptions by management messages -/

section

open ByteOrder Wire

/-- What a management message reads of a subscriber. -/
def ClockSubscriber.read (s : ClockSubscriber Addr) : Subscriber :=
  ⟨s.targetPortIdentity, s.events, s.expiration⟩

def subscribeRequest (host : Host) (mem : Memory) (address : Addr) :
    SubscribeRequest Addr where
  sourcePortIdentity := (requestedSubscriber host mem).targetPortIdentity
  address := address
  bitmask := (requestedSubscriber host mem).events
  duration := UInt16.ofNat (dataWord host mem 0 2)

theorem portIdentity_eq_iff (host : Host) (mem : Memory) (identity : PortIdentity) :
    bytesAt mem Header.clockIdentity.offset 8 = identity.clockIdentity.bytes ∧
      hostWord host.endian mem Header.portNumber.offset 2 = identity.portNumber.toNat ↔
    identity = (requestedSubscriber host mem).targetPortIdentity := by
  obtain ⟨⟨id⟩, number⟩ := identity
  have hlt := hostWord_lt host.endian mem Header.portNumber.offset 2
  have hid : bytesAt mem Header.clockIdentity.offset 8 = id.toList ↔
      id = Vector.ofFn fun i => mem (Header.clockIdentity.offset + i) := by
    have hbytes : bytesAt mem Header.clockIdentity.offset 8 =
        (Vector.ofFn fun i : Fin 8 => mem (Header.clockIdentity.offset + i)).toList := by
      rw [Vector.toList_ofFn, bytesAt]
      rfl
    rw [hbytes, Vector.toList_inj, eq_comm]
  have hnumber : hostWord host.endian mem Header.portNumber.offset 2 = number.toNat ↔
      number = UInt16.ofNat (hostWord host.endian mem Header.portNumber.offset 2) := by
    rw [← UInt16.toNat_inj, UInt16.toNat_ofNat_of_lt' (by simpa using hlt), eq_comm]
  simp only [ClockIdentity.bytes, hid, hnumber, requestedSubscriber, PortIdentity.mk.injEq,
    ClockIdentity.mk.injEq]

theorem fromRequester_read (host : Host) (mem : Memory) (address : Addr)
    (s : ClockSubscriber Addr) :
    fromRequester host mem s.read =
      (s.targetPortIdentity == (subscribeRequest host mem address).sourcePortIdentity) := by
  rw [Bool.eq_iff_iff, fromRequester, Bool.and_eq_true, beq_iff_eq, beq_iff_eq, beq_iff_eq]
  exact portIdentity_eq_iff host mem s.targetPortIdentity

theorem clockUpdateSubscription_run (host : Host) (allocate : ℕ → Bool) (mem : Memory)
    (handling : Handling) :
    ((clockUpdateSubscription host allocate mem).run handling).2.clock.subscribers =
      match handling.clock.subscribers.findIdx? (fromRequester host mem) with
      | some i =>
          if (requestedSubscriber host mem).events.toList.all (· == 0) then
            handling.clock.subscribers.eraseIdx i
          else handling.clock.subscribers.modify i fun found => { found with
            events := (requestedSubscriber host mem).events
            expiration := (requestedSubscriber host mem).expiration }
      | none =>
          if (requestedSubscriber host mem).events.toList.all (· == 0) then
            handling.clock.subscribers
          else if allocate handling.allocations then
            requestedSubscriber host mem :: handling.clock.subscribers
          else handling.clock.subscribers := by
  unfold clockUpdateSubscription
  generalize requestedSubscriber host mem = subscriber
  generalize fromRequester host mem = fromHere
  simp only [StateT.run, bind, StateT.bind, get, getThe, MonadStateOf.get, StateT.get, pure]
  cases handling.clock.subscribers.findIdx? fromHere with
  | some i => rfl
  | none =>
    cases subscriber.events.toList.all (· == 0) with
    | true => rfl
    | false =>
      simp only [Bool.false_eq_true, if_false, StateT.bind, requestMemory, bind, get, getThe,
        MonadStateOf.get, StateT.get, pure, set, MonadStateOf.set, StateT.set, StateT.pure]
      cases allocate handling.allocations with
      | true => rfl
      | false => rfl

/-- `SUBSCRIBE_EVENTS_NP` as a management message is such a call. -/
theorem clockUpdateSubscription_subscribers (host : Host) (allocate : ℕ → Bool)
    (mem : Memory) (address : Addr) (handling : Handling)
    (subscribers : List (ClockSubscriber Addr))
    (hread : handling.clock.subscribers = subscribers.map ClockSubscriber.read) :
    ((clockUpdateSubscription host allocate mem).run handling).2.clock.subscribers =
      (updateSubscription (allocate handling.allocations) host.monotonic.tvSec
        (subscribeRequest host mem address) subscribers).map ClockSubscriber.read := by
  have hfind : (subscribers.map ClockSubscriber.read).findIdx? (fromRequester host mem) =
      subscribers.findIdx? fun s => s.targetPortIdentity ==
        (subscribeRequest host mem address).sourcePortIdentity := by
    rw [List.findIdx?_map]
    exact congrArg (fun p => subscribers.findIdx? p)
      (funext fun s => fromRequester_read host mem address s)
  have hexpiration : (requestedSubscriber host mem).expiration = host.monotonic.tvSec +
      (subscribeRequest host mem address).duration.toNat := by
    have hword : (subscribeRequest host mem address).duration.toNat =
        dataWord host mem 0 2 :=
      UInt16.toNat_ofNat_of_lt' (hostWord_lt host.endian mem (mgmtData + 0) 2)
    rw [hword]
    rfl
  have hnew : requestedSubscriber host mem =
      ((subscribeRequest host mem address).subscriber host.monotonic.tvSec).read := by
    rw [ClockSubscriber.read, SubscribeRequest.subscriber, ← hexpiration]
    rfl
  rw [clockUpdateSubscription_run, hread, hfind, updateSubscription]
  cases subscribers.findIdx? fun s => s.targetPortIdentity ==
    (subscribeRequest host mem address).sourcePortIdentity with
  | some i =>
    dsimp only
    rw [apply_ite (List.map ClockSubscriber.read), List.eraseIdx_map]
    refine if_congr Iff.rfl rfl (modify_map _ (fun s => ?_) _ _)
    rw [hexpiration]
    rfl
  | none =>
    dsimp only
    rw [apply_ite (List.map ClockSubscriber.read), apply_ite (List.map ClockSubscriber.read),
      hnew]
    rfl

end

end LinuxPtp.Clock
