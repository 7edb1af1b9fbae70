import Neonet.Lib.Past
import Neonet.Messaging.Router

/-!
# Where the router puts a message

A router and its channels, whose receivers take messages or go away whenever they like.

* `Router.openRoute` : the channel that a message takes, if one of its routes is open.
* `placed_send` : **a delivery puts the message at the end of that channel, or in the offline queue
  of its recipient.**
* `routerRun` : the operations of the router and of the receivers, one after the other.
* `offlineFor` : a delivery of the run that ends in the offline queue.
* `offline_spec` : **each offline queue holds the latest deliveries that ended there since the
  recipient registered last, as many as fit; what falls out is returned, and registering hands over
  all the others.**
-/

namespace Neonet

namespace Router

/-! ### One delivery -/

section Routes

variable (r : Router) (cs : Chans) (order : List PublicIdentity) (m : Message)

/-- The channels that a message may take, in the order in which they are tried: its recipient, the
next hop of its recipient, and those of the relays. -/
def routes : List ChanId :=
  (r.peers m.recipient).toList ++ ((r.nextHops m.recipient).toList ++ order.filterMap r.nextHops)

/-- The first of them whose receiver is there. -/
def openRoute : Option ChanId := (r.routes order m).find? fun i => (cs i).isOpen

end Routes

/-- The ways a delivery can end, when its route is known. -/
inductive Placed (r : Router) (cs : Chans) (m : Message) : Option ChanId → Sending → Prop
  /-- The message is the last of its recipient's queue. -/
  | queued {r' : Router} (forgets : r.Forgets r') (pushed : r'.offline = (r.offline.push m).2) :
      Placed r cs m none (.done r' cs (r.offline.push m).1)
  /-- The message is the last of the channel. -/
  | delivered {r' : Router} {i : ChanId} (forgets : r.Forgets r') (same : r'.offline = r.offline)
      (room : (cs i).full = false) :
      Placed r cs m (some i) (.done r' (Function.update cs i ((cs i).push m)) none)
  /-- The channel is full. -/
  | waits {i : ChanId} (full : (cs i).full = true) : Placed r cs m (some i) .waits

variable {r r' : Router} {cs : Chans} {order : List PublicIdentity} {m : Message}
  {x : PublicIdentity}
  {i : ChanId} {route : Option ChanId} {sending : Sending}

theorem Placed.of_forgets (hf : r.Forgets r') (ho : r'.offline = r.offline)
    (h : Placed r' cs m route sending) : Placed r cs m route sending := by
  cases h with
  | queued forgets pushed =>
    rw [ho] at pushed ⊢
    exact .queued (hf.trans forgets) pushed
  | delivered forgets same room => exact .delivered (hf.trans forgets) (same.trans ho) room
  | waits full => exact .waits full

/-- A message is offered to a channel; if the receiver is gone, `rest` is what is done next. -/
def offered (r : Router) (cs : Chans) (m : Message) (i : ChanId) (rest : Sending) : Sending :=
  match cs.offer i m with
  | .waits => .waits
  | .accepted cs' => .done r cs' none
  | .closed => rest

theorem placed_offered {rest : Sending} {is : List ChanId}
    (h : (cs i).isOpen = false → Placed r cs m (is.find? fun i => (cs i).isOpen) rest) :
    Placed r cs m ((i :: is).find? fun i => (cs i).isOpen) (offered r cs m i rest) := by
  rw [List.find?_cons, offered, Chans.offer]
  cases hopen : (cs i).isOpen with
  | false => exact h hopen
  | true =>
    rw [if_pos rfl]
    split_ifs with hfull
    · exact .waits hfull
    · exact .delivered (.refl r) rfl (Bool.eq_false_iff.2 hfull)

/-- A next hop whose receiver is gone is not missed. -/
theorem find_removeNextHop (hx : r.nextHops x = some i) (h : (cs i).isOpen = false)
    (order : List PublicIdentity) :
    (order.filterMap (r.removeNextHop x).nextHops).find? (fun i => (cs i).isOpen) =
      (order.filterMap r.nextHops).find? fun i => (cs i).isOpen := by
  induction order with
  | nil => rfl
  | cons y ys ih =>
    rw [List.filterMap_cons, List.filterMap_cons]
    by_cases hy : y = x
    · subst hy
      have hnone : (r.removeNextHop y).nextHops y = none := Function.update_self ..
      rw [hnone, hx]
      dsimp only
      rw [List.find?_cons_of_neg (by simp [h]), ih]
    · have hsame : (r.removeNextHop x).nextHops y = r.nextHops y := Function.update_of_ne hy ..
      rw [hsame]
      cases r.nextHops y with
      | none => exact ih
      | some j =>
        dsimp only
        rw [List.find?_cons, List.find?_cons, ih]

theorem placed_viaRelays : Placed r cs m
    ((order.filterMap r.nextHops).find? fun i => (cs i).isOpen) (viaRelays cs m order r) := by
  induction order generalizing r with
  | nil => exact .queued ⟨fun h => h, fun h => h, rfl⟩ rfl
  | cons x xs ih =>
    rw [viaRelays, List.filterMap_cons]
    cases hx : r.nextHops x with
    | none => exact ih
    | some i =>
      refine placed_offered fun hclosed => ?_
      rw [← find_removeNextHop hx hclosed]
      exact ih.of_forgets forgets_removeNextHop rfl

theorem placed_viaNextHop : Placed r cs m
    (((r.nextHops m.recipient).toList ++ order.filterMap r.nextHops).find? fun i => (cs i).isOpen)
    (r.viaNextHop cs order m) := by
  rw [viaNextHop]
  cases hx : r.nextHops m.recipient with
  | none => exact placed_viaRelays
  | some i =>
    rw [Option.toList_some, List.singleton_append]
    refine placed_offered fun hclosed => ?_
    rw [← find_removeNextHop hx hclosed]
    exact placed_viaRelays.of_forgets forgets_removeNextHop rfl

/-- **Where a delivery puts the message.** -/
theorem placed_send {W : MessageCodecs} (h : m.validateSize W = .ok ()) :
    Placed r cs m (r.openRoute cs order m) (r.send W cs order m) := by
  rw [send, h, openRoute, routes]
  cases hx : r.peers m.recipient with
  | none => exact placed_viaNextHop
  | some i =>
    rw [Option.toList_some, List.singleton_append]
    exact placed_offered fun _ =>
      placed_viaNextHop.of_forgets forgets_unregister rfl

end Router

/-! ### The queue -/

namespace OfflineQueue

variable {q : OfflineQueue} {m m' : Message}

theorem queues_push_self :
    (q.push m).2.queues m.recipient = (q.queues m.recipient ++ [m]).rtake q.capacity := by
  have hbound := q.bounded m.recipient
  have hself : (q.push m).2.queues m.recipient = (q.pushed m).2 := Function.update_self ..
  rw [hself, pushed, List.rtake]
  split_ifs with h
  · have hlong : q.capacity < (q.queues m.recipient).length + 1 := by
      rwa [List.length_append, List.length_singleton] at h
    rw [← List.drop_one, List.length_append, List.length_singleton,
      show (q.queues m.recipient).length + 1 - q.capacity = 1 by omega]
  · rw [Nat.sub_eq_zero_of_le (Nat.le_of_not_lt h), List.drop_zero]

theorem queues_push_of_ne {x : PublicIdentity} (h : x ≠ m.recipient) :
    (q.push m).2.queues x = q.queues x := Function.update_of_ne h ..

theorem push_of_full (h : (q.queues m.recipient).length = q.capacity) :
    (q.push m).1 = (q.queues m.recipient).head? ∧
      (q.push m).2.queues m.recipient = (q.queues m.recipient).tail ++ [m] := by
  have hself : (q.push m).2.queues m.recipient = (q.pushed m).2 := Function.update_self ..
  have hfirst : (q.push m).1 = (q.pushed m).1 := rfl
  obtain ⟨a, l, hl⟩ := List.exists_cons_of_length_pos (h.symm ▸ q.capacity_pos)
  have hlong : q.capacity < (q.queues m.recipient ++ [m]).length := by
    rw [List.length_append, h]
    exact Nat.lt_succ_self _
  rw [hself, hfirst, pushed]
  rw [if_pos hlong, hl]
  exact ⟨rfl, rfl⟩

theorem push_of_room (h : (q.queues m.recipient).length < q.capacity) :
    (q.push m).1 = none ∧
      (q.push m).2.queues m.recipient = q.queues m.recipient ++ [m] := by
  have hself : (q.push m).2.queues m.recipient = (q.pushed m).2 := Function.update_self ..
  have hfirst : (q.push m).1 = (q.pushed m).1 := rfl
  have hshort : ¬ q.capacity < (q.queues m.recipient ++ [m]).length := by
    rw [List.length_append, List.length_singleton]
    omega
  rw [hself, hfirst, pushed]
  rw [if_neg hshort]
  exact ⟨rfl, rfl⟩

end OfflineQueue

/-! ### Runs -/

/-- A router, and the channels that were made. -/
structure RouterState where
  router : Router
  chans : Chans
  /-- The name of the next channel. -/
  next : ChanId

/-- What happens to a router and its channels. -/
inductive RouterEvent
  /-- A channel for a next hop is made. -/
  | opened (capacity : ℕ)
  /-- The receiver of the channel takes a message. -/
  | received (i : ChanId)
  /-- The receiver of the channel is dropped. -/
  | dropped (i : ChanId)
  | register (x : PublicIdentity)
  | unregister (x : PublicIdentity)
  | setNextHop (destination : PublicIdentity) (nextHop : ChanId)
  | removeNextHop (destination : PublicIdentity)
  | removeNextHopIfCurrent (destination : PublicIdentity) (expected : ChanId)
  | setRelay (relay : PublicIdentity)
  | removeRelay (relay : PublicIdentity)
  /-- The relays are iterated in the order `order`. -/
  | send (order : List PublicIdentity) (m : Message)

/-- What is answered. -/
inductive RouterAnswer
  | done
  | channel (i : ChanId)
  | taken (m : Option Message)
  /-- The delivery waits for room in a channel, and has done nothing yet. -/
  | waits
  | refused (e : IoError)
  | accepted (evicted : Option Message)

/-- The messages that wait for a recipient to register. -/
def RouterState.queue (s : RouterState) (x : PublicIdentity) : List Message :=
  s.router.offline.queues x

/-- The router with another one's routes. -/
def RouterState.withRouter (s : RouterState) (router : Router) : RouterState := { s with router }

/-- What a delivery makes of the router. -/
def RouterState.settle (s : RouterState) : Sending → RouterAnswer × RouterState
  | .waits => (.waits, s)
  | .refused e => (.refused e, s)
  | .done router chans evicted => (.accepted evicted, { s with router, chans })

section Runs

variable (W : MessageCodecs)

/-- A router at work. -/
def routerRun : Machine RouterState RouterEvent RouterAnswer where
  step s
    | .opened capacity =>
      (.channel s.next,
        { s with chans := Function.update s.chans s.next (.new capacity), next := s.next + 1 })
    | .received i =>
      match (s.chans i).recv with
      | some (m, c) => (.taken (some m), { s with chans := Function.update s.chans i c })
      | none => (.taken none, s)
    | .dropped i => (.done, { s with chans := Function.update s.chans i (s.chans i).close })
    | .register x =>
      (.channel s.next,
        { router := (s.router.register x s.next).2
          chans := Function.update s.chans s.next (s.router.register x s.next).1
          next := s.next + 1 })
    | .unregister x => (.done, s.withRouter (s.router.unregister x))
    | .setNextHop destination nextHop =>
      (.done, s.withRouter (s.router.setNextHop destination nextHop))
    | .removeNextHop destination => (.done, s.withRouter (s.router.removeNextHop destination))
    | .removeNextHopIfCurrent destination expected =>
      (.done, s.withRouter (s.router.removeNextHopIfCurrent destination expected))
    | .setRelay relay => (.done, s.withRouter (s.router.setRelay relay))
    | .removeRelay relay => (.done, s.withRouter (s.router.removeRelay relay))
    | .send order m => s.settle (s.router.send W s.chans order m)

/-- The event is the registration of `x`. -/
def registers (x : PublicIdentity) : RouterState × RouterEvent → Bool
  | (_, .register y) => decide (y = x)
  | _ => false

/-- The message for `x`, if the event is a delivery that is done and finds no open route. -/
def offlineFor (x : PublicIdentity) : RouterState × RouterEvent → Option Message
  | (s, .send order m) =>
    match s.router.send W s.chans order m with
    | .done _ _ _ =>
      if m.recipient = x ∧ s.router.openRoute s.chans order m = none then some m else none
    | _ => none
  | _ => none

/-- The event is about the queue of `x`. -/
def RouterEvent.Concerns (x : PublicIdentity) : RouterEvent → Prop
  | .register y => y = x
  | .send _ m => m.recipient = x
  | _ => False

end Runs

variable {W : MessageCodecs} {c : ℕ} {s s' : RouterState} {e : RouterEvent} {x : PublicIdentity}
  {order : List PublicIdentity} {m : Message} {evicted : Option Message}

/-- What an accepted delivery comes to. -/
structure Accepted (s : RouterState) (order : List PublicIdentity) (m : Message)
    (evicted : Option Message) (s' : RouterState) : Prop where
  /-- The first open route gets the message. -/
  toChannel : ∀ i, s.router.openRoute s.chans order m = some i →
    evicted = none ∧ (∀ x, s'.queue x = s.queue x) ∧
      (s'.chans i).sent = (s.chans i).sent ++ [m] ∧
      (s'.chans i).waiting = (s.chans i).waiting ++ [m] ∧ ∀ j, j ≠ i → s'.chans j = s.chans j
  /-- If there is none, the queue of the recipient gets it, and a full one loses its oldest. -/
  toQueue : s.router.openRoute s.chans order m = none →
    s'.chans = s.chans ∧ (∀ x, x ≠ m.recipient → s'.queue x = s.queue x) ∧
      ((s.queue m.recipient).length = s.router.offline.capacity →
        evicted = (s.queue m.recipient).head? ∧ evicted ≠ none ∧
          s'.queue m.recipient = (s.queue m.recipient).tail ++ [m]) ∧
      ((s.queue m.recipient).length < s.router.offline.capacity →
        evicted = none ∧ s'.queue m.recipient = s.queue m.recipient ++ [m])

theorem accepted_of_placed {r' : Router} {cs' : Chans} {route : Option ChanId}
    (h : Router.Placed s.router s.chans m route (.done r' cs' evicted))
    (hroute : s.router.openRoute s.chans order m = route) :
    Accepted s order m evicted { s with router := r', chans := cs' } := by
  cases h with
  | queued forgets pushed =>
    refine ⟨fun i hi => (by cases hroute.symm.trans hi), fun _ => ⟨rfl, fun x hx => ?_, ?_, ?_⟩⟩
    · exact (congrFun (congrArg OfflineQueue.queues pushed) x).trans
        (OfflineQueue.queues_push_of_ne hx)
    · intro hfull
      obtain ⟨hevicted, hqueue⟩ := OfflineQueue.push_of_full hfull
      refine ⟨hevicted, ?_, (congrFun (congrArg OfflineQueue.queues pushed) _).trans hqueue⟩
      rw [hevicted, ne_eq, List.head?_eq_none_iff]
      exact List.ne_nil_of_length_pos (hfull.symm ▸ s.router.offline.capacity_pos)
    · intro hroom
      obtain ⟨hevicted, hqueue⟩ := OfflineQueue.push_of_room hroom
      exact ⟨hevicted, (congrFun (congrArg OfflineQueue.queues pushed) _).trans hqueue⟩
  | @delivered r' i forgets same room =>
    refine ⟨fun j hj => ?_, fun hnone => (by cases hroute.symm.trans hnone)⟩
    obtain rfl := Option.some.inj (hroute.symm.trans hj)
    refine ⟨rfl, fun x => congrFun (congrArg OfflineQueue.queues same) x, ?_, ?_,
      fun j hj => Function.update_of_ne hj ..⟩
    · dsimp only
      rw [Function.update_self, Channel.sent_push room]
    · dsimp only
      rw [Function.update_self, Channel.waiting_push room]

theorem placed_of_done {r r' : Router} {cs cs' : Chans}
    (h : r.send W cs order m = .done r' cs' evicted) :
    Router.Placed r cs m (r.openRoute cs order m) (.done r' cs' evicted) := by
  rw [← h]
  refine Router.placed_send ?_
  cases hsize : m.validateSize W with
  | ok u => rfl
  | error e =>
    rw [Router.send, hsize] at h
    cases h

theorem send_of_accepted (h : (routerRun W).step s (.send order m) = (.accepted evicted, s')) :
    ∃ r' cs', s.router.send W s.chans order m = .done r' cs' evicted ∧
      s' = { s with router := r', chans := cs' } := by
  have hsettle : s.settle (s.router.send W s.chans order m) = (.accepted evicted, s') := h
  cases hsend : s.router.send W s.chans order m with
  | waits => rw [hsend] at hsettle; cases hsettle
  | refused e => rw [hsend] at hsettle; cases hsettle
  | done r' cs' ev =>
    rw [hsend] at hsettle
    cases hsettle
    exact ⟨r', cs', rfl, rfl⟩

/-- **An accepted delivery** puts the message in one place. -/
theorem accepted_send (h : (routerRun W).step s (.send order m) = (.accepted evicted, s')) :
    Accepted s order m evicted s' := by
  obtain ⟨r', cs', hsend, rfl⟩ := send_of_accepted h
  exact accepted_of_placed (placed_of_done hsend) rfl

/-! ### Runs -/

theorem queue_withRouter {r : Router} (h : r.offline = s.router.offline) :
    (s.withRouter r).queue x = s.queue x := congrFun (congrArg OfflineQueue.queues h) x

theorem offline_removeNextHopIfCurrent {r : Router} {i : ChanId} :
    (r.removeNextHopIfCurrent x i).offline = r.offline := by
  unfold Router.removeNextHopIfCurrent
  split
  · split <;> rfl
  · rfl

theorem offlineFor_of_not_concerns (h : ¬ e.Concerns x) : offlineFor W x (s, e) = none := by
  cases e with
  | send order m =>
    rw [offlineFor]
    split
    · exact if_neg fun hroute => h hroute.1
    · rfl
  | _ => rfl

/-- **One event**: the queue of `x` is emptied, gets a message, or stays as it is. -/
theorem queue_step : ((routerRun W).step s e).2.queue x =
    if registers x (s, e) then []
    else ((s.queue x) ++ (offlineFor W x (s, e)).toList).rtake s.router.offline.capacity := by
  -- A queue that is left alone is already within its capacity, so cutting it changes nothing.
  have hsame : ∀ {l : List Message}, l = s.queue x →
      l = (s.queue x ++ []).rtake s.router.offline.capacity := by
    rintro l rfl
    have hbound : (s.queue x).length ≤ s.router.offline.capacity := s.router.offline.bounded x
    rw [List.append_nil, List.rtake, Nat.sub_eq_zero_of_le hbound, List.drop_zero]
  cases e with
  | opened | dropped | unregister | setNextHop | removeNextHop | setRelay | removeRelay =>
    exact hsame rfl
  | removeNextHopIfCurrent => exact hsame (queue_withRouter offline_removeNextHopIfCurrent)
  | received i =>
    refine hsame ?_
    rw [routerRun]
    dsimp only
    split <;> rfl
  -- Registering takes the peer's whole queue and no other.
  | register y =>
    have hregisters : registers x (s, .register y) = decide (y = x) := rfl
    by_cases hy : y = x
    · subst hy
      rw [hregisters, if_pos (decide_eq_true rfl)]
      exact Function.update_self ..
    · rw [hregisters, if_neg (by rwa [decide_eq_true_eq])]
      exact hsame (Function.update_of_ne (Ne.symm hy) ..)
  | send order m =>
    have hregisters : registers x (s, .send order m) = false := rfl
    have hstep : (routerRun W).step s (.send order m) =
      s.settle (s.router.send W s.chans order m) := rfl
    rw [hregisters, if_neg Bool.false_ne_true, hstep, offlineFor]
    cases hsend : s.router.send W s.chans order m with
    | waits | refused => exact hsame rfl
    | done r' cs' ev =>
      have hplaced := placed_of_done hsend
      dsimp only [RouterState.settle]
      generalize s.router.openRoute s.chans order m = route at hplaced ⊢
      cases hplaced with
      | queued forgets pushed =>
        have hqueue : ∀ y, r'.offline.queues y = _ := fun y =>
          congrFun (congrArg OfflineQueue.queues pushed) y
        by_cases hx : m.recipient = x
        · subst hx
          rw [if_pos ⟨rfl, rfl⟩]
          exact (hqueue _).trans OfflineQueue.queues_push_self
        · rw [if_neg fun h => hx h.1]
          exact hsame ((hqueue x).trans (OfflineQueue.queues_push_of_ne (Ne.symm hx)))
      | delivered forgets same room =>
        rw [if_neg fun h => by cases h.2]
        exact hsame (congrFun (congrArg OfflineQueue.queues same) x)

theorem capacity_step :
    ((routerRun W).step s e).2.router.offline.capacity = s.router.offline.capacity := by
  cases e with
  | opened | dropped | unregister | setNextHop | removeNextHop | setRelay | removeRelay
  | register => rfl
  | removeNextHopIfCurrent => exact congrArg OfflineQueue.capacity offline_removeNextHopIfCurrent
  | received i =>
    rw [routerRun]
    dsimp only
    split <;> rfl
  | send order m =>
    have hstep : (routerRun W).step s (.send order m) =
      s.settle (s.router.send W s.chans order m) := rfl
    rw [hstep]
    cases hsend : s.router.send W s.chans order m with
    | waits | refused => rfl
    | done r' cs' ev =>
      have hplaced := placed_of_done hsend
      generalize s.router.openRoute s.chans order m = route at hplaced
      cases hplaced with
      | queued forgets pushed => exact (congrArg OfflineQueue.capacity pushed).trans rfl
      | delivered forgets same room => exact congrArg OfflineQueue.capacity same

theorem foldl_trySend {ch : Channel} {ms : List Message} :
    (ms.foldl Channel.trySend ch).taken = ch.taken ∧
      (ms.foldl Channel.trySend ch).isOpen = ch.isOpen := by
  induction ms generalizing ch with
  | nil => exact ⟨rfl, rfl⟩
  | cons m ms ih =>
    rw [List.foldl_cons]
    have hone : (ch.trySend m).taken = ch.taken ∧ (ch.trySend m).isOpen = ch.isOpen := by
      rw [Channel.trySend]
      split_ifs
      · rw [Channel.push]
        split_ifs <;> exact ⟨rfl, rfl⟩
      · exact ⟨rfl, rfl⟩
    exact ⟨ih.1.trans hone.1, ih.2.trans hone.2⟩

theorem waiting_register {r : Router} {i : ChanId} :
    (r.register x i).1.waiting = r.offline.queues x := by
  have htaken : (r.register x i).1.taken = 0 := foldl_trySend.1
  rw [Channel.waiting, htaken, List.drop_zero, Router.register_sent]

theorem chans_register : ((routerRun W).step s (.register x)).2.chans s.next =
    (s.router.register x s.next).1 := Function.update_self ..

/-- A router with room for `c` messages to each recipient, after a run. -/
structure OfflineSpec (W : MessageCodecs) (c : ℕ) (s₀ : RouterState) (events : List RouterEvent) :
    Prop where
  capacity : ((routerRun W).after s₀ events).router.offline.capacity = c
  /-- A delivery puts its message in one place. -/
  placed : ∀ pre order m post evicted s', events = pre ++ .send order m :: post →
    (routerRun W).step ((routerRun W).after s₀ pre) (.send order m) = (.accepted evicted, s') →
      Accepted ((routerRun W).after s₀ pre) order m evicted s'
  bounded : ∀ x, (((routerRun W).after s₀ events).queue x).length ≤ c
  /-- Each queue holds the latest deliveries that no channel got. -/
  recent : ∀ x, ((routerRun W).after s₀ events).queue x =
    ((sinceLast (registers x) ((routerRun W).trace s₀ events)).filterMap (offlineFor W x)).rtake c
  /-- Who registers gets the whole queue. -/
  handed : ∀ pre x post s, events = pre ++ .register x :: post → (routerRun W).after s₀ pre = s →
    ((routerRun W).step s (.register x)).1 = .channel s.next ∧
      (((routerRun W).step s (.register x)).2.chans s.next).waiting = s.queue x ∧
      (((routerRun W).step s (.register x)).2.chans s.next).isOpen = true ∧
      ((routerRun W).step s (.register x)).2.router.peers x = some s.next ∧
      ((routerRun W).step s (.register x)).2.queue x = []
  /-- The other queues stay as they are. -/
  untouched : ∀ pre e post x, events = pre ++ e :: post → ¬ e.Concerns x →
    ((routerRun W).after s₀ (pre ++ [e])).queue x = ((routerRun W).after s₀ pre).queue x

theorem queue_step_of_not_concerns (h : ¬ e.Concerns x) :
    ((routerRun W).step s e).2.queue x = s.queue x := by
  have hregisters : registers x (s, e) = false := by
    cases e with
    | register y => exact decide_eq_false h
    | _ => rfl
  have hbound : (s.queue x).length ≤ s.router.offline.capacity := s.router.offline.bounded x
  rw [queue_step, hregisters, if_neg Bool.false_ne_true, offlineFor_of_not_concerns h,
    Option.toList_none, List.append_nil, List.rtake, Nat.sub_eq_zero_of_le hbound, List.drop_zero]

/-- The queues are what the history makes of them. -/
theorem queue_trace {s₀ : RouterState} {events : List RouterEvent} {q : OfflineQueue}
    (hq : s₀.router.offline = q) (hempty : q.queues x = []) :
    ((routerRun W).after s₀ events).router.offline.capacity = q.capacity ∧
      ((routerRun W).after s₀ events).queue x =
        ((sinceLast (registers x) ((routerRun W).trace s₀ events)).filterMap
          (offlineFor W x)).rtake q.capacity := by
  refine Machine.trace_invariant (I := fun past s => s.router.offline.capacity = q.capacity ∧
    s.queue x = ((sinceLast (registers x) past).filterMap (offlineFor W x)).rtake q.capacity)
    ⟨by rw [hq], ?_⟩ fun past s a ih => ⟨capacity_step.trans ih.1, ?_⟩
  · rw [RouterState.queue, hq, hempty, sinceLast_nil, List.filterMap_nil, List.rtake_nil]
  · rw [queue_step, sinceLast_concat]
    split_ifs
    · rw [List.filterMap_nil, List.rtake_nil]
    · rw [ih.1, ih.2, rtake_append_rtake, List.filterMap_append, List.filterMap_cons,
        List.filterMap_nil]
      cases offlineFor W x (s, a) <;> rfl

theorem offline_new {r : Router} (h : Router.new c = .ok r) :
    r.offline.capacity = c ∧ ∀ x, r.offline.queues x = [] := by
  rw [Router.new, OfflineQueue.new] at h
  split at h
  · cases h
  · cases h
    exact ⟨rfl, fun _ => rfl⟩

/-- **The offline queues**, in every run of a router. -/
theorem offline_spec {r : Router} (h : Router.new c = .ok r) (events : List RouterEvent) :
    OfflineSpec W c ⟨r, fun _ => .gone, 0⟩ events := by
  obtain ⟨rfl, hempty⟩ := offline_new h
  have hrun : ∀ x, ((routerRun W).after ⟨r, fun _ => .gone, 0⟩ events).router.offline.capacity =
      r.offline.capacity ∧ _ := fun x => queue_trace (W := W) rfl (hempty x)
  have hcapacity := (hrun ⟨List.Vector.replicate 32 0⟩).1
  refine ⟨hcapacity, fun pre order m post evicted s' _ hstep => accepted_send hstep, fun x => ?_,
    fun x => (hrun x).2, fun pre x post s _ _ => ⟨rfl, ?_, ?_, Function.update_self ..,
      Function.update_self ..⟩, fun pre e post x _ hconcerns => ?_⟩
  · have hbound := ((routerRun W).after ⟨r, fun _ => .gone, 0⟩ events).router.offline.bounded x
    rwa [hcapacity] at hbound
  · rw [chans_register]
    exact waiting_register
  · rw [chans_register]
    exact foldl_trySend.2
  · rw [Machine.after_concat]
    exact queue_step_of_not_concerns hconcerns

namespace Mailbox

/-- Somebody. -/
def reader : PublicIdentity := ⟨List.Vector.replicate 32 1⟩

/-- A message for it. -/
def mail : Message := ⟨List.Vector.replicate 16 0, reader, reader, []⟩

end Mailbox

open Mailbox in
/-- Two messages for a queue that has room for one. -/
theorem offline_spec_mail : ∃ r, Router.new 1 = .ok r ∧ OfflineSpec .postcard 1
    ⟨r, fun _ => .gone, 0⟩ [.send [] mail, .send [] mail, .register reader] :=
  ⟨_, rfl, offline_spec rfl _⟩

end Neonet
