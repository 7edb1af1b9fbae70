import Mathlib.Logic.Function.Basic
import Neonet.Identity

/-!
# The message router

* `Message` and `MessagingFrame` with the size limit of the messaging layer.
* `Channel` : a bounded channel.  It keeps everything that was ever put in, oldest first, and
  how much of it has been taken, so that what a receiver got is part of the state.
* `OfflineQueue` : the bounded queue of each disconnected recipient.  That no queue exceeds the
  capacity and that each holds its own recipient's messages only are fields.
* `Router.send` : the stages of a delivery: the local peer, the next hop, the relays in the
  order in which the set is iterated, the offline queue.  A stage whose channel is full waits;
  one whose channel is closed drops the route and leaves the message to the next stage.

Main results:

* `Router.send_done` : **a delivery puts the message at the end of one channel, or in the
  offline queue of its recipient, and changes nothing else but forgetting routes.**
* `Router.register_sent` : registering hands the whole offline queue to the new channel.
-/

namespace Neonet

/-- `MAX_MESSAGE_SIZE`. -/
def maxMessageSize : ℕ := 1024 * 1024

/-- An application message. -/
structure Message where
  id : ByteArr 16
  sender : PublicIdentity
  recipient : PublicIdentity
  payload : Bytes
  deriving DecidableEq

/-- What travels on an authenticated connection. -/
inductive MessagingFrame
  | message (m : Message)
  deriving DecidableEq

/-- The serialisation of messages and frames. -/
structure MessageCodecs where
  message : Codec Message
  frame : Codec MessagingFrame

/-- A message, as it is written. -/
def Message.wire : Wire Message :=
  ((Wire.array 16).pair (PublicIdentity.wire.pair (PublicIdentity.wire.pair Wire.bytes))).comap
    (fun m => (m.id, m.sender, m.recipient, m.payload))
    (fun x => .ok ⟨x.1, x.2.1, x.2.2.1, x.2.2.2⟩) fun _ => rfl

/-- A frame, as it is written: the number of its case, then the message. -/
def MessagingFrame.wire : Wire MessagingFrame :=
  (Wire.nat.pair Message.wire).comap (fun | .message m => (0, m))
    (fun x => if x.1 = 0 then .ok (.message x.2) else .error "unknown variant") fun _ => rfl

/-- The serialisation of the program. -/
def MessageCodecs.postcard : MessageCodecs where
  message := Message.wire.toCodec
  frame := MessagingFrame.wire.toCodec

theorem Message.length_encode (m : Message) :
    (MessageCodecs.postcard.message.encode m).length =
        80 + (Wire.bytes.write m.payload).length := by
  simp [MessageCodecs.postcard, Wire.toCodec, Message.wire, Wire.comap, Wire.pair, Wire.array,
    PublicIdentity.wire]
  omega

theorem MessagingFrame.length_encode (m : Message) :
    (MessageCodecs.postcard.frame.encode (.message m)).length =
      (MessageCodecs.postcard.message.encode m).length + 1 := by
  have htag : (Wire.nat.write 0).length = 1 := by decide
  simp only [MessageCodecs.postcard, Wire.toCodec, MessagingFrame.wire, Wire.comap, Wire.pair,
    List.length_append, htag]
  omega

section Frames

variable (W : MessageCodecs)

/-- `Message::validate_size`. -/
def Message.validateSize (m : Message) : Except IoError Unit :=
  if maxMessageSize < (W.message.encode m).length then
    .error (.custom .invalidInput "message too large")
  else .ok ()

/-- `Message::new`; the identifier is drawn at random. -/
def Message.new (id : ByteArr 16) (sender recipient : PublicIdentity) (payload : Bytes) :
    Except IoError Message := do
  let m : Message := { id, sender, recipient, payload }
  m.validateSize W
  return m

/-- `MessagingFrame::encode`. -/
def MessagingFrame.encode (f : MessagingFrame) : Except IoError Bytes :=
  if maxMessageSize < (W.frame.encode f).length then
    .error (.custom .invalidInput "message frame too large")
  else .ok (W.frame.encode f)

/-- `MessagingFrame::decode`. -/
def MessagingFrame.decode (b : Bytes) : Except IoError MessagingFrame :=
  if maxMessageSize < b.length then .error (.custom .invalidData "message frame too large")
  else (W.frame.decode b).mapError (.custom .invalidData)

variable {W}

theorem validateSize_ok {W : MessageCodecs} {m : Message} :
    m.validateSize W = .ok () ↔ (W.message.encode m).length ≤ maxMessageSize := by
  unfold Message.validateSize
  split <;> simp <;> omega

theorem MessagingFrame.decode_of_encode {f : MessagingFrame} {b : Bytes}
    (h : f.encode W = .ok b) : MessagingFrame.decode W b = .ok f := by
  unfold MessagingFrame.encode at h
  split at h
  · cases h
  · rename_i hle
    obtain rfl := Except.ok.inj h
    rw [MessagingFrame.decode, if_neg hle, W.frame.decode_encode]
    rfl

end Frames

/-! ### Channels -/

/-- A bounded channel between tasks, with its history. -/
structure Channel where
  capacity : ℕ
  /-- Everything that was put in, oldest first. -/
  sent : List Message
  /-- How many of these the receiver has taken. -/
  taken : ℕ
  /-- The receiver is still there. -/
  isOpen : Bool
  taken_le : taken ≤ sent.length
  /-- No more than the capacity is waiting. -/
  room : sent.length ≤ taken + capacity

namespace Channel

/-- `mpsc::channel`. -/
def new (capacity : ℕ) : Channel :=
  { capacity, sent := [], taken := 0, isOpen := true, taken_le := le_rfl, room := by simp }

/-- A channel whose receiver is gone. -/
def gone : Channel :=
  { capacity := 0, sent := [], taken := 0, isOpen := false, taken_le := le_rfl, room := by simp }

variable (c : Channel)

/-- What is waiting to be taken. -/
def waiting : List Message := c.sent.drop c.taken

/-- Whether a sender would have to wait. -/
def full : Bool := decide (c.taken + c.capacity ≤ c.sent.length)

/-- Put a message at the end; a full channel takes none. -/
def push (m : Message) : Channel :=
  if h : c.taken + c.capacity ≤ c.sent.length then c
  else
    { c with
      sent := c.sent ++ [m]
      taken_le := c.taken_le.trans (by simp)
      room := by simp only [List.length_append, List.length_singleton]; omega }

/-- `try_send`. -/
def trySend (m : Message) : Channel := if c.isOpen then c.push m else c

/-- `recv`: the oldest waiting message, if there is one. -/
def recv : Option (Message × Channel) :=
  if h : c.taken < c.sent.length then
    some (c.sent[c.taken],
      { c with
        taken := c.taken + 1
        taken_le := h
        room := c.room.trans (by omega) })
  else none

/-- The receiver is dropped. -/
def close : Channel := { c with isOpen := false }

variable {c}

theorem sent_push {m : Message} (h : c.full = false) : (c.push m).sent = c.sent ++ [m] := by
  have h' : ¬ c.taken + c.capacity ≤ c.sent.length := by simpa [full] using h
  rw [push, dif_neg h']

theorem waiting_push {m : Message} (h : c.full = false) :
    (c.push m).waiting = c.waiting ++ [m] := by
  have h' : ¬ c.taken + c.capacity ≤ c.sent.length := by simpa [full] using h
  rw [push, dif_neg h', waiting, waiting, List.drop_append_of_le_length c.taken_le]

theorem waiting_of_recv {m : Message} {c' : Channel} (h : c.recv = some (m, c')) :
    c.waiting = m :: c'.waiting := by
  unfold recv at h
  split at h
  · rename_i hlt
    simp only [Option.some.injEq, Prod.mk.injEq] at h
    obtain ⟨rfl, rfl⟩ := h
    exact List.drop_eq_getElem_cons hlt
  · cases h

theorem exists_recv (h : c.waiting ≠ []) : ∃ m c', c.recv = some (m, c') := by
  have hlt : c.taken < c.sent.length := by
    rw [waiting, ne_eq, List.drop_eq_nil_iff] at h
    omega
  exact ⟨_, _, dif_pos hlt⟩

@[simp] theorem sent_new (n : ℕ) : (new n).sent = [] := rfl

@[simp] theorem sent_gone : gone.sent = [] := rfl

theorem recv_eq_some {m : Message} {c' : Channel} (h : c.recv = some (m, c')) :
    m ∈ c.sent ∧ c'.sent = c.sent ∧ c'.isOpen = c.isOpen := by
  unfold recv at h
  split at h
  · simp only [Option.some.injEq, Prod.mk.injEq] at h
    obtain ⟨rfl, rfl⟩ := h
    exact ⟨List.getElem_mem _, rfl, rfl⟩
  · cases h

theorem sent_foldl_trySend {ms : List Message} (ho : c.isOpen = true)
    (h : c.sent.length + ms.length ≤ c.taken + c.capacity) :
    (ms.foldl trySend c).sent = c.sent ++ ms := by
  induction ms generalizing c with
  | nil => simp
  | cons m ms ih =>
    simp only [List.length_cons] at h
    have hf : ¬ c.taken + c.capacity ≤ c.sent.length := by omega
    have hc : c.trySend m = c.push m := if_pos ho
    have hs : (c.push m).sent = c.sent ++ [m] := sent_push (by simpa [full] using hf)
    have ht : (c.push m).taken = c.taken ∧ (c.push m).capacity = c.capacity ∧
        (c.push m).isOpen = c.isOpen := by
      rw [push, dif_neg hf]
      exact ⟨rfl, rfl, rfl⟩
    rw [List.foldl_cons, hc, ih (ht.2.2.trans ho)]
    · rw [hs, List.append_assoc, List.singleton_append]
    · rw [hs, ht.1, ht.2.1, List.length_append, List.length_singleton]
      omega

end Channel

/-- The name of a channel: two senders have the same one iff they are of the same channel. -/
abbrev ChanId := ℕ

/-- The channels of a node. -/
abbrev Chans := ChanId → Channel

/-! ### The offline queue -/

/-- The bounded queue of each disconnected recipient. -/
structure OfflineQueue where
  capacity : ℕ
  queues : PublicIdentity → List Message
  capacity_pos : 0 < capacity
  bounded : ∀ x, (queues x).length ≤ capacity
  for_recipient : ∀ x, ∀ m ∈ queues x, m.recipient = x

namespace OfflineQueue

/-- Queues that are empty. -/
def empty (capacity : ℕ) (h : 0 < capacity) : OfflineQueue where
  capacity := capacity
  queues := fun _ => []
  capacity_pos := h
  bounded := fun _ => Nat.zero_le _
  for_recipient := fun _ _ h => absurd h List.not_mem_nil

/-- `OfflineQueue::new`. -/
def new (capacityPerIdentity : ℕ) : Except IoError OfflineQueue :=
  if h : capacityPerIdentity = 0 then .error (.custom .invalidInput "queue capacity must be > 0")
  else .ok (empty capacityPerIdentity (Nat.pos_of_ne_zero h))

variable (q : OfflineQueue)

/-- The queue of the recipient of `m` with `m` at its end, and what falls out at its front. -/
def pushed (m : Message) : Option Message × List Message :=
  let queue := q.queues m.recipient ++ [m]
  if q.capacity < queue.length then (queue.head?, queue.tail) else (none, queue)

theorem mem_pushed {m m' : Message} (h : m' ∈ (q.pushed m).2) :
    m' ∈ q.queues m.recipient ∨ m' = m := by
  have hsub : ∀ x ∈ (q.pushed m).2, x ∈ q.queues m.recipient ++ [m] := by
    unfold pushed
    dsimp only
    split
    · exact fun x hx => List.mem_of_mem_tail hx
    · exact fun x hx => hx
  simpa using hsub m' h

theorem length_pushed (m : Message) : (q.pushed m).2.length ≤ q.capacity := by
  have := q.bounded m.recipient
  unfold pushed
  dsimp only
  split
  · rw [List.length_tail, List.length_append, List.length_singleton]
    omega
  · rename_i h
    exact Nat.le_of_not_lt h

/-- `OfflineQueue::push`: what the queue evicts, and the queue after it. -/
def push (m : Message) : Option Message × OfflineQueue :=
  ((q.pushed m).1,
    { q with
      queues := Function.update q.queues m.recipient (q.pushed m).2
      bounded := fun x => by
        by_cases hx : x = m.recipient
        · subst hx; rw [Function.update_self]; exact q.length_pushed m
        · rw [Function.update_of_ne hx]; exact q.bounded x
      for_recipient := fun x m' hm' => by
        by_cases hx : x = m.recipient
        · subst hx
          rw [Function.update_self] at hm'
          rcases q.mem_pushed hm' with h | rfl
          · exact q.for_recipient _ _ h
          · rfl
        · rw [Function.update_of_ne hx] at hm'; exact q.for_recipient x m' hm' })

/-- `OfflineQueue::drain`. -/
def drain (x : PublicIdentity) : List Message × OfflineQueue :=
  (q.queues x,
    { q with
      queues := Function.update q.queues x []
      bounded := fun y => by
        by_cases hy : y = x
        · subst hy; rw [Function.update_self]; exact Nat.zero_le _
        · rw [Function.update_of_ne hy]; exact q.bounded y
      for_recipient := fun y m' hm' => by
        by_cases hy : y = x
        · subst hy; rw [Function.update_self] at hm'; exact absurd hm' List.not_mem_nil
        · rw [Function.update_of_ne hy] at hm'; exact q.for_recipient y m' hm' })

/-- `OfflineQueue::len`. -/
def len (x : PublicIdentity) : ℕ := (q.queues x).length

variable {q}

theorem mem_push {m m' : Message} {x : PublicIdentity} (h : m' ∈ (q.push m).2.queues x) :
    m' ∈ q.queues x ∨ m' = m := by
  simp only [push] at h
  by_cases hx : x = m.recipient
  · subst hx
    rw [Function.update_self] at h
    exact q.mem_pushed h
  · rw [Function.update_of_ne hx] at h
    exact .inl h

theorem mem_drain {m : Message} {x y : PublicIdentity} (h : m ∈ (q.drain x).2.queues y) :
    m ∈ q.queues y := by
  simp only [drain] at h
  by_cases hy : y = x
  · subst hy
    rw [Function.update_self] at h
    exact absurd h List.not_mem_nil
  · rwa [Function.update_of_ne hy] at h

end OfflineQueue

/-! ### The router -/

/-- The routes of a node: the channel of a local recipient, of a next hop, and the cores that
were dialled as gateways. -/
structure Router where
  peers : PublicIdentity → Option ChanId
  nextHops : PublicIdentity → Option ChanId
  relays : Finset PublicIdentity
  offline : OfflineQueue

/-- What an attempt to put a message into a channel comes to. -/
inductive Offer
  | waits
  | closed
  | accepted (cs : Chans)

/-- `mpsc::Sender::send`. -/
def Chans.offer (cs : Chans) (i : ChanId) (m : Message) : Offer :=
  if (cs i).isOpen then
    if (cs i).full then .waits else .accepted (Function.update cs i ((cs i).push m))
  else .closed

/-- What a delivery comes to: it waits for room in a channel, it is refused, or it is done and
may have evicted a message. -/
inductive Sending
  | waits
  | refused (e : IoError)
  | done (r : Router) (cs : Chans) (evicted : Option Message)

namespace Router

/-- `Router::new`. -/
def new (queueCapacityPerIdentity : ℕ) : Except IoError Router := do
  let offline ← OfflineQueue.new queueCapacityPerIdentity
  return { peers := fun _ => none, nextHops := fun _ => none, relays := ∅, offline }

variable (r : Router)

/-- `Router::register`: the new channel, which holds what was queued, and the router. -/
def register (x : PublicIdentity) (i : ChanId) : Channel × Router :=
  ((r.offline.drain x).1.foldl Channel.trySend (.new r.offline.capacity),
    { r with
      peers := Function.update r.peers x (some i)
      offline := (r.offline.drain x).2 })

/-- `Router::unregister`. -/
def unregister (x : PublicIdentity) : Router := { r with peers := Function.update r.peers x none }

/-- `Router::set_next_hop`. -/
def setNextHop (destination : PublicIdentity) (nextHop : ChanId) : Router :=
  { r with nextHops := Function.update r.nextHops destination (some nextHop) }

/-- `Router::remove_next_hop`. -/
def removeNextHop (destination : PublicIdentity) : Router :=
  { r with nextHops := Function.update r.nextHops destination none }

/-- `Router::remove_next_hop_if_current`. -/
def removeNextHopIfCurrent (destination : PublicIdentity) (expected : ChanId) : Router :=
  match r.nextHops destination with
  | some current => if current = expected then r.removeNextHop destination else r
  | none => r

/-- `Router::has_next_hop`. -/
def hasNextHop (destination : PublicIdentity) : Bool := (r.nextHops destination).isSome

/-- `Router::set_relay`. -/
def setRelay (relay : PublicIdentity) : Router := { r with relays := insert relay r.relays }

/-- `Router::remove_relay`. -/
def removeRelay (relay : PublicIdentity) : Router := { r with relays := r.relays.erase relay }

/-- `Router::reachable`. -/
def reachable (destination : PublicIdentity) : Bool :=
  (r.nextHops destination).isSome || decide r.relays.Nonempty

/-- `Router::queued`. -/
def queued (recipient : PublicIdentity) : ℕ := r.offline.len recipient

/-- The relays in turn, then the offline queue. -/
def viaRelays (cs : Chans) (m : Message) : List PublicIdentity → Router → Sending
  | [], r => .done { r with offline := (r.offline.push m).2 } cs (r.offline.push m).1
  | x :: xs, r =>
    match r.nextHops x with
    | none => viaRelays cs m xs r
    | some i =>
      match cs.offer i m with
      | .waits => .waits
      | .accepted cs' => .done r cs' none
      | .closed => viaRelays cs m xs (r.removeNextHop x)

/-- The next hop of the recipient, then the relays. -/
def viaNextHop (cs : Chans) (order : List PublicIdentity) (m : Message) : Sending :=
  match r.nextHops m.recipient with
  | none => viaRelays cs m order r
  | some i =>
    match cs.offer i m with
    | .waits => .waits
    | .accepted cs' => .done r cs' none
    | .closed => viaRelays cs m order (r.removeNextHop m.recipient)

/-- `Router::send`: the recipient itself, then its next hop.  The relays are iterated in the
order `order`. -/
def send (W : MessageCodecs) (cs : Chans) (order : List PublicIdentity) (m : Message) : Sending :=
  match m.validateSize W with
  | .error e => .refused e
  | .ok () =>
    match r.peers m.recipient with
    | none => r.viaNextHop cs order m
    | some i =>
      match cs.offer i m with
      | .waits => .waits
      | .accepted cs' => .done r cs' none
      -- the receiver was dropped: the entry goes, and the next hop is tried
      | .closed => (r.unregister m.recipient).viaNextHop cs order m

/-! ### What a delivery does -/

/-- The routes of `r'` are routes of `r`, and its relays are those of `r`. -/
structure Forgets (r r' : Router) : Prop where
  peers : ∀ {x i}, r'.peers x = some i → r.peers x = some i
  nextHops : ∀ {x i}, r'.nextHops x = some i → r.nextHops x = some i
  relays : r'.relays = r.relays

variable {r} {r' r'' : Router} {cs cs' : Chans} {m : Message} {order : List PublicIdentity}
  {ev : Option Message} {i : ChanId} {x : PublicIdentity}

@[refl] theorem Forgets.refl (r : Router) : r.Forgets r := ⟨fun h => h, fun h => h, rfl⟩

theorem Forgets.trans (h : r.Forgets r') (h' : r'.Forgets r'') : r.Forgets r'' :=
  ⟨fun hx => h.peers (h'.peers hx), fun hx => h.nextHops (h'.nextHops hx),
    h'.relays.trans h.relays⟩

theorem update_none_eq_some {f : PublicIdentity → Option ChanId} {y : PublicIdentity}
    (h : Function.update f x none y = some i) : f y = some i := by
  by_cases hy : y = x
  · subst hy; rw [Function.update_self] at h; cases h
  · rwa [Function.update_of_ne hy] at h

theorem forgets_removeNextHop : r.Forgets (r.removeNextHop x) :=
  ⟨fun h => h, update_none_eq_some, rfl⟩

theorem forgets_unregister : r.Forgets (r.unregister x) :=
  ⟨update_none_eq_some, fun h => h, rfl⟩

/-- The ways a delivery can end. -/
inductive Delivered (r : Router) (cs : Chans) (m : Message) : Router → Chans → Prop
  /-- The message is the last of an open channel that some route of the router names. -/
  | toChannel {r' : Router} {i : ChanId} (forgets : r.Forgets r') (same : r'.offline = r.offline)
      (isRoute : (∃ x, r.peers x = some i) ∨ ∃ x, r.nextHops x = some i)
      (room : (cs i).full = false) :
      Delivered r cs m r' (Function.update cs i ((cs i).push m))
  /-- The message is the last of its recipient's queue. -/
  | toQueue {r' : Router} (forgets : r.Forgets r') (pushed : r'.offline = (r.offline.push m).2) :
      Delivered r cs m r' cs

theorem Delivered.of_forgets (hf : r.Forgets r') (ho : r'.offline = r.offline)
    (h : Delivered r' cs m r'' cs') : Delivered r cs m r'' cs' := by
  cases h with
  | toChannel forgets same isRoute room =>
    refine .toChannel (hf.trans forgets) (same.trans ho) ?_ room
    exact isRoute.imp (fun ⟨x, hx⟩ => ⟨x, hf.peers hx⟩) fun ⟨x, hx⟩ => ⟨x, hf.nextHops hx⟩
  | toQueue forgets pushed => exact .toQueue (hf.trans forgets) (ho ▸ pushed)

theorem offer_accepted (h : cs.offer i m = .accepted cs') :
    (cs i).full = false ∧ cs' = Function.update cs i ((cs i).push m) := by
  unfold Chans.offer at h
  split at h
  · split at h
    · cases h
    · rename_i hf
      cases h
      exact ⟨by simpa using hf, rfl⟩
  · cases h

theorem delivered_of_accepted
    (hr : (∃ x, r.peers x = some i) ∨ ∃ x, r.nextHops x = some i)
    (h : cs.offer i m = .accepted cs') : Delivered r cs m r cs' := by
  obtain ⟨hf, rfl⟩ := offer_accepted h
  exact .toChannel (.refl r) rfl hr hf

theorem viaRelays_done (h : viaRelays cs m order r = .done r' cs' ev) :
    Delivered r cs m r' cs' := by
  induction order generalizing r with
  | nil =>
    simp only [viaRelays, Sending.done.injEq] at h
    obtain ⟨rfl, rfl, -⟩ := h
    exact .toQueue ⟨fun h => h, fun h => h, rfl⟩ rfl
  | cons x xs ih =>
    simp only [viaRelays] at h
    split at h
    · exact ih h
    · rename_i i hi
      split at h
      · cases h
      · rename_i hoff
        cases h
        exact delivered_of_accepted (.inr ⟨x, hi⟩) hoff
      · exact (ih h).of_forgets forgets_removeNextHop rfl

theorem viaNextHop_done (h : r.viaNextHop cs order m = .done r' cs' ev) :
    Delivered r cs m r' cs' := by
  unfold viaNextHop at h
  split at h
  · exact viaRelays_done h
  · rename_i i hi
    split at h
    · cases h
    · rename_i hoff
      cases h
      exact delivered_of_accepted (.inr ⟨_, hi⟩) hoff
    · exact (viaRelays_done h).of_forgets forgets_removeNextHop rfl

/-- **A delivery puts the message at the end of one channel, or in the offline queue of its
recipient, and changes nothing else but forgetting routes.** -/
theorem send_done {W : MessageCodecs} (h : r.send W cs order m = .done r' cs' ev) :
    Delivered r cs m r' cs' := by
  unfold send at h
  split at h
  · cases h
  · split at h
    · exact viaNextHop_done h
    · rename_i i hi
      split at h
      · cases h
      · rename_i hoff
        cases h
        exact delivered_of_accepted (.inl ⟨_, hi⟩) hoff
      · exact (viaNextHop_done h).of_forgets forgets_unregister rfl

/-- Registering hands the whole offline queue to the new channel, oldest first. -/
theorem register_sent (x : PublicIdentity) (i : ChanId) :
    (r.register x i).1.sent = r.offline.queues x := by
  have h := r.offline.bounded x
  exact Channel.sent_foldl_trySend (c := .new r.offline.capacity) rfl
    (by simpa [Channel.new, OfflineQueue.drain] using h)

theorem removeNextHopIfCurrent_of_ne (h : r.nextHops x ≠ some i) :
    r.removeNextHopIfCurrent x i = r := by
  unfold removeNextHopIfCurrent
  split
  · rename_i current hc
    rw [if_neg]
    rintro rfl
    exact h hc
  · rfl

theorem nextHops_removeNextHopIfCurrent_ne :
    (r.removeNextHopIfCurrent x i).nextHops x ≠ some i := by
  by_cases h : r.nextHops x = some i
  · simp [removeNextHopIfCurrent, h, removeNextHop]
  · rwa [removeNextHopIfCurrent_of_ne h]

theorem forgets_removeNextHopIfCurrent : r.Forgets (r.removeNextHopIfCurrent x i) := by
  unfold removeNextHopIfCurrent
  split
  · split
    · exact forgets_removeNextHop
    · rfl
  · rfl

end Router

end Neonet
