import Neonet.Node.Network
import Neonet.Transport.Framing

/-!
# Where a message goes in a network that stands

Nodes whose connections are all live.  Each node has set up its ends of them in some order, and
of two connections to one peer the router keeps the one that was set up last.  No route changes
any more, so where a message goes from a node is a function of the recipient and of the order in
which the relays are iterated.

* `Topology` : the connections of a network.
* `Topology.router` : the router of a node, by the set-ups of `pump_connection`.
* `Router.pick`, `Router.send_of_pick` : the channel that `Router::send` puts a message into.
* `Topology.Hop` : a message that one node routes is let through by the reader of the next.
* `Topology.hop_iff` : **a hop is allowed when the next node dialled the connection, or the
  message is the node's own.**
-/

namespace Neonet

/-- A node's end of a connection: who is at the other end, and which side this is. -/
structure LinkEnd (N : Type) where
  peer : N
  side : Side
  deriving DecidableEq

/-- The connections of a network, all of them live. -/
structure Topology (N : Type) [DecidableEq N] where
  self : N → PublicIdentity
  /-- The ends of a node, in the order in which it set them up. -/
  ends : N → List (LinkEnd N)
  /-- Every connection has two ends. -/
  matched : ∀ n n' side, (ends n).count ⟨n', side⟩ = (ends n').count ⟨n, side.other⟩
  /-- The nodes that have an inbox. -/
  registered : N → Bool
  queue : N → OfflineQueue

section Routing

variable {N : Type}

/-- The set-up of `pump_connection`. -/
def LinkEnd.install (self : N → PublicIdentity) (e : LinkEnd N) (c : ChanId) (r : Router) :
    Router :=
  match e.side with
  | .dialer => (r.setNextHop (self e.peer) c).setRelay (self e.peer)
  | .acceptor => r.setNextHop (self e.peer) c

/-- The set-ups of a node, one after the other; each has the next channel. -/
def installAll (self : N → PublicIdentity) (es : List (LinkEnd N)) (r : Router) : Router :=
  es.zipIdx.foldl (fun r e => e.1.install self e.2 r) r

/-- The end to `x` that was set up last. -/
def current (self : N → PublicIdentity) (es : List (LinkEnd N)) (x : PublicIdentity) :
    Option (LinkEnd N) :=
  es.reverse.find? fun e => self e.peer = x

/-- The channel to a peer that `Router::send` puts a message into: the next hop, or that of the
first relay that has one. -/
def Router.pick (r : Router) (order : List PublicIdentity) (x : PublicIdentity) : Option ChanId :=
  match r.nextHops x with
  | some c => some c
  | none => order.findSome? r.nextHops

variable [DecidableEq N] (T : Topology N)

/-- The router of a node after its set-ups.  Its inbox has a channel of its own. -/
def Topology.router (n : N) : Router :=
  installAll T.self (T.ends n)
    { peers :=
        if T.registered n then Function.update (fun _ => none) (T.self n) (some (T.ends n).length)
        else fun _ => none
      nextHops := fun _ => none
      relays := ∅
      offline := T.queue n }

/-- What the node at the other end knows of the connection. -/
def Topology.farConn (n : N) (e : LinkEnd N) : Conn :=
  ⟨T.self n, decide (e.side.other = .dialer), .running true true⟩

/-- The relays of each node, in the order in which it iterates them. -/
def Topology.Iterates (order : N → List PublicIdentity) : Prop :=
  ∀ n, (order n).Nodup ∧ ∀ x, x ∈ order n ↔ x ∈ (T.router n).relays

/-- `n` routes `m` to a connection with `n'`, whose reader lets it through. -/
inductive Topology.Hop (W : MessageCodecs) (order : N → List PublicIdentity) (m : Message)
    (n n' : N) : Prop
  | intro {c : ChanId} {e : LinkEnd N} {frame : Bytes} (valid : m.validateSize W = .ok ())
      (foreign : (T.router n).peers m.recipient = none)
      (pick : (T.router n).pick (order n) m.recipient = some c)
      (atEnd : (T.ends n)[c]? = some e) (peer : e.peer = n')
      (encode : (MessagingFrame.message m).encode W = .ok frame)
      (accept : (T.farConn n e).accept W frame = some m) : Topology.Hop W order m n n'

end Routing

/-! ### The channel that a message is put into -/

section Picking

variable {W : MessageCodecs} {r : Router} {cs : Chans} {m : Message} {c : ChanId}
  {order : List PublicIdentity} {x : PublicIdentity}

theorem Chans.offer_of_room (ho : (cs c).isOpen = true) (hf : (cs c).full = false) :
    cs.offer c m = .accepted (Function.update cs c ((cs c).push m)) := by
  rw [Chans.offer, if_pos ho, if_neg (by simp [hf])]

theorem Router.viaRelays_of_findSome (h : order.findSome? r.nextHops = some c)
    (ho : (cs c).isOpen = true) (hf : (cs c).full = false) :
    viaRelays cs m order r = .done r (Function.update cs c ((cs c).push m)) none := by
  induction order with
  | nil => cases h
  | cons y ys ih =>
    cases hy : r.nextHops y with
    | none =>
      rw [List.findSome?_cons, hy] at h
      simp only [viaRelays, hy]
      exact ih h
    | some d =>
      rw [List.findSome?_cons, hy] at h
      obtain rfl := Option.some.inj h
      simp only [viaRelays, hy, Chans.offer_of_room ho hf]

/-- **A message is put into the channel that is picked, when that is open and has room.** -/
theorem Router.send_of_pick (hv : m.validateSize W = .ok ()) (hp : r.peers m.recipient = none)
    (hc : r.pick order m.recipient = some c) (ho : (cs c).isOpen = true)
    (hf : (cs c).full = false) :
    r.send W cs order m = .done r (Function.update cs c ((cs c).push m)) none := by
  simp only [Router.send, hv, hp, Router.viaNextHop]
  unfold Router.pick at hc
  split at hc <;> rename_i hn <;> simp only [hn]
  · obtain rfl := Option.some.inj hc
    rw [Chans.offer_of_room ho hf]
  · exact viaRelays_of_findSome hc ho hf

end Picking

/-! ### The tables -/

section Tables

variable {N : Type} {self : N → PublicIdentity} {es : List (LinkEnd N)} {e : LinkEnd N} {r : Router}
  {c : ChanId} {x : PublicIdentity}

theorem installAll_append (r : Router) :
    installAll self (es ++ [e]) r = e.install self es.length (installAll self es r) := by
  simp [installAll, List.zipIdx_append]

theorem current_append : current self (es ++ [e]) x =
    if self e.peer = x then some e else current self es x := by
  simp only [current, List.reverse_append, List.reverse_singleton, List.singleton_append,
    List.find?_cons]
  split <;> simp_all

theorem install_nextHops (e : LinkEnd N) : (e.install self c r).nextHops =
    Function.update r.nextHops (self e.peer) (some c) := by
  unfold LinkEnd.install
  split <;> rfl

theorem install_peers (e : LinkEnd N) : (e.install self c r).peers = r.peers := by
  unfold LinkEnd.install
  split <;> rfl

theorem installAll_peers : (installAll self es r).peers = r.peers := by
  induction es using List.reverseRecOn with
  | nil => rfl
  | append_singleton es e ih => rw [installAll_append, install_peers, ih]

/-- The next hop of `x` is the channel of the end to `x` that was set up last. -/
theorem installAll_nextHops (hr : ∀ x, r.nextHops x = none) :
    ((installAll self es r).nextHops x = none ∧ current self es x = none) ∨
      ∃ c e, (installAll self es r).nextHops x = some c ∧ es[c]? = some e ∧
        current self es x = some e := by
  induction es using List.reverseRecOn with
  | nil => exact .inl ⟨hr x, rfl⟩
  | append_singleton es e ih =>
    rw [installAll_append, install_nextHops, current_append]
    by_cases hx : self e.peer = x
    · subst hx
      rw [Function.update_self, if_pos rfl]
      exact .inr ⟨es.length, e, rfl, by simp, rfl⟩
    · rw [Function.update_of_ne (Ne.symm hx), if_neg hx]
      refine ih.imp_right fun ⟨c, e', hc, he, hcur⟩ => ⟨c, e', hc, ?_, hcur⟩
      rw [List.getElem?_append_left (List.getElem?_eq_some_iff.1 he).1, he]

theorem mem_relays_install (e : LinkEnd N) : x ∈ (e.install self c r).relays ↔
    x ∈ r.relays ∨ (e.side = .dialer ∧ self e.peer = x) := by
  unfold LinkEnd.install
  split <;> rename_i hside <;>
    simp [hside, Router.setRelay, Router.setNextHop, eq_comm, or_comm]

theorem mem_relays_installAll (hr : r.relays = ∅) :
    x ∈ (installAll self es r).relays ↔ ∃ e ∈ es, e.side = .dialer ∧ self e.peer = x := by
  induction es using List.reverseRecOn with
  | nil => simp [installAll, hr]
  | append_singleton es e ih =>
    rw [installAll_append, mem_relays_install, ih]
    simp [or_and_right, exists_or]

theorem mem_of_current (h : current self es x = some e) : e ∈ es ∧ self e.peer = x := by
  have hmem := List.mem_of_find?_eq_some h
  have hx := List.find?_some h
  exact ⟨List.mem_reverse.1 hmem, of_decide_eq_true hx⟩

theorem current_eq_none :
    current self es x = none ↔ ∀ e ∈ es, self e.peer ≠ x := by
  simp [current, List.find?_eq_none]

end Tables

/-! ### Hops -/

section Hops

variable {N : Type} [DecidableEq N] (T : Topology N)

/-- Where a message for `x` goes from `n`: to the peer `x`, or to the first relay. -/
def Topology.next (order : List PublicIdentity) (x : PublicIdentity) (n : N) :
    Option (LinkEnd N) :=
  match current T.self (T.ends n) x with
  | some e => some e
  | none => order.findSome? (current T.self (T.ends n))

/-- `x` is the node itself, and it has an inbox. -/
def Topology.Local (n : N) (x : PublicIdentity) : Prop := T.registered n = true ∧ x = T.self n

variable {T} {W : MessageCodecs} {m : Message} {order : List PublicIdentity} {x : PublicIdentity}
  {n n' : N} {e : LinkEnd N}

theorem Topology.peers_router : (T.router n).peers x = none ↔ ¬ T.Local n x := by
  rw [router, installAll_peers, Local]
  by_cases hr : T.registered n = true
  · by_cases hx : x = T.self n
    · subst hx; simp [hr]
    · simp [hr, hx]
  · simp [hr]

theorem Topology.nextHops_router (T : Topology N) (n : N) (x : PublicIdentity) :
    ((T.router n).nextHops x = none ∧ current T.self (T.ends n) x = none) ∨
      ∃ c e, (T.router n).nextHops x = some c ∧ (T.ends n)[c]? = some e ∧
        current T.self (T.ends n) x = some e :=
  installAll_nextHops fun _ => rfl

theorem Topology.mem_relays_router :
    x ∈ (T.router n).relays ↔ ∃ e ∈ T.ends n, e.side = .dialer ∧ T.self e.peer = x :=
  mem_relays_installAll rfl

theorem Topology.Iterates.eq_singleton {order : N → List PublicIdentity} (h : T.Iterates order)
    (hx : ∀ y, y ∈ (T.router n).relays ↔ y = x) : order n = [x] := by
  obtain ⟨hnodup, hrelays⟩ := h n
  refine List.perm_singleton.1
    ((List.perm_ext_iff_of_nodup hnodup (List.nodup_singleton _)).2 fun y => ?_)
  rw [hrelays, hx, List.mem_singleton]

/-- The channel that the router picks is that of the end to which the message goes. -/
theorem Topology.pick_router (T : Topology N) (n : N) (x : PublicIdentity)
    (order : List PublicIdentity) :
    ((T.router n).pick order x = none ∧ T.next order x n = none) ∨
      ∃ c e, (T.router n).pick order x = some c ∧ (T.ends n)[c]? = some e ∧
        T.next order x n = some e := by
  rcases T.nextHops_router n x with ⟨hn, hcur⟩ | ⟨c, e, hn, he, hcur⟩
  · simp only [Router.pick, hn, next, hcur]
    induction order with
    | nil => exact .inl ⟨rfl, rfl⟩
    | cons y ys ih =>
      rcases T.nextHops_router n y with ⟨hy, hcury⟩ | ⟨c, e, hy, he, hcury⟩
      · simpa only [List.findSome?_cons, hy, hcury] using ih
      · exact .inr ⟨c, e, by simp only [List.findSome?_cons, hy], he,
          by simp only [List.findSome?_cons, hcury]⟩
  · exact .inr ⟨c, e, by simp only [Router.pick, hn], he, by simp only [next, hcur]⟩

/-- The reader lets a frame through on a connection that its node dialled, and otherwise only what
the peer itself sends. -/
theorem Topology.accept_farConn {frame : Bytes}
    (h : MessagingFrame.decode W frame = .ok (.message m)) :
    (T.farConn n e).accept W frame = some m ↔ e.side = .acceptor ∨ m.sender = T.self n := by
  cases hside : e.side <;> simp [Conn.accept, h, farConn, hside, Side.other]

/-- **A message goes on to the peer, or to the first relay, if that node dialled the connection or
the message is the node's own.** -/
theorem Topology.hop_iff {order : N → List PublicIdentity} (hv : m.validateSize W = .ok ())
    (hf : FrameFits W m) :
    T.Hop W order m n n' ↔ ¬ T.Local n m.recipient ∧
      ∃ e, T.next (order n) m.recipient n = some e ∧ e.peer = n' ∧
        (e.side = .acceptor ∨ m.sender = T.self n) := by
  have hencode : (MessagingFrame.message m).encode W = .ok (W.frame.encode (.message m)) :=
    if_neg (Nat.not_lt.2 hf)
  constructor
  · rintro ⟨valid, foreign, pick, atEnd, peer, encode, accept⟩
    refine ⟨peers_router.1 foreign, ?_⟩
    rcases T.pick_router n m.recipient (order n) with ⟨hp, -⟩ | ⟨c, e, hp, he, hnext⟩
    · cases hp.symm.trans pick
    · obtain rfl := Option.some.inj (hp.symm.trans pick)
      obtain rfl := Option.some.inj (he.symm.trans atEnd)
      exact ⟨e, hnext, peer, (accept_farConn (MessagingFrame.decode_of_encode encode)).1 accept⟩
  · rintro ⟨hl, e, hnext, hpeer, haccept⟩
    rcases T.pick_router n m.recipient (order n) with ⟨-, hno⟩ | ⟨c, e', hp, he, hnext'⟩
    · cases hno.symm.trans hnext
    · obtain rfl := Option.some.inj (hnext'.symm.trans hnext)
      exact ⟨hv, peers_router.2 hl, hp, he, hpeer, hencode,
        (accept_farConn (MessagingFrame.decode_of_encode hencode)).2 haccept⟩

theorem Topology.Hop.send {order : N → List PublicIdentity} {cs : Chans} (h : T.Hop W order m n n')
    (hlive : ∀ c, (cs c).isOpen = true ∧ (cs c).full = false) :
    ∃ c e, (T.ends n)[c]? = some e ∧ e.peer = n' ∧
      (T.router n).send W cs (order n) m =
        .done (T.router n) (Function.update cs c ((cs c).push m)) none := by
  obtain ⟨valid, foreign, pick, atEnd, peer, -, -⟩ := h
  exact ⟨_, _, atEnd, peer, Router.send_of_pick valid foreign pick (hlive _).1 (hlive _).2⟩

end Hops

end Neonet
