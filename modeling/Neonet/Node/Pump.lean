import Neonet.Lib.Lts
import Neonet.Messaging.Router

/-!
# A node pumping its connections

The tasks of one node as a labelled transition system: the local application submits and takes
messages, and every connection runs `pump_connection` from the installation of its route to the
clean-up.  A step is what a task does while it holds the router's lock, or one message it takes
from a channel.  The network decides which frames arrive and when a connection breaks.

* `Conn.accept` : what the reader of a connection lets through to the router.
* `NodeStep` : the steps.
* `NodeStep.holds` : a message that a node holds after a step it held before, or this very step
  routed it.
* `NodeStep.records` : what each step adds to the list of accepted messages, and that each
  channel is handed a part of what was added.
* `NodeStep.accepts`, `NodeStep.conns_of` : where an accepted message and a connection come from.
-/

namespace Neonet

/-- Which peers may connect. -/
structure AllowList where
  identities : Option (List PublicIdentity)

/-- `AllowList::permits`. -/
def AllowList.permits (a : AllowList) (x : PublicIdentity) : Bool :=
  match a.identities with
  | none => true
  | some list => decide (x ∈ list)

/-- How far `pump_connection` has come. -/
inductive Stage
  /-- The next hop is set, the relay not yet. -/
  | installing
  /-- The reader and the writer were spawned; which of them still run. -/
  | running (reading writing : Bool)
  /-- The routes are removed again. -/
  | finished
  deriving DecidableEq

/-- A connection, known by the channel its writer takes from. -/
structure Conn where
  remote : PublicIdentity
  isRelay : Bool
  stage : Stage

/-- The reader's decision about a frame: the message to route, if any. -/
def Conn.accept (W : MessageCodecs) (k : Conn) (frame : Bytes) : Option Message :=
  match MessagingFrame.decode W frame with
  | .error _ => none
  | .ok (.message m) => if !k.isRelay && decide (m.sender ≠ k.remote) then none else some m

/-- Where a message entered a node. -/
inductive Source
  | application
  | peer (remote : PublicIdentity) (isRelay : Bool)
  deriving DecidableEq

/-- A node: its router, the channels of its tasks, its connections, and every message its router
accepted, oldest first. -/
structure NodeState where
  router : Router
  chans : Chans
  nextChan : ChanId
  conns : ChanId → Option Conn
  accepted : List (Source × Message)

/-- A node that was just started. -/
def NodeState.start (r : Router) : NodeState :=
  { router := r, chans := fun _ => .gone, nextChan := 0, conns := fun _ => none, accepted := [] }

/-- The node with the stage of one connection changed. -/
def NodeState.setStage (s : NodeState) (c : ChanId) (k : Conn) (stage : Stage) : NodeState :=
  { s with conns := Function.update s.conns c (some { k with stage }) }

/-- The end of `pump_connection`: the routes of the connection are removed. -/
def Router.cleanUp (r : Router) (c : ChanId) (k : Conn) : Router :=
  if k.isRelay then (r.removeNextHopIfCurrent k.remote c).removeRelay k.remote
  else r.removeNextHopIfCurrent k.remote c

@[simp] theorem Router.cleanUp_offline (r : Router) (c : ChanId) (k : Conn) :
    (r.cleanUp c k).offline = r.offline := by
  have h : (r.removeNextHopIfCurrent k.remote c).offline = r.offline := by
    unfold Router.removeNextHopIfCurrent
    split
    · split <;> rfl
    · rfl
  unfold Router.cleanUp
  split <;> exact h

/-- What a task does. -/
inductive NodeLabel
  /-- The application calls `send_raw`. -/
  | submitted (m : Message)
  /-- The application calls `register_local`. -/
  | registered
  /-- The application takes a message from an inbox. -/
  | took (i : ChanId) (m : Message)
  /-- The application drops an inbox. -/
  | dropped (i : ChanId)
  /-- `pump_connection` sets the next hop. -/
  | connected (c : ChanId) (remote : PublicIdentity) (isRelay : Bool)
  /-- `pump_connection` sets the relay. -/
  | relayed (c : ChanId)
  /-- The reader reads a frame. -/
  | received (c : ChanId) (frame : Bytes)
  /-- The reader's connection breaks. -/
  | readerEnded (c : ChanId)
  /-- The writer writes a frame. -/
  | wrote (c : ChanId) (frame : Bytes)
  /-- The writer passes over a message it cannot encode. -/
  | skipped (c : ChanId)
  /-- The writer's connection breaks. -/
  | writerEnded (c : ChanId)
  /-- Both have ended and the routes are removed. -/
  | cleaned (c : ChanId)

section Steps

variable (W : MessageCodecs) (self : PublicIdentity) (allow : AllowList)

/-- `router.send` for a message from `source`, once it does not wait.  The relays are iterated
in some order. -/
inductive Routes (source : Source) (m : Message) (s : NodeState) : NodeState → Prop
  | delivered {order : List PublicIdentity} {r : Router} {cs : Chans} {ev : Option Message}
      (nodup : order.Nodup) (lists : ∀ x, x ∈ order ↔ x ∈ s.router.relays)
      (send : s.router.send W s.chans order m = .done r cs ev) :
      Routes source m s
        { s with router := r, chans := cs, accepted := s.accepted ++ [(source, m)] }
  | refused {order : List PublicIdentity} {e : IoError}
      (send : s.router.send W s.chans order m = .refused e) : Routes source m s s

/-- The steps of a node. -/
inductive NodeStep (s : NodeState) : NodeLabel → NodeState → Prop
  | submitted {m : Message} {s' : NodeState} (own : m.sender = self)
      (routes : Routes W .application m s s') : NodeStep s (.submitted m) s'
  | registered : NodeStep s .registered
      { s with
        router := (s.router.register self s.nextChan).2
        chans := Function.update s.chans s.nextChan (s.router.register self s.nextChan).1
        nextChan := s.nextChan + 1 }
  | took {i : ChanId} {m : Message} {ch : Channel} (inbox : s.conns i = none)
      (recv : (s.chans i).recv = some (m, ch)) :
      NodeStep s (.took i m) { s with chans := Function.update s.chans i ch }
  | dropped {i : ChanId} (inbox : s.conns i = none) :
      NodeStep s (.dropped i) { s with chans := Function.update s.chans i (s.chans i).close }
  -- `handle_inbound` comes here only for peers on the allow list
  | connected {remote : PublicIdentity} {isRelay : Bool}
      (permitted : isRelay = false → allow.permits remote = true) :
      NodeStep s (.connected s.nextChan remote isRelay)
        { s with
          router := s.router.setNextHop remote s.nextChan
          chans := Function.update s.chans s.nextChan (.new 64)
          nextChan := s.nextChan + 1
          conns := Function.update s.conns s.nextChan
            (some ⟨remote, isRelay, if isRelay then .installing else .running true true⟩) }
  | relayed {c : ChanId} {k : Conn} (conn : s.conns c = some k) (stage : k.stage = .installing) :
      NodeStep s (.relayed c)
        { s.setStage c k (.running true true) with router := s.router.setRelay k.remote }
  | passedOver {c : ChanId} {k : Conn} {w : Bool} {frame : Bytes} (conn : s.conns c = some k)
      (stage : k.stage = .running true w) (accept : k.accept W frame = none) :
      NodeStep s (.received c frame) s
  | received {c : ChanId} {k : Conn} {w : Bool} {frame : Bytes} {m : Message} {s' : NodeState}
      (conn : s.conns c = some k) (stage : k.stage = .running true w)
      (accept : k.accept W frame = some m) (routes : Routes W (.peer k.remote k.isRelay) m s s') :
      NodeStep s (.received c frame) s'
  | readerEnded {c : ChanId} {k : Conn} {w : Bool} (conn : s.conns c = some k)
      (stage : k.stage = .running true w) :
      NodeStep s (.readerEnded c) (s.setStage c k (.running false w))
  | wrote {c : ChanId} {k : Conn} {r : Bool} {m : Message} {ch : Channel} {frame : Bytes}
      (conn : s.conns c = some k) (stage : k.stage = .running r true)
      (recv : (s.chans c).recv = some (m, ch))
      (encode : (MessagingFrame.message m).encode W = .ok frame) :
      NodeStep s (.wrote c frame) { s with chans := Function.update s.chans c ch }
  | skipped {c : ChanId} {k : Conn} {r : Bool} {m : Message} {ch : Channel} {e : IoError}
      (conn : s.conns c = some k) (stage : k.stage = .running r true)
      (recv : (s.chans c).recv = some (m, ch))
      (encode : (MessagingFrame.message m).encode W = .error e) :
      NodeStep s (.skipped c) { s with chans := Function.update s.chans c ch }
  | writerEnded {c : ChanId} {k : Conn} {r : Bool} (conn : s.conns c = some k)
      (stage : k.stage = .running r true) :
      NodeStep s (.writerEnded c)
        { s.setStage c k (.running r false) with
          chans := Function.update s.chans c (s.chans c).close }
  | cleaned {c : ChanId} {k : Conn} (conn : s.conns c = some k)
      (stage : k.stage = .running false false) :
      NodeStep s (.cleaned c)
        { s.setStage c k .finished with router := s.router.cleanUp c k }

/-- A node as a transition system. -/
def node : Lts NodeState NodeLabel where
  init s := ∃ capacity r, Router.new capacity = .ok r ∧ s = .start r
  step := NodeStep W self allow

end Steps

/-! ### What a node holds -/

/-- `m` was put into a channel of the node, or waits in an offline queue. -/
def NodeState.Holds (s : NodeState) (m : Message) : Prop :=
  (∃ c, m ∈ (s.chans c).sent) ∨ ∃ x, m ∈ s.router.offline.queues x

/-- The messages for `x` that were handed to the channel `c`, oldest first. -/
def NodeState.handed (s : NodeState) (c : ChanId) (x : PublicIdentity) : List Message :=
  (s.chans c).sent.filter fun m => m.recipient = x

variable {W : MessageCodecs} {self : PublicIdentity} {allow : AllowList} {s s' : NodeState}
  {l : NodeLabel} {m : Message}

/-- The message that a step brings into the node. -/
inductive NodeStep.Brings (W : MessageCodecs) (s : NodeState) (m : Message) : NodeLabel → Prop
  | submitted : Brings W s m (.submitted m)
  | received {c : ChanId} {k : Conn} {frame : Bytes} (conn : s.conns c = some k)
      (accept : k.accept W frame = some m) : Brings W s m (.received c frame)

theorem holds_of_update (c : ChanId) (ch : Channel) {x : Message}
    (hs : ∀ x ∈ ch.sent, s.Holds x)
    (h : (∃ i, x ∈ (Function.update s.chans c ch i).sent) ∨
      ∃ y, x ∈ s.router.offline.queues y) : s.Holds x := by
  rcases h with ⟨i, hi⟩ | hq
  · by_cases hic : i = c
    · subst hic
      rw [Function.update_self] at hi
      exact hs x hi
    · rw [Function.update_of_ne hic] at hi
      exact .inl ⟨i, hi⟩
  · exact .inr hq

theorem Routes.holds {source : Source} {x : Message} (h : Routes W source m s s')
    (hx : s'.Holds x) : s.Holds x ∨ x = m := by
  cases h with
  | refused => exact .inl hx
  | delivered nodup lists send =>
    cases Router.send_done send with
    | @toChannel i forgets same isRoute room =>
      rcases hx with ⟨j, hj⟩ | ⟨y, hy⟩
      · by_cases hji : j = i
        · subst hji
          simp only [Function.update_self, Channel.sent_push room, List.mem_append,
            List.mem_singleton] at hj
          exact hj.imp_left fun h => .inl ⟨j, h⟩
        · simp only [Function.update_of_ne hji] at hj
          exact .inl (.inl ⟨j, hj⟩)
      · exact .inl (.inr ⟨y, by simpa only [same] using hy⟩)
    | toQueue forgets pushed =>
      rcases hx with hj | ⟨y, hy⟩
      · exact .inl (.inl hj)
      · simp only [pushed] at hy
        exact (OfflineQueue.mem_push hy).imp_left fun h => .inr ⟨y, h⟩

theorem Routes.records {source : Source} (h : Routes W source m s s') :
    ∃ added, s'.accepted = s.accepted ++ added ∧ (∀ e ∈ added, e = (source, m)) ∧
      ∀ c, ∃ ms, ms.Sublist (added.map Prod.snd) ∧ (s'.chans c).sent = (s.chans c).sent ++ ms := by
  cases h with
  | refused =>
    exact ⟨[], by simp, by simp, fun c => ⟨[], by simp, by simp⟩⟩
  | delivered nodup lists send =>
    refine ⟨[(source, m)], rfl, by simp, fun c => ?_⟩
    cases Router.send_done send with
    | @toChannel i forgets same isRoute room =>
      by_cases hc : c = i
      · subst hc
        exact ⟨[m], by simp, by simp [Channel.sent_push room]⟩
      · exact ⟨[], by simp, by simp [Function.update_of_ne hc]⟩
    | toQueue forgets pushed => exact ⟨[], by simp, by simp⟩

theorem Routes.conns {source : Source} (h : Routes W source m s s') :
    s'.conns = s.conns := by
  cases h <;> rfl

theorem Routes.nextChan {source : Source} (h : Routes W source m s s') :
    s'.nextChan = s.nextChan := by
  cases h <;> rfl

/-- **A message that a node holds after a step it held before, or the step brought it in.** -/
theorem NodeStep.holds {x : Message} (h : NodeStep W self allow s l s') (hx : s'.Holds x) :
    s.Holds x ∨ NodeStep.Brings W s x l := by
  cases h with
  | submitted own routes =>
    exact (routes.holds hx).imp_right fun h => by subst h; exact .submitted
  | received conn stage accept routes =>
    exact (routes.holds hx).imp_right fun h => by subst h; exact .received conn accept
  | registered =>
    left
    rcases hx with ⟨i, hi⟩ | ⟨y, hy⟩
    · by_cases hin : i = s.nextChan
      · subst hin
        simp only [Function.update_self, Router.register_sent] at hi
        exact .inr ⟨self, hi⟩
      · simp only [Function.update_of_ne hin] at hi
        exact .inl ⟨i, hi⟩
    · exact .inr ⟨y, OfflineQueue.mem_drain hy⟩
  | took inbox recv =>
    exact .inl (holds_of_update _ _ (fun y hy => .inl ⟨_, (Channel.recv_eq_some recv).2.1 ▸ hy⟩) hx)
  | wrote conn stage recv encode =>
    exact .inl (holds_of_update _ _ (fun y hy => .inl ⟨_, (Channel.recv_eq_some recv).2.1 ▸ hy⟩) hx)
  | skipped conn stage recv encode =>
    exact .inl (holds_of_update _ _ (fun y hy => .inl ⟨_, (Channel.recv_eq_some recv).2.1 ▸ hy⟩) hx)
  | @dropped i inbox =>
    exact .inl (holds_of_update i (s.chans i).close (fun y hy => .inl ⟨i, hy⟩) hx)
  | connected permitted => exact .inl (holds_of_update _ _ (fun y hy => by simp at hy) hx)
  | relayed conn stage => exact .inl hx
  | passedOver conn stage accept => exact .inl hx
  | readerEnded conn stage => exact .inl hx
  | @writerEnded c k r conn stage =>
    exact .inl (holds_of_update c (s.chans c).close (fun y hy => .inl ⟨c, hy⟩) hx)
  | cleaned conn stage =>
    exact .inl (hx.imp_right fun ⟨y, hy⟩ => ⟨y, by simpa only [Router.cleanUp_offline] using hy⟩)

/-! ### What a step records -/

theorem exists_nil_append {added : List (Source × Message)} {c c' : Channel}
    (h : c'.sent = c.sent) :
    ∃ ms, ms.Sublist (added.map Prod.snd) ∧ c'.sent = c.sent ++ ms :=
  ⟨[], List.nil_sublist _, by rw [h, List.append_nil]⟩

theorem sent_update {c i : ChanId} {ch : Channel} (h : ch.sent = (s.chans i).sent) :
    (Function.update s.chans i ch c).sent = (s.chans c).sent := by
  by_cases hc : c = i
  · subst hc; rw [Function.update_self, h]
  · rw [Function.update_of_ne hc]

/-- **What a step adds to the accepted messages, and that every channel there was gets a part of
it and nothing else.** -/
theorem NodeStep.records (h : NodeStep W self allow s l s') :
    s.nextChan ≤ s'.nextChan ∧ ∃ added, s'.accepted = s.accepted ++ added ∧
      ∀ c < s.nextChan, ∃ ms, ms.Sublist (added.map Prod.snd) ∧
        (s'.chans c).sent = (s.chans c).sent ++ ms := by
  have hnil : s.accepted = s.accepted ++ [] := (List.append_nil _).symm
  cases h with
  | submitted own routes =>
    obtain ⟨added, hacc, -, hsent⟩ := routes.records
    exact ⟨routes.nextChan.ge, added, hacc, fun c _ => hsent c⟩
  | received conn stage accept routes =>
    obtain ⟨added, hacc, -, hsent⟩ := routes.records
    exact ⟨routes.nextChan.ge, added, hacc, fun c _ => hsent c⟩
  | registered =>
    refine ⟨Nat.le_succ _, [], hnil, fun c hc => exists_nil_append ?_⟩
    simp only [Function.update_of_ne hc.ne]
  | connected permitted =>
    refine ⟨Nat.le_succ _, [], hnil, fun c hc => exists_nil_append ?_⟩
    simp only [Function.update_of_ne hc.ne]
  | took inbox recv =>
    exact ⟨le_rfl, [], hnil, fun c _ =>
      exists_nil_append (sent_update (Channel.recv_eq_some recv).2.1)⟩
  | wrote conn stage recv encode =>
    exact ⟨le_rfl, [], hnil, fun c _ =>
      exists_nil_append (sent_update (Channel.recv_eq_some recv).2.1)⟩
  | skipped conn stage recv encode =>
    exact ⟨le_rfl, [], hnil, fun c _ =>
      exists_nil_append (sent_update (Channel.recv_eq_some recv).2.1)⟩
  | dropped inbox => exact ⟨le_rfl, [], hnil, fun c _ => exists_nil_append (sent_update rfl)⟩
  | writerEnded conn stage =>
    exact ⟨le_rfl, [], hnil, fun c _ => exists_nil_append (sent_update rfl)⟩
  | relayed conn stage => exact ⟨le_rfl, [], hnil, fun c _ => exists_nil_append rfl⟩
  | passedOver conn stage accept => exact ⟨le_rfl, [], hnil, fun c _ => exists_nil_append rfl⟩
  | readerEnded conn stage => exact ⟨le_rfl, [], hnil, fun c _ => exists_nil_append rfl⟩
  | cleaned conn stage => exact ⟨le_rfl, [], hnil, fun c _ => exists_nil_append rfl⟩

/-- A message from a peer was let through by the reader of a connection to that peer. -/
theorem NodeStep.accepts {remote : PublicIdentity} {isRelay : Bool}
    (h : NodeStep W self allow s l s') (hm : (.peer remote isRelay, m) ∈ s'.accepted) :
    (.peer remote isRelay, m) ∈ s.accepted ∨
      ∃ c k frame, s.conns c = some k ∧ k.accept W frame = some m ∧ k.remote = remote ∧
        k.isRelay = isRelay := by
  cases h with
  | submitted own routes =>
    obtain ⟨added, hacc, hadd, -⟩ := routes.records
    rw [hacc, List.mem_append] at hm
    exact hm.imp_right fun h => by cases hadd _ h
  | @received c k w frame m' s' conn stage accept routes =>
    obtain ⟨added, hacc, hadd, -⟩ := routes.records
    rw [hacc, List.mem_append] at hm
    refine hm.imp_right fun h => ?_
    cases hadd _ h
    exact ⟨c, k, frame, conn, accept, rfl, rfl⟩
  | registered => exact .inl hm
  | took inbox recv => exact .inl hm
  | dropped inbox => exact .inl hm
  | connected permitted => exact .inl hm
  | relayed conn stage => exact .inl hm
  | passedOver conn stage accept => exact .inl hm
  | readerEnded conn stage => exact .inl hm
  | wrote conn stage recv encode => exact .inl hm
  | skipped conn stage recv encode => exact .inl hm
  | writerEnded conn stage => exact .inl hm
  | cleaned conn stage => exact .inl hm

theorem setStage_conns {c i : ChanId} {k k' : Conn} {stage : Stage} (hk : s.conns i = some k)
    (h : (s.setStage i k stage).conns c = some k') :
    ∃ k₀, s.conns c = some k₀ ∧ k₀.remote = k'.remote ∧ k₀.isRelay = k'.isRelay := by
  by_cases hc : c = i
  · subst hc
    simp only [NodeState.setStage, Function.update_self, Option.some.injEq] at h
    subst h
    exact ⟨k, hk, rfl, rfl⟩
  · simp only [NodeState.setStage, Function.update_of_ne hc] at h
    exact ⟨k', h, rfl, rfl⟩

/-- A connection keeps its remote and its direction, and begins with the label that says so. -/
theorem NodeStep.conns_of {c : ChanId} {k : Conn} (h : NodeStep W self allow s l s')
    (hc : s'.conns c = some k) :
    (∃ k₀, s.conns c = some k₀ ∧ k₀.remote = k.remote ∧ k₀.isRelay = k.isRelay) ∨
      (l = .connected c k.remote k.isRelay ∧
          (k.isRelay = false → allow.permits k.remote = true)) := by
  cases h with
  | connected permitted =>
    by_cases hcn : c = s.nextChan
    · subst hcn
      simp only [Function.update_self, Option.some.injEq] at hc
      subst hc
      exact .inr ⟨rfl, permitted⟩
    · simp only [Function.update_of_ne hcn] at hc
      exact .inl ⟨k, hc, rfl, rfl⟩
  | submitted own routes => exact .inl ⟨k, routes.conns ▸ hc, rfl, rfl⟩
  | received conn stage accept routes => exact .inl ⟨k, routes.conns ▸ hc, rfl, rfl⟩
  | registered => exact .inl ⟨k, hc, rfl, rfl⟩
  | took inbox recv => exact .inl ⟨k, hc, rfl, rfl⟩
  | dropped inbox => exact .inl ⟨k, hc, rfl, rfl⟩
  | passedOver conn stage accept => exact .inl ⟨k, hc, rfl, rfl⟩
  | wrote conn stage recv encode => exact .inl ⟨k, hc, rfl, rfl⟩
  | skipped conn stage recv encode => exact .inl ⟨k, hc, rfl, rfl⟩
  | relayed conn stage => exact .inl (setStage_conns conn hc)
  | readerEnded conn stage => exact .inl (setStage_conns conn hc)
  | writerEnded conn stage => exact .inl (setStage_conns conn hc)
  | cleaned conn stage => exact .inl (setStage_conns conn hc)

theorem NodeStep.conns_connected {c : ChanId} {x : PublicIdentity} {r : Bool} {k : Conn}
    (h : NodeStep W self allow s (.connected c x r) s') (hc : s'.conns c = some k) :
    k.remote = x ∧ k.isRelay = r ∧ (r = false → allow.permits x = true) := by
  cases h with
  | connected permitted =>
    simp only [Function.update_self, Option.some.injEq] at hc
    subst hc
    exact ⟨rfl, rfl, permitted⟩

theorem Conn.sender_of_accept {k : Conn} {frame : Bytes} (h : k.accept W frame = some m)
    (hr : k.isRelay = false) : m.sender = k.remote := by
  unfold Conn.accept at h
  split at h
  · cases h
  · split at h
    · cases h
    · rename_i hn
      cases h
      simpa [hr] using hn

theorem Conn.decode_of_accept {k : Conn} {frame : Bytes} (h : k.accept W frame = some m) :
    MessagingFrame.decode W frame = .ok (.message m) := by
  unfold Conn.accept at h
  split at h
  · cases h
  · rename_i hd
    split at h
    · cases h
    · cases h; exact hd

/-! ### A letter to a device that is not connected -/

namespace Letter

/-- The device that runs the node. -/
def alice : PublicIdentity := ⟨List.Vector.replicate 32 1⟩

/-- A device that is not connected. -/
def bob : PublicIdentity := ⟨List.Vector.replicate 32 2⟩

/-- A message for it. -/
def letter : Message := ⟨List.Vector.replicate 16 0, alice, bob, [104, 105]⟩

/-- The router of a node that was just started. -/
def router : Router :=
  { peers := fun _ => none
    nextHops := fun _ => none
    relays := ∅
    offline := .empty 2 Nat.two_pos }

/-- The router after the letter was sent. -/
def routerHolding : Router := { router with offline := (router.offline.push letter).2 }

/-- The node after the letter was sent. -/
def holding : NodeState :=
  { NodeState.start router with router := routerHolding, accepted := [(.application, letter)] }

theorem validateSize_letter : letter.validateSize .postcard = .ok () := by
  have h : ¬ maxMessageSize < (MessageCodecs.postcard.message.encode letter).length := by decide
  rw [Message.validateSize, if_neg h]

theorem routes_letter : Routes .postcard .application letter (.start router) holding := by
  have hsend : router.send .postcard (fun _ => .gone) [] letter =
      .done routerHolding (fun _ => .gone) none := by
    simp only [Router.send, validateSize_letter]
    rfl
  exact .delivered List.nodup_nil (fun x => by simp [NodeState.start, router]) hsend

end Letter

end Neonet
