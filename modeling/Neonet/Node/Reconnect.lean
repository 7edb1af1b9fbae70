import Neonet.Node.Pump

/-!
# Queued messages and the next connection

A message for a recipient without a route waits in the offline queue.  `Router::register` hands
the queue to the channel it makes (`Router.register_sent`); `pump_connection` installs a next hop
for the recipient with `set_next_hop`, which does not look at the queue.

* `handed_later` : over any run, what a channel is handed was accepted by the router in that run.
* `handedFirst_iff` : **a connection is handed the queued messages first exactly when there are
  none.**
* `not_handedFirst` : one message waits, its recipient connects, and is not handed the message.
-/

namespace Neonet

variable {W : MessageCodecs} {self : PublicIdentity} {allow : AllowList} {s s' s'' : NodeState}
  {c : ChanId} {x : PublicIdentity} {isRelay : Bool}

/-- Over a run, what a channel is handed is a part of what the router accepts meanwhile. -/
theorem handed_later (h : (node W self allow).Leads s s') (hc : c < s.nextChan) :
    ∃ later, s'.accepted = s.accepted ++ later ∧
      ∃ ms, ms.Sublist (later.map Prod.snd) ∧ (s'.chans c).sent = (s.chans c).sent ++ ms := by
  -- the channel stays one of the node's, so each step's record speaks of it
  have hI := h.preserves (I := fun t => s.nextChan ≤ t.nextChan ∧
    ∃ later, t.accepted = s.accepted ++ later ∧
      ∃ ms, ms.Sublist (later.map Prod.snd) ∧ (t.chans c).sent = (s.chans c).sent ++ ms)
    ⟨le_rfl, [], by simp, [], by simp, by simp⟩ ?_
  · exact hI.2
  rintro t l t' ⟨hle, later, hacc, ms, hms, hsent⟩ hstep
  obtain ⟨hle', added, hacc', hall⟩ := NodeStep.records hstep
  obtain ⟨ms', hms', hsent'⟩ := hall c (hc.trans_le hle)
  refine ⟨hle.trans hle', later ++ added, ?_, ms ++ ms', ?_, ?_⟩
  · rw [hacc', hacc, List.append_assoc]
  · rw [List.map_append]; exact hms.append hms'
  · rw [hsent', hsent, List.append_assoc]

/-- From `s` on, the channel `c` is handed for `x` the messages `queued`, in this order, and then
such as the router accepts from `s` on. -/
def HandedFirst (W : MessageCodecs) (self : PublicIdentity) (allow : AllowList) (s : NodeState)
    (c : ChanId) (x : PublicIdentity) (queued : List Message) : Prop :=
  ∀ s', (node W self allow).Leads s s' → ∃ later, s'.accepted = s.accepted ++ later ∧
    ∃ ms, ms.Sublist ((later.map Prod.snd).filter fun m => m.recipient = x) ∧
      s'.handed c x = queued ++ ms

theorem handed_connected (h : NodeStep W self allow s (.connected c x isRelay) s')
    (y : PublicIdentity) : s'.handed c y = [] ∧ c < s'.nextChan := by
  cases h with
  | connected permitted =>
    refine ⟨?_, Nat.lt_succ_self _⟩
    simp only [NodeState.handed, Function.update_self, Channel.sent_new, List.filter_nil]

/-- **The connection of `x` is handed the messages that wait for `x` first, in order, iff none
wait.** -/
theorem handedFirst_iff (hc : (node W self allow).step s (.connected c x isRelay) s') :
    HandedFirst W self allow s' c x (s.router.offline.queues x) ↔
      s.router.offline.queues x = [] := by
  obtain ⟨hempty, hlt⟩ := handed_connected hc x
  constructor
  · intro h
    obtain ⟨later, -, ms, -, hms⟩ := h s' (Lts.Leads.refl s')
    rw [hempty] at hms
    exact (List.append_eq_nil_iff.1 hms.symm).1
  · intro hq s'' hl
    obtain ⟨later, hacc, ms, hms, hsent⟩ := handed_later hl hlt
    refine ⟨later, hacc, ms.filter fun m => m.recipient = x, hms.filter _, ?_⟩
    rw [hq, List.nil_append]
    simp only [NodeState.handed] at hempty ⊢
    rw [hsent, List.filter_append, hempty, List.nil_append]

/-! ### A message that is left behind -/

namespace Letter

theorem reachable_holding : (node .postcard alice ⟨none⟩).Reachable holding := by
  have hstart : (node .postcard alice ⟨none⟩).Reachable (.start router) :=
    Lts.Reachable.of_init ⟨2, router, rfl, rfl⟩
  exact hstart.step (l := .submitted letter) (.submitted rfl routes_letter)

/-- The node after Bob connected. -/
def connected : NodeState :=
  { holding with
    router := routerHolding.setNextHop bob 0
    chans := Function.update holding.chans 0 (.new 64)
    nextChan := 1
    conns := Function.update holding.conns 0 (some ⟨bob, false, .running true true⟩) }

theorem connected_step :
    (node .postcard alice ⟨none⟩).step holding (.connected 0 bob false) connected :=
  .connected fun _ => rfl

/-- A node to which Bob connects before anything is sent. -/
def greeted : NodeState :=
  { NodeState.start router with
    router := router.setNextHop bob 0
    chans := Function.update (NodeState.start router).chans 0 (.new 64)
    nextChan := 1
    conns := Function.update (NodeState.start router).conns 0
      (some ⟨bob, false, .running true true⟩) }

theorem greeted_step :
    (node .postcard alice ⟨none⟩).step (.start router) (.connected 0 bob false) greeted :=
  .connected fun _ => rfl

theorem queues_holding : holding.router.offline.queues bob = [letter] := by decide

end Letter

open Letter in
/-- The letter waits, Bob connects, and his connection is not handed the letter. -/
theorem not_handedFirst :
    ¬ ∀ (s s' : NodeState) (c : ChanId) (x : PublicIdentity) (isRelay : Bool),
      (node .postcard alice ⟨none⟩).Reachable s →
      (node .postcard alice ⟨none⟩).step s (.connected c x isRelay) s' →
      HandedFirst .postcard alice ⟨none⟩ s' c x (s.router.offline.queues x) := by
  intro h
  obtain ⟨later, -, ms, -, hms⟩ :=
    h holding connected 0 bob false reachable_holding connected_step connected (.refl connected)
  rw [queues_holding, (handed_connected connected_step bob).1] at hms
  simp at hms

open Letter in
/-- Nothing waits for Bob when he connects to a node that was just started. -/
theorem handedFirst_greeted : HandedFirst .postcard alice ⟨none⟩ greeted 0 bob [] :=
  (handedFirst_iff greeted_step).2 rfl

end Neonet
