import Neonet.Node.Reconnect

/-!
# The end of a connection

`pump_connection` removes the routes of its connection once the reader *and* the writer have
ended.  The reader ends when the peer closes the connection.  The writer ends when a write fails,
or when its channel is empty and every sender of it is gone; but the router holds a sender until
the routes are removed, and `pump_connection` itself holds one for the comparison in
`remove_next_hop_if_current`.  So an idle writer waits for a message that only makes it notice
that the peer is gone.

One connection is looked at more closely than in `Neonet.Node.Pump`: its writer takes a message
in one step and writes it in another (`PumpStep`), and every step is one of the node
(`PumpStep.node`) or leaves the node as it is.

* `pump_hangs_up` : **if the reader never ends while the writer is idle, and afterwards the writer
  does not run out of messages, then the clean-up can always proceed and the router does not
  keep the route.**
* `Pumping.hangsUp_iff`, `Pumping.stuck_of_idle` : in any state, the clean-up can proceed exactly
  when the writer is not idle without a reader; otherwise nothing of the connection can move.
-/

namespace Neonet

/-- What the writer of a connection is doing. -/
inductive Writing
  /-- `out_rx.recv()`; also before it is spawned. -/
  | waiting
  /-- `write_frame`. -/
  | writing (frame : Bytes)
  | ended
  deriving DecidableEq

/-- A node and the writer of one of its connections. -/
structure PumpState where
  node : NodeState
  writer : Writing

/-- What a task does, seen from one connection. -/
inductive PumpLabel
  /-- A step of the node that is not one of this connection's writer. -/
  | other (l : NodeLabel)
  /-- The writer takes a message and encodes it. -/
  | took (frame : Bytes)
  /-- The writer takes a message it cannot encode. -/
  | skipped
  /-- The frame is written. -/
  | wrote
  /-- The frame cannot be written. -/
  | failed
  /-- The channel is empty and all its senders are gone. -/
  | drained

/-- The step is one of the writer of `c`. -/
def NodeLabel.ofWriter (c : ChanId) : NodeLabel → Prop
  | .wrote i _ | .skipped i | .writerEnded i => i = c
  | _ => False

/-- The step is one of the tasks of `c`. -/
def PumpLabel.own (c : ChanId) : PumpLabel → Prop
  | .other (.relayed i) | .other (.received i _) | .other (.readerEnded i)
  | .other (.cleaned i) => i = c
  | .other _ => False
  | _ => True

/-- Some sender of `c` is alive: the one of `pump_connection`, or one in the router. -/
def NodeState.HasSender (s : NodeState) (c : ChanId) : Prop :=
  (∃ k, s.conns c = some k ∧ k.stage ≠ .finished) ∨ ∃ x, s.router.nextHops x = some c

section Pump

variable (W : MessageCodecs) (self : PublicIdentity) (allow : AllowList) (c : ChanId)

/-- The steps of a node, those of the writer of `c` in detail. -/
inductive PumpStep (s : PumpState) : PumpLabel → PumpState → Prop
  | other {l : NodeLabel} {n : NodeState} (step : NodeStep W self allow s.node l n)
      (notWriter : ¬ l.ofWriter c) : PumpStep s (.other l) { s with node := n }
  | took {frame : Bytes} {n : NodeState} (idle : s.writer = .waiting)
      (step : NodeStep W self allow s.node (.wrote c frame) n) :
      PumpStep s (.took frame) ⟨n, .writing frame⟩
  | skipped {n : NodeState} (idle : s.writer = .waiting)
      (step : NodeStep W self allow s.node (.skipped c) n) : PumpStep s .skipped ⟨n, .waiting⟩
  | wrote {frame : Bytes} (busy : s.writer = .writing frame) :
      PumpStep s .wrote { s with writer := .waiting }
  | failed {frame : Bytes} {n : NodeState} (busy : s.writer = .writing frame)
      (step : NodeStep W self allow s.node (.writerEnded c) n) : PumpStep s .failed ⟨n, .ended⟩
  | drained {n : NodeState} (idle : s.writer = .waiting) (empty : (s.node.chans c).waiting = [])
      (noSender : ¬ s.node.HasSender c)
      (step : NodeStep W self allow s.node (.writerEnded c) n) : PumpStep s .drained ⟨n, .ended⟩

/-- One run of `pump_connection`, from the installation of its route in some state of the node. -/
def pump : Lts PumpState PumpLabel where
  init s := s.writer = .waiting ∧ ∃ n x isRelay, (node W self allow).Reachable n ∧
    NodeStep W self allow n (.connected c x isRelay) s.node
  step := PumpStep W self allow c

end Pump

/-- The reader of the connection has ended. -/
def Stage.readerEnded : Stage → Prop
  | .running reading _ => reading = false
  | .finished => True
  | .installing => False

/-- The reader of the connection `c` has ended. -/
def NodeState.ReaderEnded (s : NodeState) (c : ChanId) : Prop :=
  ∃ k, s.conns c = some k ∧ k.stage.readerEnded

/-- The router maps the remote of the connection `c` to it. -/
def NodeState.RoutesTo (s : NodeState) (c : ChanId) : Prop :=
  ∃ k, s.conns c = some k ∧ s.router.nextHops k.remote = some c

/-- The routes of the connection `c` are removed. -/
def NodeState.CleanedUp (s : NodeState) (c : ChanId) : Prop :=
  (∃ k, s.conns c = some k ∧ k.stage = .finished) ∧ ¬ s.RoutesTo c

variable (W : MessageCodecs) (self : PublicIdentity) (allow : AllowList) (c : ChanId)

/-- The tasks of the connection can come to the end of the clean-up by themselves. -/
def CanCleanUp (s : PumpState) : Prop :=
  ∃ s', ((pump W self allow c).restrict fun _ l => l.own c).Leads s s' ∧ s'.node.CleanedUp c

/-- The reader has ended, no task of the connection can take a step, and the router still maps
the remote to the connection. -/
def Stuck (s : PumpState) : Prop :=
  s.node.ReaderEnded c ∧ (pump W self allow c).Deadlock (fun _ l => l.own c) s ∧
    s.node.RoutesTo c

/-- Once the reader has ended and nothing is waiting, the clean-up can proceed; and the
connection is not stuck. -/
def HangsUp (s : PumpState) : Prop :=
  (s.node.ReaderEnded c → (s.node.chans c).waiting = [] → CanCleanUp W self allow c s) ∧
    ¬ Stuck W self allow c s

/-- The step does not leave the writer idle without a reader: the reader ends while the writer
has something to do, and from then on a write succeeds, or a message is passed over, only while
another message waits. -/
def KeepsWriterBusy (s : PumpState) : PumpLabel → Prop
  | .other (.readerEnded i) => i = c → s.writer = .waiting → (s.node.chans c).waiting ≠ []
  | .wrote => s.node.ReaderEnded c → (s.node.chans c).waiting ≠ []
  | .skipped => s.node.ReaderEnded c → 1 < (s.node.chans c).waiting.length
  | _ => True

/-! ### What the other steps of the node leave alone -/

variable {W self allow c} {s s' : NodeState} {l : NodeLabel} {k : Conn}

/-- The step changes the stage of `c` or takes from its channel. -/
def NodeLabel.changes (c : ChanId) : NodeLabel → Prop
  | .relayed i | .readerEnded i | .cleaned i => i = c
  | l => l.ofWriter c

theorem Routes.waiting {source : Source} {m : Message} (h : Routes W source m s s')
    (c : ChanId) : ∃ ms, (s'.chans c).waiting = (s.chans c).waiting ++ ms := by
  cases h with
  | refused => exact ⟨[], by simp⟩
  | delivered nodup lists send =>
    cases Router.send_done send with
    | @toChannel i forgets same isRoute room =>
      by_cases hc : c = i
      · subst hc
        exact ⟨[m], by simp only [Function.update_self, Channel.waiting_push room]⟩
      · exact ⟨[], by simp only [Function.update_of_ne hc, List.append_nil]⟩
    | toQueue forgets pushed => exact ⟨[], by simp⟩

theorem Routes.forgets {source : Source} {m : Message} (h : Routes W source m s s') :
    s.router.Forgets s'.router := by
  cases h with
  | refused => rfl
  | delivered nodup lists send =>
    cases Router.send_done send with
    | toChannel forgets => exact forgets
    | toQueue forgets => exact forgets

/-- **A step that is not one of the connection leaves its stage alone, and only adds to what waits
in its channel.** -/
theorem NodeStep.keeps_conn (h : NodeStep W self allow s l s') (hlt : c < s.nextChan)
    (hk : s.conns c = some k) (hl : ¬ l.changes c) :
    s'.conns c = some k ∧ ∃ ms, (s'.chans c).waiting = (s.chans c).waiting ++ ms := by
  have hnil : ∀ {ch : Channel} {i : ChanId}, c ≠ i →
      ∃ ms, (Function.update s.chans i ch c).waiting = (s.chans c).waiting ++ ms :=
    fun hi => ⟨[], by rw [Function.update_of_ne hi, List.append_nil]⟩
  have hset : ∀ {i : ChanId} {k' : Conn} {stage : Stage}, c ≠ i →
      (s.setStage i k' stage).conns c = some k := fun hi => by
    simp only [NodeState.setStage, Function.update_of_ne hi, hk]
  have hsame : ∃ ms, (s.chans c).waiting = (s.chans c).waiting ++ ms := ⟨[], by simp⟩
  -- an inbox is not the channel of a connection
  have hinbox : ∀ {i : ChanId}, s.conns i = none → c ≠ i := by
    rintro i hi rfl
    rw [hk] at hi
    cases hi
  cases h with
  | submitted own routes => exact ⟨routes.conns ▸ hk, routes.waiting c⟩
  | received conn stage accept routes => exact ⟨routes.conns ▸ hk, routes.waiting c⟩
  | passedOver conn stage accept => exact ⟨hk, hsame⟩
  | registered => exact ⟨hk, hnil hlt.ne⟩
  | took inbox recv => exact ⟨hk, hnil (hinbox inbox)⟩
  | dropped inbox => exact ⟨hk, hnil (hinbox inbox)⟩
  | connected permitted => exact ⟨(Function.update_of_ne hlt.ne ..).trans hk, hnil hlt.ne⟩
  | relayed conn stage => exact ⟨hset (Ne.symm hl), hsame⟩
  | readerEnded conn stage => exact ⟨hset (Ne.symm hl), hsame⟩
  | cleaned conn stage => exact ⟨hset (Ne.symm hl), hsame⟩
  | wrote conn stage recv encode => exact ⟨hk, hnil (Ne.symm hl)⟩
  | skipped conn stage recv encode => exact ⟨hk, hnil (Ne.symm hl)⟩
  | writerEnded conn stage => exact ⟨hset (Ne.symm hl), hnil (Ne.symm hl)⟩

theorem Router.forgets_nextHops_cleanUp {r : Router} {x : PublicIdentity} {i : ChanId}
    (h : (r.cleanUp c k).nextHops x = some i) : r.nextHops x = some i := by
  unfold Router.cleanUp at h
  split at h <;> exact Router.forgets_removeNextHopIfCurrent.nextHops h

theorem Router.nextHops_cleanUp_ne (r : Router) :
    (r.cleanUp c k).nextHops k.remote ≠ some c := by
  unfold Router.cleanUp
  split <;> exact Router.nextHops_removeNextHopIfCurrent_ne

theorem NodeStep.nextHops_of {x : PublicIdentity} (h : NodeStep W self allow s l s')
    (hlt : c < s.nextChan) (hx : s'.router.nextHops x = some c) :
    s.router.nextHops x = some c := by
  cases h with
  | submitted own routes => exact routes.forgets.nextHops hx
  | received conn stage accept routes => exact routes.forgets.nextHops hx
  | @connected remote isRelay permitted =>
    by_cases hr : x = remote
    · subst hr
      simp only [Router.setNextHop, Function.update_self, Option.some.injEq] at hx
      exact absurd hx.symm hlt.ne
    · simpa only [Router.setNextHop, Function.update_of_ne hr] using hx
  | cleaned conn stage => exact Router.forgets_nextHops_cleanUp hx
  | passedOver conn stage accept => exact hx
  | registered => exact hx
  | took inbox recv => exact hx
  | dropped inbox => exact hx
  | relayed conn stage => exact hx
  | readerEnded conn stage => exact hx
  | wrote conn stage recv encode => exact hx
  | skipped conn stage recv encode => exact hx
  | writerEnded conn stage => exact hx

/-! ### The invariants -/

/-- The writer of the connection has ended. -/
def Stage.writerEnded : Stage → Prop
  | .running _ writing => writing = false
  | .finished => True
  | .installing => False

/-- The connection is one of the node's, its writer has ended when its stage says so, and once it
is finished the router does not map the remote to it. -/
structure Pumping (c : ChanId) (s : PumpState) : Prop where
  lt : c < s.node.nextChan
  conn : ∃ k, s.node.conns c = some k ∧ (k.stage.writerEnded ↔ s.writer = .ended)
  done : ∀ k, s.node.conns c = some k → k.stage = .finished →
    s.node.router.nextHops k.remote ≠ some c

/-- The reader has ended and the writer waits for a message. -/
def PumpState.Idle (c : ChanId) (s : PumpState) : Prop :=
  s.node.ReaderEnded c ∧ s.writer = .waiting ∧ (s.node.chans c).waiting = []

theorem setStage_conns_self (s : NodeState) (c : ChanId) (k : Conn) (stage : Stage) :
    (s.setStage c k stage).conns c = some { k with stage } := Function.update_self ..

variable {p p' : PumpState} {a : PumpLabel}

theorem Pumping.of_init (h : (pump W self allow c).init p) : Pumping c p := by
  obtain ⟨hw, n, x, isRelay, -, hstep⟩ := h
  obtain ⟨node, writer⟩ := p
  cases hstep with
  | connected permitted =>
    refine ⟨Nat.lt_succ_self _, ⟨_, Function.update_self .., ?_⟩, fun k hk hf => ?_⟩
    · cases isRelay <;> simp_all [Stage.writerEnded]
    · simp only [Function.update_self, Option.some.injEq] at hk
      subst hk
      cases isRelay <;> cases hf

/-- A step of the node that changes the stage of the connection keeps the invariant, as long as
the new stage agrees with the writer and is not the last. -/
theorem Pumping.setStage (h : Pumping c p) {stage : Stage} {n : NodeState} {w : Writing}
    (hs : NodeStep W self allow p.node l n)
    (hn : n.conns c = some { k with stage }) (hw : stage.writerEnded ↔ w = .ended)
    (hf : stage ≠ .finished) : Pumping c ⟨n, w⟩ := by
  refine ⟨h.lt.trans_le hs.records.1, ⟨_, hn, hw⟩, fun k' hk' hf' => ?_⟩
  rw [hn, Option.some.injEq] at hk'
  subst hk'
  exact absurd hf' hf

theorem Pumping.keep (h : Pumping c p) {n : NodeState} {w : Writing}
    (hs : NodeStep W self allow p.node l n) (hn : n.conns c = p.node.conns c)
    (hw : w = .ended ↔ p.writer = .ended) : Pumping c ⟨n, w⟩ := by
  obtain ⟨k, hk, hke⟩ := h.conn
  refine ⟨h.lt.trans_le hs.records.1, ⟨k, hn.trans hk, hke.trans hw.symm⟩, fun k' hk' hf hx => ?_⟩
  exact h.done k' (hn.symm.trans hk') hf (hs.nextHops_of h.lt hx)

theorem Pumping.step (h : Pumping c p) (hs : PumpStep W self allow c p a p') : Pumping c p' := by
  cases hs with
  | took idle step =>
    refine h.keep step ?_ (by simp [idle])
    cases step; rfl
  | skipped idle step =>
    refine h.keep step ?_ (by simp [idle])
    cases step; rfl
  | wrote busy =>
    exact ⟨h.lt, by simpa [busy] using h.conn, h.done⟩
  | failed busy step =>
    have hs := step
    cases step with
    | writerEnded conn stage =>
      exact h.setStage hs (setStage_conns_self ..) (by simp [Stage.writerEnded]) (by simp)
  | drained idle empty noSender step =>
    have hs := step
    cases step with
    | writerEnded conn stage =>
      exact h.setStage hs (setStage_conns_self ..) (by simp [Stage.writerEnded]) (by simp)
  | @other l n step notWriter =>
    obtain ⟨k, hk, hke⟩ := h.conn
    -- Only the other tasks of the same connection can change what the writer sees.
    by_cases hl : l.changes c
    · have hs := step
      cases step with
      | relayed conn stage =>
        obtain rfl := hl
        obtain rfl := Option.some.inj (hk.symm.trans conn)
        refine h.setStage hs (setStage_conns_self ..) ?_ (by simp)
        rw [← hke, stage]
        simp [Stage.writerEnded]
      | readerEnded conn stage =>
        obtain rfl := hl
        obtain rfl := Option.some.inj (hk.symm.trans conn)
        refine h.setStage hs (setStage_conns_self ..) ?_ (by simp)
        rw [← hke, stage]
        rfl
      -- The clean-up is where the sender goes: after it, no next hop is this channel.
      | cleaned conn stage =>
        obtain rfl := hl
        obtain rfl := Option.some.inj (hk.symm.trans conn)
        refine ⟨h.lt, ⟨_, setStage_conns_self .., ?_⟩, fun k' hk' _ => ?_⟩
        · rw [← hke, stage]
          simp [Stage.writerEnded]
        · rw [setStage_conns_self, Option.some.injEq] at hk'
          subst hk'
          exact Router.nextHops_cleanUp_ne _
      | wrote => exact absurd hl notWriter
      | skipped => exact absurd hl notWriter
      | writerEnded => exact absurd hl notWriter
      | _ => exact absurd hl id
    · exact h.keep step ((step.keeps_conn h.lt hk hl).1.trans hk.symm) Iff.rfl

theorem Pumping.of_reachable (h : (pump W self allow c).Reachable p) : Pumping c p :=
  h.invariant (fun _ h => .of_init h) fun _ _ _ h hs => h.step hs

/-! ### When the connection hangs up -/

theorem Pumping.running_of_readerEnded (h : Pumping c p) (hr : p.node.ReaderEnded c)
    (hw : p.writer ≠ .ended) :
    ∃ k, p.node.conns c = some k ∧ k.stage = .running false true := by
  obtain ⟨k, hk, hke⟩ := h.conn
  obtain ⟨k', hk', hr⟩ := hr
  obtain rfl := Option.some.inj (hk.symm.trans hk')
  refine ⟨k, hk, ?_⟩
  have hwe : ¬ k.stage.writerEnded := fun hs => hw (hke.1 hs)
  cases hs : k.stage with
  | installing => rw [hs] at hr; exact hr.elim
  | finished => rw [hs] at hwe; exact absurd trivial hwe
  | running r w =>
    rw [hs] at hr hwe
    obtain rfl : r = false := hr
    obtain rfl : w = true := by simpa [Stage.writerEnded] using hwe
    rfl

theorem Pumping.stage_of_ended (h : Pumping c p) (hr : p.node.ReaderEnded c)
    (hw : p.writer = .ended) :
    ∃ k, p.node.conns c = some k ∧ (k.stage = .running false false ∨ k.stage = .finished) := by
  obtain ⟨k, hk, hke⟩ := h.conn
  obtain ⟨k', hk', hr⟩ := hr
  obtain rfl := Option.some.inj (hk.symm.trans hk')
  refine ⟨k, hk, ?_⟩
  have hwe : k.stage.writerEnded := hke.2 hw
  cases hs : k.stage with
  | installing => rw [hs] at hr; exact hr.elim
  | finished => exact .inr rfl
  | running r w =>
    rw [hs] at hr hwe
    obtain rfl : r = false := hr
    obtain rfl : w = false := hwe
    exact .inl rfl

theorem cleanedUp_cleaned {s : NodeState} (k : Conn) :
    ({ s.setStage c k .finished with router := s.router.cleanUp c k } : NodeState).CleanedUp c := by
  refine ⟨⟨_, setStage_conns_self .., rfl⟩, ?_⟩
  rintro ⟨k', hk', hx⟩
  obtain rfl := Option.some.inj ((setStage_conns_self ..).symm.trans hk')
  exact Router.nextHops_cleanUp_ne _ hx

/-- Once both have ended, the clean-up proceeds. -/
theorem Pumping.canCleanUp_of_ended (h : Pumping c p) (hr : p.node.ReaderEnded c)
    (hw : p.writer = .ended) : CanCleanUp W self allow c p := by
  obtain ⟨k, hk, hs | hs⟩ := h.stage_of_ended hr hw
  · have hstep : PumpStep W self allow c p (.other (.cleaned c)) _ :=
      .other (.cleaned hk hs) (by simp [NodeLabel.ofWriter])
    exact ⟨_, .of_step ⟨hstep, rfl⟩, cleanedUp_cleaned k⟩
  · refine ⟨p, .refl p, ⟨k, hk, hs⟩, ?_⟩
    rintro ⟨k', hk', hx⟩
    obtain rfl := Option.some.inj (hk.symm.trans hk')
    exact h.done k hk hs hx

/-- While the writer writes, the write may fail, and then the clean-up proceeds. -/
theorem Pumping.canCleanUp_of_writing (h : Pumping c p) (hr : p.node.ReaderEnded c)
    {frame : Bytes} (hw : p.writer = .writing frame) : CanCleanUp W self allow c p := by
  obtain ⟨k, hk, hs⟩ := h.running_of_readerEnded hr (by simp [hw])
  have hstep : PumpStep W self allow c p .failed _ := .failed hw (.writerEnded hk hs)
  have hr' : NodeState.ReaderEnded { p.node.setStage c k (.running false false) with
      chans := Function.update p.node.chans c (p.node.chans c).close } c :=
    ⟨_, setStage_conns_self .., rfl⟩
  have hended : CanCleanUp W self allow c _ := (h.step hstep).canCleanUp_of_ended hr' rfl
  obtain ⟨s', hl, hc⟩ := hended
  have hmove : ((pump W self allow c).restrict fun _ l => l.own c).step p .failed _ :=
    ⟨hstep, trivial⟩
  exact ⟨s', (Lts.Leads.of_step hmove).trans hl, hc⟩

/-- **With its reader gone and its writer idle, nothing of the connection can move.** -/
theorem Pumping.deadlock_of_idle (h : Pumping c p) (hi : p.Idle c) :
    (pump W self allow c).Deadlock (fun _ l => l.own c) p := by
  obtain ⟨hr, hw, hempty⟩ := hi
  obtain ⟨k, hk, hs⟩ := h.running_of_readerEnded hr (by simp [hw])
  have hne : ∀ m ch, (p.node.chans c).recv ≠ some (m, ch) := fun m ch hrecv => by
    rw [Channel.waiting_of_recv hrecv] at hempty
    cases hempty
  -- the stage a step of `c` needs is not the one there is
  have hstage : ∀ {k' : Conn}, p.node.conns c = some k' → k'.stage = .running false true :=
    fun hk' => Option.some.inj (hk.symm.trans hk') ▸ hs
  intro l p' hl hstep
  cases hstep with
  | took idle step => cases step with | wrote conn stage recv encode => exact hne _ _ recv
  | skipped idle step => cases step with | skipped conn stage recv encode => exact hne _ _ recv
  | wrote busy => rw [hw] at busy; cases busy
  | failed busy step => rw [hw] at busy; cases busy
  | drained idle empty noSender step => exact noSender (.inl ⟨k, hk, by simp [hs]⟩)
  | other step notWriter =>
    cases step with
    | relayed conn stage => obtain rfl := hl; simp [hstage conn] at stage
    | passedOver conn stage accept => obtain rfl := hl; simp [hstage conn] at stage
    | received conn stage accept routes => obtain rfl := hl; simp [hstage conn] at stage
    | readerEnded conn stage => obtain rfl := hl; simp [hstage conn] at stage
    | cleaned conn stage => obtain rfl := hl; simp [hstage conn] at stage
    | _ => exact hl

/-- An idle connection that the router still maps its remote to is stuck. -/
theorem Pumping.stuck_of_idle (h : Pumping c p) (hi : p.Idle c) (hx : p.node.RoutesTo c) :
    Stuck W self allow c p :=
  ⟨hi.1, h.deadlock_of_idle hi, hx⟩

theorem Pumping.not_canCleanUp_of_idle (h : Pumping c p) (hi : p.Idle c) :
    ¬ CanCleanUp W self allow c p := by
  rintro ⟨p', hl, ⟨k', hk', hf⟩, -⟩
  obtain ⟨k, hk, hs⟩ := h.running_of_readerEnded hi.1 (by simp [hi.2.1])
  rcases Relation.ReflTransGen.cases_head hl with rfl | ⟨q, ⟨l, hstep, hown⟩, -⟩
  · obtain rfl := Option.some.inj (hk.symm.trans hk')
    rw [hs] at hf
    cases hf
  · exact h.deadlock_of_idle hi l q hown hstep

theorem Pumping.not_stuck (h : Pumping c p) (hi : ¬ p.Idle c) : ¬ Stuck W self allow c p := by
  rintro ⟨hr, hd, k', hk', hx⟩
  cases hw : p.writer with
  | ended =>
    obtain ⟨k, hk, hs | hs⟩ := h.stage_of_ended hr hw
    · refine hd (.other (.cleaned c)) _ rfl (.other (.cleaned hk hs) ?_)
      simp [NodeLabel.ofWriter]
    · obtain rfl := Option.some.inj (hk.symm.trans hk')
      exact h.done k hk hs hx
  | writing frame => exact hd .wrote _ trivial (.wrote hw)
  | waiting =>
    obtain ⟨k, hk, hs⟩ := h.running_of_readerEnded hr (by simp [hw])
    obtain ⟨m, ch, hrecv⟩ := Channel.exists_recv fun he => hi ⟨hr, hw, he⟩
    cases henc : (MessagingFrame.message m).encode W with
    | ok frame => exact hd (.took frame) _ trivial (.took hw (.wrote hk hs hrecv henc))
    | error e => exact hd .skipped _ trivial (.skipped hw (.skipped hk hs hrecv henc))

/-- **A connection hangs up exactly when its writer is not idle without a reader.** -/
theorem Pumping.hangsUp_iff (h : Pumping c p) : HangsUp W self allow c p ↔ ¬ p.Idle c := by
  constructor
  · intro hh hi
    exact h.not_canCleanUp_of_idle hi (hh.1 hi.1 hi.2.2)
  · intro hi
    refine ⟨fun hr he => ?_, h.not_stuck hi⟩
    cases hw : p.writer with
    | ended => exact h.canCleanUp_of_ended hr hw
    | writing frame => exact h.canCleanUp_of_writing hr hw
    | waiting => exact absurd ⟨hr, hw, he⟩ hi

theorem not_idle_of_init (h : (pump W self allow c).init p) : ¬ p.Idle c := by
  obtain ⟨-, n, x, isRelay, -, hstep⟩ := h
  obtain ⟨n', writer⟩ := p
  rintro ⟨⟨k, hk, hr⟩, -, -⟩
  cases hstep with
  | connected permitted =>
    simp only [Function.update_self, Option.some.injEq] at hk
    subst hk
    cases isRelay <;> simp [Stage.readerEnded] at hr

theorem Pumping.not_idle_step (h : Pumping c p) (hi : ¬ p.Idle c)
    (hs : PumpStep W self allow c p a p') (ha : KeepsWriterBusy c p a) : ¬ p'.Idle c := by
  rintro ⟨hr, hw, he⟩
  cases hs with
  | took idle step => cases hw
  | failed busy step => cases hw
  | drained idle empty noSender step => cases hw
  | wrote busy => exact ha hr he
  | skipped idle step =>
    cases step with
    | skipped conn stage recv encode =>
      simp only [Function.update_self] at he
      have hlt := ha hr
      rw [Channel.waiting_of_recv recv, he] at hlt
      exact absurd hlt (lt_irrefl 1)
  | @other l n step notWriter =>
    obtain ⟨k, hk, hke⟩ := h.conn
    by_cases hl : l.changes c
    · cases step with
      | relayed conn stage =>
        obtain rfl := hl
        obtain ⟨k', hk', hr⟩ := hr
        obtain rfl := Option.some.inj ((setStage_conns_self ..).symm.trans hk')
        cases hr
      -- The reader may end only while the writer has something left to wake it.
      | readerEnded conn stage =>
        obtain rfl := hl
        exact ha rfl hw he
      -- The clean-up waits for the writer, which is not idle once it has ended.
      | cleaned conn stage =>
        obtain rfl := hl
        obtain rfl := Option.some.inj (hk.symm.trans conn)
        have hwe : p.writer = .ended := hke.1 (by rw [stage]; rfl)
        rw [hw] at hwe
        cases hwe
      | wrote => exact notWriter hl
      | skipped => exact notWriter hl
      | writerEnded => exact notWriter hl
      | _ => exact hl
    · obtain ⟨hn, ms, hms⟩ := step.keeps_conn h.lt hk hl
      have he' : (p.node.chans c).waiting = [] := (List.append_eq_nil_iff.1 (hms ▸ he)).1
      refine hi ⟨?_, hw, he'⟩
      obtain ⟨k', hk', hr⟩ := hr
      exact ⟨k', (hk.trans (hn.symm.trans hk')) ▸ rfl, hr⟩

/-- **In a run in which the reader never ends while the writer is idle, and the writer is not
left without messages afterwards, the clean-up can always proceed and the connection is never
stuck.** -/
theorem pump_hangs_up
    (h : ((pump W self allow c).restrict (KeepsWriterBusy c)).Reachable p) :
    HangsUp W self allow c p := by
  have hI := h.invariant (I := fun p => Pumping c p ∧ ¬ p.Idle c)
    (fun _ hinit => ⟨.of_init hinit, not_idle_of_init hinit⟩)
    fun _ _ _ hp hs => ⟨hp.1.step hs.1, hp.1.not_idle_step hp.2 hs.1 hs.2⟩
  exact hI.1.hangsUp_iff.2 hI.2

/-! ### A peer that closes an idle connection -/

namespace Letter

/-- Bob is connected and nothing was sent. -/
def pumping : PumpState := ⟨greeted, .waiting⟩

theorem init_pumping : (pump .postcard alice ⟨none⟩ 0).init pumping :=
  ⟨rfl, _, _, _, .of_init ⟨2, router, rfl, rfl⟩, greeted_step⟩

/-- Bob closed the connection. -/
def hungUp : PumpState := ⟨greeted.setStage 0 ⟨bob, false, .running true true⟩
  (.running false true), .waiting⟩

theorem hungUp_step :
    PumpStep .postcard alice ⟨none⟩ 0 pumping (.other (.readerEnded 0)) hungUp :=
  .other (.readerEnded rfl rfl) id

theorem reachable_hungUp : (pump .postcard alice ⟨none⟩ 0).Reachable hungUp :=
  (Lts.Reachable.of_init init_pumping).step hungUp_step

theorem routesTo_hungUp : hungUp.node.RoutesTo 0 :=
  ⟨_, setStage_conns_self .., by
    simp [hungUp, greeted, NodeState.setStage, Router.setNextHop]⟩

end Letter

open Letter in
/-- Bob connects and closes the connection: it stays, and so does the route to it. -/
theorem not_hangsUp :
    ¬ ∀ p, (pump .postcard alice ⟨none⟩ 0).Reachable p → HangsUp .postcard alice ⟨none⟩ 0 p := by
  intro h
  have hidle : hungUp.Idle 0 := ⟨⟨_, setStage_conns_self .., rfl⟩, rfl, rfl⟩
  have hp := Pumping.of_reachable reachable_hungUp
  exact (h hungUp reachable_hungUp).2 (hp.stuck_of_idle hidle routesTo_hungUp)

namespace Letter

/-- The channel of Bob's connection with the letter in it. -/
def outbox : Channel := (Channel.new 64).push letter

/-- The letter was sent. -/
def sending : NodeState :=
  { greeted with
    chans := Function.update greeted.chans 0 outbox
    accepted := [(.application, letter)] }

theorem routes_sending : Routes .postcard .application letter greeted sending := by
  have hsend : greeted.router.send .postcard greeted.chans [] letter =
      .done greeted.router (Function.update greeted.chans 0 outbox) none := by
    simp only [Router.send, validateSize_letter]
    rfl
  refine .delivered List.nodup_nil (fun x => ?_) hsend
  simp [greeted, NodeState.start, router, Router.setNextHop]

/-- The letter as it travels. -/
def frame : Bytes := MessageCodecs.postcard.frame.encode (.message letter)

theorem encode_letter : (MessagingFrame.message letter).encode .postcard = .ok frame := by
  have h : ¬ maxMessageSize < frame.length := by decide +kernel
  rw [MessagingFrame.encode, if_neg]
  · rfl
  · exact h

/-- The letter is being written. -/
def writing : NodeState :=
  { sending with
    chans := Function.update sending.chans 0
      { outbox with taken := 1, taken_le := le_rfl, room := by decide } }

theorem writing_step :
    PumpStep .postcard alice ⟨none⟩ 0 ⟨sending, .waiting⟩ (.took frame) ⟨writing, .writing frame⟩ :=
  .took rfl (.wrote (m := letter) rfl rfl rfl encode_letter)

/-- Bob closed the connection meanwhile. -/
def closing : PumpState :=
  ⟨writing.setStage 0 ⟨bob, false, .running true true⟩ (.running false true), .writing frame⟩

theorem reachable_closing :
    ((pump .postcard alice ⟨none⟩ 0).restrict (KeepsWriterBusy 0)).Reachable closing := by
  have h₀ : ((pump .postcard alice ⟨none⟩ 0).restrict (KeepsWriterBusy 0)).Reachable pumping :=
    .of_init init_pumping
  have hsubmit : PumpStep .postcard alice ⟨none⟩ 0 pumping (.other (.submitted letter))
      ⟨sending, .waiting⟩ := .other (.submitted rfl routes_sending) id
  have h₁ := h₀.step ⟨hsubmit, trivial⟩
  have h₂ := h₁.step ⟨writing_step, trivial⟩
  refine h₂.step (l := .other (.readerEnded 0)) ⟨.other (.readerEnded rfl rfl) id, ?_⟩
  intro _ hw
  cases hw

end Letter

open Letter in
/-- Bob closes the connection while a message to him is being written. -/
theorem pump_hangs_up_closing : HangsUp .postcard alice ⟨none⟩ 0 closing :=
  pump_hangs_up reachable_closing

end Neonet
