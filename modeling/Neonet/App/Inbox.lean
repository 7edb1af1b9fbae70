import Neonet.App.Handle
import Neonet.Node.Parallel

/-!
# The inbox and its consumer

The readers of the connections and the one consumer of the inbox share the router's lock.  A
reader takes the lock for each message it lets through, and keeps it while `Router::send` waits
for room in the channel of the recipient; for a message to this node that is the inbox.  The
consumer takes messages from the inbox, and takes the lock for each message that handling one
sends.  Writers take no lock.

* `TaskStep` : the steps of the tasks.  What is routed is routed as in `Neonet.Node.Pump`, once it
  need not wait.
* `Deadlocked` : the task that has the lock waits for room in the inbox, and the consumer waits
  for the lock.
* `not_deadlocked_of_run` : **if the lock is taken for a message to this node only when the inbox
  has room or its consumer is about to take from it, there is no deadlock.**
* `Deadlocked.frozen` : a deadlock lasts: no task is given the lock any more.
* `AtRisk.deadlocks` : whenever the consumer is busy otherwise, all it takes to get
  there is that it sends something.
-/

namespace Neonet

/-- The tasks that lock the router. -/
inductive Task
  | reader (c : ChanId)
  | consumer
  deriving DecidableEq

/-- What the consumer of the inbox is doing. -/
inductive Consuming
  /-- `inbox.recv()`. -/
  | receiving
  /-- `app::handle`. -/
  | handling (m : Message)
  /-- Handling `m` it sends `answer`: it waits for the lock, or has it. -/
  | sending (m answer : Message)

/-- A node and its tasks. -/
structure TaskState where
  node : NodeState
  /-- Who has locked the router. -/
  lock : Option Task
  /-- The message that a reader lets through: it waits for the lock, or has it. -/
  readers : ChanId → Option Message
  consumer : Consuming

/-- What a task does. -/
inductive TaskLabel
  /-- A reader reads a message. -/
  | reads (c : ChanId)
  /-- A task locks the router. -/
  | locks (t : Task)
  /-- The message is routed and the router is unlocked. -/
  | routes (t : Task)
  /-- The consumer takes a message from the inbox. -/
  | receives
  /-- Handling it sends a message. -/
  | sends
  /-- It is handled. -/
  | finishes
  /-- A writer's step. -/
  | writes (l : NodeLabel)

/-- `t` is to route `m`. -/
def TaskState.Carries (s : TaskState) (m : Message) : Task → Prop
  | .reader c => s.readers c = some m
  | .consumer => ∃ m₀, s.consumer = .sending m₀ m

section Tasks

variable (W : MessageCodecs) (self : PublicIdentity) (allow : AllowList)
  (Sends : Message → Message → Prop) (inbox : ChanId)

/-- The steps of the readers, the writers and the consumer of the inbox.  Handling a message may
send those that `Sends` relates it to. -/
inductive TaskStep (s : TaskState) : TaskLabel → TaskState → Prop
  | reads {c : ChanId} {k : Conn} {w : Bool} {frame : Bytes} {m : Message}
      (idle : s.readers c = none) (conn : s.node.conns c = some k)
      (stage : k.stage = .running true w) (accept : k.accept W frame = some m) :
      TaskStep s (.reads c) { s with readers := Function.update s.readers c (some m) }
  | locks {t : Task} {m : Message} (free : s.lock = none) (carries : s.Carries m t) :
      TaskStep s (.locks t) { s with lock := some t }
  | routed {c : ChanId} {k : Conn} {m : Message} {n : NodeState}
      (holds : s.lock = some (.reader c)) (carries : s.readers c = some m)
      (conn : s.node.conns c = some k)
      (routes : Routes W (.peer k.remote k.isRelay) m s.node n) :
      TaskStep s (.routes (.reader c))
        { s with node := n, lock := none, readers := Function.update s.readers c none }
  | receives {m : Message} {n : NodeState} (idle : s.consumer = .receiving)
      (step : NodeStep W self allow s.node (.took inbox m) n) :
      TaskStep s .receives { s with node := n, consumer := .handling m }
  | sends {m answer : Message} (busy : s.consumer = .handling m) (answers : Sends m answer) :
      TaskStep s .sends { s with consumer := .sending m answer }
  | answered {m answer : Message} {n : NodeState} (holds : s.lock = some .consumer)
      (carries : s.consumer = .sending m answer)
      (routes : Routes W .application answer s.node n) :
      TaskStep s (.routes .consumer) { s with node := n, lock := none, consumer := .handling m }
  | finishes {m : Message} (busy : s.consumer = .handling m) :
      TaskStep s .finishes { s with consumer := .receiving }
  | writes {l : NodeLabel} {c : ChanId} {n : NodeState} (writer : l.ofWriter c)
      (step : NodeStep W self allow s.node l n) : TaskStep s (.writes l) { s with node := n }

/-- The tasks of a node that has registered the inbox, from any state of the node. -/
def tasks : Lts TaskState TaskLabel where
  init s := (node W self allow).Reachable s.node ∧ s.node.router.peers self = some inbox ∧
    s.node.conns inbox = none ∧ s.lock = none ∧ s.readers = (fun _ => none) ∧
    s.consumer = .receiving
  step := TaskStep W self allow Sends inbox

end Tasks

/-- Routing `m` waits for room in the inbox. -/
structure WaitsForRoom (W : MessageCodecs) (inbox : ChanId) (n : NodeState) (m : Message) :
    Prop where
  valid : m.validateSize W = .ok ()
  local_ : n.router.peers m.recipient = some inbox
  isOpen : (n.chans inbox).isOpen = true
  full : (n.chans inbox).full = true

/-- The task that has the lock waits for room in the inbox, and the only consumer of the inbox is
to send something: it waits for the lock, or is that task itself. -/
def Deadlocked (W : MessageCodecs) (inbox : ChanId) (s : TaskState) : Prop :=
  ∃ t m, s.lock = some t ∧ s.Carries m t ∧ WaitsForRoom W inbox s.node m ∧
    ∃ answer, s.Carries answer .consumer

/-- The lock is taken for a message to this node only when the inbox has room, or the consumer is
about to take from it. -/
def TakesUpWithRoom (W : MessageCodecs) (inbox : ChanId) (s : TaskState) : TaskLabel → Prop
  | .locks t => ∀ m, s.Carries m t → WaitsForRoom W inbox s.node m → s.consumer = .receiving
  | _ => True

/-! ### What waiting means -/

variable {W : MessageCodecs} {self : PublicIdentity} {allow : AllowList}
  {Sends : Message → Message → Prop} {inbox : ChanId} {n n' : NodeState} {s s' : TaskState}
  {l : TaskLabel} {t : Task} {m m₀ m₁ : Message}

theorem WaitsForRoom.send_waits (h : WaitsForRoom W inbox n m) (order : List PublicIdentity) :
    n.router.send W n.chans order m = .waits := by
  have hoffer : n.chans.offer inbox m = .waits := by
    rw [Chans.offer, if_pos h.isOpen, if_pos h.full]
  simp only [Router.send, h.valid, h.local_, hoffer]

theorem WaitsForRoom.not_routes {source : Source} (h : WaitsForRoom W inbox n m) :
    ¬ Routes W source m n n' := by
  rintro (⟨-, -, hsend⟩ | ⟨hsend⟩)
  · rw [h.send_waits] at hsend
    cases hsend
  · rw [h.send_waits] at hsend
    cases hsend

theorem Channel.full_of_recv {c c' : Channel} (h : c.recv = some (m, c')) : c'.full = false := by
  unfold Channel.recv at h
  split at h
  · simp only [Option.some.injEq, Prod.mk.injEq] at h
    obtain ⟨rfl, rfl⟩ := h
    have := c.room
    simp only [Channel.full, decide_eq_false_iff_not]
    omega
  · cases h

theorem NodeStep.of_writer {l : NodeLabel} {c : ChanId} (h : NodeStep W self allow n l n')
    (hl : l.ofWriter c) (hi : n.conns inbox = none) :
    n'.router = n.router ∧ n'.chans inbox = n.chans inbox ∧ n'.conns inbox = none := by
  have hne : ∀ {i k}, n.conns i = some k → inbox ≠ i := by
    rintro i k hk rfl
    rw [hi] at hk
    cases hk
  cases h with
  | wrote conn stage recv encode => exact ⟨rfl, Function.update_of_ne (hne conn) .., hi⟩
  | skipped conn stage recv encode => exact ⟨rfl, Function.update_of_ne (hne conn) .., hi⟩
  | writerEnded conn stage =>
    exact ⟨rfl, Function.update_of_ne (hne conn) .., (Function.update_of_ne (hne conn) ..).trans hi⟩
  | _ => exact absurd hl id

theorem WaitsForRoom.of_same (hr : n'.router = n.router) (hc : n'.chans inbox = n.chans inbox) :
    WaitsForRoom W inbox n' m ↔ WaitsForRoom W inbox n m := by
  constructor
  · rintro ⟨hv, hl, ho, hf⟩
    exact ⟨hv, hr ▸ hl, hc ▸ ho, hc ▸ hf⟩
  · rintro ⟨hv, hl, ho, hf⟩
    exact ⟨hv, hr.symm ▸ hl, hc.symm ▸ ho, hc.symm ▸ hf⟩

/-! ### Who has the lock -/

/-- The inbox is not the channel of a connection, and a task that has the lock is to route
something. -/
structure Holding (inbox : ChanId) (s : TaskState) : Prop where
  notConn : s.node.conns inbox = none
  holder : ∀ t, s.lock = some t → ∃ m, s.Carries m t

theorem Holding.of_unlocked (hi : s.node.conns inbox = none) (hl : s.lock = none) :
    Holding inbox s :=
  ⟨hi, fun _ ht => nomatch hl.symm.trans ht⟩

theorem Holding.of_init (h : (tasks W self allow Sends inbox).init s) : Holding inbox s :=
  .of_unlocked h.2.2.1 h.2.2.2.1

/-- While the consumer sends nothing, the lock is held by readers only. -/
theorem Holding.ne_consumer (h : Holding inbox s) (hc : ∀ m, ¬ s.Carries m .consumer)
    (ht : s.lock = some t) : t ≠ .consumer := by
  rintro rfl
  obtain ⟨m, hm⟩ := h.holder _ ht
  exact hc m hm

theorem carries_of_reader (ht : t ≠ .consumer) (hr : s'.readers = s.readers) :
    s'.Carries m t ↔ s.Carries m t := by
  cases t with
  | consumer => exact absurd rfl ht
  | reader c => rw [TaskState.Carries, TaskState.Carries, hr]

theorem carries_update_of_ne {c : ChanId} {x : Option Message} (ht : t ≠ .reader c) :
    ({ s with readers := Function.update s.readers c x } : TaskState).Carries m t ↔
      s.Carries m t := by
  cases t with
  | consumer => rfl
  | reader i =>
    have hi : i ≠ c := fun h => ht (h ▸ rfl)
    simp [TaskState.Carries, Function.update_of_ne hi]

/-- A step that leaves the router locked is not one of the task that has locked it, which goes on
carrying what it carries. -/
theorem Holding.carries_step (h : Holding inbox s) (hs : TaskStep W self allow Sends inbox s l s')
    (ht : s.lock = some t) (ht' : s'.lock = some t) : s'.Carries m t ↔ s.Carries m t := by
  cases hs with
  | @reads c k w frame m' idle conn stage accept =>
    refine carries_update_of_ne ?_
    rintro rfl
    obtain ⟨m', hm'⟩ := h.holder _ ht
    rw [TaskState.Carries, idle] at hm'
    cases hm'
  | locks free carries => cases free.symm.trans ht
  | routed holds carries conn routes => cases ht'
  | answered holds carries routes => cases ht'
  | receives idle step =>
    exact carries_of_reader (h.ne_consumer (by rintro m ⟨_, hm⟩; simp [idle] at hm) ht) rfl
  | sends busy answers =>
    exact carries_of_reader (h.ne_consumer (by rintro m ⟨_, hm⟩; simp [busy] at hm) ht) rfl
  | finishes busy =>
    exact carries_of_reader (h.ne_consumer (by rintro m ⟨_, hm⟩; simp [busy] at hm) ht) rfl
  | writes writer step => cases t <;> rfl

/-- What a step does to the lock: nothing, or a task takes it, or it is released. -/
theorem lock_step (hs : TaskStep W self allow Sends inbox s l s') :
    s'.lock = s.lock ∨ s'.lock = none ∨
      s.lock = none ∧ ∃ t, l = .locks t ∧ s' = { s with lock := some t } ∧ ∃ m, s.Carries m t := by
  cases hs with
  | locks free carries => exact .inr (.inr ⟨free, _, rfl, rfl, _, carries⟩)
  | routed holds carries conn routes => exact .inr (.inl rfl)
  | answered holds carries routes => exact .inr (.inl rfl)
  | _ => exact .inl rfl

theorem carries_lock {o : Option Task} :
    ({ s with lock := o } : TaskState).Carries m t ↔ s.Carries m t := by
  cases t <;> rfl

theorem Holding.notConn_step (h : Holding inbox s)
    (hs : TaskStep W self allow Sends inbox s l s') : s'.node.conns inbox = none := by
  cases hs with
  | routed holds carries conn routes => exact routes.conns ▸ h.notConn
  | answered holds carries routes => exact routes.conns ▸ h.notConn
  | writes writer step => exact (step.of_writer writer h.notConn).2.2
  | receives idle step => cases step with | took free recv => exact h.notConn
  | _ => exact h.notConn

theorem Holding.step (h : Holding inbox s) (hs : TaskStep W self allow Sends inbox s l s') :
    Holding inbox s' := by
  refine ⟨h.notConn_step hs, fun t ht => ?_⟩
  rcases lock_step hs with hsame | hnone | ⟨hfree, t', -, rfl, m, hm⟩
  · have hlock : s.lock = some t := hsame.symm.trans ht
    obtain ⟨m, hm⟩ := h.holder t hlock
    exact ⟨m, (h.carries_step hs hlock ht).2 hm⟩
  · cases hnone.symm.trans ht
  · obtain rfl := Option.some.inj ht
    exact ⟨m, carries_lock.2 hm⟩

theorem Holding.of_reachable (h : (tasks W self allow Sends inbox).Reachable s) :
    Holding inbox s :=
  h.invariant (fun _ hinit => .of_init hinit) fun _ _ _ hs hstep => hs.step hstep

/-! ### Runs without a deadlock -/

/-- While the task that has the lock waits for room in the inbox, the consumer is about to take
from it. -/
def Ready (W : MessageCodecs) (inbox : ChanId) (s : TaskState) : Prop :=
  ∀ t m, s.lock = some t → s.Carries m t → WaitsForRoom W inbox s.node m →
    s.consumer = .receiving

theorem Ready.not_deadlocked (h : Ready W inbox s) : ¬ Deadlocked W inbox s := by
  rintro ⟨t, m, hlock, hm, hw, answer, m₀, ha⟩
  rw [h t m hlock hm hw] at ha
  cases ha

/-- While the lock stays with a task, what it carries waits for room only if it did before, and
then the consumer has not taken from the inbox. -/
theorem Holding.waits_step (h : Holding inbox s) (hs : TaskStep W self allow Sends inbox s l s')
    (ht : s.lock = some t) (ht' : s'.lock = some t) (hw : WaitsForRoom W inbox s'.node m) :
    WaitsForRoom W inbox s.node m ∧ l ≠ .receives := by
  cases hs with
  | locks free carries => cases free.symm.trans ht
  | routed holds carries conn routes => cases ht'
  | answered holds carries routes => cases ht'
  | receives idle step =>
    cases step with
    | took free recv =>
      have hf := hw.full
      simp only [Function.update_self, Channel.full_of_recv recv] at hf
      cases hf
  | writes writer step =>
    obtain ⟨hr, hc, -⟩ := step.of_writer writer h.notConn
    exact ⟨(WaitsForRoom.of_same hr hc).1 hw, fun hl => nomatch hl⟩
  | reads | sends | finishes => exact ⟨hw, fun hl => nomatch hl⟩

theorem Ready.step (hr : Ready W inbox s) (h : Holding inbox s)
    (hs : TaskStep W self allow Sends inbox s l s') (hl : TakesUpWithRoom W inbox s l) :
    Ready W inbox s' := by
  intro t m ht hm hw
  rcases lock_step hs with hsame | hnone | ⟨hfree, t', rfl, rfl, -⟩
  · have hlock : s.lock = some t := hsame.symm.trans ht
    obtain ⟨hw', hne⟩ := h.waits_step hs hlock ht hw
    have hidle := hr t m hlock ((h.carries_step hs hlock ht).1 hm) hw'
    -- the consumer, which was about to take from the inbox, did nothing
    cases hs with
    | receives idle step => exact absurd rfl hne
    | sends busy answers => cases hidle.symm.trans busy
    | answered holds carries routes => cases ht
    | finishes busy => rfl
    | _ => exact hidle
  · cases hnone.symm.trans ht
  · obtain rfl := Option.some.inj ht
    exact hl m (carries_lock.1 hm) hw

/-- **In a run in which the lock is taken for a message to this node only when the inbox has room,
or its consumer is about to take from it, there is no deadlock.** -/
theorem not_deadlocked_of_run
    (h : ((tasks W self allow Sends inbox).restrict (TakesUpWithRoom W inbox)).Reachable s) :
    ¬ Deadlocked W inbox s := by
  have hI := h.invariant (I := fun s => Holding inbox s ∧ Ready W inbox s) ?_ ?_
  · exact hI.2.not_deadlocked
  · intro s hinit
    exact ⟨.of_unlocked hinit.2.2.1 hinit.2.2.2.1, fun t m ht =>
      nomatch hinit.2.2.2.1.symm.trans ht⟩
  · intro s l s' hs hstep
    exact ⟨hs.1.step hstep.1, hs.2.step hs.1 hstep.1 hstep.2⟩

/-! ### What a deadlock is -/

/-- The task that has the lock waits for room in the inbox while the consumer is busy. -/
def AtRisk (W : MessageCodecs) (inbox : ChanId) (s : TaskState) : Prop :=
  ∃ t m m₀, s.lock = some t ∧ s.Carries m t ∧ WaitsForRoom W inbox s.node m ∧
    s.consumer = .handling m₀

/-- A consumer that sends something now has deadlocked the node. -/
theorem AtRisk.deadlocks (h : AtRisk W inbox s) (hh : Holding inbox s)
    (ha : ∀ m, ∃ answer, Sends m answer) :
    ∃ s', TaskStep W self allow Sends inbox s .sends s' ∧ Deadlocked W inbox s' := by
  obtain ⟨t, m, m₀, ht, hm, hw, hc⟩ := h
  obtain ⟨answer, hsends⟩ := ha m₀
  have hne : t ≠ .consumer := hh.ne_consumer (by rintro m ⟨_, hm⟩; simp [hc] at hm) ht
  have hr : ({ s with consumer := .sending m₀ answer } : TaskState).readers = s.readers := rfl
  exact ⟨_, .sends hc hsends, t, m, ht, (carries_of_reader hne hr).2 hm, hw, answer, m₀, rfl⟩

/-- **A deadlock lasts: whatever the tasks do, the lock stays where it is.** -/
theorem Deadlocked.frozen (hs : (tasks W self allow Sends inbox).Reachable s)
    (hd : Deadlocked W inbox s) (hl : (tasks W self allow Sends inbox).Leads s s') :
    Deadlocked W inbox s' ∧ s'.lock = s.lock := by
  have hh : Holding inbox s := .of_reachable hs
  refine (hl.preserves (I := fun u => Holding inbox u ∧ Deadlocked W inbox u ∧ u.lock = s.lock)
    ⟨hh, hd, rfl⟩ ?_).2
  rintro u l u' ⟨hu, ⟨t, m, ht, hm, hw, answer, m₀, ha⟩, hlock⟩ hstep
  refine ⟨hu.step hstep, ?_⟩
  have keep : u'.lock = some t → WaitsForRoom W inbox u'.node m → u'.consumer = u.consumer →
      Deadlocked W inbox u' ∧ u'.lock = s.lock := fun ht' hw' hc =>
    ⟨⟨t, m, ht', (hu.carries_step hstep ht ht').2 hm, hw', answer, m₀, hc.trans ha⟩,
      ht'.trans (ht.symm.trans hlock)⟩
  cases hstep with
  | reads idle conn stage accept => exact keep ht hw rfl
  | locks free carries => cases free.symm.trans ht
  | routed holds carries conn routes =>
    obtain rfl := Option.some.inj (holds.symm.trans ht)
    obtain rfl := Option.some.inj (carries.symm.trans hm)
    exact absurd routes hw.not_routes
  | answered holds carries routes =>
    obtain rfl := Option.some.inj (holds.symm.trans ht)
    obtain ⟨m', hm⟩ := hm
    cases carries.symm.trans hm
    exact absurd routes hw.not_routes
  | receives idle step => cases idle.symm.trans ha
  | sends busy answers => cases busy.symm.trans ha
  | finishes busy => cases busy.symm.trans ha
  | writes writer step =>
    obtain ⟨hr, hc, -⟩ := step.of_writer writer hu.notConn
    exact keep ht ((WaitsForRoom.of_same hr hc).2 hw) rfl

/-! ### A burst of requests -/

theorem Routes.toInbox {source : Source} (hv : m.validateSize W = .ok ())
    (hp : n.router.peers m.recipient = some inbox) (ho : (n.chans inbox).isOpen = true)
    (hf : (n.chans inbox).full = false) :
    Routes W source m n
      { n with
        chans := Function.update n.chans inbox ((n.chans inbox).push m)
        accepted := n.accepted ++ [(source, m)] } := by
  have hoffer : n.chans.offer inbox m =
      .accepted (Function.update n.chans inbox ((n.chans inbox).push m)) := by
    rw [Chans.offer, if_pos ho, if_neg (by simp [hf])]
  have hsend : n.router.send W n.chans n.router.relays.toList m =
      .done n.router (Function.update n.chans inbox ((n.chans inbox).push m)) none := by
    simp only [Router.send, hv, hp, hoffer]
  exact .delivered (Finset.nodup_toList _) (fun x => Finset.mem_toList) hsend

/-- A node with the inbox `inbox`, which is the channel `ch`, and a connection to the sender of
`m`, whose reader has nothing to do and whose router is not locked. -/
structure Calm (inbox c : ChanId) (m : Message) (ch : Channel) (s : TaskState) : Prop where
  peer : s.node.router.peers m.recipient = some inbox
  chan : s.node.chans inbox = ch
  conn : s.node.conns c = some ⟨m.sender, false, .running true true⟩
  free : s.lock = none
  idle : s.readers c = none

section Burst

variable {c : ChanId} {ch : Channel} {frame : Bytes}

theorem Calm.reads (h : Calm inbox c m ch s)
    (hframe : MessagingFrame.decode W frame = .ok (.message m)) :
    TaskStep W self allow Sends inbox s (.reads c)
      { s with readers := Function.update s.readers c (some m) } := by
  have haccept : Conn.accept W ⟨m.sender, false, .running true true⟩ frame = some m := by
    simp [Conn.accept, hframe]
  exact .reads h.idle h.conn rfl haccept

theorem carries_reads : ({ s with readers := Function.update s.readers c (some m) } :
    TaskState).Carries m (.reader c) := by
  simp [TaskState.Carries]

theorem Calm.locks (h : Calm inbox c m ch s) :
    TaskStep W self allow Sends inbox { s with readers := Function.update s.readers c (some m) }
      (.locks (.reader c))
      { s with readers := Function.update s.readers c (some m), lock := some (.reader c) } :=
  .locks h.free carries_reads

theorem Calm.arrives (h : Calm inbox c m ch s) (hv : m.validateSize W = .ok ())
    (hframe : MessagingFrame.decode W frame = .ok (.message m)) (ho : ch.isOpen = true)
    (hf : ch.full = false) :
    ∃ s', (tasks W self allow Sends inbox).Leads s s' ∧ Calm inbox c m (ch.push m) s' ∧
      s'.consumer = s.consumer := by
  have hreads : (tasks W self allow Sends inbox).Leads s _ := .of_step (h.reads hframe)
  have hlocks := hreads.step h.locks
  have hroutes := hlocks.step (.routed rfl carries_reads h.conn
    (.toInbox hv h.peer (h.chan ▸ ho) (h.chan ▸ hf)))
  refine ⟨_, hroutes, ⟨h.peer, ?_, h.conn, rfl, Function.update_self ..⟩, rfl⟩
  exact (Function.update_self ..).trans (by rw [h.chan])

theorem Calm.taken {ch' : Channel} (h : Calm inbox c m ch s) (hi : s.node.conns inbox = none)
    (hc : s.consumer = .receiving) (hrecv : ch.recv = some (m, ch')) :
    ∃ s', TaskStep W self allow Sends inbox s .receives s' ∧ Calm inbox c m ch' s' ∧
      s'.consumer = .handling m := by
  obtain rfl := h.chan
  exact ⟨_, .receives hc (.took hi hrecv),
    ⟨h.peer, Function.update_self .., h.conn, h.free, h.idle⟩, rfl⟩

/-- With the inbox full and its consumer busy, the next message from the peer and the answer of
the consumer deadlock the node. -/
theorem Calm.jams {m₀ answer : Message} (h : Calm inbox c m ch s) (hc : s.consumer = .handling m₀)
    (hv : m.validateSize W = .ok ()) (hframe : MessagingFrame.decode W frame = .ok (.message m))
    (ho : ch.isOpen = true) (hf : ch.full = true) (ha : Sends m₀ answer) :
    ∃ s', (tasks W self allow Sends inbox).Leads s s' ∧ Deadlocked W inbox s' := by
  have hreads : (tasks W self allow Sends inbox).Leads s _ := .of_step (h.reads hframe)
  have hlocks := hreads.step h.locks
  have hsends := hlocks.step (.sends hc ha)
  exact ⟨_, hsends, .reader c, m, rfl, carries_reads, ⟨hv, h.peer, h.chan ▸ ho, h.chan ▸ hf⟩,
    answer, m₀, rfl⟩

/-- **A peer that sends three requests to a node whose inbox has room for one deadlocks it.**  The
consumer takes the first, the second fills the inbox, and the reader that has locked the router
for the third waits for room; then the consumer answers the first. -/
theorem Calm.deadlocks {answer : Message} (h : Calm inbox c m (.new 1) s)
    (hs : (tasks W self allow Sends inbox).Reachable s) (hc : s.consumer = .receiving)
    (hv : m.validateSize W = .ok ())
    (hframe : MessagingFrame.decode W frame = .ok (.message m)) (ha : Sends m answer) :
    ∃ s', (tasks W self allow Sends inbox).Reachable s' ∧ Deadlocked W inbox s' := by
  obtain ⟨s₁, hl₁, h₁, hc₁⟩ : ∃ s₁, (tasks W self allow Sends inbox).Leads s s₁ ∧ _ :=
    h.arrives hv hframe rfl rfl
  have hs₁ := hs.leads hl₁
  obtain ⟨s₂, hstep, h₂, hc₂⟩ : ∃ s₂, TaskStep W self allow Sends inbox s₁ .receives s₂ ∧ _ :=
    h₁.taken (Holding.of_reachable hs₁).notConn (hc₁.trans hc) rfl
  obtain ⟨s₃, hl₃, h₃, hc₃⟩ : ∃ s₃, (tasks W self allow Sends inbox).Leads s₂ s₃ ∧ _ :=
    h₂.arrives hv hframe rfl rfl
  obtain ⟨s₄, hl₄, hd⟩ : ∃ s₄, (tasks W self allow Sends inbox).Leads s₃ s₄ ∧ _ :=
    h₃.jams (hc₃.trans hc₂) hv hframe rfl rfl ha
  exact ⟨s₄, ((hs₁.step hstep).leads hl₃).leads hl₄, hd⟩

end Burst

/-- What handling a message may send. -/
def AppEnv.MaySend (V : AppEnv) (m answer : Message) : Prop :=
  ∃ d s later, (V.handle d m s).2.sent = s.sent ++ later ∧ answer ∈ later

/-- A node whose inbox has room for one message, with one peer. -/
theorem exists_calm (W : MessageCodecs) (Sends : Message → Message → Prop) (m : Message) :
    ∃ s, (tasks W m.recipient ⟨none⟩ Sends 0).init s ∧ Calm 0 1 m (.new 1) s := by
  have h₀ : (node W m.recipient ⟨none⟩).Reachable
      (.start ⟨fun _ => none, fun _ => none, ∅, ⟨1, fun _ => [], by decide, by simp, by simp⟩⟩) :=
    .of_init ⟨1, _, rfl, rfl⟩
  have register : ∀ n, NodeStep W m.recipient ⟨none⟩ n .registered _ := fun _ => .registered
  have connect : ∀ n, NodeStep W m.recipient ⟨none⟩ n (.connected n.nextChan m.sender false) _ :=
    fun _ => .connected fun _ => rfl
  have h := (h₀.step (register _)).step (connect _)
  refine ⟨⟨_, none, fun _ => none, .receiving⟩, ⟨h, ?_, rfl, rfl, rfl, rfl⟩,
      ⟨?_, rfl, rfl, rfl, rfl⟩⟩
  · exact Function.update_self ..
  · exact Function.update_self ..

namespace Photo

/-- Somebody asks the node whether it knows a device. -/
def ping : Message :=
  ⟨List.Vector.replicate 16 0, Letter.bob, env.identity,
      env.frames.encode (.rendezvous (.probe ""))⟩

/-- The answer. -/
def pong : Message :=
  replyMessage env ping (env.frames.encode (.rendezvous (.probeResult "" false)))

theorem maySend_ping : env.MaySend ping pong :=
  ⟨⟨fun _ => 0, fun _ => List.Vector.replicate 16 0⟩, start, [pong], by decide +kernel, by simp⟩

theorem validateSize_ping : ping.validateSize .postcard = .ok () :=
  validateSize_ok.2 (by decide +kernel)

theorem decode_ping : MessagingFrame.decode .postcard
    (MessageCodecs.postcard.frame.encode (.message ping)) = .ok (.message ping) := by
  refine MessagingFrame.decode_of_encode ?_
  rw [MessagingFrame.encode, if_neg]
  decide +kernel

end Photo

open Photo in
/-- A node whose inbox has room for one message is asked three times. -/
theorem not_deadlockFree :
    ¬ ∀ s, (tasks .postcard env.identity ⟨none⟩ env.MaySend 0).Reachable s →
      ¬ Deadlocked .postcard 0 s := by
  intro h
  obtain ⟨s, hinit, hcalm⟩ := exists_calm .postcard env.MaySend ping
  obtain ⟨s', hs', hd⟩ := hcalm.deadlocks (.of_init hinit) hinit.2.2.2.2.2 validateSize_ping
    decode_ping maySend_ping
  exact h s' hs' hd

open Photo in
/-- The first time it is asked, its reader has locked the router. -/
theorem not_deadlocked_of_run_ping :
    ∃ s, s.lock = some (.reader 1) ∧ ¬ Deadlocked .postcard 0 s := by
  obtain ⟨s, hinit, hcalm⟩ := exists_calm .postcard env.MaySend ping
  have h₀ : ((tasks .postcard env.identity ⟨none⟩ env.MaySend 0).restrict
    (TakesUpWithRoom .postcard 0)).Reachable s := .of_init hinit
  have hreads : TaskStep .postcard env.identity ⟨none⟩ env.MaySend 0 s (.reads 1) _ :=
    hcalm.reads decode_ping
  have h₁ := h₀.step ⟨hreads, trivial⟩
  have h₂ := h₁.step ⟨hcalm.locks, fun _ _ _ => hinit.2.2.2.2.2⟩
  exact ⟨_, rfl, not_deadlocked_of_run h₂⟩

end Neonet
