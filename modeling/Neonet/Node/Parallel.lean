import Neonet.Node.Hangup

/-!
# Several connections to one identity

Connections are keyed by the remote identity, and one identity may have several: every process
that uses it connects by itself.  The router has one next hop for each identity and one set of
relays.  Of the two clean-ups only `remove_next_hop_if_current` asks whether the entry belongs to
the connection; `remove_relay` does not, and neither looks for another connection to put in its
place.

* `Routed` : every identity with a live connection is routed to one, and is a relay when a live
  connection to it was dialled.
* `routed_of_run` : **in a run that tears a connection down only when no other live connection
  needs its entry, every state is routed and no tear-down changes the routing of another
  connection.**
* `routed_cleaned_iff` : one tear-down leaves the node routed exactly under this condition.
* `not_routed` : two connections to one core are dialled and the older one is torn down.
-/

namespace Neonet

/-- A connection of the node with a property. -/
def NodeState.Has (s : NodeState) (P : Conn → Prop) (c : ChanId) : Prop :=
  ∃ k, s.conns c = some k ∧ P k

/-- A connection to `x` that is not torn down: its next hop was set. -/
def Conn.Live (x : PublicIdentity) (k : Conn) : Prop := k.remote = x ∧ k.stage ≠ .finished

/-- A connection to `x` that was dialled and is not torn down: its relay was set, too. -/
def Conn.Gateway (x : PublicIdentity) (k : Conn) : Prop :=
  k.remote = x ∧ k.isRelay = true ∧ k.stage ≠ .finished ∧ k.stage ≠ .installing

/-- Every identity with a live connection is mapped to one, and is a relay if a live connection
to it was dialled. -/
structure Routed (s : NodeState) : Prop where
  nextHop : ∀ {x c}, s.Has (Conn.Live x) c → ∃ d, s.Has (Conn.Live x) d ∧
      s.router.nextHops x = some d
  relay : ∀ {x c}, s.Has (Conn.Gateway x) c → x ∈ s.router.relays

/-- The routing of the live connections other than `c` is the same in `s'`. -/
structure KeepsRouting (c : ChanId) (s s' : NodeState) : Prop where
  nextHop : ∀ {x d}, d ≠ c → s.Has (Conn.Live x) d → s.router.nextHops x = some d →
    s'.router.nextHops x = some d
  relay : ∀ {x d}, d ≠ c → s.Has (Conn.Gateway x) d → x ∈ s.router.relays → x ∈ s'.router.relays

/-- The connection `c` may be torn down: the entries it takes away are not those of another live
connection to the same identity. -/
def Unneeded (s : NodeState) (c : ChanId) : Prop :=
  ∀ k, s.conns c = some k →
    (s.router.nextHops k.remote = some c → ∀ d ≠ c, ¬ s.Has (Conn.Live k.remote) d) ∧
    (k.isRelay = true → ∀ d ≠ c, ¬ s.Has (Conn.Gateway k.remote) d)

/-- A connection is torn down when no other needs its entries, and a message is routed when no
next hop is closed: `Router::send` forgets those. -/
def TearsDownUnneeded (s : NodeState) : NodeLabel → Prop
  | .cleaned c => Unneeded s c
  | .submitted _ | .received _ _ => ∀ x i, s.router.nextHops x = some i → (s.chans i).isOpen = true
  | _ => True

/-- The step is one of a set-up or a tear-down, and routes no message. -/
def NodeLabel.silent : NodeLabel → Prop
  | .submitted _ | .received _ _ => False
  | _ => True

/-! ### What the steps do to the connections and the routes -/

variable {W : MessageCodecs} {self : PublicIdentity} {allow : AllowList} {s s' : NodeState}
  {l : NodeLabel} {c d : ChanId} {k : Conn} {x : PublicIdentity} {P : Conn → Prop}

theorem has_setStage_self {stage : Stage} :
    (s.setStage c k stage).Has P c ↔ P { k with stage } := by
  simp [NodeState.Has, NodeState.setStage]

theorem has_setStage_of_ne {stage : Stage} (h : d ≠ c) :
    (s.setStage c k stage).Has P d ↔ s.Has P d := by
  simp [NodeState.Has, NodeState.setStage, Function.update_of_ne h]

theorem has_setStage_iff {stage : Stage} (hk : s.conns c = some k)
    (hP : P { k with stage } ↔ P k) : (s.setStage c k stage).Has P d ↔ s.Has P d := by
  by_cases h : d = c
  · subst h
    rw [has_setStage_self, hP]
    simp [NodeState.Has, hk]
  · exact has_setStage_of_ne h

theorem Router.nextHops_viaRelays {r r' : Router} {cs cs' : Chans} {m : Message}
    {order : List PublicIdentity} {ev : Option Message}
    (ho : ∀ x i, r.nextHops x = some i → (cs i).isOpen = true)
    (h : viaRelays cs m order r = .done r' cs' ev) : r'.nextHops = r.nextHops := by
  induction order with
  | nil =>
    simp only [viaRelays, Sending.done.injEq] at h
    rw [← h.1]
  | cons y ys ih =>
    simp only [viaRelays] at h
    split at h
    · exact ih h
    · rename_i i hi
      rw [Chans.offer, if_pos (ho y i hi)] at h
      split_ifs at h
      cases h
      rfl

theorem Router.nextHops_viaNextHop {r r' : Router} {cs cs' : Chans} {m : Message}
    {order : List PublicIdentity} {ev : Option Message}
    (ho : ∀ x i, r.nextHops x = some i → (cs i).isOpen = true)
    (h : r.viaNextHop cs order m = .done r' cs' ev) : r'.nextHops = r.nextHops := by
  unfold Router.viaNextHop at h
  split at h
  · exact nextHops_viaRelays ho h
  · rename_i i hi
    rw [Chans.offer, if_pos (ho _ i hi)] at h
    split_ifs at h
    cases h
    rfl

theorem Router.nextHops_send {r r' : Router} {cs cs' : Chans} {m : Message}
    {order : List PublicIdentity} {ev : Option Message}
    (ho : ∀ x i, r.nextHops x = some i → (cs i).isOpen = true)
    (h : r.send W cs order m = .done r' cs' ev) : r'.nextHops = r.nextHops := by
  unfold Router.send at h
  split at h
  · cases h
  · split at h
    · exact nextHops_viaNextHop ho h
    · split at h
      · cases h
      · cases h; rfl
      · exact (nextHops_viaNextHop (r := r.unregister _) ho h).trans rfl

/-- While no next hop is closed, a message that is routed changes no route to a peer. -/
theorem Routes.nextHops {source : Source} {m : Message} (h : Routes W source m s s')
    (ho : ∀ x i, s.router.nextHops x = some i → (s.chans i).isOpen = true) :
    s'.router.nextHops = s.router.nextHops := by
  cases h with
  | refused => rfl
  | delivered nodup lists send => exact Router.nextHops_send ho send

theorem Router.relays_removeNextHopIfCurrent {r : Router} :
    (r.removeNextHopIfCurrent x c).relays = r.relays :=
  Router.forgets_removeNextHopIfCurrent.relays

theorem Router.relays_cleanUp {r : Router} :
    (r.cleanUp c k).relays = if k.isRelay then r.relays.erase k.remote else r.relays := by
  unfold Router.cleanUp
  split
  · rw [Router.removeRelay, relays_removeNextHopIfCurrent]
  · exact relays_removeNextHopIfCurrent

theorem Router.nextHops_cleanUp_of {r : Router} (h : r.nextHops x = some d) (hd : d ≠ c) :
    (r.cleanUp c k).nextHops x = some d := by
  have hr : (r.removeNextHopIfCurrent k.remote c).nextHops x = some d := by
    by_cases hc : r.nextHops k.remote = some c
    · have hx : x ≠ k.remote := by
        rintro rfl
        exact hd (Option.some.inj (h.symm.trans hc))
      simp only [removeNextHopIfCurrent, hc, if_true, removeNextHop, Function.update_of_ne hx, h]
    · rwa [removeNextHopIfCurrent_of_ne hc]
  unfold Router.cleanUp
  split <;> exact hr

/-! ### What a step preserves -/

/-- No connection has a channel that is still to be made. -/
def NodeState.Fresh (s : NodeState) : Prop := ∀ c, s.nextChan ≤ c → s.conns c = none

theorem NodeState.Fresh.setStage (h : s.Fresh) (hk : s.conns c = some k) (stage : Stage) :
    (s.setStage c k stage).Fresh := by
  intro i hi
  have hic : i ≠ c := by
    rintro rfl
    rw [h i hi] at hk
    cases hk
  simpa only [NodeState.setStage, Function.update_of_ne hic] using h i hi

theorem NodeStep.fresh (h : NodeStep W self allow s l s') (hf : s.Fresh) : s'.Fresh := by
  cases h with
  | submitted own routes =>
    intro i hi
    rw [routes.conns]
    exact hf i (routes.nextChan ▸ hi)
  | received conn stage accept routes =>
    intro i hi
    rw [routes.conns]
    exact hf i (routes.nextChan ▸ hi)
  | registered => exact fun i hi => hf i (Nat.le_of_succ_le hi)
  | connected permitted =>
    intro i hi
    have hlt : s.nextChan < i := hi
    exact (Function.update_of_ne hlt.ne' ..).trans (hf i hlt.le)
  | relayed conn stage => exact hf.setStage conn _
  | readerEnded conn stage => exact hf.setStage conn _
  | writerEnded conn stage => exact hf.setStage conn _
  | cleaned conn stage => exact hf.setStage conn _
  | took inbox recv => exact hf
  | dropped inbox => exact hf
  | passedOver conn stage accept => exact hf
  | wrote conn stage recv encode => exact hf
  | skipped conn stage recv encode => exact hf

theorem Routed.of_same (h : Routed s)
    (hlive : ∀ x d, s'.Has (Conn.Live x) d ↔ s.Has (Conn.Live x) d)
    (hgate : ∀ x d, s'.Has (Conn.Gateway x) d → s.Has (Conn.Gateway x) d)
    (hn : s'.router.nextHops = s.router.nextHops) (hr : s'.router.relays = s.router.relays) :
    Routed s' := by
  refine ⟨fun {x c} hc => ?_, fun {x c} hc => hr ▸ h.relay (hgate x c hc)⟩
  obtain ⟨d, hd, hx⟩ := h.nextHop ((hlive x c).1 hc)
  exact ⟨d, (hlive x d).2 hd, hn ▸ hx⟩

theorem Routed.of_conns (h : Routed s) (hc : s'.conns = s.conns)
    (hn : s'.router.nextHops = s.router.nextHops) (hr : s'.router.relays = s.router.relays) :
    Routed s' := by
  have hhas : ∀ P d, s'.Has P d ↔ s.Has P d := fun P d => by simp only [NodeState.Has, hc]
  exact h.of_same (fun x d => hhas _ d) (fun x d => (hhas _ d).1) hn hr

/-- **A step that tears nothing down keeps the node routed.** -/
theorem Routed.step (h : Routed s) (hf : s.Fresh) (hs : NodeStep W self allow s l s')
    (hl : ∀ c, l ≠ .cleaned c) (ht : TearsDownUnneeded s l) : Routed s' := by
  cases hs with
  | submitted own routes => exact h.of_conns routes.conns (routes.nextHops ht) routes.forgets.relays
  | received conn stage accept routes =>
    exact h.of_conns routes.conns (routes.nextHops ht) routes.forgets.relays
  | registered => exact h.of_conns rfl rfl rfl
  | took inbox recv => exact h.of_conns rfl rfl rfl
  | dropped inbox => exact h.of_conns rfl rfl rfl
  | passedOver conn stage accept => exact h
  | wrote conn stage recv encode => exact h.of_conns rfl rfl rfl
  | skipped conn stage recv encode => exact h.of_conns rfl rfl rfl
  | readerEnded conn stage =>
    refine h.of_same (fun x d => has_setStage_iff conn ?_) (fun x d => ?_) rfl rfl
    · simp [Conn.Live, stage]
    · refine (has_setStage_iff conn ?_).1
      simp [Conn.Gateway, stage]
  | writerEnded conn stage =>
    refine h.of_same (fun x d => has_setStage_iff conn ?_) (fun x d => ?_) rfl rfl
    · simp [Conn.Live, stage]
    · refine (has_setStage_iff conn ?_).1
      simp [Conn.Gateway, stage]
  -- The clean-up takes the next hop away, whatever other connections of the peer still live.
  | cleaned => exact absurd rfl (hl _)
  -- Only a relay entry is gained, and it is the one the connection has just asked for.
  | @relayed c k conn stage =>
    have hlive : ∀ x d, (s.setStage c k (.running true true)).Has (Conn.Live x) d ↔
        s.Has (Conn.Live x) d :=
      fun x d => has_setStage_iff conn (by simp [Conn.Live, stage])
    refine ⟨fun {x i} hi => ?_, fun {x i} hi => ?_⟩
    · obtain ⟨d, hd, hx⟩ := h.nextHop ((hlive x i).1 hi)
      exact ⟨d, (hlive x d).2 hd, hx⟩
    · by_cases hic : i = c
      · subst hic
        obtain rfl := (has_setStage_self.1 hi).1
        exact Finset.mem_insert_self _ _
      · exact Finset.mem_insert_of_mem (h.relay ((has_setStage_of_ne hic).1 hi))
  -- The new channel takes over the peer's next hop; no other peer's entry moves.
  | @connected y isRelay permitted =>
    refine ⟨fun {x i} hi => ?_, fun {x i} hi => ?_⟩
    · by_cases hxy : x = y
      · subst hxy
        refine ⟨s.nextChan, ⟨_, Function.update_self .., rfl, ?_⟩, Function.update_self ..⟩
        cases isRelay <;> simp
      · obtain ⟨k, hk, hkx, hks⟩ := hi
        have hin : i ≠ s.nextChan := by
          rintro rfl
          simp only [Function.update_self, Option.some.injEq] at hk
          exact hxy (hkx.symm.trans (hk ▸ rfl))
        simp only [Function.update_of_ne hin] at hk
        obtain ⟨d, ⟨k', hk', hd⟩, hx⟩ := h.nextHop ⟨k, hk, hkx, hks⟩
        have hdn : d ≠ s.nextChan := by
          rintro rfl
          rw [hf _ le_rfl] at hk'
          cases hk'
        exact ⟨d, ⟨k', (Function.update_of_ne hdn ..).trans hk', hd⟩,
          (Function.update_of_ne hxy ..).trans hx⟩
    · obtain ⟨k, hk, hg⟩ := hi
      by_cases hin : i = s.nextChan
      · subst hin
        simp only [Function.update_self, Option.some.injEq] at hk
        subst hk
        cases isRelay <;> simp [Conn.Gateway] at hg
      · simp only [Function.update_of_ne hin] at hk
        exact h.relay ⟨k, hk, hg⟩

/-- **A tear-down leaves the node routed, and the routing of the other connections alone, exactly
when no other live connection needs the entries it takes away.** -/
theorem routed_cleaned_iff (h : Routed s) (hs : NodeStep W self allow s (.cleaned c) s') :
    Routed s' ∧ KeepsRouting c s s' ↔ Unneeded s c := by
  cases hs with
  | @cleaned _ k conn stage =>
    have hne : ∀ {P d}, d ≠ c → ((s.setStage c k .finished).Has P d ↔ s.Has P d) :=
      has_setStage_of_ne
    constructor
    · rintro ⟨hr, -⟩ k' hk'
      obtain rfl := Option.some.inj (conn.symm.trans hk')
      refine ⟨fun hcur d hd hlive => ?_, fun hrel d hd hgate => ?_⟩
      · obtain ⟨e, -, he⟩ := hr.nextHop ((hne hd).2 hlive)
        obtain rfl := Option.some.inj (hcur.symm.trans (Router.forgets_nextHops_cleanUp he))
        exact Router.nextHops_cleanUp_ne _ he
      · have hmem : k.remote ∈ (s.router.cleanUp c k).relays := hr.relay ((hne hd).2 hgate)
        simp [Router.relays_cleanUp, hrel] at hmem
    · intro hu
      obtain ⟨hhop, hrelay⟩ := hu k conn
      -- what is a relay because of another connection stays one
      have hkeep : ∀ {x d}, d ≠ c → s.Has (Conn.Gateway x) d → x ∈ s.router.relays →
          x ∈ (s.router.cleanUp c k).relays := by
        intro x d hd hgate hx
        rw [Router.relays_cleanUp]
        split
        · rename_i hrel
          refine Finset.mem_erase.2 ⟨?_, hx⟩
          rintro rfl
          exact hrelay hrel d hd hgate
        · exact hx
      refine ⟨⟨fun {x i} hi => ?_, fun {x i} hi => ?_⟩,
        fun hd _ hx => Router.nextHops_cleanUp_of hx hd, hkeep⟩
      · have hic : i ≠ c := by
          rintro rfl
          exact (has_setStage_self.1 hi).2 rfl
        have hlive := (hne hic).1 hi
        obtain ⟨d, hd, hx⟩ := h.nextHop hlive
        have hdc : d ≠ c := by
          rintro rfl
          obtain ⟨k', hk', rfl, -⟩ := hd
          obtain rfl := Option.some.inj (conn.symm.trans hk')
          exact hhop hx i hic hlive
        exact ⟨d, (hne hdc).2 hd, Router.nextHops_cleanUp_of hx hdc⟩
      · have hic : i ≠ c := by
          rintro rfl
          exact (has_setStage_self.1 hi).2.2.1 rfl
        have hgate := (hne hic).1 hi
        exact hkeep hic hgate (h.relay hgate)

/-! ### Runs -/

theorem routed_start (r : Router) : Routed (.start r) :=
  ⟨fun ⟨_, hk, _⟩ => by simp [NodeState.start] at hk,
    fun ⟨_, hk, _⟩ => by simp [NodeState.start] at hk⟩

theorem TearsDownUnneeded.step (h : Routed s) (hf : s.Fresh)
    (hs : NodeStep W self allow s l s') (ht : TearsDownUnneeded s l) : Routed s' := by
  by_cases hl : ∃ c, l = .cleaned c
  · obtain ⟨c, rfl⟩ := hl
    exact ((routed_cleaned_iff h hs).2 ht).1
  · exact h.step hf hs (fun c hc => hl ⟨c, hc⟩) ht

/-- **In a run that tears a connection down only when no other live connection to the identity
needs its entries, every state is routed, and a tear-down changes the routing of no other
connection.** -/
theorem routed_of_run
    (h : ((node W self allow).restrict TearsDownUnneeded).Reachable s) :
    Routed s ∧ ∀ c s', ((node W self allow).restrict TearsDownUnneeded).step s (.cleaned c) s' →
      KeepsRouting c s s' := by
  have hI := h.invariant (I := fun s => Routed s ∧ s.Fresh) ?_ ?_
  · exact ⟨hI.1, fun c s' hs => ((routed_cleaned_iff hI.1 hs.1).2 hs.2).2⟩
  · rintro s ⟨_, r, _, rfl⟩
    exact ⟨routed_start r, fun _ _ => rfl⟩
  · intro s l s' hs hstep
    exact ⟨hstep.2.step hs.1 hs.2 hstep.1, NodeStep.fresh hstep.1 hs.2⟩

/-! ### Two connections to one core -/

namespace Letter

/-- Bob is connected to a node twice. -/
def greetedTwice : NodeState :=
  { greeted with
    router := greeted.router.setNextHop bob 1
    chans := Function.update greeted.chans 1 (.new 64)
    nextChan := 2
    conns := Function.update greeted.conns 1 (some ⟨bob, false, .running true true⟩) }

/-- Bob closed the older connection. -/
def readerGone : NodeState :=
  greetedTwice.setStage 0 ⟨bob, false, .running true true⟩ (.running false true)

/-- Writing to it failed. -/
def bothGone : NodeState :=
  { readerGone.setStage 0 ⟨bob, false, .running false true⟩ (.running false false) with
    chans := Function.update readerGone.chans 0 (readerGone.chans 0).close }

/-- It is torn down. -/
def tornDown : NodeState :=
  { bothGone.setStage 0 ⟨bob, false, .running false false⟩ .finished with
    router := bothGone.router.cleanUp 0 ⟨bob, false, .running false false⟩ }

theorem conns_bothGone : bothGone.conns 0 = some ⟨bob, false, .running false false⟩ :=
  setStage_conns_self readerGone 0 ⟨bob, false, .running false true⟩ _

theorem unneeded_bothGone : Unneeded bothGone 0 := by
  intro k hk
  obtain rfl := Option.some.inj (conns_bothGone.symm.trans hk)
  refine ⟨fun h => ?_, fun h => nomatch h⟩
  have hcur : bothGone.router.nextHops bob = some 1 := by decide
  exact absurd (hcur.symm.trans h) (by decide)

theorem reachable_tornDown :
    ((node .postcard alice ⟨none⟩).restrict TearsDownUnneeded).Reachable tornDown := by
  have h₀ : ((node .postcard alice ⟨none⟩).restrict TearsDownUnneeded).Reachable (.start router) :=
    .of_init ⟨2, router, rfl, rfl⟩
  have h₁ := h₀.step ⟨greeted_step, trivial⟩
  have hsecond : NodeStep .postcard alice ⟨none⟩ greeted (.connected 1 bob false) greetedTwice :=
    .connected fun _ => rfl
  have h₂ := h₁.step ⟨hsecond, trivial⟩
  have hreader : NodeStep .postcard alice ⟨none⟩ greetedTwice (.readerEnded 0) readerGone :=
    .readerEnded rfl rfl
  have h₃ := h₂.step ⟨hreader, trivial⟩
  have hwriter : NodeStep .postcard alice ⟨none⟩ readerGone (.writerEnded 0) bothGone :=
    .writerEnded (setStage_conns_self ..) rfl
  have h₄ := h₃.step ⟨hwriter, trivial⟩
  have hcleaned : NodeStep .postcard alice ⟨none⟩ bothGone (.cleaned 0) tornDown :=
    .cleaned conns_bothGone rfl
  exact h₄.step ⟨hcleaned, unneeded_bothGone⟩

/-- A node that dialled Bob twice, with the older connection torn down: the newer one runs, and no
core is a relay. -/
theorem reachable_forgotten :
    ∃ s, ((node .postcard alice ⟨none⟩).restrict fun _ l => l.silent).Reachable s ∧
      s.conns 1 = some ⟨bob, true, .running true true⟩ ∧ s.router.relays = ∅ := by
  have h₀ : ((node .postcard alice ⟨none⟩).restrict fun _ l => l.silent).Reachable
    (.start router) := .of_init ⟨2, router, rfl, rfl⟩
  -- one step of each kind, whatever the state
  have dial : ∀ s, NodeStep .postcard alice ⟨none⟩ s (.connected s.nextChan bob true) _ :=
    fun _ => .connected fun h => by cases h
  have relay : ∀ {s c k}, s.conns c = some k → k.stage = .installing →
      NodeStep .postcard alice ⟨none⟩ s (.relayed c) _ := fun hk hs => .relayed hk hs
  have endReader : ∀ {s c k}, s.conns c = some k → k.stage = .running true true →
      NodeStep .postcard alice ⟨none⟩ s (.readerEnded c) _ := fun hk hs => .readerEnded hk hs
  have endWriter : ∀ {s c k}, s.conns c = some k → k.stage = .running false true →
      NodeStep .postcard alice ⟨none⟩ s (.writerEnded c) _ := fun hk hs => .writerEnded hk hs
  have clean : ∀ {s c k}, s.conns c = some k → k.stage = .running false false →
      NodeStep .postcard alice ⟨none⟩ s (.cleaned c) _ := fun hk hs => .cleaned hk hs
  have h₁ := h₀.step ⟨dial _, trivial⟩
  have h₂ := h₁.step ⟨relay (c := 0) (k := ⟨bob, true, .installing⟩) rfl rfl, trivial⟩
  have h₃ := h₂.step ⟨dial _, trivial⟩
  have h₄ := h₃.step ⟨relay (c := 1) (k := ⟨bob, true, .installing⟩) rfl rfl, trivial⟩
  have h₅ := h₄.step ⟨endReader (c := 0) (k := ⟨bob, true, .running true true⟩) rfl rfl, trivial⟩
  have h₆ := h₅.step ⟨endWriter (c := 0) (k := ⟨bob, true, .running false true⟩) rfl rfl, trivial⟩
  have h₇ := h₆.step ⟨clean (c := 0) (k := ⟨bob, true, .running false false⟩) rfl rfl, trivial⟩
  exact ⟨_, h₇, rfl, by decide⟩

end Letter

open Letter in
/-- Two connections to one core are dialled and the older one is torn down: the other one is no
relay any more. -/
theorem not_routed :
    ¬ ∀ s, ((node .postcard alice ⟨none⟩).restrict fun _ l => l.silent).Reachable s →
      Routed s := by
  intro h
  obtain ⟨s, hs, hconn, hrel⟩ := reachable_forgotten
  have hmem : bob ∈ s.router.relays := (h s hs).relay ⟨_, hconn, rfl, rfl, by simp, by simp⟩
  rw [hrel] at hmem
  exact Finset.notMem_empty _ hmem

open Letter in
/-- Bob is connected twice and the older connection is torn down. -/
theorem routed_tornDown :
    Routed tornDown ∧ ∀ c s',
      ((node .postcard alice ⟨none⟩).restrict TearsDownUnneeded).step tornDown (.cleaned c) s' →
        KeepsRouting c tornDown s' :=
  routed_of_run reachable_tornDown

end Neonet
