import Neonet.Node.Pump

/-!
# A network of nodes

Honest nodes, each pumping its connections, and outsiders who hold none of their keys.  Two
parties that met have a session: frames on their way to either side, in order.  What an honest
side writes is on its way to the other side; towards a side whose other side is an outsider any
frame may arrive.

The handshake is taken as it should be: the identity a side sees is that of the party at the
other side.  A node dials honest nodes only; whom it accepts is up to its allow-list.

* `NetStep` : the steps of the network.
* `Sound` : the invariant: messages that carry an honest sender, in the nodes and on the wires
  between them, were created by that sender, and a connection's remote and direction are those
  of its session.
* `attribution` : **every message that an honest node holds under an honest sender was created
  by that sender, and every message it accepted from a peer that dialled in carries that peer's
  identity, which the allow-list permits.**
-/

namespace Neonet

/-- The honest nodes of a network: who each is, and whom it accepts. -/
structure NetConfig (N : Type) where
  codecs : MessageCodecs
  self : N → PublicIdentity
  allow : N → AllowList

/-- An end of a session. -/
inductive Party (N : Type)
  | honest (n : N)
  | outsider (x : PublicIdentity)

/-- The side that dialled and the side that accepted. -/
inductive Side
  | dialer
  | acceptor
  deriving DecidableEq

/-- The other side. -/
def Side.other : Side → Side
  | .dialer => .acceptor
  | .acceptor => .dialer

/-- Two parties that met. -/
structure Session (N : Type) where
  dialer : Party N
  acceptor : Party N

/-- The party at a side. -/
def Session.party {N : Type} (S : Session N) : Side → Party N
  | .dialer => S.dialer
  | .acceptor => S.acceptor

/-- The name of a session. -/
abbrev SessionId := ℕ

section Steps

variable {N : Type} (G : NetConfig N)

/-- Some honest node is `x`. -/
def NetConfig.Honest (x : PublicIdentity) : Prop := ∃ n, G.self n = x

/-- Who a party is. -/
def NetConfig.identity : Party N → PublicIdentity
  | .honest n => G.self n
  | .outsider x => x

/-- The network: its nodes, who met, the side that each connection of a node is, the frames on
their way to each side, and every message that was created, by whom. -/
structure NetState (N : Type) where
  nodes : N → NodeState
  sessions : SessionId → Option (Session N)
  link : N → ChanId → Option (SessionId × Side)
  wire : SessionId → Side → List Bytes
  created : List (N × Message)

/-- What happens in the network. -/
inductive NetLabel (N : Type)
  | node (n : N) (l : NodeLabel)
  | met (k : SessionId)
  | injected (k : SessionId) (side : Side) (frame : Bytes)

/-- The label neither creates a message, nor begins a connection, nor moves a frame. -/
def NodeLabel.Internal : NodeLabel → Prop
  | .submitted _ | .connected _ _ _ | .received _ _ | .wrote _ _ => False
  | _ => True

variable [DecidableEq N]

/-- The frames on their way, those towards one side changed. -/
def NetState.setWire (s : NetState N) (k : SessionId) (side : Side) (fs : List Bytes) :
    SessionId → Side → List Bytes :=
  fun k' side' => if k' = k ∧ side' = side then fs else s.wire k' side'

/-- The steps of the network. -/
inductive NetStep (s : NetState N) : NetLabel N → NetState N → Prop
  | internal {n : N} {l : NodeLabel} {t : NodeState} (quiet : l.Internal)
      (step : NodeStep G.codecs (G.self n) (G.allow n) (s.nodes n) l t) :
      NetStep s (.node n l) { s with nodes := Function.update s.nodes n t }
  | submitted {n : N} {m : Message} {t : NodeState}
      (step : NodeStep G.codecs (G.self n) (G.allow n) (s.nodes n) (.submitted m) t) :
      NetStep s (.node n (.submitted m))
        { s with nodes := Function.update s.nodes n t, created := (n, m) :: s.created }
  -- an honest node dials honest nodes, and nobody passes for an honest node
  | met {k : SessionId} {S : Session N} (fresh : s.sessions k = none)
      (dials : ∀ n, S.dialer = .honest n → ∃ n', S.acceptor = .honest n')
      (outside : ∀ side x, S.party side = .outsider x → ¬ G.Honest x) :
      NetStep s (.met k) { s with sessions := Function.update s.sessions k (some S) }
  | connected {n : N} {c : ChanId} {k : SessionId} {side : Side} {S : Session N} {t : NodeState}
      (session : s.sessions k = some S) (party : S.party side = .honest n)
      (first : ∀ n' c', s.link n' c' ≠ some (k, side))
      (step : NodeStep G.codecs (G.self n) (G.allow n) (s.nodes n)
        (.connected c (G.identity (S.party side.other)) (decide (side = .dialer))) t) :
      NetStep s (.node n
          (.connected c (G.identity (S.party side.other)) (decide (side = .dialer))))
        { s with
          nodes := Function.update s.nodes n t
          link := fun n' c' => if n' = n ∧ c' = c then some (k, side) else s.link n' c' }
  | wrote {n : N} {c : ChanId} {k : SessionId} {side : Side} {frame : Bytes} {t : NodeState}
      (linked : s.link n c = some (k, side))
      (step : NodeStep G.codecs (G.self n) (G.allow n) (s.nodes n) (.wrote c frame) t) :
      NetStep s (.node n (.wrote c frame))
        { s with
          nodes := Function.update s.nodes n t
          wire := s.setWire k side.other (s.wire k side.other ++ [frame]) }
  | received {n : N} {c : ChanId} {k : SessionId} {side : Side} {frame : Bytes}
      {rest : List Bytes} {t : NodeState} (linked : s.link n c = some (k, side))
      (arrived : s.wire k side = frame :: rest)
      (step : NodeStep G.codecs (G.self n) (G.allow n) (s.nodes n) (.received c frame) t) :
      NetStep s (.node n (.received c frame))
        { s with nodes := Function.update s.nodes n t, wire := s.setWire k side rest }
  | injected {k : SessionId} {side : Side} {S : Session N} {x : PublicIdentity} {frame : Bytes}
      (session : s.sessions k = some S) (party : S.party side.other = .outsider x) :
      NetStep s (.injected k side frame)
        { s with wire := s.setWire k side (s.wire k side ++ [frame]) }

/-- The network as a transition system. -/
def network : Lts (NetState N) (NetLabel N) where
  init s := (∀ n, (node G.codecs (G.self n) (G.allow n)).init (s.nodes n)) ∧
    (∀ k, s.sessions k = none) ∧ (∀ n c, s.link n c = none) ∧ (∀ k side, s.wire k side = []) ∧
      s.created = []
  step := NetStep G

/-! ### The invariant -/

/-- If the sender is honest, the sender created the message. -/
def Genuine (created : List (N × Message)) (m : Message) : Prop :=
  G.Honest m.sender → ∃ n, G.self n = m.sender ∧ (n, m) ∈ created

/-- The connection `c` of `n` is its side of a session: it sees the identity of the other party,
and counts it as a relay if `n` dialled. -/
def Linked (s : NetState N) (n : N) (c : ChanId) (remote : PublicIdentity) (isRelay : Bool) :
    Prop :=
  ∃ k side S, s.link n c = some (k, side) ∧ s.sessions k = some S ∧ S.party side = .honest n ∧
    G.identity (S.party side.other) = remote ∧ decide (side = .dialer) = isRelay ∧
      (isRelay = false → (G.allow n).permits remote = true)

/-- The invariant of the network. -/
structure Sound (s : NetState N) : Prop where
  dials : ∀ {k S}, s.sessions k = some S → ∀ n, S.dialer = .honest n → ∃ n', S.acceptor = .honest n'
  outside : ∀ {k S}, s.sessions k = some S → ∀ side x, S.party side = .outsider x → ¬ G.Honest x
  linked : ∀ {n c k}, (s.nodes n).conns c = some k → Linked G s n c k.remote k.isRelay
  holds : ∀ {n m}, (s.nodes n).Holds m → Genuine G s.created m
  idle : ∀ {k}, s.sessions k = none → ∀ side, s.wire k side = []
  wires : ∀ {k S side n}, s.sessions k = some S → S.party side.other = .honest n →
    ∀ frame ∈ s.wire k side, ∀ m, MessagingFrame.decode G.codecs frame = .ok (.message m) →
      Genuine G s.created m
  accepted : ∀ {n remote m}, (.peer remote false, m) ∈ (s.nodes n).accepted →
    m.sender = remote ∧ (G.allow n).permits remote = true

end Steps

variable {N : Type} {G : NetConfig N} {s s' : NetState N} {n : N} {m : Message}

theorem Genuine.mono {created created' : List (N × Message)} (h : Genuine G created m)
    (hsub : ∀ e ∈ created, e ∈ created') : Genuine G created' m := fun hh =>
  let ⟨n, hn, hm⟩ := h hh
  ⟨n, hn, hsub _ hm⟩

theorem mem_setWire {k k' : SessionId} {side side' : Side} {fs : List Bytes} {frame : Bytes}
    (h : frame ∈ s.setWire k side fs k' side') :
    (k' = k ∧ side' = side ∧ frame ∈ fs) ∨ frame ∈ s.wire k' side' := by
  unfold NetState.setWire at h
  split at h
  · rename_i he; exact .inl ⟨he.1, he.2, h⟩
  · exact .inr h

theorem Sound.idle_setWire (h : Sound G s) {k k' : SessionId} {side : Side} {S : Session N}
    (hS : s.sessions k = some S) (fs : List Bytes) (hk : s.sessions k' = none) (side' : Side) :
    s.setWire k side fs k' side' = [] := by
  unfold NetState.setWire
  rw [if_neg]
  · exact h.idle hk side'
  · rintro ⟨rfl, -⟩
    rw [hS] at hk
    cases hk

theorem Linked.mono {c : ChanId} {x : PublicIdentity} {r : Bool} (h : Linked G s n c x r)
    (hl : ∀ k side, s.link n c = some (k, side) → s'.link n c = some (k, side))
    (hs : ∀ k S, s.sessions k = some S → s'.sessions k = some S) : Linked G s' n c x r :=
  let ⟨k, side, S, hlink, hS, hrest⟩ := h
  ⟨k, side, S, hl k side hlink, hs k S hS, hrest⟩

section Update

variable [DecidableEq N] {t : NodeState} {l : NodeLabel}

/-- After a step of one node every message in the nodes is genuine, if what the step brought in
is. -/
theorem Sound.holds_update (h : Sound G s)
    (step : NodeStep G.codecs (G.self n) (G.allow n) (s.nodes n) l t)
    {created : List (N × Message)} (hsub : ∀ e ∈ s.created, e ∈ created)
    (hb : ∀ m, NodeStep.Brings G.codecs (s.nodes n) m l → Genuine G created m) {n' : N}
    (hm : (Function.update s.nodes n t n').Holds m) : Genuine G created m := by
  by_cases hn : n' = n
  · subst hn
    rw [Function.update_self] at hm
    rcases step.holds hm with hm | hm
    · exact (h.holds hm).mono hsub
    · exact hb m hm
  · rw [Function.update_of_ne hn] at hm
    exact (h.holds hm).mono hsub

theorem Sound.linked_update (h : Sound G s)
    (step : NodeStep G.codecs (G.self n) (G.allow n) (s.nodes n) l t)
    (hl : ∀ c x r, l ≠ .connected c x r) {n' : N} {c : ChanId} {k : Conn}
    (hc : (Function.update s.nodes n t n').conns c = some k) :
    Linked G s n' c k.remote k.isRelay := by
  by_cases hn : n' = n
  · subst hn
    rw [Function.update_self] at hc
    rcases step.conns_of hc with ⟨k₀, hk₀, hr, hd⟩ | ⟨rfl, -⟩
    · exact hr ▸ hd ▸ h.linked hk₀
    · exact absurd rfl (hl _ _ _)
  · rw [Function.update_of_ne hn] at hc
    exact h.linked hc

/-- What a node accepted from a peer that dialled in carries that peer's identity. -/
theorem Sound.accepted_update (h : Sound G s)
    (step : NodeStep G.codecs (G.self n) (G.allow n) (s.nodes n) l t) {n' : N}
    {remote : PublicIdentity}
    (hm : (.peer remote false, m) ∈ (Function.update s.nodes n t n').accepted) :
    m.sender = remote ∧ (G.allow n').permits remote = true := by
  by_cases hn : n' = n
  · subst hn
    rw [Function.update_self] at hm
    rcases step.accepts hm with hm | ⟨c, k, frame, hk, hacc, rfl, hr⟩
    · exact h.accepted hm
    · obtain ⟨_, _, _, _, _, _, _, _, hp⟩ := h.linked hk
      exact ⟨Conn.sender_of_accept hacc hr, hp hr⟩
  · rw [Function.update_of_ne hn] at hm
    exact h.accepted hm

theorem Sound.linked_connected (h : Sound G s) {c : ChanId} {k : SessionId} {side : Side}
    {S : Session N} (session : s.sessions k = some S) (party : S.party side = .honest n)
    (step : NodeStep G.codecs (G.self n) (G.allow n) (s.nodes n)
      (.connected c (G.identity (S.party side.other)) (decide (side = .dialer))) t)
    {n' : N} {c' : ChanId} {conn : Conn}
    (hc : (Function.update s.nodes n t n').conns c' = some conn) :
    Linked G { s with
      nodes := Function.update s.nodes n t
      link := fun n' c' => if n' = n ∧ c' = c then some (k, side) else s.link n' c' }
      n' c' conn.remote conn.isRelay := by
  by_cases hnc : (n', c') = (n, c)
  · cases hnc
    rw [Function.update_self] at hc
    obtain ⟨hr, hd, hp⟩ := step.conns_connected hc
    rw [← hr, ← hd] at hp
    exact ⟨k, side, S, if_pos ⟨rfl, rfl⟩, session, party, hr.symm, hd.symm, hp⟩
  · have hk : Linked G s n' c' conn.remote conn.isRelay := by
      by_cases hn : n' = n
      · subst hn
        rw [Function.update_self] at hc
        rcases step.conns_of hc with ⟨k₀, hk₀, hr, hd⟩ | ⟨he, -⟩
        · exact hr ▸ hd ▸ h.linked hk₀
        · injection he with hcc
          exact absurd (by rw [hcc]) hnc
      · rw [Function.update_of_ne hn] at hc
        exact h.linked hc
    refine hk.mono (fun k' side' hl => ?_) fun _ _ hS => hS
    exact (if_neg fun he => hnc (Prod.ext he.1 he.2)).trans hl

end Update

theorem Sound.met (h : Sound G s) {k : SessionId} {S : Session N} (fresh : s.sessions k = none)
    (dials : ∀ n, S.dialer = .honest n → ∃ n', S.acceptor = .honest n')
    (outside : ∀ side x, S.party side = .outsider x → ¬ G.Honest x) :
    Sound G { s with sessions := Function.update s.sessions k (some S) } := by
  -- The session is new, so every session of the updated state is it or an old one.
  have hold : ∀ {k' S'}, Function.update s.sessions k (some S) k' = some S' →
      (k' = k ∧ S' = S) ∨ s.sessions k' = some S' := by
    intro k' S' hS'
    by_cases hk : k' = k
    · subst hk
      rw [Function.update_self, Option.some.injEq] at hS'
      exact .inl ⟨rfl, hS'.symm⟩
    · rw [Function.update_of_ne hk] at hS'
      exact .inr hS'
  have hnew : ∀ k' S', s.sessions k' = some S' →
      Function.update s.sessions k (some S) k' = some S' := by
    intro k' S' hS'
    rw [Function.update_of_ne]
    · exact hS'
    · rintro rfl
      rw [fresh] at hS'
      cases hS'
  refine ⟨fun hS' => ?_, fun hS' => ?_, fun hc => (h.linked hc).mono (fun _ _ hl => hl) hnew,
    h.holds, fun {k'} hk => ?_, fun hS' hp f hf => ?_, h.accepted⟩
  · rcases hold hS' with ⟨-, rfl⟩ | hS'
    · exact dials
    · exact h.dials hS'
  · rcases hold hS' with ⟨-, rfl⟩ | hS'
    · exact outside
    · exact h.outside hS'
  · dsimp only at hk
    by_cases hkk : k' = k
    · subst hkk
      rw [Function.update_self] at hk
      cases hk
    · exact h.idle (by rwa [Function.update_of_ne hkk] at hk)
  · rcases hold hS' with ⟨rfl, rfl⟩ | hS'
    · rw [h.idle fresh] at hf
      exact absurd hf List.not_mem_nil
    · exact h.wires hS' hp f hf

/-- The reader of a connection lets only genuine messages through. -/
theorem Sound.genuine_of_received (h : Sound G s) {c : ChanId} {k : SessionId} {side : Side}
    {frame : Bytes} {conn : Conn} (hl : s.link n c = some (k, side)) (hf : frame ∈ s.wire k side)
    (hc : (s.nodes n).conns c = some conn) (ha : conn.accept G.codecs frame = some m) :
    Genuine G s.created m := by
  obtain ⟨k', side', S, hl', hS, hparty, hid, hdir, -⟩ := h.linked hc
  rw [hl, Option.some.injEq, Prod.mk.injEq] at hl'
  obtain ⟨rfl, rfl⟩ := hl'
  cases hother : S.party side.other with
  | honest n' => exact h.wires hS hother frame hf m (Conn.decode_of_accept ha)
  | outsider x =>
    -- nobody honest dials an outsider, so the outsider dialled and its messages are its own
    intro hh
    have hx : ¬ G.Honest x := h.outside hS _ x hother
    cases side with
    | dialer =>
      obtain ⟨n', hn'⟩ := h.dials hS n hparty
      rw [Side.other, Session.party, hn'] at hother
      cases hother
    | acceptor =>
      have hsender := Conn.sender_of_accept ha (by simpa using hdir.symm)
      rw [hsender, ← hid, hother] at hh
      exact absurd hh hx

/-- What is written to a wire was taken from a channel of the node. -/
theorem Sound.wrote [DecidableEq N] {c : ChanId} {k : SessionId} {side : Side} {frame : Bytes}
    {t : NodeState} (h : Sound G s) (hlinked : s.link n c = some (k, side))
    (hstep : NodeStep G.codecs (G.self n) (G.allow n) (s.nodes n) (.wrote c frame) t) :
    Sound G { s with
      nodes := Function.update s.nodes n t
      wire := s.setWire k side.other (s.wire k side.other ++ [frame]) } := by
  obtain ⟨S, hS⟩ : ∃ S, s.sessions k = some S := by
    cases hstep with
    | wrote conn stage recv encode =>
      obtain ⟨k', side', S, hl, hS, -⟩ := h.linked conn
      rw [hlinked, Option.some.injEq, Prod.mk.injEq] at hl
      obtain ⟨rfl, rfl⟩ := hl
      exact ⟨S, hS⟩
  refine ⟨h.dials, h.outside, h.linked_update hstep (by simp),
    h.holds_update hstep (fun _ he => he) (fun m hm => by cases hm), h.idle_setWire hS _,
    fun hS' hp f hf m hd => ?_, h.accepted_update hstep⟩
  rcases mem_setWire hf with ⟨rfl, rfl, hw⟩ | hw
  · rcases List.mem_append.1 hw with hw | hw
    · exact h.wires hS' hp f hw m hd
    · rw [List.mem_singleton] at hw
      subst hw
      cases hstep with
      | wrote conn stage recv encode =>
        rw [MessagingFrame.decode_of_encode encode] at hd
        cases hd
        exact h.holds (.inl ⟨c, (Channel.recv_eq_some recv).1⟩)
  · exact h.wires hS' hp f hw m hd

/-- What is received was on the wire. -/
theorem Sound.received [DecidableEq N] {c : ChanId} {k : SessionId} {side : Side} {frame : Bytes}
    {rest : List Bytes} {t : NodeState} (h : Sound G s) (hlinked : s.link n c = some (k, side))
    (harrived : s.wire k side = frame :: rest)
    (hstep : NodeStep G.codecs (G.self n) (G.allow n) (s.nodes n) (.received c frame) t) :
    Sound G { s with
      nodes := Function.update s.nodes n t, wire := s.setWire k side rest } := by
  have hmem : frame ∈ s.wire k side := harrived ▸ List.mem_cons_self
  obtain ⟨S, hS⟩ : ∃ S, s.sessions k = some S := by
    cases hk : s.sessions k with
    | some S => exact ⟨S, rfl⟩
    | none =>
      rw [h.idle hk] at hmem
      exact absurd hmem List.not_mem_nil
  refine ⟨h.dials, h.outside, h.linked_update hstep (by simp),
    h.holds_update hstep (fun _ he => he) (fun m hm => ?_), h.idle_setWire hS _,
    fun hS' hp f hf => ?_, h.accepted_update hstep⟩
  · cases hm with
    | received conn accept => exact h.genuine_of_received hlinked hmem conn accept
  · rcases mem_setWire hf with ⟨rfl, rfl, hw⟩ | hw
    · exact h.wires hS' hp f (harrived ▸ List.mem_cons_of_mem _ hw)
    · exact h.wires hS' hp f hw

/-- **Every step of the network keeps the invariant.** -/
theorem Sound.step [DecidableEq N] {l : NetLabel N} (h : Sound G s) (hs : NetStep G s l s') :
    Sound G s' := by
  cases hs with
  | @internal n l t quiet step =>
    have hne : ∀ c x r, l ≠ .connected c x r := by rintro c x r rfl; exact quiet
    refine ⟨h.dials, h.outside, h.linked_update step hne, h.holds_update step (fun _ he => he) ?_,
      h.idle, h.wires, h.accepted_update step⟩
    intro m hm
    cases hm <;> exact absurd quiet id
  | @submitted n m t step =>
    have hsub : ∀ e ∈ s.created, e ∈ (n, m) :: s.created := fun _ he => List.mem_cons_of_mem _ he
    refine ⟨h.dials, h.outside, h.linked_update step (by simp), h.holds_update step hsub ?_,
      h.idle, fun hS hp f hf m' hd => (h.wires hS hp f hf m' hd).mono hsub,
      h.accepted_update step⟩
    intro m' hm' _
    cases hm'
    cases step with
    | submitted own routes => exact ⟨n, own.symm, List.mem_cons_self⟩
  | met fresh dials outside => exact h.met fresh dials outside
  | connected session party first step =>
    exact ⟨h.dials, h.outside, h.linked_connected session party step,
      h.holds_update step (fun _ he => he) (fun m hm => by cases hm), h.idle, h.wires,
      h.accepted_update step⟩
  | wrote linked step => exact h.wrote linked step
  | received linked arrived step => exact h.received linked arrived step
  | @injected k side S x frame session party =>
    refine ⟨h.dials, h.outside, h.linked, h.holds, h.idle_setWire session _,
      fun hS' hp f hf => ?_, h.accepted⟩
    rcases mem_setWire hf with ⟨rfl, rfl, -⟩ | hw
    · rw [session, Option.some.injEq] at hS'
      subst hS'
      rw [party] at hp
      cases hp
    · exact h.wires hS' hp f hw

theorem sound_of_init [DecidableEq N] (h : (network G).init s) : Sound G s := by
  obtain ⟨hnodes, hsessions, -, hwires, -⟩ := h
  have hstart : ∀ n, ∃ r, (∀ x, r.offline.queues x = []) ∧ s.nodes n = .start r := by
    intro n
    obtain ⟨capacity, r, hr, hs⟩ := hnodes n
    refine ⟨r, fun x => ?_, hs⟩
    unfold Router.new OfflineQueue.new at hr
    split at hr
    · cases hr
    · cases hr; rfl
  refine ⟨fun hS => ?_, fun hS => ?_, fun {n c k} hc => ?_, fun {n m} hm => ?_,
    fun _ side => hwires _ side, fun hS => ?_, fun {n remote m} hm => ?_⟩
  · rw [hsessions] at hS; cases hS
  · rw [hsessions] at hS; cases hS
  · obtain ⟨r, -, hs⟩ := hstart n
    rw [hs] at hc
    cases hc
  · obtain ⟨r, hq, hs⟩ := hstart n
    rw [hs] at hm
    rcases hm with ⟨c, hc⟩ | ⟨x, hx⟩
    · simp [NodeState.start] at hc
    · simp [NodeState.start, hq] at hx
  · rw [hsessions] at hS; cases hS
  · obtain ⟨r, -, hs⟩ := hstart n
    rw [hs] at hm
    cases hm

theorem sound_of_reachable [DecidableEq N] (h : (network G).Reachable s) : Sound G s :=
  h.invariant (fun _ => sound_of_init) fun _ _ _ hI hs => hI.step hs

/-- **Attribution.**  Every message that an honest node holds under an honest sender was created
by that sender, as it is.  Every message that a node accepted from a peer that dialled in
carries that peer's identity, and the allow-list permits it. -/
theorem attribution [DecidableEq N] (h : (network G).Reachable s) (n : N) :
    (∀ m, (s.nodes n).Holds m → G.Honest m.sender →
      ∃ n', G.self n' = m.sender ∧ (n', m) ∈ s.created) ∧
    ∀ remote m, (.peer remote false, m) ∈ (s.nodes n).accepted →
      m.sender = remote ∧ (G.allow n).permits remote = true :=
  ⟨fun _ hm hh => (sound_of_reachable h).holds hm hh,
    fun _ _ hm => (sound_of_reachable h).accepted hm⟩

namespace Letter

/-- A device that is no node of the network. -/
def mallory : PublicIdentity := ⟨List.Vector.replicate 32 4⟩

/-- Alice's and Bob's nodes.  Bob accepts Alice and the other device. -/
def pair : NetConfig Bool where
  codecs := .postcard
  self n := if n then bob else alice
  allow n := ⟨if n then some [alice, mallory] else none⟩

/-- The network before anything happened. -/
def silent : NetState Bool := ⟨fun _ => .start router, fun _ => none, fun _ _ => none,
    fun _ _ => [], []⟩

/-- Alice's session with Bob. -/
def dialed : Session Bool := ⟨.honest false, .honest true⟩

/-- The other device's session with Bob. -/
def visited : Session Bool := ⟨.outsider mallory, .honest true⟩

/-- A message of the other device for Bob. -/
def note : Message := ⟨List.Vector.replicate 16 1, mallory, bob, [1]⟩

/-- A message as it travels. -/
def framed (m : Message) : Bytes := MessageCodecs.postcard.frame.encode (.message m)

theorem encode_framed {m : Message} (h : (framed m).length ≤ maxMessageSize) :
    (MessagingFrame.message m).encode .postcard = .ok (framed m) := if_neg (Nat.not_lt.2 h)

theorem not_honest_mallory : ¬ pair.Honest mallory := by
  rintro ⟨_ | _, h⟩ <;> exact absurd h (by decide)

theorem step_pair {s s' : NetState Bool} {l : NetLabel Bool} (h : (network pair).Reachable s)
    (hs : NetStep pair s l s') : (network pair).Reachable s' := h.step hs

/-- Alice dials Bob and writes to him.  So does the other device, after it has passed on a letter
that is not its own. -/
theorem reachable_written : ∃ s, (network pair).Reachable s ∧ (s.nodes true).Holds letter ∧
    (s.nodes true).accepted = [(.peer alice false, letter), (.peer mallory false, note)] := by
  have h₀ : (network pair).Reachable silent :=
    Lts.Reachable.of_init ⟨fun _ => ⟨2, router, rfl, rfl⟩, fun _ => rfl, fun _ _ => rfl,
      fun _ _ => rfl, rfl⟩
  -- Alice dials Bob, who is a relay of hers from then on
  have h₁ := step_pair h₀ (.met (k := 0) (S := dialed) rfl (fun _ _ => ⟨true, rfl⟩)
    (by rintro (_ | _) x h <;> cases h))
  have h₂ := step_pair h₁ (.connected (c := 0) (k := 0) rfl
    (rfl : dialed.party .dialer = .honest false) (fun _ _ h => by cases h)
    (.connected fun h => by cases h))
  have h₃ := step_pair h₂ (.internal (n := false) (l := .relayed 0) trivial (.relayed rfl rfl))
  have h₄ := step_pair h₃ (.connected (c := 0) (k := 0) rfl
    (rfl : dialed.party .acceptor = .honest true)
    (fun n c h => by revert h; dsimp only; split <;> simp [silent])
    (.connected fun _ => by decide))
  have h₅ := step_pair h₄ (.submitted (n := false) (m := letter) (.submitted rfl
    (.delivered (List.nodup_singleton bob)
      (fun x => by simp [NodeState.setStage, Router.setRelay, Router.setNextHop, silent,
        NodeState.start, router]; rfl)
      (by simp only [Router.send]; rfl))))
  have h₆ := step_pair h₅ (.wrote (n := false) (c := 0) rfl
    (.wrote rfl rfl rfl (encode_framed (m := letter) (by decide +kernel))))
  have h₇ := step_pair h₆ (.received (n := true) (c := 0) rfl rfl
    (.received (m := letter) rfl rfl (by decide +kernel) (.delivered List.nodup_nil
      (fun x => by simp [Router.setNextHop, silent, NodeState.start, router])
      (by simp only [Router.send]; rfl))))
  -- the other device dials Bob, with Alice's letter and with a message of its own
  have h₈ := step_pair h₇ (.met (k := 1) (S := visited) rfl
    (fun _ h => by cases h) (by
      rintro (_ | _) x h
      · exact Party.outsider.inj h ▸ not_honest_mallory
      · cases h))
  have h₉ := step_pair h₈ (.connected (c := 1) (k := 1) rfl
    (rfl : visited.party .acceptor = .honest true)
    (fun n c h => by revert h; dsimp only; split_ifs <;> simp [silent])
    (.connected fun _ => by decide))
  have h₁₀ := step_pair (l := .injected 1 .acceptor (framed letter)) h₉ (.injected rfl rfl)
  have h₁₁ := step_pair (l := .injected 1 .acceptor (framed note)) h₁₀ (.injected rfl rfl)
  have h₁₂ := step_pair h₁₁ (.received (n := true) (c := 1) rfl rfl
    (.passedOver rfl rfl (by decide +kernel)))
  have h₁₃ := step_pair h₁₂ (.received (n := true) (c := 1) rfl rfl
    (.received (m := note) rfl rfl (by decide +kernel) (.delivered List.nodup_nil
      (fun x => by simp [Router.setNextHop, silent, NodeState.start, router])
      (by simp only [Router.send]; rfl))))
  exact ⟨_, h₁₃, .inr ⟨bob, by decide⟩, rfl⟩

end Letter

open Letter in
/-- Alice created the letter that Bob's node holds, and each of the messages that were accepted
there is from the device that brought it. -/
theorem attribution_letter : ∃ s, (network pair).Reachable s ∧
    (s.nodes true).accepted = [(.peer alice false, letter), (.peer mallory false, note)] ∧
    (∃ n, pair.self n = alice ∧ (n, letter) ∈ s.created) ∧
    (letter.sender = alice ∧ (pair.allow true).permits alice = true) ∧
    note.sender = mallory ∧ (pair.allow true).permits mallory = true := by
  obtain ⟨s, hs, hholds, haccepted⟩ := reachable_written
  obtain ⟨hcreated, hpeer⟩ := attribution hs true
  exact ⟨s, hs, haccepted, hcreated letter hholds ⟨false, rfl⟩,
    hpeer alice letter (by simp [haccepted]), hpeer mallory note (by simp [haccepted])⟩

end Neonet
