import Neonet.Transport.Framing
import Neonet.Transport.Negotiate

/-!
# The handshake over a connection

Both sides of a connection run the handshake.  What one side writes arrives at the other in pieces
of any size, and the two proceed in any order.

* `Duplex` : the two sessions and the bytes between them; `duplex` : what can happen.
* `Handshake.wrote` : the frame that a session writes in its last step.
* `Duplex.measure_lt` : every step comes nearer to the end.
* `Synced` : how far the sessions are, and what is on the way.
* `handshake_completes` : **every run ends, and when it does both sides have concluded**, each with
  the other's Hello and the protocol that both speak, unless the other is not the one it is pinned
  to.
-/

namespace Neonet

/-! ### Bytes on the way -/

/-- A frame, as it is written. -/
def framed (payload : Bytes) : Bytes := beBytes 4 payload.length ++ payload

/-- One direction of a connection. -/
structure Pipe where
  /-- What was written and has not arrived. -/
  inFlight : Bytes
  /-- The pieces that have arrived and were not read. -/
  arrived : List Bytes

namespace Pipe

/-- All that was written and not read. -/
def stream (p : Pipe) : Bytes := p.arrived.flatten ++ p.inFlight

/-- Bytes are written. -/
def write (p : Pipe) (b : Bytes) : Pipe := { p with inFlight := p.inFlight ++ b }

/-- The next `n` bytes arrive. -/
def arrive (p : Pipe) (n : ℕ) : Pipe := ⟨p.inFlight.drop n, p.arrived ++ [p.inFlight.take n]⟩

@[simp] theorem stream_arrive (p : Pipe) (n : ℕ) : (p.arrive n).stream = p.stream := by
  simp [stream, arrive]

@[simp] theorem stream_write (p : Pipe) (b : Bytes) : (p.write b).stream = p.stream ++ b := by
  simp [stream, write]

end Pipe

/-- **What is read is the next frame that was written.** -/
theorem readFrameBytes_of_stream {pieces rest : List Bytes} {payload later b f : Bytes}
    (hread : readFrameBytes pieces = .read payload rest)
    (hf : f.length ≤ maxFrame) (hs : pieces.flatten ++ b = framed f ++ later) :
    payload = f ∧ rest.flatten ++ b = later := by
  unfold readFrameBytes at hread
  have hnum : beNat (beBytes 4 f.length) = f.length := by
    rw [beNat_beBytes]
    unfold maxFrame at hf
    exact Nat.mod_eq_of_lt (by omega)
  split at hread
  · cases hread
  · rename_i len rest₁ hlen
    obtain ⟨h4, hsplit⟩ := flatten_readExact hlen
    rw [hsplit, framed, List.append_assoc, List.append_assoc] at hs
    obtain ⟨rfl, hrest⟩ := List.append_inj hs (by rw [h4, length_beBytes])
    rw [hnum] at hread
    split at hread
    · cases hread
    · split at hread
      · cases hread
      · rename_i payload' rest₂ hpayload
        obtain ⟨rfl, rfl⟩ := FrameRead.read.inj hread
        obtain ⟨hlength, hsplit'⟩ := flatten_readExact hpayload
        rw [hsplit', List.append_assoc] at hrest
        exact List.append_inj hrest hlength

theorem readFrameBytes_ne_failed {pieces : List Bytes} {later b f : Bytes} {e : IoError}
    (hf : f.length ≤ maxFrame) (hs : pieces.flatten ++ b = framed f ++ later) :
    readFrameBytes pieces ≠ .failed e := by
  intro hread
  unfold readFrameBytes at hread
  have hnum : beNat (beBytes 4 f.length) = f.length := by
    rw [beNat_beBytes]
    have hmax := hf
    unfold maxFrame at hmax
    exact Nat.mod_eq_of_lt (by omega)
  split at hread
  · cases hread
  · rename_i len rest₁ hlen
    obtain ⟨h4, hsplit⟩ := flatten_readExact hlen
    rw [hsplit, framed, List.append_assoc, List.append_assoc] at hs
    obtain ⟨rfl, -⟩ := List.append_inj hs (by rw [h4, length_beBytes])
    rw [hnum, if_neg (Nat.not_lt.2 hf)] at hread
    split at hread <;> cases hread

theorem readFrameBytes_nil {pieces : List Bytes} (h : pieces.flatten = []) :
    readFrameBytes pieces = .waits := by
  rw [readFrameBytes, readExact_of_lt (by simp [h])]

/-! ### The connection -/

/-- What a side of a connection begins with. -/
structure Endpoint where
  identity : Identity
  features : List String
  pinned : Option PublicIdentity
  sessionId : ByteArr 16

/-- The two sessions, and the pipe towards each of them. -/
structure Duplex where
  sessions : Bool → Handshake
  pipes : Bool → Pipe

/-- What happens on a connection. -/
inductive DuplexLabel
  /-- Bytes arrive at a side. -/
  | arrives (x : Bool) (n : ℕ)
  /-- A side reads a frame, and goes on until it reads again. -/
  | reads (x : Bool) (nonce : ByteArr 32) (payload : Bytes)
  /-- A side refuses the length of a frame. -/
  | refuses (x : Bool)

section Protocol

variable (K : Primitives) (C : HandshakeCodecs)

/-- The Hello of a party. -/
def Endpoint.hello (p : Endpoint) : Hello := newHello K p.identity p.features p.sessionId

namespace Handshake

/-- The session is not over. -/
def Active (h : Handshake) : Prop :=
  match h.progress with
  | .helloSent | .challengeSent _ _ | .signatureSent _ _ _ => True
  | .concluded _ _ _ _ | .failed _ => False

/-- What the session has written in its last step. -/
def wrote (h : Handshake) : Bytes :=
  match h.progress with
  | .helloSent => framed (C.hello.encode h.localHello)
  | .challengeSent _ lc => framed (C.challenge.encode lc)
  | .signatureSent rh _ rc => framed (C.signature.encode (signChallenge K C h.identity rh rc))
  | .concluded _ _ _ _ | .failed _ => []

/-- How many frames the session is still to read. -/
def remaining (h : Handshake) : ℕ :=
  match h.progress with
  | .helloSent => 3
  | .challengeSent _ _ => 2
  | .signatureSent _ _ _ => 1
  | .concluded _ _ _ _ | .failed _ => 0

end Handshake

/-- Both sides have begun: each has written its Hello. -/
def Duplex.start (party : Bool → Endpoint) : Duplex where
  sessions x := .start K C (party x).identity (party x).features (party x).pinned
    (party x).sessionId
  pipes x := ⟨Handshake.wrote K C (.start K C (party !x).identity (party !x).features
    (party !x).pinned (party !x).sessionId), []⟩

/-- A side goes on as `h`, with `p` left to read, and what it wrote is on its way. -/
def Duplex.goOn (s : Duplex) (x : Bool) (h : Handshake) (p : Pipe) : Duplex where
  sessions := Function.update s.sessions x h
  pipes := Function.update (Function.update s.pipes x p) (!x) ((s.pipes !x).write (h.wrote K C))

/-- The steps of a connection that does not break. -/
inductive DuplexStep (s : Duplex) : DuplexLabel → Duplex → Prop
  | arrives {x : Bool} {n : ℕ} (pos : 0 < n) (le : n ≤ (s.pipes x).inFlight.length) :
      DuplexStep s (.arrives x n)
        { s with pipes := Function.update s.pipes x ((s.pipes x).arrive n) }
  | reads {x : Bool} {nonce : ByteArr 32} {payload : Bytes} {rest : List Bytes}
      (active : (s.sessions x).Active)
      (read : readFrameBytes (s.pipes x).arrived = .read payload rest) :
      DuplexStep s (.reads x nonce payload)
        (s.goOn K C x ((s.sessions x).receive K C nonce payload) ⟨(s.pipes x).inFlight, rest⟩)
  | refuses {x : Bool} {e : IoError} (active : (s.sessions x).Active)
      (read : readFrameBytes (s.pipes x).arrived = .failed e) :
      DuplexStep s (.refuses x)
        { s with sessions := Function.update s.sessions x ((s.sessions x).fail e) }

/-- The connection of two parties. -/
def duplex (party : Bool → Endpoint) : Lts Duplex DuplexLabel where
  init s := s = .start K C party
  step := DuplexStep K C

/-- What the handshake of `p` with `q` comes to. -/
def Endpoint.outcome (p q : Endpoint) : Except IoError HandshakeResult :=
  if ∃ pin ∈ p.pinned, pin.publicKey ≠ (q.identity.pub K).publicKey then
    .error (.custom .permissionDenied "remote identity does not match pinned public key")
  else .ok
    { remote := q.hello K
      negotiated :=
        { version := ⟨protocolMajor, protocolMinor⟩
          features := (p.features.filter fun f => f ∈ q.features).insertionSort (· ≤ ·) } }

/-- The handshake of two parties completes. -/
structure Completes (party : Bool → Endpoint) : Prop where
  /-- Every run ends. -/
  ends : ∀ run : ℕ → Duplex, (duplex K C party).init (run 0) →
    ¬ ∀ n, (duplex K C party).Move (run n) (run (n + 1))
  /-- When it does, both have concluded, on each other's Hello and challenge. -/
  concluded : ∀ s, (duplex K C party).Reachable s → (∀ s', ¬ (duplex K C party).Move s s') →
    ∃ nonce : Bool → ByteArr 32, ∀ x, (s.sessions x).progress =
      .concluded ((party !x).hello K) ⟨nonce x⟩ ⟨nonce !x⟩ ((party x).outcome K (party !x))
  /-- A session never comes to anything else. -/
  returned : ∀ s, (duplex K C party).Reachable s → ∀ x,
    (∀ e, (s.sessions x).progress ≠ .failed e) ∧
      ∀ rh lc rc res, (s.sessions x).progress = .concluded rh lc rc res →
        res = (party x).outcome K (party !x)

/-- The frames of the parties are not too large. -/
structure SmallFrames (party : Bool → Endpoint) : Prop where
  hello : ∀ x, (C.hello.encode ((party x).hello K)).length ≤ maxFrame
  challenge : ∀ c, (C.challenge.encode c).length ≤ maxFrame
  signature : ∀ s, (C.signature.encode s).length ≤ maxFrame

end Protocol

variable {K : Primitives} {C : HandshakeCodecs} {party : Bool → Endpoint} {s s' : Duplex}

/-! ### Every run ends -/

theorem length_framed (b : Bytes) : (framed b).length = 4 + b.length := by
  rw [framed, List.length_append, length_beBytes]

namespace Handshake

variable {h : Handshake} {nonce : ByteArr 32} {frame : Bytes} {e : IoError}

theorem length_le_of_writeFrame {b : Bytes} (h : writeFrame b = .ok ()) : b.length ≤ maxFrame := by
  unfold writeFrame at h
  split at h
  · cases h
  · omega

variable (K C nonce frame) in
theorem remaining_receive (ha : h.Active) :
    (h.receive K C nonce frame).remaining < h.remaining ∧
      ((h.receive K C nonce frame).wrote K C).length ≤ 4 + maxFrame := by
  unfold Active at ha
  unfold receive
  cases hp : h.progress with
  | helloSent =>
    dsimp only
    split
    · simp [remaining, wrote, hp]
    · split
      · simp [remaining, wrote, hp]
      · rename_i hwrite
        have hlength := length_le_of_writeFrame hwrite
        simp only [remaining, wrote, hp, length_framed]
        omega
  | challengeSent rh lc =>
    dsimp only
    split
    · simp [remaining, wrote, hp]
    · split
      · simp [remaining, wrote, hp]
      · rename_i hwrite
        have hlength := length_le_of_writeFrame hwrite
        simp only [remaining, wrote, hp, length_framed]
        omega
  | signatureSent rh lc rc =>
    dsimp only
    split <;> simp [remaining, wrote, hp]
  | concluded | failed =>
    rw [hp] at ha
    exact ha.elim

theorem remaining_fail (ha : h.Active) : (h.fail e).remaining < h.remaining := by
  unfold Active at ha
  unfold fail
  cases hp : h.progress with
  | helloSent | challengeSent | signatureSent => simp [remaining, hp]
  | concluded | failed =>
    rw [hp] at ha
    exact ha.elim

end Handshake

/-- What is left to do: frames to read, and bytes to arrive. -/
def Duplex.measure (s : Duplex) : ℕ :=
  ((s.sessions true).remaining + (s.sessions false).remaining) * (5 + maxFrame) +
    ((s.pipes true).inFlight.length + (s.pipes false).inFlight.length)

/-- **Every step comes nearer to the end.** -/
theorem Duplex.measure_lt {l : DuplexLabel} (h : DuplexStep K C s l s') :
    s'.measure < s.measure := by
  cases h with
  | @arrives x n pos le =>
    have hlength : ((s.pipes x).arrive n).inFlight.length + n = (s.pipes x).inFlight.length := by
      rw [Pipe.arrive, List.length_drop]
      omega
    cases x <;> simp [Duplex.measure] <;> omega
  | @reads x nonce payload rest active read =>
    obtain ⟨hlt, hle⟩ := Handshake.remaining_receive K C nonce payload active
    have hmul := Nat.mul_le_mul_right (5 + maxFrame) (Nat.succ_le_of_lt hlt)
    cases x <;> simp [Duplex.measure, Duplex.goOn, Pipe.write] <;> simp [add_mul] at hmul ⊢ <;>
      omega
  | @refuses x e active read =>
    have hlt := Handshake.remaining_fail (e := e) active
    have hmul := Nat.mul_le_mul_right (5 + maxFrame) (Nat.succ_le_of_lt hlt)
    cases x <;> simp [Duplex.measure] <;> simp [add_mul] at hmul ⊢ <;> omega

/-! ### How far the sessions are -/

section Stages

variable (K : Primitives) (C : HandshakeCodecs) (p q : Endpoint) (np nq : ByteArr 32)

/-- The frames that `p` writes to `q`, if they draw these nonces. -/
def Endpoint.frames : List Bytes :=
  [C.hello.encode (p.hello K), C.challenge.encode ⟨np⟩,
    C.signature.encode (signChallenge K C p.identity (q.hello K) ⟨nq⟩)]

/-- How far the session of `p` is when it has read so many of the frames of `q`. -/
def Endpoint.stage : ℕ → Progress
  | 0 => .helloSent
  | 1 => .challengeSent (q.hello K) ⟨np⟩
  | 2 => .signatureSent (q.hello K) ⟨np⟩ ⟨nq⟩
  | _ => .concluded (q.hello K) ⟨np⟩ ⟨nq⟩ (p.outcome K q)

/-- The session of `p` at that stage. -/
def Endpoint.session (n : ℕ) : Handshake where
  identity := p.identity
  pinned := p.pinned
  localHello := p.hello K
  progress := p.stage K q np nq n

/-- What is on its way to `p`, if `p` is at the stage `n` and `q` at the stage `k`. -/
def Endpoint.incoming (n k : ℕ) : Bytes :=
  (((q.frames K C p nq np).take (k + 1)).drop n).flatMap framed

/-- The sessions are at these stages, and the rest of their frames is on the way. -/
structure Synced (party : Bool → Endpoint) (s : Duplex) (nonce : Bool → ByteArr 32)
    (stage : Bool → ℕ) : Prop where
  session : ∀ x, s.sessions x =
    (party x).session K (party !x) (nonce x) (nonce !x) (stage x)
  stream : ∀ x, (s.pipes x).stream =
    (party x).incoming K C (party !x) (nonce x) (nonce !x) (stage x) (stage !x)
  ahead : ∀ x, stage x ≤ stage (!x) + 1
  bound : ∀ x, stage x ≤ 3

end Stages

variable {p q : Endpoint} {np nq : ByteArr 32}

/-- **The checks after the last frame.** -/
theorem conclude_outcome (hverify : ∀ b, K.verify (K.verifyingKey q.identity.signingKey) b
    (K.sign q.identity.signingKey b) = true) :
    Handshake.conclude K C (p.hello K) (q.hello K) ⟨np⟩ p.pinned
      (signChallenge K C q.identity (p.hello K) ⟨np⟩) = p.outcome K q := by
  have hv : verifyChallenge K C (p.hello K) ⟨np⟩ (q.hello K).identity
      (signChallenge K C q.identity (p.hello K) ⟨np⟩) = .ok () := by
    rw [verifyChallenge, signChallenge]
    exact if_pos (hverify _)
  have hn : negotiate (p.hello K).version (p.hello K).features (q.hello K).version
      (q.hello K).features = .ok ⟨⟨protocolMajor, protocolMinor⟩,
        (p.features.filter fun f => f ∈ q.features).insertionSort (· ≤ ·)⟩ :=
    negotiate_of_major rfl
  rw [Handshake.conclude, hv, hn, Endpoint.outcome]
  cases p.pinned with
  | none => simp; rfl
  | some pin =>
    have hid : (q.hello K).identity = q.identity.pub K := rfl
    rw [hid]
    by_cases hpin : pin.publicKey = (q.identity.pub K).publicKey
    · simp [hpin]; rfl
    · simp [hpin]; rfl

/-- **A session that reads the next frame of the other goes on to the next stage**, with its nonce
if it is the first frame. -/
theorem receive_session (hsmall : SmallFrames K C party) {x : Bool}
    (hverify : ∀ b, K.verify (K.verifyingKey (party !x).identity.signingKey) b
      (K.sign (party !x).identity.signingKey b) = true) {n : ℕ} {f : Bytes} {nonce : ByteArr 32}
    (hf : ((party !x).frames K C (party x) nq np)[n]? = some f) (hnonce : n = 0 → nonce = np) :
    ((party x).session K (party !x) np nq n).receive K C nonce f =
      (party x).session K (party !x) np nq (n + 1) := by
  match n, hf with
  | 0, hf =>
    obtain rfl := Option.some.inj hf
    exact Handshake.receive_hello rfl (hsmall.hello _) (hsmall.challenge _) |>.trans
      (by rw [hnonce rfl]; rfl)
  | 1, hf =>
    obtain rfl := Option.some.inj hf
    exact Handshake.receive_challenge rfl (hsmall.challenge _) (hsmall.signature _)
  | 2, hf =>
    obtain rfl := Option.some.inj hf
    simp only [Handshake.receive, Endpoint.session, Endpoint.stage,
      Handshake.decodeFrame_encode _ (hsmall.signature _), conclude_outcome hverify]

theorem length_frames {n : ℕ} {f : Bytes} (hsmall : SmallFrames K C party) {x : Bool}
    (hf : ((party x).frames K C q np nq)[n]? = some f) : f.length ≤ maxFrame := by
  have hmem := List.mem_of_getElem? hf
  simp only [Endpoint.frames, List.mem_cons, List.not_mem_nil, or_false] at hmem
  rcases hmem with rfl | rfl | rfl
  · exact hsmall.hello x
  · exact hsmall.challenge _
  · exact hsmall.signature _

theorem wrote_session (n : ℕ) : (p.session K q np nq n).wrote K C =
    (((p.frames K C q np nq)[n]?).map framed).getD [] := by
  match n with
  | 0 | 1 | 2 | _ + 3 => rfl

theorem active_session {n : ℕ} : (p.session K q np nq n).Active ↔ n < 3 := by
  match n with
  | 0 | 1 | 2 | _ + 3 => simp [Endpoint.session, Handshake.Active, Endpoint.stage]

variable (K C p q np nq) in
theorem frames_of_lt {n : ℕ} (h : n < 3) : ∃ f, (p.frames K C q np nq)[n]? = some f :=
  ⟨_, List.getElem?_eq_getElem h⟩

theorem incoming_eq_append {n k : ℕ} {f : Bytes} (hf : (q.frames K C p nq np)[n]? = some f)
    (hk : n ≤ k) : p.incoming K C q np nq n k = framed f ++ p.incoming K C q np nq (n + 1) k := by
  have hget : ((q.frames K C p nq np).take (k + 1))[n]? = some f := by
    rw [List.getElem?_take_of_lt (by omega), hf]
  obtain ⟨hlt, hn⟩ := List.getElem?_eq_some_iff.1 hget
  rw [Endpoint.incoming, List.drop_eq_getElem_cons hlt, hn, List.flatMap_cons, ← Endpoint.incoming]

theorem incoming_eq_nil {n k : ℕ} (hk : k < n) : p.incoming K C q np nq n k = [] := by
  rw [Endpoint.incoming, List.drop_eq_nil_of_le, List.flatMap_nil]
  rw [List.length_take]
  omega

theorem incoming_succ {n k : ℕ} (hn : n ≤ k + 1) : p.incoming K C q np nq n (k + 1) =
    p.incoming K C q np nq n k ++ (((q.frames K C p nq np)[k + 1]?).map framed).getD [] := by
  rw [Endpoint.incoming, List.take_add_one, Endpoint.incoming]
  cases hf : (q.frames K C p nq np)[k + 1]? with
  | none => simp
  | some f =>
    have hlt := (List.getElem?_eq_some_iff.1 hf).1
    rw [List.drop_append_of_le_length (by rw [List.length_take]; omega)]
    simp

namespace Synced

variable {nonce : Bool → ByteArr 32} {stage : Bool → ℕ} {x : Bool}

/-- **The sessions begin.** -/
theorem start (hsmall : SmallFrames K C party) (nonce : Bool → ByteArr 32) :
    Synced K C party (.start K C party) nonce fun _ => 0 := by
  have hsession : ∀ x, Handshake.start K C (party x).identity (party x).features (party x).pinned
      (party x).sessionId = (party x).session K (party !x) (nonce x) (nonce !x) 0 := fun x => by
    have hhello := hsmall.hello x
    rw [Endpoint.hello] at hhello
    simp only [Handshake.start, Handshake.writeFrame_ok hhello]
    rfl
  refine ⟨hsession, fun x => ?_, fun _ => Nat.zero_le _, fun _ => Nat.zero_le _⟩
  rw [Duplex.start, Pipe.stream]
  dsimp only
  rw [hsession (!x), wrote_session]
  simp [Endpoint.incoming, Endpoint.frames]

/-- Before the first frame was read nothing depends on the nonce. -/
theorem redraw (h : Synced K C party s nonce stage) (hx : stage x = 0) (n : ByteArr 32) :
    Synced K C party s (Function.update nonce x n) stage := by
  have hother : stage (!x) ≤ 1 := by
    have hahead := h.ahead (!x)
    rwa [Bool.not_not, hx] at hahead
  have hne : (!x) ≠ x := by simp
  refine ⟨fun y => ?_, fun y => ?_, h.ahead, h.bound⟩
  · rw [h.session]
    rcases Bool.eq_or_eq_not y x with rfl | rfl
    · rw [hx]
      rfl
    · rw [Bool.not_not, Function.update_of_ne hne]
      rcases Nat.le_one_iff_eq_zero_or_eq_one.1 hother with hk | hk
      · rw [hk]
        rfl
      · rw [hk]
        rfl
  · rw [h.stream]
    rcases Bool.eq_or_eq_not y x with rfl | rfl
    · rw [hx, Function.update_of_ne hne]
      rcases Nat.le_one_iff_eq_zero_or_eq_one.1 hother with hk | hk
      · rw [hk]
        rfl
      · rw [hk]
        rfl
    · rw [Bool.not_not, hx, Function.update_of_ne hne]
      rfl

theorem arrives (h : Synced K C party s nonce stage) (n : ℕ) :
    Synced K C party { s with pipes := Function.update s.pipes x ((s.pipes x).arrive n) }
      nonce stage := by
  refine ⟨h.session, fun y => ?_, h.ahead, h.bound⟩
  dsimp only
  by_cases hy : y = x
  · subst hy
    rw [Function.update_self, Pipe.stream_arrive, h.stream]
  · rw [Function.update_of_ne hy, h.stream]

theorem next_frame (h : Synced K C party s nonce stage) (hsmall : SmallFrames K C party)
    (ha : (s.sessions x).Active) (hread : readFrameBytes (s.pipes x).arrived ≠ .waits) :
    stage x < 3 ∧ stage x ≤ stage (!x) ∧ ∃ f, f.length ≤ maxFrame ∧
      ((party !x).frames K C (party x) (nonce !x) (nonce x))[stage x]? = some f ∧
        (s.pipes x).arrived.flatten ++ (s.pipes x).inFlight = framed f ++
          (party x).incoming K C (party !x) (nonce x) (nonce !x) (stage x + 1) (stage !x) := by
  have hstream := h.stream x
  rw [h.session, active_session] at ha
  obtain ⟨f, hf⟩ := frames_of_lt K C (party !x) (party x) (nonce !x) (nonce x) ha
  have hle : stage x ≤ stage (!x) := by
    by_contra hlt
    rw [incoming_eq_nil (by omega), Pipe.stream] at hstream
    exact hread (readFrameBytes_nil (List.append_eq_nil_iff.1 hstream).1)
  refine ⟨ha, hle, f, length_frames hsmall hf, hf, ?_⟩
  rw [← incoming_eq_append hf hle]
  exact hstream

/-- **A side reads a frame**: it goes on to the next stage. -/
theorem reads (h : Synced K C party s nonce stage) (hsmall : SmallFrames K C party)
    (hverify : ∀ x b, K.verify (K.verifyingKey (party x).identity.signingKey) b
      (K.sign (party x).identity.signingKey b) = true) {n : ByteArr 32} {payload : Bytes}
    {rest : List Bytes} (ha : (s.sessions x).Active)
    (hread : readFrameBytes (s.pipes x).arrived = .read payload rest)
    (hn : stage x = 0 → n = nonce x) :
    Synced K C party (s.goOn K C x ((s.sessions x).receive K C n payload)
      ⟨(s.pipes x).inFlight, rest⟩) nonce (Function.update stage x (stage x + 1)) := by
  obtain ⟨hlt, hle, f, hlength, hf, hstream⟩ := h.next_frame hsmall ha (by rw [hread]; simp)
  obtain ⟨rfl, hrest⟩ := readFrameBytes_of_stream hread hlength hstream
  have hreceive := receive_session hsmall (hverify _) hf hn
  rw [← h.session] at hreceive
  rw [hreceive]
  have hne : (!x) ≠ x := by simp
  have hahead := h.ahead (!x)
  rw [Bool.not_not] at hahead
  refine ⟨fun y => ?_, fun y => ?_, fun y => ?_, fun y => ?_⟩
  · rcases Bool.eq_or_eq_not y x with rfl | rfl
    · simp [Duplex.goOn]
    · simp [Duplex.goOn, h.session]
  · rcases Bool.eq_or_eq_not y x with rfl | rfl
    · simpa [Duplex.goOn, Pipe.stream] using hrest
    · simp only [Duplex.goOn, Function.update_self, Pipe.stream_write, h.stream, Bool.not_not,
        Function.update_of_ne hne, wrote_session]
      rw [incoming_succ hahead]
  · rcases Bool.eq_or_eq_not y x with rfl | rfl
    · simp only [Function.update_self, Function.update_of_ne hne]
      omega
    · simp only [Bool.not_not, Function.update_self, Function.update_of_ne hne]
      omega
  · rcases Bool.eq_or_eq_not y x with rfl | rfl
    · simp only [Function.update_self]
      omega
    · simp only [Function.update_of_ne hne]
      exact h.bound _

/-- **A step keeps the sessions in step**, and no frame is refused. -/
theorem step (h : Synced K C party s nonce stage) (hsmall : SmallFrames K C party)
    (hverify : ∀ x b, K.verify (K.verifyingKey (party x).identity.signingKey) b
      (K.sign (party x).identity.signingKey b) = true) {l : DuplexLabel}
    (hs : DuplexStep K C s l s') : ∃ nonce stage, Synced K C party s' nonce stage := by
  cases hs with
  | @arrives x n pos le => exact ⟨nonce, stage, h.arrives n⟩
  | @reads x n payload rest active read =>
    by_cases hx : stage x = 0
    · exact ⟨_, _, (h.redraw hx n).reads hsmall hverify active read fun _ => by simp⟩
    · exact ⟨_, _, h.reads hsmall hverify active read fun hzero => absurd hzero hx⟩
  | @refuses x e active read =>
    obtain ⟨-, -, f, hlength, -, hstream⟩ := h.next_frame hsmall active (by rw [read]; simp)
    exact absurd read (readFrameBytes_ne_failed hlength hstream)

/-- **As long as a side has not concluded, there is a step.** -/
theorem stage_eq_three (h : Synced K C party s nonce stage) (hsmall : SmallFrames K C party)
    (hstuck : ∀ l s', ¬ DuplexStep K C s l s') : ∀ x, stage x = 3 := by
  have harrived : ∀ x, (s.pipes x).inFlight = [] := by
    intro x
    by_contra hsome
    exact hstuck _ _ (.arrives (x := x) Nat.one_pos (List.length_pos_of_ne_nil hsome))
  have hbehind : ∀ x, stage x < 3 → stage (!x) < stage x := by
    intro x hlt
    by_contra hle
    obtain ⟨f, hf⟩ := frames_of_lt K C (party !x) (party x) (nonce !x) (nonce x) hlt
    have hstream := h.stream x
    rw [incoming_eq_append hf (by omega), Pipe.stream, harrived, List.append_nil, framed] at hstream
    obtain ⟨rest, hread, -⟩ := readFrameBytes_append (length_frames hsmall hf) hstream
    have hactive : (s.sessions x).Active := by rwa [h.session, active_session]
    exact hstuck _ _ (@DuplexStep.reads K C s x (nonce x) _ _ hactive hread)
  intro x
  have hbound := h.bound x
  by_contra hne
  have hlt := hbehind x (by omega)
  have hlt' := hbehind (!x) (by omega)
  rw [Bool.not_not] at hlt'
  omega

end Synced

theorem synced_of_reachable (hsmall : SmallFrames K C party)
    (hverify : ∀ x b, K.verify (K.verifyingKey (party x).identity.signingKey) b
      (K.sign (party x).identity.signingKey b) = true) (h : (duplex K C party).Reachable s) :
    ∃ nonce stage, Synced K C party s nonce stage := by
  refine h.invariant (I := fun s => ∃ nonce stage, Synced K C party s nonce stage) ?_ ?_
  · rintro s rfl
    exact ⟨fun _ => List.Vector.replicate 32 0, _, .start hsmall _⟩
  · rintro s l s' ⟨nonce, stage, hsynced⟩ hstep
    exact hsynced.step hsmall hverify hstep

/-- **The handshake of two parties completes**, in every order of their steps and however the bytes
between them are cut. -/
theorem handshake_completes (hsmall : SmallFrames K C party)
    (hverify : ∀ x b, K.verify (K.verifyingKey (party x).identity.signingKey) b
      (K.sign (party x).identity.signingKey b) = true) : Completes K C party where
  ends run _ hrun := by
    have hdecreases : ∀ n, (run n).measure + n ≤ (run 0).measure := by
      intro n
      induction n with
      | zero => rw [Nat.add_zero]
      | succ n ih =>
        obtain ⟨l, hstep⟩ := hrun n
        have hlt := Duplex.measure_lt hstep
        omega
    generalize (run 0).measure = bound at hdecreases
    have htoo := hdecreases (bound + 1)
    omega
  concluded s hs hstuck := by
    obtain ⟨nonce, stage, hsynced⟩ := synced_of_reachable hsmall hverify hs
    refine ⟨nonce, fun x => ?_⟩
    rw [hsynced.session,
      hsynced.stage_eq_three hsmall (fun l s' hstep => hstuck s' ⟨l, hstep⟩) x]
    rfl
  returned s hs x := by
    obtain ⟨nonce, stage, hsynced⟩ := synced_of_reachable hsmall hverify hs
    rw [hsynced.session]
    generalize stage x = n
    match n with
    | 0 | 1 | 2 => simp [Endpoint.session, Endpoint.stage]
    | n + 3 => simp +contextual [Endpoint.session, Endpoint.stage]

namespace Meeting

/-- Alice, who is pinned to Bob, and Bob. -/
def sides : Bool → Endpoint
  | true => ⟨alice, [], some (bob.pub .sample), List.Vector.replicate 16 3⟩
  | false => ⟨bob, [], none, List.Vector.replicate 16 4⟩

theorem smallFrames : SmallFrames .sample .postcard sides where
  hello x := by
    cases x
    · exact length_helloBob
    · exact length_helloAlice
  challenge := length_challenge
  signature := length_signature

end Meeting

open Meeting in
/-- Alice meets Bob. -/
theorem handshake_completes_meeting : Completes .sample .postcard sides :=
  handshake_completes smallFrames fun _ => verify_sample _

end Neonet
