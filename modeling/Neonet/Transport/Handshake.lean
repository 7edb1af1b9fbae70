import Mathlib.Data.List.Sort
import Mathlib.Data.String.Basic
import Mathlib.Logic.Function.Basic
import Neonet.Identity
import Neonet.Lib.Lts

/-!
# The mutual handshake

HELLO, CHALLENGE and SIGNATURE in both directions.  A session of an honest party is a state
machine that is fed one frame after the other; the adversary chooses every frame, and may break
the connection at any time.

* `Handshake.receive` : `handshake_inner`, one frame at a time.
* `World` : the sessions of the honest parties.  A signature that verifies under the key of an
  honest party was made by a session of that party (`Unforged`).
* `authenticated` : **if a handshake returns an honest identity, then another session under that
  identity's key signed this session's own Hello and challenge, unless the session was fed its
  own Hello and its own challenge.**
* `accepts_reflection` : a session that is fed its own three frames returns its own identity.
-/

namespace Neonet

/-- `MAX_FRAME`. -/
def maxFrame : ℕ := 1024 * 1024

/-- `write_frame`: the refusal of a payload that is too large. -/
def writeFrame (payload : Bytes) : Except IoError Unit :=
  if maxFrame < payload.length then .error (.custom .invalidInput "frame too large") else .ok ()

/-- `read_frame`: the refusal of a frame that is too large. -/
def readFrame (frame : Bytes) : Except IoError Bytes :=
  if maxFrame < frame.length then .error (.custom .invalidData "frame too large") else .ok frame

/-- `codec_err`. -/
def codecErr (message : String) : IoError := .custom .invalidData message

/-! ### The messages -/

/-- `PROTOCOL_MAJOR`. -/
def protocolMajor : UInt16 := 1

/-- `PROTOCOL_MINOR`. -/
def protocolMinor : UInt16 := 0

/-- A protocol version. -/
structure ProtocolVersion where
  major : UInt16
  minor : UInt16
  deriving DecidableEq

/-- HELLO. -/
structure Hello where
  version : ProtocolVersion
  features : List String
  identity : PublicIdentity
  sessionId : ByteArr 16
  deriving DecidableEq

/-- CHALLENGE. -/
structure Challenge where
  nonce : ByteArr 32
  deriving DecidableEq

/-- SIGNATURE. -/
structure SignatureMessage where
  signature : Signature
  deriving DecidableEq

/-- What both sides speak. -/
structure NegotiatedProtocol where
  version : ProtocolVersion
  features : List String
  deriving DecidableEq

/-- What a handshake returns. -/
structure HandshakeResult where
  remote : Hello
  negotiated : NegotiatedProtocol
  deriving DecidableEq

/-- The serialisation of the three messages. -/
structure HandshakeCodecs where
  hello : Codec Hello
  challenge : Codec Challenge
  signature : Codec SignatureMessage

/-- A Hello, as it is written. -/
def Hello.wire : Wire Hello :=
  ((Wire.u16.pair Wire.u16).pair
    ((Wire.seq Wire.string).pair (PublicIdentity.wire.pair (Wire.array 16)))).comap
    (fun h => ((h.version.major, h.version.minor), h.features, h.identity, h.sessionId))
    (fun x => .ok ⟨⟨x.1.1, x.1.2⟩, x.2.1, x.2.2.1, x.2.2.2⟩) fun _ => rfl

/-- The serialisation of the program. -/
def HandshakeCodecs.postcard : HandshakeCodecs where
  hello := Hello.wire.toCodec
  challenge := ((Wire.array 32).comap Challenge.nonce (fun n => .ok ⟨n⟩) fun _ => rfl).toCodec
  signature :=
    ((Wire.array 64).comap SignatureMessage.signature (fun s => .ok ⟨s⟩) fun _ => rfl).toCodec

/-- Why the protocol refuses. -/
inductive ProtocolError
  | majorMismatch (localMajor remoteMajor : UInt16)
  | invalidSignature
  deriving DecidableEq

/-- The text of a refusal. -/
def ProtocolError.text : ProtocolError → String
  | .majorMismatch l r =>
    "incompatible protocol major version: local=" ++ toString l ++ ", remote=" ++ toString r
  | .invalidSignature => "invalid signature"

section Protocol

variable (K : Primitives) (C : HandshakeCodecs)

/-- `new_hello`; the session identifier is drawn at random. -/
def newHello (identity : Identity) (features : List String) (sessionId : ByteArr 16) : Hello :=
  { version := ⟨protocolMajor, protocolMinor⟩
    features
    identity := identity.pub K
    sessionId }

/-- `negotiate`. -/
def negotiate (localVersion : ProtocolVersion) (localFeatures : List String)
    (remoteVersion : ProtocolVersion) (remoteFeatures : List String) :
    Except ProtocolError NegotiatedProtocol :=
  if localVersion.major ≠ remoteVersion.major then
    .error (.majorMismatch localVersion.major remoteVersion.major)
  else .ok
    { version := ⟨localVersion.major, min localVersion.minor remoteVersion.minor⟩
      features := (localFeatures.filter fun f => f ∈ remoteFeatures).insertionSort (· ≤ ·) }

/-- `challenge_payload`. -/
def challengePayload (hello : Hello) (challenge : Challenge) : Bytes :=
  C.hello.encode hello ++ challenge.nonce.toList

/-- `sign_challenge`. -/
def signChallenge (identity : Identity) (hello : Hello) (challenge : Challenge) :
    SignatureMessage :=
  ⟨K.sign identity.signingKey (challengePayload C hello challenge)⟩

/-- `verify_challenge`. -/
def verifyChallenge (payloadHello : Hello) (payloadChallenge : Challenge)
    (signer : PublicIdentity) (message : SignatureMessage) : Except ProtocolError Unit :=
  if K.verify signer.publicKey (challengePayload C payloadHello payloadChallenge)
    message.signature then .ok ()
  else .error .invalidSignature

/-- The nonce has a fixed width, so a payload determines its Hello and its challenge. -/
theorem challengePayload_injective {C : HandshakeCodecs} {h h' : Hello} {c c' : Challenge}
    (he : challengePayload C h c = challengePayload C h' c') : h = h' ∧ c = c' := by
  have hlen : c.nonce.toList.length = c'.nonce.toList.length := by
    rw [List.Vector.toList_length, List.Vector.toList_length]
  obtain ⟨hh, hc⟩ := List.append_inj' he hlen
  have hn : c.nonce = c'.nonce := Subtype.ext hc
  refine ⟨C.hello.encode_injective hh, ?_⟩
  cases c
  cases c'
  exact congrArg Challenge.mk hn

/-! ### One session -/

/-- How far a session has come. -/
inductive Progress
  | helloSent
  | challengeSent (remoteHello : Hello) (localChallenge : Challenge)
  | signatureSent (remoteHello : Hello) (localChallenge remoteChallenge : Challenge)
  /-- It ended after it had signed. -/
  | concluded (remoteHello : Hello) (localChallenge remoteChallenge : Challenge)
      (result : Except IoError HandshakeResult)
  /-- It ended before. -/
  | failed (e : IoError)

/-- A session of `handshake_inner`. -/
structure Handshake where
  identity : Identity
  pinned : Option PublicIdentity
  localHello : Hello
  progress : Progress

namespace Handshake

/-- The session begins: HELLO is written. -/
def start (identity : Identity) (features : List String) (pinned : Option PublicIdentity)
    (sessionId : ByteArr 16) : Handshake :=
  let localHello := newHello K identity features sessionId
  { identity, pinned, localHello
    progress :=
      match writeFrame (C.hello.encode localHello) with
      | .error e => .failed e
      | .ok () => .helloSent }

/-- Read a frame and decode it. -/
def decodeFrame {α : Type} (codec : Codec α) (frame : Bytes) : Except IoError α :=
  match readFrame frame with
  | .error e => .error e
  | .ok b => (codec.decode b).mapError codecErr

/-- The checks after the last frame: the signature, the pin, the versions. -/
def conclude (localHello remoteHello : Hello) (localChallenge : Challenge)
    (pinned : Option PublicIdentity) (remoteSignature : SignatureMessage) :
    Except IoError HandshakeResult := do
  (verifyChallenge K C localHello localChallenge remoteHello.identity remoteSignature).mapError
    fun e => .custom .permissionDenied e.text
  match pinned with
  | some p =>
    if p.publicKey ≠ remoteHello.identity.publicKey then
      throw (.custom .permissionDenied "remote identity does not match pinned public key")
  | none => pure ()
  let negotiated ← (negotiate localHello.version localHello.features remoteHello.version
    remoteHello.features).mapError fun e => .custom .unsupported e.text
  return { remote := remoteHello, negotiated }

/-- The session reads a frame and goes on until it reads again.  The challenge it sends on
receiving a Hello is `nonce`. -/
def receive (nonce : ByteArr 32) (frame : Bytes) (h : Handshake) : Handshake :=
  match h.progress with
  | .helloSent =>
    match decodeFrame C.hello frame with
    | .error e => { h with progress := .failed e }
    | .ok remoteHello =>
      match writeFrame (C.challenge.encode ⟨nonce⟩) with
      | .error e => { h with progress := .failed e }
      | .ok () => { h with progress := .challengeSent remoteHello ⟨nonce⟩ }
  | .challengeSent rh lc =>
    match decodeFrame C.challenge frame with
    | .error e => { h with progress := .failed e }
    | .ok rc =>
      match writeFrame (C.signature.encode (signChallenge K C h.identity rh rc)) with
      | .error e => { h with progress := .concluded rh lc rc (.error e) }
      | .ok () => { h with progress := .signatureSent rh lc rc }
  | .signatureSent rh lc rc =>
    match decodeFrame C.signature frame with
    | .error e => { h with progress := .concluded rh lc rc (.error e) }
    | .ok signature =>
      { h with
        progress := .concluded rh lc rc (conclude K C h.localHello rh lc h.pinned signature) }
  | .concluded _ _ _ _ | .failed _ => h

/-- The connection breaks while the session reads or writes. -/
def fail (e : IoError) (h : Handshake) : Handshake :=
  match h.progress with
  | .helloSent | .challengeSent _ _ => { h with progress := .failed e }
  | .signatureSent rh lc rc => { h with progress := .concluded rh lc rc (.error e) }
  | .concluded _ _ _ _ | .failed _ => h

/-- The Hello and the challenge that the session signed. -/
def signed (h : Handshake) : Option (Hello × Challenge) :=
  match h.progress with
  | .signatureSent rh _ rc | .concluded rh _ rc _ => some (rh, rc)
  | _ => none

/-- The session was fed its own Hello and its own challenge. -/
def Reflected (h : Handshake) : Prop :=
  ∃ lc result, h.progress = .concluded h.localHello lc lc result

end Handshake

/-! ### The honest parties' sessions -/

/-- The sessions of the honest parties. -/
abbrev World := ℕ → Option Handshake

/-- `x` belongs to an honest party. -/
def HonestIdentity (parties : Set Identity) (x : PublicIdentity) : Prop :=
  ∃ i ∈ parties, i.pub K = x

/-- The session `τ` is one of `x`, and has signed the Hello and the challenge. -/
def World.Signed (w : World) (τ : ℕ) (x : PublicIdentity) (hello : Hello) (challenge : Challenge) :
    Prop :=
  ∃ t, w τ = some t ∧ t.identity.pub K = x ∧ t.signed = some (hello, challenge)

/-- No signature is forged: if the frame that ends `h` holds a signature that verifies under the
key of an honest party, then a session of that party has signed the same payload. -/
def World.Unforged (parties : Set Identity) (w : World) (h : Handshake) (frame : Bytes) : Prop :=
  ∀ rh lc rc signature, h.progress = .signatureSent rh lc rc →
    Handshake.decodeFrame C.signature frame = .ok signature → HonestIdentity K parties rh.identity →
      verifyChallenge K C h.localHello lc rh.identity signature = .ok () →
        ∃ τ hello challenge, w.Signed K τ rh.identity hello challenge ∧
          challengePayload C hello challenge = challengePayload C h.localHello lc

/-- What happens to a session. -/
inductive WorldLabel
  | started (σ : ℕ)
  | received (σ : ℕ) (frame : Bytes)
  | broke (σ : ℕ)

/-- The steps: honest parties begin sessions, and the adversary feeds and breaks them. -/
inductive WorldStep (parties : Set Identity) (w : World) : WorldLabel → World → Prop
  | started {σ : ℕ} {identity : Identity} {features : List String} {pinned : Option PublicIdentity}
      {sessionId : ByteArr 16} (fresh : w σ = none) (honest : identity ∈ parties) :
      WorldStep parties w (.started σ)
        (Function.update w σ (some (.start K C identity features pinned sessionId)))
  | received {σ : ℕ} {h : Handshake} {nonce : ByteArr 32} {frame : Bytes} (session : w σ = some h)
      (unforged : w.Unforged K C parties h frame) :
      WorldStep parties w (.received σ frame)
          (Function.update w σ (some (h.receive K C nonce frame)))
  | broke {σ : ℕ} {h : Handshake} {e : IoError} (session : w σ = some h) :
      WorldStep parties w (.broke σ) (Function.update w σ (some (h.fail e)))

/-- The honest parties' sessions as a transition system. -/
def world (parties : Set Identity) : Lts World WorldLabel where
  init w := ∀ σ, w σ = none
  step := WorldStep K C parties

end Protocol

variable {K : Primitives} {C : HandshakeCodecs} {parties : Set Identity} {w w' : World}

namespace Handshake

variable {h : Handshake} {nonce : ByteArr 32} {frame : Bytes} {e : IoError}

@[simp] theorem identity_receive : (h.receive K C nonce frame).identity = h.identity := by
  unfold receive
  split
  · split
    · rfl
    · split <;> rfl
  · split
    · rfl
    · split <;> rfl
  · split <;> rfl
  all_goals rfl

@[simp] theorem localHello_receive : (h.receive K C nonce frame).localHello = h.localHello := by
  unfold receive
  split
  · split
    · rfl
    · split <;> rfl
  · split
    · rfl
    · split <;> rfl
  · split <;> rfl
  all_goals rfl

@[simp] theorem identity_fail : (h.fail e).identity = h.identity := by
  unfold fail; split <;> rfl

@[simp] theorem localHello_fail : (h.fail e).localHello = h.localHello := by
  unfold fail; split <;> rfl

theorem signed_receive {x : Hello × Challenge} (hs : h.signed = some x) :
    (h.receive K C nonce frame).signed = some x := by
  unfold signed at hs
  split at hs
  · rename_i rh lc rc hp
    simp only [receive, hp]
    split
    · simpa only [signed] using hs
    · simpa only [signed] using hs
  · rename_i rh lc rc result hp
    simp only [receive, hp, signed]
    exact hs
  · cases hs

theorem signed_fail {x : Hello × Challenge} (hs : h.signed = some x) :
    (h.fail e).signed = some x := by
  unfold signed at hs
  split at hs
  · rename_i rh lc rc hp
    simp only [fail, hp, signed]
    exact hs
  · rename_i rh lc rc result hp
    simp only [fail, hp, signed]
    exact hs
  · cases hs

/-- A handshake that succeeds has verified a signature over its own Hello and challenge under
the key it returns, and speaks what the Hello it returns offers. -/
theorem conclude_ok {lh rh : Hello} {lc : Challenge} {pinned : Option PublicIdentity}
    {signature : SignatureMessage} {r : HandshakeResult}
    (hc : conclude K C lh rh lc pinned signature = .ok r) :
    r.remote = rh ∧ verifyChallenge K C lh lc rh.identity signature = .ok () ∧
      negotiate lh.version lh.features rh.version rh.features = .ok r.negotiated := by
  unfold conclude at hc
  cases hv : verifyChallenge K C lh lc rh.identity signature with
  | error e => rw [hv] at hc; cases hc
  | ok =>
    rw [hv] at hc
    cases hn : negotiate lh.version lh.features rh.version rh.features with
    | error e =>
      rw [hn] at hc
      cases pinned with
      | none => cases hc
      | some p =>
        dsimp only at hc
        split at hc <;> cases hc
    | ok n =>
      rw [hn] at hc
      cases pinned with
      | none => cases hc; exact ⟨rfl, rfl, rfl⟩
      | some p =>
        dsimp only at hc
        split at hc
        · cases hc
        · cases hc; exact ⟨rfl, rfl, rfl⟩

/-- How a session comes to succeed: by the frame that holds the signature. -/
theorem progress_receive_ok {rh : Hello} {lc rc : Challenge} {r : HandshakeResult}
    (hp : (h.receive K C nonce frame).progress = .concluded rh lc rc (.ok r)) :
    h.progress = .concluded rh lc rc (.ok r) ∨
      (h.progress = .signatureSent rh lc rc ∧ ∃ signature,
        decodeFrame C.signature frame = .ok signature ∧
          conclude K C h.localHello rh lc h.pinned signature = .ok r) := by
  unfold receive at hp
  split at hp
  · split at hp
    · cases hp
    · split at hp <;> cases hp
  · split at hp
    · cases hp
    · split at hp <;> cases hp
  · rename_i rh' lc' rc' hsent
    split at hp
    · cases hp
    · rename_i signature hd
      simp only [Progress.concluded.injEq] at hp
      obtain ⟨rfl, rfl, rfl, hc⟩ := hp
      exact .inr ⟨hsent, signature, hd, hc⟩
  · exact .inl hp
  · exact .inl hp

theorem progress_fail_ok {rh : Hello} {lc rc : Challenge} {r : HandshakeResult}
    (hp : (h.fail e).progress = .concluded rh lc rc (.ok r)) :
    h.progress = .concluded rh lc rc (.ok r) := by
  unfold fail at hp
  split at hp <;> first | exact hp | cases hp

end Handshake

/-! ### What a success proves -/

/-- Every success under an honest identity rests on a signature of that identity's. -/
def World.Authentic (K : Primitives) (parties : Set Identity) (w : World) : Prop :=
  ∀ σ h rh lc rc r, w σ = some h → h.progress = .concluded rh lc rc (.ok r) →
    r.remote = rh ∧
      (HonestIdentity K parties rh.identity → ∃ τ, w.Signed K τ rh.identity h.localHello lc)

theorem World.Signed.update {τ σ : ℕ} {x : PublicIdentity} {hello : Hello} {challenge : Challenge}
    {h' : Handshake} (hs : w.Signed K τ x hello challenge)
    (hk : ∀ h, w σ = some h → h'.identity = h.identity ∧
      ∀ y, h.signed = some y → h'.signed = some y) :
    World.Signed K (Function.update w σ (some h')) τ x hello challenge := by
  obtain ⟨t, ht, hx, hy⟩ := hs
  by_cases hτ : τ = σ
  · subst hτ
    obtain ⟨hi, hsigned⟩ := hk t ht
    exact ⟨h', Function.update_self .., hi ▸ hx, hsigned _ hy⟩
  · exact ⟨t, by rw [Function.update_of_ne hτ, ht], hx, hy⟩

/-- To keep the invariant, the session that was changed has to meet it. -/
theorem World.Authentic.update {σ : ℕ} {h' : Handshake} (hw : w.Authentic K parties)
    (hk : ∀ h, w σ = some h → h'.identity = h.identity ∧
      ∀ y, h.signed = some y → h'.signed = some y)
    (hself : ∀ rh lc rc r, h'.progress = .concluded rh lc rc (.ok r) → r.remote = rh ∧
      (HonestIdentity K parties rh.identity → ∃ τ, w.Signed K τ rh.identity h'.localHello lc)) :
    World.Authentic K parties (Function.update w σ (some h')) := by
  intro τ t rh lc rc r ht hp
  by_cases hτ : τ = σ
  · subst hτ
    rw [Function.update_self, Option.some.injEq] at ht
    subst ht
    obtain ⟨hr, hs⟩ := hself rh lc rc r hp
    exact ⟨hr, fun hx => let ⟨τ, hτ⟩ := hs hx; ⟨τ, hτ.update hk⟩⟩
  · rw [Function.update_of_ne hτ] at ht
    obtain ⟨hr, hs⟩ := hw τ t rh lc rc r ht hp
    exact ⟨hr, fun hx => let ⟨τ, hτ⟩ := hs hx; ⟨τ, hτ.update hk⟩⟩

theorem World.Authentic.step {l : WorldLabel} (hw : w.Authentic K parties)
    (h : WorldStep K C parties w l w') : w'.Authentic K parties := by
  cases h with
  | @started σ identity features pinned sessionId fresh honest =>
    refine hw.update (fun h hh => ?_) fun rh lc rc r hp => ?_
    · rw [fresh] at hh; cases hh
    · unfold Handshake.start at hp
      dsimp only at hp
      split at hp <;> cases hp
  | @received σ h nonce frame session unforged =>
    refine hw.update (fun t ht => ?_) fun rh lc rc r hp => ?_
    · rw [session, Option.some.injEq] at ht
      subst ht
      exact ⟨Handshake.identity_receive, fun _ => Handshake.signed_receive⟩
    · rw [Handshake.localHello_receive]
      rcases Handshake.progress_receive_ok hp with hp | ⟨hp, signature, hd, hc⟩
      · exact hw σ h rh lc rc r session hp
      · obtain ⟨hr, hv, -⟩ := Handshake.conclude_ok hc
        refine ⟨hr, fun hx => ?_⟩
        obtain ⟨τ, hello, challenge, hs, he⟩ := unforged rh lc rc signature hp hd hx hv
        obtain ⟨rfl, rfl⟩ := challengePayload_injective he
        exact ⟨τ, hs⟩
  | @broke σ h e session =>
    refine hw.update (fun t ht => ?_) fun rh lc rc r hp => ?_
    · rw [session, Option.some.injEq] at ht
      subst ht
      exact ⟨Handshake.identity_fail, fun _ => Handshake.signed_fail⟩
    · rw [Handshake.localHello_fail]
      exact hw σ h rh lc rc r session (Handshake.progress_fail_ok hp)

theorem authentic_of_reachable (h : (world K C parties).Reachable w) : w.Authentic K parties :=
  h.invariant (fun w hw σ _ _ _ _ _ hσ => by rw [hw σ] at hσ; cases hσ) fun _ _ _ hI hs =>
    hI.step hs

/-- Nobody but another session signs for an honest identity: a session signs what it was fed. -/
theorem World.Authentic.signed_by_other (hw : w.Authentic K parties) {σ : ℕ} {h : Handshake}
    {rh : Hello} {lc rc : Challenge} {r : HandshakeResult} (hσ : w σ = some h)
    (hp : h.progress = .concluded rh lc rc (.ok r))
    (hx : HonestIdentity K parties r.remote.identity) (hn : ¬ h.Reflected) :
    ∃ τ ≠ σ, w.Signed K τ r.remote.identity h.localHello lc := by
  obtain ⟨rfl, hs⟩ := hw σ h rh lc rc r hσ hp
  obtain ⟨τ, hτ⟩ := hs hx
  refine ⟨τ, fun he => hn ?_, hτ⟩
  subst he
  obtain ⟨t, ht, -, hsigned⟩ := hτ
  rw [hσ, Option.some.injEq] at ht
  subst ht
  simp only [Handshake.signed, hp, Option.some.injEq, Prod.mk.injEq] at hsigned
  exact ⟨lc, .ok r, by rw [hp, hsigned.1, hsigned.2]⟩

/-- **Authentication.**  A session that returns an honest identity, and was not fed its own Hello
and challenge, got its own Hello and challenge signed by another session under that identity's
key. -/
theorem authenticated (hw : (world K C parties).Reachable w) {σ : ℕ} {h : Handshake} {rh : Hello}
    {lc rc : Challenge} {r : HandshakeResult} (hσ : w σ = some h)
    (hp : h.progress = .concluded rh lc rc (.ok r))
    (hx : HonestIdentity K parties r.remote.identity) (hn : ¬ h.Reflected) :
    ∃ τ ≠ σ, w.Signed K τ r.remote.identity h.localHello lc :=
  (authentic_of_reachable hw).signed_by_other hσ hp hx hn

/-! ### Sessions that succeed -/

namespace Handshake

theorem decodeFrame_encode {α : Type} (codec : Codec α) {a : α}
    (h : (codec.encode a).length ≤ maxFrame) : decodeFrame codec (codec.encode a) = .ok a := by
  rw [decodeFrame, readFrame, if_neg (Nat.not_lt.2 h)]
  simp only [codec.decode_encode]
  rfl

theorem writeFrame_ok {b : Bytes} (h : b.length ≤ maxFrame) : writeFrame b = .ok () :=
  if_neg (Nat.not_lt.2 h)

variable {h : Handshake} {nonce : ByteArr 32} {rh : Hello} {lc rc : Challenge}

theorem start_ok {identity : Identity} {features : List String} {sessionId : ByteArr 16}
    (hHello : (C.hello.encode (newHello K identity features sessionId)).length ≤ maxFrame) :
    start K C identity features none sessionId =
      ⟨identity, none, newHello K identity features sessionId, .helloSent⟩ := by
  simp only [start, writeFrame_ok hHello]

theorem receive_hello (hp : h.progress = .helloSent)
    (hHello : (C.hello.encode rh).length ≤ maxFrame)
    (hChallenge : (C.challenge.encode ⟨nonce⟩).length ≤ maxFrame) :
    h.receive K C nonce (C.hello.encode rh) =
      { h with progress := .challengeSent rh ⟨nonce⟩ } := by
  simp only [receive, hp, decodeFrame_encode _ hHello, writeFrame_ok hChallenge]

theorem receive_challenge (hp : h.progress = .challengeSent rh lc)
    (hChallenge : (C.challenge.encode rc).length ≤ maxFrame)
    (hSignature : (C.signature.encode (signChallenge K C h.identity rh rc)).length ≤ maxFrame) :
    h.receive K C nonce (C.challenge.encode rc) =
      { h with progress := .signatureSent rh lc rc } := by
  simp only [receive, hp, decodeFrame_encode _ hChallenge, writeFrame_ok hSignature]

/-- On a signature over its own Hello and challenge, by the key that the Hello it was fed names,
it succeeds. -/
theorem receive_signature {signer : Identity} (hp : h.progress = .signatureSent rh lc rc)
    (hkey : rh.identity = signer.pub K) (hpin : h.pinned = none)
    (hverify : ∀ b, K.verify (K.verifyingKey signer.signingKey) b (K.sign signer.signingKey b) =
      true)
    (hversion : h.localHello.version = rh.version)
    (hSignature : (C.signature.encode (signChallenge K C signer h.localHello lc)).length ≤
      maxFrame) :
    ∃ negotiated,
      h.receive K C nonce (C.signature.encode (signChallenge K C signer h.localHello lc)) =
        { h with progress := .concluded rh lc rc (.ok ⟨rh, negotiated⟩) } := by
  have hv : verifyChallenge K C h.localHello lc rh.identity
      (signChallenge K C signer h.localHello lc) = .ok () := by
    rw [verifyChallenge, hkey, signChallenge]
    exact if_pos (hverify _)
  obtain ⟨n, hn⟩ : ∃ n, negotiate h.localHello.version h.localHello.features rh.version
      rh.features = .ok n := by
    rw [negotiate, hversion, if_neg (not_not.2 rfl)]
    exact ⟨_, rfl⟩
  refine ⟨n, ?_⟩
  simp only [receive, hp, decodeFrame_encode _ hSignature, conclude, hv, hpin, hn]
  rfl

end Handshake

/-- The world with at most two sessions. -/
def World.duo (a b : Option Handshake) : World
  | 0 => a
  | 1 => b
  | _ => none

namespace World

variable {a b : Option Handshake} {h h' : Handshake} {nonce : ByteArr 32} {frame : Bytes}

theorem duo_update_zero (a' : Option Handshake) :
    Function.update (duo a b) 0 a' = duo a' b := by
  funext σ
  match σ with
  | 0 => exact Function.update_self ..
  | 1 => rfl
  | _ + 2 => rfl

theorem duo_update_one (b' : Option Handshake) :
    Function.update (duo a b) 1 b' = duo a b' := by
  funext σ
  match σ with
  | 0 => rfl
  | 1 => exact Function.update_self ..
  | _ + 2 => rfl

theorem step_receive_zero (hrec : h.receive K C nonce frame = h')
    (hunf : (duo (some h) b).Unforged K C parties h frame) :
    WorldStep K C parties (duo (some h) b) (.received 0 frame) (duo (some h') b) := by
  have hstep := @WorldStep.received K C parties _ 0 h nonce frame rfl hunf
  rwa [hrec, duo_update_zero] at hstep

theorem step_receive_one (hrec : h.receive K C nonce frame = h')
    (hunf : (duo a (some h)).Unforged K C parties h frame) :
    WorldStep K C parties (duo a (some h)) (.received 1 frame) (duo a (some h')) := by
  have hstep := @WorldStep.received K C parties _ 1 h nonce frame rfl hunf
  rwa [hrec, duo_update_one] at hstep

theorem step_start_zero {identity : Identity} (hmem : identity ∈ parties)
    {features : List String} {sessionId : ByteArr 16}
    (hHello : (C.hello.encode (newHello K identity features sessionId)).length ≤ maxFrame) :
    WorldStep K C parties (duo none none) (.started 0)
      (duo (some ⟨identity, none, newHello K identity features sessionId, .helloSent⟩) none) := by
  have hstep := @WorldStep.started K C parties (duo none none) 0 identity features none sessionId
    rfl hmem
  rwa [Handshake.start_ok hHello, duo_update_zero] at hstep

theorem step_start_one {identity : Identity} (hmem : identity ∈ parties)
    {features : List String} {sessionId : ByteArr 16}
    (hHello : (C.hello.encode (newHello K identity features sessionId)).length ≤ maxFrame) :
    WorldStep K C parties (duo a none) (.started 1)
      (duo a (some ⟨identity, none, newHello K identity features sessionId, .helloSent⟩)) := by
  have hstep := @WorldStep.started K C parties (duo a none) 1 identity features none sessionId
    rfl hmem
  rwa [Handshake.start_ok hHello, duo_update_one] at hstep

theorem init_duo : (world K C parties).init (duo none none) := fun σ => match σ with
  | 0 | 1 | _ + 2 => rfl

theorem reachable_receive_zero (hw : (world K C parties).Reachable (duo (some h) b))
    (hrec : h.receive K C nonce frame = h') (hunf : (duo (some h) b).Unforged K C parties h frame) :
    (world K C parties).Reachable (duo (some h') b) :=
  hw.step (step_receive_zero hrec hunf)

theorem reachable_receive_one (hw : (world K C parties).Reachable (duo a (some h)))
    (hrec : h.receive K C nonce frame = h') (hunf : (duo a (some h)).Unforged K C parties h frame) :
    (world K C parties).Reachable (duo a (some h')) :=
  hw.step (step_receive_one hrec hunf)

theorem reachable_start_zero {identity : Identity} (hmem : identity ∈ parties)
    {features : List String} {sessionId : ByteArr 16}
    (hHello : (C.hello.encode (newHello K identity features sessionId)).length ≤ maxFrame) :
    (world K C parties).Reachable
      (duo (some ⟨identity, none, newHello K identity features sessionId, .helloSent⟩) none) :=
  (Lts.Reachable.of_init init_duo).step (step_start_zero hmem hHello)

theorem reachable_start_one {identity : Identity} (hmem : identity ∈ parties)
    {features : List String} {sessionId : ByteArr 16}
    (hHello : (C.hello.encode (newHello K identity features sessionId)).length ≤ maxFrame)
    (hw : (world K C parties).Reachable (duo a none)) :
    (world K C parties).Reachable
      (duo a (some ⟨identity, none, newHello K identity features sessionId, .helloSent⟩)) :=
  hw.step (step_start_one hmem hHello)

theorem unforged_of_ne {w : World}
    (h : ∀ rh lc rc, h'.progress ≠ .signatureSent rh lc rc) : w.Unforged K C parties h' frame :=
  fun rh lc rc _ hp => absurd hp (h rh lc rc)

end World

/-- **A session that is fed its own Hello, its own challenge and its own signature returns its
own identity**, though there is no other session. -/
theorem accepts_reflection {identity : Identity} (hmem : identity ∈ parties)
    (features : List String) (sessionId : ByteArr 16) (nonce : ByteArr 32)
    (hverify : ∀ b, K.verify (K.verifyingKey identity.signingKey) b
      (K.sign identity.signingKey b) = true)
    (hHello : (C.hello.encode (newHello K identity features sessionId)).length ≤ maxFrame)
    (hChallenge : (C.challenge.encode ⟨nonce⟩).length ≤ maxFrame)
    (hSignature : ∀ s, (C.signature.encode s).length ≤ maxFrame) :
    ∃ h lc r, (world K C parties).Reachable (.duo (some h) none) ∧
      h.progress = .concluded h.localHello lc lc (.ok r) ∧ r.remote.identity = identity.pub K := by
  let lh := newHello K identity features sessionId
  have h₁ : (world K C parties).Reachable
      (.duo (some ⟨identity, none, lh, .challengeSent lh ⟨nonce⟩⟩) none) :=
    World.reachable_receive_zero (World.reachable_start_zero hmem hHello)
      (Handshake.receive_hello rfl hHello hChallenge)
          (World.unforged_of_ne fun _ _ _ h => by cases h)
  have h₂ : (world K C parties).Reachable
      (.duo (some ⟨identity, none, lh, .signatureSent lh ⟨nonce⟩ ⟨nonce⟩⟩) none) :=
    World.reachable_receive_zero h₁
      (@Handshake.receive_challenge K C _ nonce _ _ ⟨nonce⟩ rfl hChallenge (hSignature _))
      (World.unforged_of_ne fun _ _ _ h => by cases h)
  obtain ⟨n, hn⟩ := @Handshake.receive_signature K C
    ⟨identity, none, lh, .signatureSent lh ⟨nonce⟩ ⟨nonce⟩⟩ nonce lh ⟨nonce⟩ ⟨nonce⟩
        identity rfl rfl
    rfl hverify rfl (hSignature _)
  refine ⟨_, ⟨nonce⟩, ⟨lh, n⟩, World.reachable_receive_zero h₂ hn ?_, rfl, rfl⟩
  -- the signature is the session's own
  intro rh lc rc _ hp _ _ _
  cases hp
  exact ⟨0, lh, ⟨nonce⟩, ⟨_, rfl, rfl, rfl⟩, rfl⟩

namespace Meeting

/-- An honest party. -/
def alice : Identity := ⟨List.Vector.replicate 32 1⟩

/-- Another. -/
def bob : Identity := ⟨List.Vector.replicate 32 2⟩

/-- Alice's Hello. -/
def helloAlice : Hello := newHello .sample alice [] (List.Vector.replicate 16 3)

/-- Bob's Hello. -/
def helloBob : Hello := newHello .sample bob [] (List.Vector.replicate 16 4)

/-- Alice's challenge. -/
def challengeAlice : Challenge := ⟨List.Vector.replicate 32 5⟩

/-- Bob's challenge. -/
def challengeBob : Challenge := ⟨List.Vector.replicate 32 6⟩

theorem verify_sample (k : ByteArr 32) (b : Bytes) :
    Primitives.sample.verify (Primitives.sample.verifyingKey k) b (Primitives.sample.sign k b) =
      true := decide_eq_true rfl

theorem length_challenge (c : Challenge) :
    (HandshakeCodecs.postcard.challenge.encode c).length ≤ maxFrame := by
  have h : (HandshakeCodecs.postcard.challenge.encode c).length = 32 := c.nonce.toList_length
  rw [h]; decide

theorem length_signature (s : SignatureMessage) :
    (HandshakeCodecs.postcard.signature.encode s).length ≤ maxFrame := by
  have h : (HandshakeCodecs.postcard.signature.encode s).length = 64 := s.signature.toList_length
  rw [h]; decide

theorem length_helloAlice :
    (HandshakeCodecs.postcard.hello.encode helloAlice).length ≤ maxFrame := by decide

theorem length_helloBob :
    (HandshakeCodecs.postcard.hello.encode helloBob).length ≤ maxFrame := by decide

/-- Both sessions after the Hellos and challenges were exchanged. -/
theorem reachable_signed : (world .sample .postcard {alice, bob}).Reachable
    (.duo (some ⟨alice, none, helloAlice, .signatureSent helloBob challengeAlice challengeBob⟩)
      (some ⟨bob, none, helloBob, .signatureSent helloAlice challengeBob challengeAlice⟩)) := by
  have hmem : ∀ i : Identity, i = alice ∨ i = bob →
      i ∈ ({alice, bob} : Set Identity) := fun _ h => h
  have hstart := World.reachable_start_one (hmem bob (.inr rfl)) length_helloBob
    (World.reachable_start_zero (hmem alice (.inl rfl)) length_helloAlice)
  have h₁ := World.reachable_receive_zero hstart
    (Handshake.receive_hello rfl length_helloBob (length_challenge challengeAlice))
    (World.unforged_of_ne fun _ _ _ h => by cases h)
  have h₂ := World.reachable_receive_one h₁
    (Handshake.receive_hello rfl length_helloAlice (length_challenge challengeBob))
    (World.unforged_of_ne fun _ _ _ h => by cases h)
  have h₃ := World.reachable_receive_zero h₂
    (@Handshake.receive_challenge .sample .postcard _ challengeAlice.nonce _ _ challengeBob rfl
      (length_challenge _) (length_signature _))
    (World.unforged_of_ne fun _ _ _ h => by cases h)
  exact World.reachable_receive_one h₃
    (@Handshake.receive_challenge .sample .postcard _ challengeBob.nonce _ _ challengeAlice rfl
      (length_challenge _) (length_signature _))
    (World.unforged_of_ne fun _ _ _ h => by cases h)

end Meeting

open Meeting in
/-- Alice alone, fed her own three frames, returns her own identity, which no other session has
signed for. -/
theorem not_authenticated :
    ¬ ∀ (w : World) (σ : ℕ) (h : Handshake) (rh : Hello) (lc rc : Challenge) (r : HandshakeResult),
      (world .sample .postcard {alice}).Reachable w → w σ = some h →
        h.progress = .concluded rh lc rc (.ok r) →
          HonestIdentity .sample {alice} r.remote.identity →
            ∃ τ ≠ σ, w.Signed .sample τ r.remote.identity h.localHello lc := by
  intro hall
  obtain ⟨h, lc, r, hw, hp, hr⟩ := accepts_reflection (K := .sample) (C := .postcard)
    (Set.mem_singleton alice) [] (List.Vector.replicate 16 3) challengeAlice.nonce
    (verify_sample _) length_helloAlice (length_challenge _) length_signature
  obtain ⟨τ, hne, t, ht, -⟩ := hall _ 0 h _ lc lc r hw rfl hp ⟨alice, rfl, hr.symm⟩
  match τ with
  | 0 => exact hne rfl
  | 1 => cases ht
  | _ + 2 => cases ht

open Meeting in
/-- Alice meets Bob, and Bob has signed her Hello and her challenge. -/
theorem authenticated_meeting : ∃ (w : World) (τ : ℕ), τ ≠ 0 ∧
    w.Signed .sample τ (bob.pub .sample) helloAlice challengeAlice := by
  obtain ⟨n, hn⟩ := @Handshake.receive_signature .sample .postcard
    ⟨alice, none, helloAlice, .signatureSent helloBob challengeAlice challengeBob⟩
    challengeAlice.nonce helloBob challengeAlice challengeBob bob rfl rfl rfl (verify_sample _) rfl
    (length_signature _)
  have hw := World.reachable_receive_zero reachable_signed hn fun rh lc rc _ hp _ _ _ => by
    cases hp
    exact ⟨1, helloAlice, challengeAlice, ⟨_, rfl, rfl, rfl⟩, rfl⟩
  have hzero : ∀ a b : Option Handshake, World.duo a b 0 = a := fun _ _ => rfl
  obtain ⟨τ, hτ, hs⟩ := authenticated hw (hzero _ _) rfl ⟨bob, .inr rfl, rfl⟩ (by
    rintro ⟨lc, result, hp⟩
    have : helloBob = helloAlice := (Progress.concluded.inj hp).1
    exact absurd this (by decide))
  exact ⟨_, τ, hτ, hs⟩

end Neonet
