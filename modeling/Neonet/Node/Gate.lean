import Neonet.Node.Pump
import Neonet.Transport.Completes

/-!
# Whom a node connects to

A node dials the cores of its bootstrap list, each of which is pinned to a key, and accepts those
that its allow list permits.  In both cases a handshake comes first, and a connection is pumped only
after it.

* `dial`, `handleInbound` : what comes before `pump_connection`.
* `Opened` : a connection that is pumped, and with whom; `Opened.trusted` : **the configuration
  trusts it.**
* `Confirmed` : another session of the remote party has signed what this one sent.
* `opened_confirmed_iff` : **connections with honest parties are confirmed iff the configuration
  does not trust the node's own key**: a node that trusts itself takes its reflection for a peer.
-/

namespace Neonet

/-- The address of a peer. -/
structure SocketAddr where
  ip : String
  port : UInt16
  deriving DecidableEq

/-- An address, as it is printed. -/
def SocketAddr.text (a : SocketAddr) : String := a.ip ++ ":" ++ toString a.port.toNat

/-- `BootstrapEntry`. -/
structure BootstrapEntry where
  address : SocketAddr
  pinnedPublicKey : ByteArr 32
  deriving DecidableEq

/-- `AllowList::open`. -/
def AllowList.opened : AllowList := ⟨none⟩

/-- `AllowList::only`. -/
def AllowList.only (identities : List PublicIdentity) : AllowList := ⟨some identities⟩

/-- What the handshake of a session has come to, if it is over. -/
def Handshake.outcome (h : Handshake) : Option (Except IoError HandshakeResult) :=
  match h.progress with
  | .concluded _ _ _ result => some result
  | .failed e => some (.error e)
  | .helloSent | .challengeSent _ _ | .signatureSent _ _ _ => none

/-- What comes of an attempt to connect to an entry of the bootstrap list. -/
inductive DialAttempt
  | unreachable (e : IoError)
  | connected (peer : SocketAddr) (session : ℕ)

/-- Where a connection comes from. -/
inductive Origin
  | dialed (bootstrap : List BootstrapEntry)
  | accepted (allow : AllowList)

section Operations

variable (K : Primitives) (w : World)

/-- The key that `handshake_tcp_with_bootstrap` pins. -/
def pinnedIdentity (bootstrap : List BootstrapEntry) (peer : SocketAddr) :
    Except IoError PublicIdentity :=
  match bootstrap.find? fun entry => entry.address = peer with
  | some entry => .ok ⟨entry.pinnedPublicKey⟩
  | none => .error (.custom .permissionDenied ("no bootstrap trust entry for peer " ++ peer.text))

/-- What a session has come to. -/
def World.outcome (σ : ℕ) : Option (Except IoError HandshakeResult) :=
  (w σ).bind Handshake.outcome

/-- The loop of `dial`: the session that is pumped, and with whom. -/
def dialLoop (bootstrap : List BootstrapEntry) :
    List DialAttempt → Option IoError → Option (Except IoError (ℕ × PublicIdentity))
  | [], lastErr =>
    some (.error (lastErr.getD (.custom .notFound "no bootstrap core nodes configured")))
  | .unreachable e :: rest, _ => dialLoop bootstrap rest (some e)
  | .connected peer σ :: rest, _ =>
    match pinnedIdentity bootstrap peer with
    | .error e => dialLoop bootstrap rest (some e)
    | .ok _ =>
      match w.outcome σ with
      | none => none
      | some (.error e) => dialLoop bootstrap rest (some e)
      | some (.ok result) => some (.ok (σ, result.remote.identity))

/-- `dial`, with what comes of the attempts to connect to its entries. -/
def dial (bootstrap : List BootstrapEntry) (attempts : List DialAttempt) :
    Option (Except IoError (ℕ × PublicIdentity)) := dialLoop w bootstrap attempts none

/-- `handle_inbound`: with whom the session is pumped. -/
def handleInbound (peer : SocketAddr) (allow : AllowList) (σ : ℕ) :
    Option (Except IoError PublicIdentity) :=
  (w.outcome σ).map fun result => result.bind fun result =>
    if allow.permits result.remote.identity then .ok result.remote.identity
    else .error (.custom .permissionDenied ("peer " ++ peer.text ++ " authenticated as " ++
      result.remote.identity.fingerprint K ++ " but is not on the allow list"))

/-- A session of the node, with that pin. -/
def World.IsSession (me : Identity) (σ : ℕ) (pinned : Option PublicIdentity) : Prop :=
  ∃ h, w σ = some h ∧ h.identity = me ∧ h.pinned = pinned

/-- The sessions of the attempts are those of the node, pinned to the keys of their peers. -/
def Wired (me : Identity) (bootstrap : List BootstrapEntry) (attempts : List DialAttempt) :
    Prop :=
  ∀ peer σ pinned, .connected peer σ ∈ attempts → pinnedIdentity bootstrap peer = .ok pinned →
    w.IsSession me σ (some pinned)

/-- The configuration trusts an identity: the first entry with some address pins it, or the allow
list permits it. -/
def Origin.Trusts (x : PublicIdentity) : Origin → Prop
  | .dialed bootstrap => ∃ peer, pinnedIdentity bootstrap peer = .ok x
  | .accepted allow => allow.permits x = true

/-- A session that the node pumps, and with whom. -/
inductive Opened (me : Identity) : Origin → ℕ → PublicIdentity → Prop
  | dialed {bootstrap : List BootstrapEntry} {attempts : List DialAttempt} {σ : ℕ}
      {x : PublicIdentity} (wired : Wired w me bootstrap attempts)
      (dialed : dial w bootstrap attempts = some (.ok (σ, x))) : Opened me (.dialed bootstrap) σ x
  | accepted {peer : SocketAddr} {allow : AllowList} {σ : ℕ} {x : PublicIdentity}
      (session : w.IsSession me σ none) (accepted : handleInbound K w peer allow σ = some (.ok x)) :
      Opened me (.accepted allow) σ x

/-- Another session of the remote party has signed the Hello and the challenge of this one. -/
def Confirmed (σ : ℕ) (x : PublicIdentity) : Prop :=
  ∃ h rh lc rc result, w σ = some h ∧ h.progress = .concluded rh lc rc result ∧
    ∃ τ ≠ σ, w.Signed K τ x h.localHello lc

end Operations

variable {K : Primitives} {C : HandshakeCodecs} {parties : Set Identity} {w : World}
  {me : Identity} {o : Origin} {σ : ℕ} {x : PublicIdentity} {bootstrap : List BootstrapEntry}
  {attempts : List DialAttempt} {lastErr : Option IoError}

/-! ### What comes before a connection is pumped -/

theorem Handshake.outcome_ok {h : Handshake} {result : HandshakeResult}
    (ho : h.outcome = some (.ok result)) :
    ∃ rh lc rc, h.progress = .concluded rh lc rc (.ok result) := by
  unfold outcome at ho
  split at ho
  · rename_i rh lc rc r hp
    obtain rfl := Option.some.inj ho
    exact ⟨rh, lc, rc, hp⟩
  · cases ho
  all_goals cases ho

theorem dialLoop_ok (h : dialLoop w bootstrap attempts lastErr = some (.ok (σ, x))) :
    ∃ peer pinned result, .connected peer σ ∈ attempts ∧
      pinnedIdentity bootstrap peer = .ok pinned ∧ w.outcome σ = some (.ok result) ∧
        result.remote.identity = x := by
  induction attempts generalizing lastErr with
  | nil => cases h
  | cons a rest ih =>
    have hrest : ∀ lastErr, dialLoop w bootstrap rest lastErr = some (.ok (σ, x)) → _ := fun _ h =>
      (ih h).imp fun peer => Exists.imp fun pinned => Exists.imp fun result =>
        And.imp_left (List.mem_cons_of_mem a)
    cases a with
    | unreachable e => exact hrest _ h
    | connected peer τ =>
      rw [dialLoop] at h
      cases hpin : pinnedIdentity bootstrap peer with
      | error e => rw [hpin] at h; exact hrest _ h
      | ok pinned =>
        rw [hpin] at h
        cases hout : w.outcome τ with
        | none => rw [hout] at h; cases h
        | some res =>
          rw [hout] at h
          cases res with
          | error e => exact hrest _ h
          | ok result =>
            simp only [Option.some.injEq, Except.ok.injEq, Prod.mk.injEq] at h
            obtain ⟨rfl, rfl⟩ := h
            exact ⟨peer, pinned, result, List.mem_cons_self, hpin, hout, rfl⟩

theorem handleInbound_ok {peer : SocketAddr} {allow : AllowList}
    (h : handleInbound K w peer allow σ = some (.ok x)) : ∃ result,
      w.outcome σ = some (.ok result) ∧ result.remote.identity = x ∧ allow.permits x = true := by
  obtain ⟨res, hout, hres⟩ := Option.map_eq_some_iff.1 h
  cases res with
  | error e => cases hres
  | ok result =>
    simp only [Except.bind] at hres
    split at hres
    · rename_i hpermits
      obtain rfl := Except.ok.inj hres
      exact ⟨result, hout, rfl, hpermits⟩
    · cases hres

/-! ### What a session keeps -/

namespace Handshake

variable {h : Handshake} {nonce : ByteArr 32} {frame : Bytes} {e : IoError}

@[simp] theorem pinned_receive : (h.receive K C nonce frame).pinned = h.pinned := by
  unfold receive
  split
  · split
    · rfl
    · split <;> rfl
  · split
    · rfl
    · split <;> rfl
  · split <;> rfl
  all_goals rfl

@[simp] theorem pinned_fail : (h.fail e).pinned = h.pinned := by
  unfold fail; split <;> rfl

theorem conclude_pinned {lh rh : Hello} {lc : Challenge} {pinned : PublicIdentity}
    {signature : SignatureMessage} {r : HandshakeResult}
    (hc : conclude K C lh rh lc (some pinned) signature = .ok r) :
    pinned = rh.identity := by
  by_contra hne
  have hkey : pinned.publicKey ≠ rh.identity.publicKey := by
    rintro hkey
    cases pinned
    cases hrh : rh.identity
    exact hne (by rw [hrh] at hkey ⊢; exact congrArg _ hkey)
  unfold conclude at hc
  cases hv : verifyChallenge K C lh lc rh.identity signature with
  | error e => rw [hv] at hc; cases hc
  | ok =>
    rw [hv] at hc
    dsimp only at hc
    rw [if_pos hkey] at hc
    cases hc

end Handshake

/-- A session says who it is, and returns the key that it is pinned to. -/
structure Handshake.Sound (K : Primitives) (h : Handshake) : Prop where
  hello : h.localHello.identity = h.identity.pub K
  pinned : ∀ rh lc rc r, h.progress = .concluded rh lc rc (.ok r) → ∀ pin, h.pinned = some pin →
    pin = rh.identity

theorem handshakeSound_of_reachable (hw : (world K C parties).Reachable w) {h : Handshake}
    (hσ : w σ = some h) : h.Sound K := by
  refine hw.invariant (I := fun w => ∀ σ h, w σ = some h → h.Sound K)
    (fun w hw σ h hσ => by rw [hw σ] at hσ; cases hσ) (fun w l w' hI hstep => ?_) σ h hσ
  have hupdate : ∀ τ h', h'.Sound K →
      ∀ σ h, Function.update w τ (some h') σ = some h → h.Sound K := by
    intro τ h' hh' σ h hσ
    by_cases hτ : σ = τ
    · subst hτ
      rw [Function.update_self] at hσ
      exact Option.some.inj hσ ▸ hh'
    · rw [Function.update_of_ne hτ] at hσ
      exact hI σ h hσ
  cases hstep with
  | started fresh honest =>
    refine hupdate _ _ ⟨rfl, fun rh lc rc r hp => ?_⟩
    unfold Handshake.start at hp
    dsimp only at hp
    split at hp <;> cases hp
  | @received τ h nonce frame session unforged =>
    have hh := hI τ h session
    refine hupdate _ _ ⟨?_, fun rh lc rc r hp pin hpin => ?_⟩
    · rw [Handshake.localHello_receive, Handshake.identity_receive, hh.hello]
    · rw [Handshake.pinned_receive] at hpin
      rcases Handshake.progress_receive_ok hp with hp | ⟨-, signature, -, hc⟩
      · exact hh.pinned rh lc rc r hp pin hpin
      · rw [hpin] at hc
        exact Handshake.conclude_pinned hc
  | @broke τ h e session =>
    have hh := hI τ h session
    refine hupdate _ _ ⟨?_, fun rh lc rc r hp pin hpin => ?_⟩
    · rw [Handshake.localHello_fail, Handshake.identity_fail, hh.hello]
    · rw [Handshake.pinned_fail] at hpin
      exact hh.pinned rh lc rc r (Handshake.progress_fail_ok hp) pin hpin

/-! ### Whom a node pumps -/

theorem Opened.session (h : Opened K w me o σ x) : ∃ s rh lc rc r, w σ = some s ∧
    s.identity = me ∧ s.progress = .concluded rh lc rc (.ok r) ∧ r.remote.identity = x := by
  have hout : ∃ s r, w σ = some s ∧ s.identity = me ∧ s.outcome = some (.ok r) ∧
      r.remote.identity = x := by
    cases h with
    | dialed wired dialed =>
      obtain ⟨peer, pinned, r, hmem, hpin, hout, hx⟩ := dialLoop_ok dialed
      obtain ⟨s, hs, hme, -⟩ := wired peer σ pinned hmem hpin
      rw [World.outcome, hs] at hout
      exact ⟨s, r, hs, hme, hout, hx⟩
    | accepted session accepted =>
      obtain ⟨r, hout, hx, -⟩ := handleInbound_ok accepted
      obtain ⟨s, hs, hme, -⟩ := session
      rw [World.outcome, hs] at hout
      exact ⟨s, r, hs, hme, hout, hx⟩
  obtain ⟨s, r, hs, hme, hout, hx⟩ := hout
  obtain ⟨rh, lc, rc, hp⟩ := Handshake.outcome_ok hout
  exact ⟨s, rh, lc, rc, r, hs, hme, hp, hx⟩

/-- **The configuration trusts whom the node pumps.** -/
theorem Opened.trusted (hw : (world K C parties).Reachable w) (h : Opened K w me o σ x) :
    o.Trusts x := by
  cases h with
  | dialed wired dialed =>
    obtain ⟨peer, pinned, r, hmem, hpin, hout, rfl⟩ := dialLoop_ok dialed
    obtain ⟨s, hs, -, hpinned⟩ := wired peer σ pinned hmem hpin
    rw [World.outcome, hs] at hout
    obtain ⟨rh, lc, rc, hp⟩ := Handshake.outcome_ok hout
    obtain ⟨hremote, -⟩ := authentic_of_reachable hw σ s rh lc rc r hs hp
    have hkey := (handshakeSound_of_reachable hw hs).pinned rh lc rc r hp pinned hpinned
    exact ⟨peer, by rw [hpin, hkey, hremote]⟩
  | accepted session accepted =>
    obtain ⟨-, -, -, hpermits⟩ := handleInbound_ok accepted
    exact hpermits

/-- A node that does not trust its own key is not taken in by its reflection. -/
theorem Opened.confirmed (hw : (world K C parties).Reachable w) (h : Opened K w me o σ x)
    (hme : ¬ o.Trusts (me.pub K)) (hx : HonestIdentity K parties x) : Confirmed K w σ x := by
  obtain ⟨s, rh, lc, rc, r, hs, hidentity, hp, rfl⟩ := h.session
  have hauthentic := authentic_of_reachable hw
  have hreflected : ¬ s.Reflected := by
    rintro ⟨lc', result, hp'⟩
    obtain ⟨rfl, -⟩ := Progress.concluded.inj (hp.symm.trans hp')
    obtain ⟨hremote, -⟩ := hauthentic σ s _ lc rc r hs hp
    have hown := (handshakeSound_of_reachable hw hs).hello
    refine hme ?_
    rw [← hidentity, ← hown, ← hremote]
    exact h.trusted hw
  exact ⟨s, rh, lc, rc, _, hs, hp, hauthentic.signed_by_other hs hp hx hreflected⟩

/-! ### Its own reflection -/

section Reflection

/-- The world in which a session has read its own frames, and there is no other session. -/
def World.reflected (K : Primitives) (p : Endpoint) : World :=
  .duo (some (p.session K p (.replicate 32 0) (.replicate 32 0) 3)) none

variable {p : Endpoint}

theorem World.reflected_alone {τ : ℕ} (hτ : τ ≠ 0) : World.reflected K p τ = none := by
  obtain ⟨n, rfl⟩ := Nat.exists_eq_succ_of_ne_zero hτ
  cases n <;> rfl

theorem reachable_reflected (hmem : p.identity ∈ parties)
    (hverify : ∀ b, K.verify (K.verifyingKey p.identity.signingKey) b
      (K.sign p.identity.signingKey b) = true) (hsmall : SmallFrames K C fun _ => p) :
    (world K C parties).Reachable (.reflected K p) := by
  let nonce : ByteArr 32 := .replicate 32 0
  have hstart : Handshake.start K C p.identity p.features p.pinned p.sessionId =
      p.session K p nonce nonce 0 := by
    have hhello := hsmall.hello true
    rw [Endpoint.hello] at hhello
    simp only [Handshake.start, Handshake.writeFrame_ok hhello]
    rfl
  have h₀ : (world K C parties).Reachable (.duo (some (p.session K p nonce nonce 0)) none) := by
    have hstep := @WorldStep.started K C parties (World.duo none none) 0 p.identity p.features
      p.pinned p.sessionId rfl hmem
    rw [World.duo_update_zero, hstart] at hstep
    exact (Lts.Reachable.of_init World.init_duo).step hstep
  have hreceive : ∀ n f, (p.frames K C p nonce nonce)[n]? = some f →
      (p.session K p nonce nonce n).receive K C nonce f = p.session K p nonce nonce (n + 1) :=
    fun n f hf => receive_session (x := true) hsmall hverify hf fun _ => rfl
  have h₁ := World.reachable_receive_zero h₀ (hreceive 0 _ rfl)
    (World.unforged_of_ne fun _ _ _ h => by cases h)
  have h₂ := World.reachable_receive_zero h₁ (hreceive 1 _ rfl)
    (World.unforged_of_ne fun _ _ _ h => by cases h)
  refine World.reachable_receive_zero h₂ (hreceive 2 _ rfl) fun rh lc rc _ hp _ _ _ => ?_
  -- the signature is the session's own
  obtain ⟨rfl, rfl, rfl⟩ := Progress.signatureSent.inj hp
  exact ⟨0, p.hello K, ⟨nonce⟩, ⟨_, rfl, rfl, rfl⟩, rfl⟩

theorem outcome_reflected (hpin : ∀ pin ∈ p.pinned, pin = p.identity.pub K) :
    ∃ r, (World.reflected K p).outcome 0 = some (.ok r) ∧
      r.remote.identity = p.identity.pub K := by
  have hok : ¬ ∃ pin ∈ p.pinned, pin.publicKey ≠ (p.identity.pub K).publicKey := by
    rintro ⟨pin, hmem, hne⟩
    exact hne (by rw [hpin pin hmem])
  have houtcome : (World.reflected K p).outcome 0 = some (p.outcome K p) := rfl
  rw [Endpoint.outcome, if_neg hok] at houtcome
  exact ⟨_, houtcome, rfl⟩

/-- The attempts if only one address can be reached. -/
def reaching (peer : SocketAddr) (bootstrap : List BootstrapEntry) : List DialAttempt :=
  bootstrap.map fun entry => if entry.address = peer then .connected peer 0
    else .unreachable (.custom .other "connection refused")

theorem dialLoop_reaching {peer : SocketAddr} {pinned : PublicIdentity} {r : HandshakeResult}
    {entries : List BootstrapEntry} (hpin : pinnedIdentity bootstrap peer = .ok pinned)
    (hmem : ∃ entry ∈ entries, entry.address = peer) (hout : w.outcome 0 = some (.ok r)) :
    dialLoop w bootstrap (reaching peer entries) lastErr = some (.ok (0, r.remote.identity)) := by
  induction entries generalizing lastErr with
  | nil =>
    obtain ⟨_, hmem, -⟩ := hmem
    cases hmem
  | cons entry entries ih =>
    rw [reaching, List.map_cons]
    by_cases haddr : entry.address = peer
    · rw [if_pos haddr, dialLoop, hpin]
      simp only [hout]
    · rw [if_neg haddr, dialLoop]
      refine ih ?_
      obtain ⟨e, he, hpeer⟩ := hmem
      rcases List.mem_cons.1 he with rfl | he
      · exact absurd hpeer haddr
      · exact ⟨e, he, hpeer⟩

/-- **A node that trusts its own key pumps its reflection.** -/
theorem opened_reflected {features : List String} {sessionId : ByteArr 16} (hmem : me ∈ parties)
    (hverify : ∀ b, K.verify (K.verifyingKey me.signingKey) b (K.sign me.signingKey b) = true)
    (hsmall : ∀ pinned, SmallFrames K C fun _ => ⟨me, features, pinned, sessionId⟩)
    (hself : o.Trusts (me.pub K)) :
    ∃ w, (world K C parties).Reachable w ∧ Opened K w me o 0 (me.pub K) ∧ ∀ τ ≠ 0, w τ = none := by
  cases o with
  | dialed bootstrap =>
    obtain ⟨peer, hpin⟩ := hself
    let p : Endpoint := ⟨me, features, some (me.pub K), sessionId⟩
    obtain ⟨r, hout, hr⟩ := outcome_reflected (K := K) (p := p) fun pin hpin =>
      (Option.mem_some.1 hpin).symm
    have hentry : ∃ entry ∈ bootstrap, entry.address = peer := by
      rw [pinnedIdentity] at hpin
      split at hpin
      · rename_i entry hfind
        exact ⟨entry, List.mem_of_find?_eq_some hfind, by simpa using List.find?_some hfind⟩
      · cases hpin
    have hwired : Wired (.reflected K p) me bootstrap (reaching peer bootstrap) := by
      intro peer' σ pinned hattempt hpin'
      obtain ⟨entry, -, hconnected⟩ := List.mem_map.1 hattempt
      split at hconnected
      · obtain ⟨rfl, rfl⟩ := DialAttempt.connected.inj hconnected
        rw [hpin] at hpin'
        exact ⟨_, rfl, rfl, congrArg some (Except.ok.inj hpin')⟩
      · cases hconnected
    have hdialed : dial (.reflected K p) bootstrap (reaching peer bootstrap) =
        some (.ok (0, me.pub K)) := by rw [dial, dialLoop_reaching hpin hentry hout, hr]
    exact ⟨_, reachable_reflected hmem hverify (hsmall _), .dialed hwired hdialed,
      fun _ => World.reflected_alone⟩
  | accepted allow =>
    let p : Endpoint := ⟨me, features, none, sessionId⟩
    obtain ⟨r, hout, hr⟩ := outcome_reflected (K := K) (p := p) fun pin hpin => (by cases hpin)
    have hpermits : allow.permits r.remote.identity = true := by
      rw [hr]
      exact hself
    have haccepted : handleInbound K (.reflected K p) ⟨"127.0.0.1", 9⟩ allow 0 =
        some (.ok (me.pub K)) := by
      rw [handleInbound, hout, Option.map_some]
      simp only [Except.bind, if_pos hpermits]
      rw [hr]
    exact ⟨_, reachable_reflected hmem hverify (hsmall _), .accepted ⟨_, rfl, rfl, rfl⟩ haccepted,
      fun _ => World.reflected_alone⟩

end Reflection

/-- **A node pumps only whom its configuration trusts; and its connections with honest parties are
confirmed by them iff it does not trust its own key.** -/
theorem opened_confirmed_iff {features : List String} {sessionId : ByteArr 16}
    (hmem : me ∈ parties)
    (hverify : ∀ b, K.verify (K.verifyingKey me.signingKey) b (K.sign me.signingKey b) = true)
    (hsmall : ∀ pinned, SmallFrames K C fun _ => ⟨me, features, pinned, sessionId⟩) :
    (∀ w, (world K C parties).Reachable w → ∀ σ x, Opened K w me o σ x → o.Trusts x) ∧
      ((∀ w, (world K C parties).Reachable w → ∀ σ x, Opened K w me o σ x →
        HonestIdentity K parties x → Confirmed K w σ x) ↔ ¬ o.Trusts (me.pub K)) := by
  refine ⟨fun w hw σ x h => h.trusted hw, fun hall hself => ?_,
    fun hself w hw σ x h hx => h.confirmed hw hself hx⟩
  obtain ⟨w, hw, hopened, halone⟩ := opened_reflected hmem hverify hsmall hself
  obtain ⟨_, _, _, _, _, _, _, τ, hτ, t, ht, -⟩ := hall w hw 0 _ hopened ⟨me, hmem, rfl⟩
  rw [halone τ hτ] at ht
  cases ht

open Meeting in
/-- Alice allows Bob only, so that all her connections are with whom she allows and
those with either of them are confirmed. -/
theorem opened_confirmed_iff_alice :
    (∀ w, (world .sample .postcard {alice, bob}).Reachable w → ∀ σ x,
      Opened .sample w alice (.accepted (.only [bob.pub .sample])) σ x →
        (Origin.accepted (.only [bob.pub .sample])).Trusts x) ∧
      ∀ w, (world .sample .postcard {alice, bob}).Reachable w → ∀ σ x,
        Opened .sample w alice (.accepted (.only [bob.pub .sample])) σ x →
          HonestIdentity .sample {alice, bob} x → Confirmed .sample w σ x := by
  have hsmall : ∀ pinned, SmallFrames .sample .postcard fun _ =>
      ⟨alice, [], pinned, List.Vector.replicate 16 3⟩ := fun _ =>
    ⟨fun _ => length_helloAlice, length_challenge, length_signature⟩
  have hpermits : (AllowList.only [bob.pub .sample]).permits (alice.pub .sample) ≠ true := by decide
  have hself : ¬ (Origin.accepted (.only [bob.pub .sample])).Trusts (alice.pub .sample) :=
    hpermits
  have hmem : alice ∈ ({alice, bob} : Set Identity) := .inl rfl
  have hopened := opened_confirmed_iff (o := .accepted (.only [bob.pub .sample])) hmem
    (verify_sample _) hsmall
  exact ⟨hopened.1, hopened.2.2 hself⟩

end Neonet
