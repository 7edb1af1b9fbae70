import Neonet.Transport.Handshake

/-!
# What a signature binds

The signature that a session verifies covers its own Hello and challenge.  The signer's Hello is
not under it, so that a session may have been fed another Hello than the one the signer sent.

* `freshWorld` : the honest parties' sessions, with nonces and session identifiers drawn afresh.
* `World.Offered` : whoever returns an honest peer's identity returns the Hello that the peer
  sent in the session that signed.
* `Unaltered` : a session that was fed another one's Hello is given its challenge only if that
  one was fed this session's Hello as it was sent.
* `offered_of_run` : **in a run of unaltered steps every session that succeeds returns what its
  peer offered.**
* `not_offered` : Alice is fed Bob's Hello with a feature that Bob never offered, and returns it.
-/

namespace Neonet

namespace Handshake

/-- The Hello that the session was fed and the challenge that it drew then. -/
def drawn (h : Handshake) : Option (Hello × Challenge) :=
  match h.progress with
  | .challengeSent rh lc | .signatureSent rh lc _ | .concluded rh lc _ _ => some (rh, lc)
  | .helloSent | .failed _ => none

end Handshake

/-- Nothing that is drawn from `w` to `w'` was drawn or signed before. -/
structure World.Fresh (w w' : World) : Prop where
  sessionId : ∀ σ h, w' σ = some h → w σ = none →
    ∀ τ t, w τ = some t → t.localHello.sessionId ≠ h.localHello.sessionId
  challenge : ∀ σ h fed c, w' σ = some h → h.drawn = some (fed, c) →
    (∀ h₀, w σ = some h₀ → h₀.drawn = none) → ∀ τ t, w τ = some t →
      (∀ fed', t.drawn ≠ some (fed', c)) ∧ ∀ hello, t.signed ≠ some (hello, c)

section Protocol

variable (K : Primitives) (C : HandshakeCodecs) (parties : Set Identity)

/-- The sessions of the honest parties, who never draw a nonce or a session identifier twice. -/
def freshWorld : Lts World WorldLabel where
  init := (world K C parties).init
  step w l w' := (world K C parties).step w l w' ∧ w.Fresh w'

/-- A session that succeeded with another honest party's identity returned the Hello that this
party sent in a session in which it signed this session's Hello and challenge, and speaks what
the two sessions offered. -/
def World.Offered (w : World) : Prop :=
  ∀ σ h rh lc rc r, w σ = some h → h.progress = .concluded rh lc rc (.ok r) →
    HonestIdentity K parties r.remote.identity → r.remote.identity ≠ h.identity.pub K →
      ∃ τ t, w τ = some t ∧ t.identity.pub K = r.remote.identity ∧
        t.signed = some (h.localHello, lc) ∧ t.localHello = r.remote ∧
        negotiate h.localHello.version h.localHello.features t.localHello.version
          t.localHello.features = .ok r.negotiated

/-- A session that was fed another session's Hello is given the challenge of that session only
if that session was fed this one's Hello as it was sent, or a Hello under another identity. -/
def Unaltered (w : World) : WorldLabel → Prop
  | .received τ frame => ∀ t rh lc rc, w τ = some t → t.progress = .challengeSent rh lc →
      Handshake.decodeFrame C.challenge frame = .ok rc → ∀ σ h fed, w σ = some h →
        h.localHello = rh → h.drawn = some (fed, rc) → fed.identity = t.identity.pub K →
          fed = t.localHello
  | .started _ | .broke _ => True

end Protocol

variable {K : Primitives} {C : HandshakeCodecs} {parties : Set Identity} {w w' : World}

namespace Handshake

variable {h : Handshake} {nonce : ByteArr 32} {frame : Bytes} {e : IoError}

/-- What a session was fed and drew stays, and is new only after it sent its Hello. -/
theorem drawn_receive {y : Hello × Challenge} (hy : (h.receive K C nonce frame).drawn = some y) :
    h.drawn = some y ∨ h.drawn = none ∧ h.signed = none ∧
      (h.receive K C nonce frame).signed = none := by
  unfold receive at hy ⊢
  split at hy
  · rename_i hp
    refine .inr ⟨by rw [drawn, hp], by rw [signed, hp], ?_⟩
    split
    · rfl
    · split <;> rfl
  · rename_i rh lc hp
    refine .inl ?_
    split at hy
    · cases hy
    · rw [drawn, hp]
      split at hy <;> exact hy
  · rename_i rh lc rc hp
    refine .inl ?_
    rw [drawn, hp]
    split at hy <;> exact hy
  · exact .inl hy
  · exact .inl hy

theorem drawn_fail {y : Hello × Challenge} (hy : (h.fail e).drawn = some y) :
    h.drawn = some y := by
  unfold fail at hy
  split at hy
  · cases hy
  · cases hy
  · rename_i rh lc rc hp
    rw [drawn, hp]
    exact hy
  · exact hy
  · exact hy

theorem signed_receive_eq {hello : Hello} {c : Challenge}
    (hs : (h.receive K C nonce frame).signed = some (hello, c)) :
    h.signed = some (hello, c) ∨
      ∃ lc, h.progress = .challengeSent hello lc ∧ decodeFrame C.challenge frame = .ok c := by
  unfold receive at hs
  split at hs
  · split at hs
    · cases hs
    · split at hs <;> cases hs
  · rename_i rh lc hp
    refine .inr ?_
    split at hs
    · cases hs
    · rename_i rc hd
      have hx : rh = hello ∧ rc = c := by split at hs <;> exact Prod.mk.inj (Option.some.inj hs)
      obtain ⟨rfl, rfl⟩ := hx
      exact ⟨lc, hp, hd⟩
  · rename_i rh lc rc hp
    refine .inl ?_
    rw [signed, hp]
    split at hs <;> exact hs
  · exact .inl hs
  · exact .inl hs

theorem signed_fail_eq {x : Hello × Challenge} (hs : (h.fail e).signed = some x) :
    h.signed = some x := by
  unfold fail at hs
  split at hs
  · cases hs
  · cases hs
  · rename_i rh lc rc hp
    rw [signed, hp]
    exact hs
  · exact hs
  · exact hs

end Handshake

/-! ### Who was fed what -/

/-- Whoever signed a session's Hello and challenge has the Hello that this session was fed, if it
was fed one under the signer's identity. -/
def World.Tied (K : Primitives) (w : World) : Prop :=
  ∀ σ τ h t fed c, w σ = some h → w τ = some t → h.drawn = some (fed, c) →
    t.signed = some (h.localHello, c) → fed.identity = t.identity.pub K → fed = t.localHello

/-- To keep the invariant, what the changed session draws anew nobody has signed, and what it
signs anew is tied to whoever drew it. -/
theorem World.Tied.update {ρ : ℕ} {h' : Handshake} (hw : w.Tied K)
    (hdrawn : ∀ fed c, h'.drawn = some (fed, c) →
      (∃ h, w ρ = some h ∧ h.localHello = h'.localHello ∧ h.drawn = some (fed, c)) ∨
        h'.signed = none ∧ ∀ τ t hello, w τ = some t → t.signed ≠ some (hello, c))
    (hsigned : ∀ hello c, h'.signed = some (hello, c) →
      (∃ t, w ρ = some t ∧ t.localHello = h'.localHello ∧ t.identity = h'.identity ∧
        t.signed = some (hello, c)) ∨
        ∀ σ h fed, w σ = some h → h.localHello = hello → h.drawn = some (fed, c) →
          fed.identity = h'.identity.pub K → fed = h'.localHello) :
    World.Tied K (Function.update w ρ (some h')) := by
  intro σ τ h t fed c hσ hτ hd hs hid
  -- whose session is the changed one
  have hold : (∃ h₀, w σ = some h₀ ∧ h₀.localHello = h.localHello ∧ h₀.drawn = some (fed, c)) ∨
      (σ = ρ ∧ h.signed = none) ∧ ∀ τ t hello, w τ = some t → t.signed ≠ some (hello, c) := by
    by_cases hρ : σ = ρ
    · subst hρ
      rw [Function.update_self, Option.some.injEq] at hσ
      subst hσ
      exact (hdrawn fed c hd).imp_right fun hnew => ⟨⟨rfl, hnew.1⟩, hnew.2⟩
    · rw [Function.update_of_ne hρ] at hσ
      exact .inl ⟨h, hσ, rfl, hd⟩
  have hold' : (∃ t₀, w τ = some t₀ ∧ t₀.localHello = t.localHello ∧ t₀.identity = t.identity ∧
      t₀.signed = some (h.localHello, c)) ∨ τ = ρ ∧
        ∀ σ h₀ fed, w σ = some h₀ → h₀.localHello = h.localHello → h₀.drawn = some (fed, c) →
          fed.identity = t.identity.pub K → fed = t.localHello := by
    by_cases hρ : τ = ρ
    · subst hρ
      rw [Function.update_self, Option.some.injEq] at hτ
      subst hτ
      exact (hsigned _ c hs).imp_right fun hnew => ⟨rfl, hnew⟩
    · rw [Function.update_of_ne hρ] at hτ
      exact .inl ⟨t, hτ, rfl, rfl, hs⟩
  obtain ⟨h₀, hσ₀, hlocal, hd₀⟩ | ⟨⟨rfl, hself⟩, hnew⟩ := hold
  · obtain ⟨t₀, hτ₀, hlocal', hid', hs₀⟩ | ⟨-, hnew⟩ := hold'
    · rw [← hlocal']
      exact hw σ τ h₀ t₀ fed c hσ₀ hτ₀ hd₀ (hlocal ▸ hs₀) (hid' ▸ hid)
    · exact hnew σ h₀ fed hσ₀ hlocal hd₀ hid
  · obtain ⟨t₀, hτ₀, -, -, hs₀⟩ | ⟨hτρ, -⟩ := hold'
    · exact absurd hs₀ (hnew τ t₀ _ hτ₀)
    -- the session that draws has not signed yet
    · subst hτρ
      rw [hσ, Option.some.injEq] at hτ
      subst hτ
      rw [hself] at hs
      cases hs

theorem World.Tied.step {l : WorldLabel} (hw : w.Tied K)
    (h : WorldStep K C parties w l w') (hfresh : w.Fresh w') (hu : Unaltered K C w l) :
    w'.Tied K := by
  cases h with
  | @started σ identity features pinned sessionId fresh honest =>
    refine hw.update (fun fed c hd => ?_) fun hello c hs => ?_
    · unfold Handshake.start at hd
      dsimp only at hd
      split at hd <;> cases hd
    · unfold Handshake.start at hs
      dsimp only at hs
      split at hs <;> cases hs
  | @received σ h nonce frame session unforged =>
    have hself : Function.update w σ (some (h.receive K C nonce frame)) σ =
        some (h.receive K C nonce frame) := Function.update_self ..
    refine hw.update (fun fed c hd => ?_) fun hello c hs => ?_
    · rcases Handshake.drawn_receive hd with hold | ⟨hnone, -, hunsigned⟩
      · exact .inl ⟨h, session, Handshake.localHello_receive.symm, hold⟩
      · refine .inr ⟨hunsigned, fun τ t hello hτ => ?_⟩
        refine (hfresh.challenge σ _ fed c hself hd (fun h₀ hσ => ?_) τ t hτ).2 hello
        rw [session, Option.some.injEq] at hσ
        exact hσ ▸ hnone
    · rw [Handshake.localHello_receive, Handshake.identity_receive]
      rcases Handshake.signed_receive_eq hs with hold | ⟨lc, hp, hdec⟩
      · exact .inl ⟨h, session, rfl, rfl, hold⟩
      · exact .inr (hu h hello lc c session hp hdec)
  | @broke σ h e session =>
    refine hw.update (fun fed c hd => ?_) fun hello c hs => ?_
    · exact .inl ⟨h, session, Handshake.localHello_fail.symm, Handshake.drawn_fail hd⟩
    · exact .inl ⟨h, session, Handshake.localHello_fail.symm, Handshake.identity_fail.symm,
        Handshake.signed_fail_eq hs⟩

/-- Every session that succeeded speaks what its Hello and the one it was fed offer. -/
def World.Agreed (w : World) : Prop :=
  ∀ σ h rh lc rc r, w σ = some h → h.progress = .concluded rh lc rc (.ok r) →
    negotiate h.localHello.version h.localHello.features rh.version rh.features =
      .ok r.negotiated

theorem World.Agreed.update {σ : ℕ} {h' : Handshake} (hw : w.Agreed)
    (hself : ∀ rh lc rc r, h'.progress = .concluded rh lc rc (.ok r) →
      negotiate h'.localHello.version h'.localHello.features rh.version rh.features =
        .ok r.negotiated) : World.Agreed (Function.update w σ (some h')) := by
  intro τ t rh lc rc r ht hp
  by_cases hτ : τ = σ
  · subst hτ
    rw [Function.update_self, Option.some.injEq] at ht
    subst ht
    exact hself rh lc rc r hp
  · rw [Function.update_of_ne hτ] at ht
    exact hw τ t rh lc rc r ht hp

theorem World.Agreed.step {l : WorldLabel} (hw : w.Agreed) (h : WorldStep K C parties w l w') :
    w'.Agreed := by
  cases h with
  | @started σ identity features pinned sessionId fresh honest =>
    refine hw.update fun rh lc rc r hp => ?_
    unfold Handshake.start at hp
    dsimp only at hp
    split at hp <;> cases hp
  | @received σ h nonce frame session unforged =>
    refine hw.update fun rh lc rc r hp => ?_
    rw [Handshake.localHello_receive]
    rcases Handshake.progress_receive_ok hp with hp | ⟨hp, signature, hd, hc⟩
    · exact hw σ h rh lc rc r session hp
    · exact (Handshake.conclude_ok hc).2.2
  | @broke σ h e session =>
    refine hw.update fun rh lc rc r hp => ?_
    rw [Handshake.localHello_fail]
    exact hw σ h rh lc rc r session (Handshake.progress_fail_ok hp)

theorem reachable_of_fresh {P : World → WorldLabel → Prop}
    (h : ((freshWorld K C parties).restrict P).Reachable w) :
    (world K C parties).Reachable w :=
  h.invariant (fun _ hw => .of_init hw) fun _ _ _ hI hs => hI.step hs.1.1

/-- **Binding.**  If in a run no session is given the challenge of a session that was fed an
altered Hello of its, whoever succeeds with another honest party's identity returns the Hello
that this party sent in the session that signed. -/
theorem offered_of_run (h : ((freshWorld K C parties).restrict (Unaltered K C)).Reachable w) :
    w.Offered K parties := by
  have htied : w.Tied K := h.invariant
    (fun w hw σ _ _ _ _ _ hσ => by rw [hw σ] at hσ; cases hσ)
    fun _ _ _ hI hs => hI.step hs.1.1 hs.1.2 hs.2
  have hagreed : w.Agreed := (reachable_of_fresh h).invariant
    (fun w hw σ _ _ _ _ _ hσ => by rw [hw σ] at hσ; cases hσ)
    fun _ _ _ hI hs => hI.step hs
  intro σ s rh lc rc r hσ hp hx hne
  have hdrawn : s.drawn = some (rh, lc) := by rw [Handshake.drawn, hp]
  obtain ⟨rfl, hs⟩ := authentic_of_reachable (reachable_of_fresh h) σ s rh lc rc r hσ hp
  obtain ⟨τ, t, hτ, hid, hsigned⟩ := hs hx
  have hlocal := htied σ τ s t _ lc hσ hτ hdrawn hsigned hid.symm
  refine ⟨τ, t, hτ, hid, hsigned, hlocal.symm, ?_⟩
  rw [← hlocal]
  exact hagreed σ s _ lc rc r hσ hp

/-! ### Alice meets Bob -/

namespace World

variable {a b : Option Handshake} {h h' : Handshake}

theorem fresh_update {ρ : ℕ}
    (hid : w ρ = none → ∀ τ t, w τ = some t → t.localHello.sessionId ≠ h'.localHello.sessionId)
    (hchallenge : ∀ fed c, h'.drawn = some (fed, c) → (∀ h, w ρ = some h → h.drawn = none) →
      ∀ τ t, w τ = some t → (∀ fed', t.drawn ≠ some (fed', c)) ∧
        ∀ hello, t.signed ≠ some (hello, c)) : w.Fresh (Function.update w ρ (some h')) where
  sessionId σ s hs hnone := by
    by_cases hσ : σ = ρ
    · subst hσ
      rw [Function.update_self, Option.some.injEq] at hs
      exact hs ▸ hid hnone
    · rw [Function.update_of_ne hσ, hnone] at hs
      cases hs
  challenge σ s fed c hs hd hnone := by
    by_cases hσ : σ = ρ
    · subst hσ
      rw [Function.update_self, Option.some.injEq] at hs
      exact hchallenge fed c (hs ▸ hd) hnone
    · rw [Function.update_of_ne hσ] at hs
      rw [hnone s hs] at hd
      cases hd

theorem forall_duo {P : Handshake → Prop} :
    (∀ σ t, duo a b σ = some t → P t) ↔ (∀ t, a = some t → P t) ∧ ∀ t, b = some t → P t := by
  refine ⟨fun h => ⟨h 0, h 1⟩, fun h σ t ht => ?_⟩
  match σ with
  | 0 => exact h.1 t ht
  | 1 => exact h.2 t ht
  | _ + 2 => cases ht

theorem fresh_start_zero (hd : h.drawn = none) : (duo none none).Fresh (duo (some h) none) := by
  have hfresh : (duo none none).Fresh (Function.update (duo none none) 0 (some h)) := by
    refine fresh_update (fun _ => forall_duo.2 ⟨?_, ?_⟩) fun fed c hnew => ?_
    · exact fun _ ht => by cases ht
    · exact fun _ ht => by cases ht
    · rw [hd] at hnew
      cases hnew
  rwa [duo_update_zero] at hfresh

theorem fresh_start_one (hd : h'.drawn = none)
    (hid : h.localHello.sessionId ≠ h'.localHello.sessionId) :
    (duo (some h) none).Fresh (duo (some h) (some h')) := by
  have hfresh : (duo (some h) none).Fresh (Function.update (duo (some h) none) 1 (some h')) := by
    refine fresh_update (fun _ => forall_duo.2 ⟨?_, ?_⟩) fun fed c hnew => ?_
    · rintro _ ⟨⟩
      exact hid
    · exact fun _ ht => by cases ht
    · rw [hd] at hnew
      cases hnew
  rwa [duo_update_one] at hfresh

/-- A session that receives may draw a challenge that nobody has drawn or signed. -/
theorem fresh_receive_zero
    (hd : ∀ fed c, h'.drawn = some (fed, c) → h.drawn = none →
      ∀ t, t = h ∨ some t = b → (∀ fed', t.drawn ≠ some (fed', c)) ∧
        ∀ hello, t.signed ≠ some (hello, c)) : (duo (some h) b).Fresh (duo (some h') b) := by
  have hfresh : (duo (some h) b).Fresh (Function.update (duo (some h) b) 0 (some h')) :=
    fresh_update (fun hnone => nomatch hnone) fun fed c hnew hnone => forall_duo.2
      ⟨fun t ht => hd fed c hnew (hnone h rfl) t (.inl (Option.some.inj ht).symm),
        fun t ht => hd fed c hnew (hnone h rfl) t (.inr ht.symm)⟩
  rwa [duo_update_zero] at hfresh

theorem fresh_receive_one
    (hd : ∀ fed c, h'.drawn = some (fed, c) → h.drawn = none →
      ∀ t, t = h ∨ some t = a → (∀ fed', t.drawn ≠ some (fed', c)) ∧
        ∀ hello, t.signed ≠ some (hello, c)) : (duo a (some h)).Fresh (duo a (some h')) := by
  have hfresh : (duo a (some h)).Fresh (Function.update (duo a (some h)) 1 (some h')) :=
    fresh_update (fun hnone => nomatch hnone) fun fed c hnew hnone => forall_duo.2
      ⟨fun t ht => hd fed c hnew (hnone h rfl) t (.inr ht.symm),
        fun t ht => hd fed c hnew (hnone h rfl) t (.inl (Option.some.inj ht).symm)⟩
  rwa [duo_update_one] at hfresh

end World

namespace Meeting

/-- Alice's Hello, with a feature. -/
def helloRelaying : Hello := newHello .sample alice ["relay"] (List.Vector.replicate 16 3)

/-- Bob's Hello, with a feature that Bob did not offer. -/
def helloAltered : Hello := { helloBob with features := ["relay"] }

theorem length_helloRelaying :
    (HandshakeCodecs.postcard.hello.encode helloRelaying).length ≤ maxFrame := by decide

theorem length_helloAltered :
    (HandshakeCodecs.postcard.hello.encode helloAltered).length ≤ maxFrame := by decide

/-- Alice is fed `fed` as Bob's Hello, Bob is fed hers, and each signs for the other. -/
theorem reachable_fed {P : World → WorldLabel → Prop} {fed : Hello}
    (hid : fed.identity = bob.pub .sample) (hversion : helloRelaying.version = fed.version)
    (hfed : (HandshakeCodecs.postcard.hello.encode fed).length ≤ maxFrame)
    (hP : ∀ w l, (∀ τ frame t rh lc, l = .received τ frame → w τ = some t →
      t.progress ≠ .challengeSent rh lc) → P w l)
    (hsigns : P (.duo (some ⟨alice, none, helloRelaying, .challengeSent fed challengeAlice⟩)
        (some ⟨bob, none, helloBob, .challengeSent helloRelaying challengeBob⟩))
      (.received 0 (HandshakeCodecs.postcard.challenge.encode challengeBob)))
    (hsigns' : P (.duo
        (some ⟨alice, none, helloRelaying, .signatureSent fed challengeAlice challengeBob⟩)
        (some ⟨bob, none, helloBob, .challengeSent helloRelaying challengeBob⟩))
      (.received 1 (HandshakeCodecs.postcard.challenge.encode challengeAlice))) :
    ∃ negotiated, ((freshWorld .sample .postcard {alice, bob}).restrict P).Reachable
      (.duo
        (some ⟨alice, none, helloRelaying,
          .concluded fed challengeAlice challengeBob (.ok ⟨fed, negotiated⟩)⟩)
        (some ⟨bob, none, helloBob,
          .signatureSent helloRelaying challengeBob challengeAlice⟩)) := by
  obtain ⟨n, hn⟩ := @Handshake.receive_signature .sample .postcard
    ⟨alice, none, helloRelaying, .signatureSent fed challengeAlice challengeBob⟩
    challengeAlice.nonce fed challengeAlice challengeBob bob rfl hid rfl (verify_sample _) hversion
    (length_signature _)
  have hinit : ((freshWorld .sample .postcard {alice, bob}).restrict P).Reachable
      (.duo none none) :=
    .of_init (@World.init_duo .sample .postcard {alice, bob})
  have h₁ := hinit.step ⟨⟨World.step_start_zero (.inl rfl) length_helloRelaying,
    World.fresh_start_zero rfl⟩, hP _ _ fun _ _ _ _ _ h => by cases h⟩
  have h₂ := h₁.step ⟨⟨World.step_start_one (.inr rfl) length_helloBob,
    World.fresh_start_one rfl (by decide)⟩, hP _ _ fun _ _ _ _ _ h => by cases h⟩
  have hne : challengeAlice ≠ challengeBob := by decide
  -- the Hellos
  have h₃ := h₂.step ⟨⟨World.step_receive_zero
    (Handshake.receive_hello rfl hfed (length_challenge challengeAlice))
    (World.unforged_of_ne fun _ _ _ h => by cases h), World.fresh_receive_zero (by
      rintro _ _ ⟨⟩ - t (rfl | ⟨⟨⟩⟩) <;> exact ⟨fun _ h => (nomatch h), fun _ h => nomatch h⟩)⟩,
    hP _ _ fun _ _ _ _ _ h ht hp => by cases h; cases ht; cases hp⟩
  have h₄ := h₃.step ⟨⟨World.step_receive_one
    (Handshake.receive_hello rfl length_helloRelaying (length_challenge challengeBob))
    (World.unforged_of_ne fun _ _ _ h => by cases h), World.fresh_receive_one (by
      rintro _ _ ⟨⟩ - t (rfl | ⟨⟨⟩⟩)
      · exact ⟨fun _ h => (nomatch h), fun _ h => nomatch h⟩
      · exact ⟨fun _ h => hne (Prod.mk.inj (Option.some.inj h)).2, fun _ h => nomatch h⟩)⟩,
    hP _ _ fun _ _ _ _ _ h ht hp => by cases h; cases ht; cases hp⟩
  -- the challenges
  have h₅ := h₄.step ⟨⟨World.step_receive_zero
    (@Handshake.receive_challenge .sample .postcard _ challengeAlice.nonce _ _ challengeBob rfl
      (length_challenge _) (length_signature _))
    (World.unforged_of_ne fun _ _ _ h => by cases h),
    World.fresh_receive_zero fun _ _ _ h => nomatch h⟩, hsigns⟩
  have h₆ := h₅.step ⟨⟨World.step_receive_one
    (@Handshake.receive_challenge .sample .postcard _ challengeBob.nonce _ _ challengeAlice rfl
      (length_challenge _) (length_signature _))
    (World.unforged_of_ne fun _ _ _ h => by cases h),
    World.fresh_receive_one fun _ _ _ h => nomatch h⟩, hsigns'⟩
  -- Bob's signature is no forgery
  refine ⟨n, h₆.step ⟨⟨World.step_receive_zero hn fun rh lc rc _ hp _ _ _ => ?_,
    World.fresh_receive_zero fun _ _ _ h => nomatch h⟩,
    hP _ _ fun _ _ _ _ _ h ht hp => by cases h; cases ht; cases hp⟩⟩
  cases hp
  exact ⟨1, helloRelaying, challengeAlice, ⟨_, rfl, hid.symm, rfl⟩, rfl⟩

end Meeting

open Meeting in
/-- Alice and Bob meet, and nothing is altered on the way. -/
theorem offered_meeting : ∃ (w : World) (h : Handshake) (rh : Hello) (lc rc : Challenge)
    (r : HandshakeResult), w 0 = some h ∧ h.progress = .concluded rh lc rc (.ok r) ∧
      r.remote = helloBob ∧ w.Offered .sample {alice, bob} := by
  have hne : helloRelaying ≠ helloBob := by decide
  obtain ⟨n, hw⟩ := @reachable_fed (Unaltered .sample .postcard) helloBob rfl rfl length_helloBob
    (fun w l hl => by
      cases l with
      | received τ frame => exact fun t rh lc rc ht hp => absurd hp (hl τ frame t rh lc rfl ht)
      | started | broke => trivial)
    (fun t rh lc rc ht hp _ σ h fed hσ hlocal hd _ => by
      cases ht
      cases hp
      match σ with
      | 0 => cases hσ; exact absurd hlocal hne
      | 1 => cases hσ; cases hd; rfl
      | _ + 2 => cases hσ)
    (fun t rh lc rc ht hp _ σ h fed hσ hlocal hd _ => by
      cases ht
      cases hp
      match σ with
      | 0 => cases hσ; cases hd; rfl
      | 1 => cases hσ; exact absurd hlocal.symm hne
      | _ + 2 => cases hσ)
  exact ⟨_, _, helloBob, challengeAlice, challengeBob, ⟨helloBob, n⟩, rfl, rfl, rfl,
    offered_of_run hw⟩

open Meeting in
/-- Alice is fed Bob's Hello with a feature that Bob did not offer, and returns it. -/
theorem not_offered : ¬ ∀ w : World, (freshWorld .sample .postcard {alice, bob}).Reachable w →
    w.Offered .sample {alice, bob} := by
  intro hall
  obtain ⟨n, hw⟩ := @reachable_fed (fun _ _ => True) helloAltered rfl rfl length_helloAltered
    (fun _ _ _ => trivial) trivial trivial
  have hw' := hw.invariant (I := (freshWorld .sample .postcard {alice, bob}).Reachable)
    (fun _ h => .of_init h) fun _ _ _ hI hs => hI.step hs.1
  have hids : bob.pub .sample ≠ alice.pub .sample := by decide
  have hAlice : helloRelaying ≠ helloAltered := by decide
  have hBob : helloBob ≠ helloAltered := by decide
  obtain ⟨τ, t, hτ, -, -, hlocal, -⟩ := hall _ hw' 0 _ helloAltered challengeAlice challengeBob _
    rfl rfl ⟨bob, .inr rfl, rfl⟩ hids
  match τ with
  | 0 => cases hτ; exact hAlice hlocal
  | 1 => cases hτ; exact hBob hlocal
  | _ + 2 => cases hτ

end Neonet
