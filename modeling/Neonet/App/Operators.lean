import Neonet.App.Revoked
import Neonet.App.Sizes
import Neonet.Lib.Past
import Neonet.Storage.Integrity

/-!
# Operators revoke peers

Whoever is an operator of a core may revoke a peer with a signature over an epoch and the peer's
key.  The core keeps the list of the revoked peers, and no epoch.

* `coreRun` : a core that handles messages and whose owner adds operators.
* `Revoking`, `revoking_step` : the ways a broadcast can end.
* `revocation_spec` : **in every run of frames of the cores the list holds just the peers whose
  revocation was acknowledged, and acknowledged are just broadcasts with an operator's signature.**
* `replayProof_iff` : **replays are refused iff each of them lacks the credentials.**
* `replayProof_of_increasing` : none is replayed if each sender's epochs increase.
* `not_replayProof` : a replayed broadcast is acknowledged again.
-/

namespace Neonet

open FileTree FsM

/-- What happens to a core: a message arrives, or its owner adds an operator. -/
inductive CoreEvent
  | arrived (d : Draws) (request : Message)
  | operatorSet (x : PublicIdentity)

section Core

variable (V : AppEnv)

/-- A core at work: each event is answered with the messages that it makes the core send. -/
def coreRun : Machine AppState CoreEvent (List Message) where
  step s
    | .arrived d request =>
      ((V.handle d request s).2.sent.drop s.sent.length, (V.handle d request s).2)
    | .operatorSet x =>
      ([], { s with disk := (setOperator V.primitives V.storage V.home x s.disk).2 })

/-- The fingerprints of the operators. -/
def operatorNames (t : Tree) : List String :=
  (operators V.storage V.home t).1.toOption.getD []

/-- The sender is an operator, and the signature is its own. -/
structure Credentials (request : Message) (x : PublicIdentity) (epoch : UInt64)
    (signature : Signature) (s : AppState) : Prop where
  operator : request.sender.fingerprint V.primitives ∈ operatorNames V s.disk
  signed : V.primitives.verify request.sender.publicKey (revokePayload epoch x) signature = true

/-- The event is a broadcast of `who` that revokes `x`. -/
def CoreEvent.Broadcasts (who x : PublicIdentity) (epoch : UInt64) : CoreEvent → Prop
  | .arrived _ request => request.sender = who ∧ ∃ signature,
      AppFrame.decode V.frames request.payload = .core (.revokeBroadcast x epoch signature)
  | .operatorSet _ => False

/-- The event is answered with the frame, and with nothing else. -/
def CoreEvent.AnsweredWith (frame : CoreFrame) : CoreEvent × List Message → Prop
  | (.arrived _ request, sent) =>
    sent = [replyMessage V request (V.frames.encode (.core frame))]
  | (.operatorSet _, _) => False

instance (f : CoreFrame) (e : CoreEvent × List Message) :
    Decidable (CoreEvent.AnsweredWith V f e) :=
  match e with
  | (.arrived _ _, _) => inferInstanceAs (Decidable (_ = _))
  | (.operatorSet _, _) => inferInstanceAs (Decidable False)

/-- The event is a broadcast of `who` that revokes `x`, and is acknowledged. -/
def Acks (who x : PublicIdentity) (epoch : UInt64) (e : CoreEvent × List Message) : Prop :=
  e.1.Broadcasts V who x epoch ∧ CoreEvent.AnsweredWith V (.revokeAck epoch) e

/-- The event, if it is a message, is a frame of the cores. -/
def CoreEvent.OfCores : CoreEvent → Prop
  | .arrived _ request => ∃ f, AppFrame.decode V.frames request.payload = .core f
  | .operatorSet _ => True

/-- The peer that the event revokes, if it is a broadcast. -/
def CoreEvent.target : CoreEvent → Option PublicIdentity
  | .arrived _ request =>
    match AppFrame.decode V.frames request.payload with
    | .core (.revokeBroadcast x _ _) => some x
    | _ => none
  | .operatorSet _ => none

/-- The list of the revoked peers, after a run of frames of the cores from an empty one. -/
structure RevocationSpec (s₀ : AppState) (events : List CoreEvent) : Prop where
  /-- Revoked are the peers whose revocation was acknowledged. -/
  revoked_iff : ∀ x : PublicIdentity,
    NoCollision V.primitives
        ((x :: events.filterMap (CoreEvent.target V)).map (·.publicKey.toList)) →
      ((nodeIsRevoked V.primitives V.storage V.home x ((coreRun V).after s₀ events).disk).1 =
          .ok true ↔
        ∃ e ∈ (coreRun V).transcript s₀ events, ∃ who epoch, Acks V who x epoch e)
  /-- What is acknowledged has an operator's signature. -/
  acked : ∀ pre d request post x epoch signature,
    events = pre ++ .arrived d request :: post →
      AppFrame.decode V.frames request.payload = .core (.revokeBroadcast x epoch signature) →
      CoreEvent.AnsweredWith V (.revokeAck epoch)
        (.arrived d request,
          ((coreRun V).step ((coreRun V).after s₀ pre) (.arrived d request)).1) →
        Credentials V request x epoch signature ((coreRun V).after s₀ pre)
  /-- What has none is refused, and changes nothing. -/
  refused : ∀ pre d request post x epoch signature,
    events = pre ++ .arrived d request :: post →
      AppFrame.decode V.frames request.payload = .core (.revokeBroadcast x epoch signature) →
      ¬ Credentials V request x epoch signature ((coreRun V).after s₀ pre) →
        (∃ reason, CoreEvent.AnsweredWith V (.revokeRefuse epoch reason)
          (.arrived d request,
            ((coreRun V).step ((coreRun V).after s₀ pre) (.arrived d request)).1)) ∧
        ((coreRun V).after s₀ (pre ++ [.arrived d request])).disk =
          ((coreRun V).after s₀ pre).disk ∧
        ((coreRun V).after s₀ (pre ++ [.arrived d request])).hosts =
          ((coreRun V).after s₀ pre).hosts
  /-- Nobody is taken off the list. -/
  grows : ∀ pre post, events = pre ++ post →
    revokedNames V.storage V.home ((coreRun V).after s₀ pre).disk ⊆
      revokedNames V.storage V.home ((coreRun V).after s₀ events).disk

end Core

variable {V : AppEnv} {request : Message} {s s' : AppState} {x who : PublicIdentity}
  {epoch : UInt64} {signature : Signature} {d : Draws}

/-! ### One broadcast -/

theorem coreRun_arrived {f : CoreFrame} (hf : AppFrame.decode V.frames request.payload = .core f) :
    (coreRun V).step s (.arrived d request) =
      ((V.handleCore request f s).2.sent.drop s.sent.length, (V.handleCore request f s).2) := by
  have hhandle : V.handle d request s = V.handleCore request f s := by
    rw [AppEnv.handle, hf]
    rfl
  rw [← hhandle]
  rfl

/-- What comes of a broadcast: the peer is put on the list and that is acknowledged, the list cannot
be written, or the broadcast is refused. -/
inductive Revoking (V : AppEnv) (request : Message) (x : PublicIdentity) (epoch : UInt64)
    (signature : Signature) (s : AppState) : List Message × AppState → Prop
  | applied {s' : AppState} (credentials : Credentials V request x epoch signature s)
      (parses : V.parsesKey request.sender.publicKey = true)
      (names : revokedNames V.storage V.home s'.disk =
        (revokedNames V.storage V.home s.disk).insert (x.fingerprint V.primitives)) :
      Revoking V request x epoch signature s
        ([replyMessage V request (V.frames.encode (.core (.revokeAck epoch)))], s')
  | failed {s' : AppState} (credentials : Credentials V request x epoch signature s)
      (parses : V.parsesKey request.sender.publicKey = true)
      (names : revokedNames V.storage V.home s'.disk = revokedNames V.storage V.home s.disk) :
      Revoking V request x epoch signature s ([], s')
  | refused {reason : String} {s' : AppState}
      (lacks : ¬ (Credentials V request x epoch signature s ∧
        V.parsesKey request.sender.publicKey = true))
      (disk : s'.disk = s.disk) (hosts : s'.hosts = s.hosts) :
      Revoking V request x epoch signature s
        ([replyMessage V request (V.frames.encode (.core (.revokeRefuse epoch reason)))], s')

theorem revoking_refuse (hV : V.Postcard) {reason : String} (short : reason.utf8ByteSize < 128)
    (lacks : ¬ (Credentials V request x epoch signature s ∧
      V.parsesKey request.sender.publicKey = true)) :
    Revoking V request x epoch signature s
      ((V.refuseRevoke request epoch reason s).sent.drop s.sent.length,
        V.refuseRevoke request epoch reason s) := by
  rw [AppEnv.refuseRevoke, drop_sent_replied rfl (fits_revokeRefuse hV short)]
  exact .refused lacks AppState.replied_disk AppState.replied_hosts

/-- **What a broadcast comes to.** -/
theorem revoking_step (hV : V.Postcard) (d : Draws) (s : AppState)
    (hf : AppFrame.decode V.frames request.payload = .core (.revokeBroadcast x epoch signature)) :
    Revoking V request x epoch signature s ((coreRun V).step s (.arrived d request)) := by
  rw [coreRun_arrived hf, AppEnv.handleCore]
  split_ifs with hoperator hparses hsigned
  · exact revoking_refuse hV (by decide) fun h => Bool.false_ne_true (hparses.symm.trans h.2)
  · exact revoking_refuse hV (by decide) fun h =>
      Bool.false_ne_true (hsigned.symm.trans h.1.signed)
  · have hcredentials : Credentials V request x epoch signature s :=
      ⟨hoperator, eq_true_of_ne_false hsigned⟩
    rw [AppState.onDisk]
    cases hrun : revokeIdentity V.primitives V.storage V.home x s.disk with
    | mk r disk =>
    rcases revokeIdentity_cases hrun with ⟨rfl, hnames⟩ | ⟨⟨e, rfl⟩, hnames⟩
    · have hsent : (({ s with disk } : AppState).replied V request
          (.core (.revokeAck epoch))).sent.drop s.sent.length =
            [replyMessage V request (V.frames.encode (.core (.revokeAck epoch)))] :=
        drop_sent_replied rfl (fits_revokeAck hV)
      dsimp only
      rw [hsent]
      exact .applied hcredentials (eq_true_of_ne_false hparses)
        (by rw [AppState.replied_disk, hnames])
    · dsimp only
      rw [List.drop_length]
      exact .failed hcredentials (eq_true_of_ne_false hparses) hnames
  · exact revoking_refuse hV (by decide) fun h => hoperator h.1.operator

/-! ### Runs -/

theorem CoreEvent.Broadcasts.target {e : CoreEvent} (h : e.Broadcasts V who x epoch) :
    e.target V = some x := by
  cases e with
  | operatorSet y => exact h.elim
  | arrived d request =>
    obtain ⟨-, signature, hf⟩ := h
    rw [CoreEvent.target, hf]

theorem Acks.target_unique {who' x' : PublicIdentity} {epoch' : UInt64}
    {e : CoreEvent × List Message} (h : Acks V who x epoch e) (h' : Acks V who' x' epoch' e) :
    x = x' :=
  Option.some.inj (h.1.target.symm.trans h'.1.target)

theorem answeredWith_unique {f f' : CoreFrame} {e : CoreEvent × List Message}
    (h : CoreEvent.AnsweredWith V f e) (h' : CoreEvent.AnsweredWith V f' e) : f = f' := by
  obtain ⟨_ | _, sent⟩ := e
  · exact AppFrame.core.inj (replyMessage_injective
      (List.singleton_injective (Eq.trans (Eq.symm h) h')))
  · exact h.elim

theorem credentials_of_acked (hV : V.Postcard)
    (hf : AppFrame.decode V.frames request.payload = .core (.revokeBroadcast x epoch signature))
    (h : CoreEvent.AnsweredWith V (.revokeAck epoch)
      (.arrived d request, ((coreRun V).step s (.arrived d request)).1)) :
    Credentials V request x epoch signature s := by
  have hcases := revoking_step hV d s hf
  generalize (coreRun V).step s (.arrived d request) = r at hcases h
  cases hcases with
  | applied credentials _ _ => exact credentials
  | failed credentials _ _ => exact credentials
  | refused => cases AppFrame.core.inj (replyMessage_injective (List.singleton_injective h))

theorem refused_of_lacks (hV : V.Postcard)
    (hf : AppFrame.decode V.frames request.payload = .core (.revokeBroadcast x epoch signature))
    (h : ¬ (Credentials V request x epoch signature s ∧
      V.parsesKey request.sender.publicKey = true)) :
    (∃ reason, CoreEvent.AnsweredWith V (.revokeRefuse epoch reason)
        (.arrived d request, ((coreRun V).step s (.arrived d request)).1)) ∧
      ((coreRun V).step s (.arrived d request)).2.disk = s.disk ∧
      ((coreRun V).step s (.arrived d request)).2.hosts = s.hosts := by
  have hcases := revoking_step hV d s hf
  generalize (coreRun V).step s (.arrived d request) = r at hcases ⊢
  cases hcases with
  | applied credentials parses _ => exact absurd ⟨credentials, parses⟩ h
  | failed credentials parses _ => exact absurd ⟨credentials, parses⟩ h
  | refused _ disk hosts => exact ⟨⟨_, rfl⟩, disk, hosts⟩

theorem revokedNames_setOperator {y : PublicIdentity} {t : Tree} :
    revokedNames V.storage V.home (setOperator V.primitives V.storage V.home y t).2 =
      revokedNames V.storage V.home t := by
  have htouches : Touches {(V.home.path.join "operators.tmp").norm, (operatorsPath V.home).norm}
      (setOperator V.primitives V.storage V.home y) := by
    refine Touches.bind (fun t => ?_) fun _ => touches_replaceFile
    have hread : (operators V.storage V.home t).2 = t := by
      have hsnd := inert_read (ε := IoError) (p := operatorsPath V.home) t
      unfold operators
      split <;> rename_i heq <;> rw [heq] at hsnd <;> exact hsnd
    rw [hread]
  refine revokedNames_of_frame (htouches t) ?_
  rw [operatorsPath, PathBuf.norm_join (by decide) (by decide),
    PathBuf.norm_join (by decide) (by decide), Home.norm_path]
  rintro (h | h)
  · exact revocations_ne (by decide) h.symm
  · exact revocations_ne (by decide) h.symm

/-- **One event**: the list gets the peer whose revocation is acknowledged, or stays as it is. -/
theorem revokedNames_step (hV : V.Postcard) {e : CoreEvent} (he : e.OfCores V) (s : AppState) :
    (∃ who x epoch, Acks V who x epoch (e, ((coreRun V).step s e).1) ∧
        revokedNames V.storage V.home ((coreRun V).step s e).2.disk =
          (revokedNames V.storage V.home s.disk).insert (x.fingerprint V.primitives)) ∨
      ((∀ who x epoch, ¬ Acks V who x epoch (e, ((coreRun V).step s e).1)) ∧
        revokedNames V.storage V.home ((coreRun V).step s e).2.disk =
          revokedNames V.storage V.home s.disk) := by
  cases e with
  | operatorSet y => exact .inr ⟨fun _ _ _ h => h.1.elim, revokedNames_setOperator⟩
  | arrived d request =>
    obtain ⟨f, hf⟩ := he
    by_cases hbroadcast : ∃ x epoch signature, f = .revokeBroadcast x epoch signature
    · obtain ⟨x, epoch, signature, rfl⟩ := hbroadcast
      have hcases := revoking_step hV d s hf
      generalize (coreRun V).step s (.arrived d request) = r at hcases ⊢
      -- the epoch of an acknowledgement is that of the broadcast
      have hepoch : ∀ {who y epoch'}, (CoreEvent.arrived d request).Broadcasts V who y epoch' →
          epoch' = epoch := by
        rintro who y epoch' ⟨-, signature', hf'⟩
        rw [hf] at hf'
        cases hf'
        rfl
      cases hcases with
      | applied _ _ names =>
        exact .inl ⟨request.sender, x, epoch, ⟨⟨rfl, signature, hf⟩, rfl⟩, names⟩
      | failed _ _ names =>
        refine .inr ⟨fun who y epoch' h => ?_, names⟩
        cases h.2
      | refused _ disk _ =>
        refine .inr ⟨fun who y epoch' h => ?_, by rw [disk]⟩
        cases answeredWith_unique (V := V) h.2 (e := (.arrived d request, _)) rfl
    · have hne : ∀ x epoch signature, f ≠ .revokeBroadcast x epoch signature :=
        fun x epoch signature h => hbroadcast ⟨x, epoch, signature, h⟩
      refine .inr ⟨fun who y epoch h => ?_, ?_⟩
      · obtain ⟨⟨-, signature, hf'⟩, -⟩ := h
        rw [hf] at hf'
        cases hf'
        exact hne _ _ _ rfl
      · rw [coreRun_arrived hf]
        exact revokedNames_handleCore_of_ne hne

/-- On the list are just the names of the peers whose revocation was acknowledged. -/
theorem mem_revokedNames_iff (hV : V.Postcard) {s₀ : AppState} {events : List CoreEvent}
    (h₀ : revokedNames V.storage V.home s₀.disk = []) (hcores : ∀ e ∈ events, e.OfCores V)
    (name : String) :
    name ∈ revokedNames V.storage V.home ((coreRun V).after s₀ events).disk ↔
      ∃ e ∈ (coreRun V).transcript s₀ events, ∃ who x epoch, Acks V who x epoch e ∧
        x.fingerprint V.primitives = name := by
  have hrun : (coreRun V).Along (fun _ e => e.OfCores V) s₀ events :=
    Machine.along_of_forall fun _ e he => hcores e he
  have hinv := hrun.history (I := fun past s => name ∈ revokedNames V.storage V.home s.disk ↔
      ∃ e ∈ past, ∃ who x epoch, Acks V who x epoch e ∧ x.fingerprint V.primitives = name)
    (by simp [h₀])
  apply hinv
  intro past s e he ih
  simp only [List.mem_append, List.mem_singleton, or_and_right, exists_or, exists_eq_left]
  rcases revokedNames_step hV he s with ⟨who, x, epoch, hack, hnames⟩ | ⟨hno, hnames⟩
  · rw [hnames, List.mem_insert_iff, ih]
    constructor
    · rintro (rfl | h)
      · exact .inr ⟨who, x, epoch, hack, rfl⟩
      · exact .inl h
    · rintro (h | ⟨who', x', epoch', hack', rfl⟩)
      · exact .inr h
      · exact .inl (by rw [hack.target_unique hack'])
  · rw [hnames, ih, iff_self_or]
    rintro ⟨who, x, epoch, hack, -⟩
    exact absurd hack (hno who x epoch)

theorem isRevoked_iff_acked (hV : V.Postcard) {s₀ : AppState} {events : List CoreEvent}
    (h₀ : revokedNames V.storage V.home s₀.disk = []) (hcores : ∀ e ∈ events, e.OfCores V)
    (hcollision : NoCollision V.primitives
      ((x :: events.filterMap (CoreEvent.target V)).map (·.publicKey.toList))) :
    x.fingerprint V.primitives ∈
        revokedNames V.storage V.home ((coreRun V).after s₀ events).disk ↔
      ∃ e ∈ (coreRun V).transcript s₀ events, ∃ who epoch, Acks V who x epoch e := by
  rw [mem_revokedNames_iff hV h₀ hcores]
  constructor
  · rintro ⟨e, he, who, y, epoch, hack, hname⟩
    have htarget : y ∈ events.filterMap (CoreEvent.target V) :=
      List.mem_filterMap.2 ⟨e.1, Machine.fst_mem_of_mem_transcript he, hack.1.target⟩
    obtain rfl : y = x :=
      hcollision.eq_of_fingerprint (List.mem_cons_of_mem _ htarget) List.mem_cons_self hname
    exact ⟨e, he, who, epoch, hack⟩
  · rintro ⟨e, he, who, epoch, hack⟩
    exact ⟨e, he, who, x, epoch, hack, rfl⟩

theorem mem_revokedNames_after (hV : V.Postcard) {events : List CoreEvent}
    (hcores : ∀ e ∈ events, e.OfCores V) {name : String}
    (h : name ∈ revokedNames V.storage V.home s.disk) :
    name ∈ revokedNames V.storage V.home ((coreRun V).after s events).disk := by
  have hrun : (coreRun V).Along (fun _ e => e.OfCores V) s events :=
    Machine.along_of_forall fun _ e he => hcores e he
  have hinv := hrun.invariant (I := fun s => name ∈ revokedNames V.storage V.home s.disk)
  apply hinv h
  intro s e he ih
  rcases revokedNames_step hV he s with ⟨who, x, epoch, -, hnames⟩ | ⟨-, hnames⟩
  · rw [hnames]
    exact List.mem_insert_of_mem ih
  · rwa [hnames]

/-- **Who is revoked.**  In every run of frames of the cores from an empty list. -/
theorem revocation_spec (hV : V.Postcard) {s₀ : AppState} {events : List CoreEvent}
    (h₀ : revokedNames V.storage V.home s₀.disk = []) (hcores : ∀ e ∈ events, e.OfCores V) :
    RevocationSpec V s₀ events where
  revoked_iff x hcollision := by
    rw [← isRevoked_iff_acked hV h₀ hcores hcollision, nodeIsRevoked_eq, Except.ok.injEq,
      decide_eq_true_iff]
  acked _ d _ _ _ _ _ _ hf hanswer := credentials_of_acked hV hf hanswer
  refused _ d _ _ _ _ _ _ hf hlacks := by
    rw [Machine.after_concat]
    exact refused_of_lacks hV hf fun h => hlacks h.1
  grows pre post hsplit := by
    subst hsplit
    rw [Machine.after_append]
    exact fun name h => mem_revokedNames_after hV
      (fun e he => hcores e (List.mem_append_right _ he)) h

open Photo in
/-- The owner revokes a peer. -/
theorem revocation_spec_governed : RevocationSpec env governed [.arrived drawn revoking] := by
  refine revocation_spec ⟨rfl, rfl⟩ (by decide +kernel) fun e he => ?_
  rw [List.mem_singleton.1 he]
  exact ⟨_, decode_sentBy _ _⟩

/-! ### Replays -/

section Replays

variable (V) (s₀ : AppState) (events : List CoreEvent)

/-- A broadcast of `who` with this epoch or a later one was acknowledged. -/
def Stale (past : List (CoreEvent × List Message)) (who : PublicIdentity) (epoch : UInt64) : Prop :=
  ∃ e ∈ past, ∃ x epoch', Acks V who x epoch' e ∧ epoch ≤ epoch'

/-- Every stale broadcast is refused. -/
def ReplayProof : Prop :=
  ∀ pre d request post x epoch signature, events = pre ++ .arrived d request :: post →
    AppFrame.decode V.frames request.payload = .core (.revokeBroadcast x epoch signature) →
    Stale V ((coreRun V).transcript s₀ pre) request.sender epoch →
      ∃ reason, CoreEvent.AnsweredWith V (.revokeRefuse epoch reason)
        (.arrived d request, ((coreRun V).step ((coreRun V).after s₀ pre) (.arrived d request)).1)

/-- Every stale broadcast comes from somebody who is no operator then, or has a key that does not
parse, or lacks a valid signature. -/
def ReplaysLackCredentials : Prop :=
  ∀ pre d request post x epoch signature, events = pre ++ .arrived d request :: post →
    AppFrame.decode V.frames request.payload = .core (.revokeBroadcast x epoch signature) →
    Stale V ((coreRun V).transcript s₀ pre) request.sender epoch →
      ¬ (Credentials V request x epoch signature ((coreRun V).after s₀ pre) ∧
        V.parsesKey request.sender.publicKey = true)

end Replays

theorem lacks_of_refused (hV : V.Postcard) {reason : String}
    (hf : AppFrame.decode V.frames request.payload = .core (.revokeBroadcast x epoch signature))
    (h : CoreEvent.AnsweredWith V (.revokeRefuse epoch reason)
      (.arrived d request, ((coreRun V).step s (.arrived d request)).1)) :
    ¬ (Credentials V request x epoch signature s ∧
      V.parsesKey request.sender.publicKey = true) := by
  have hcases := revoking_step hV d s hf
  generalize (coreRun V).step s (.arrived d request) = r at hcases h
  cases hcases with
  | applied => cases AppFrame.core.inj (replyMessage_injective (List.singleton_injective h))
  | failed => cases h
  | refused lacks _ _ => exact lacks

/-- **Replays are refused iff they lack the credentials**: the core looks at no epoch. -/
theorem replayProof_iff (hV : V.Postcard) {s₀ : AppState} {events : List CoreEvent} :
    ReplayProof V s₀ events ↔ ReplaysLackCredentials V s₀ events := by
  constructor
  · intro h pre d request post x epoch signature hsplit hf hstale
    obtain ⟨reason, hrefused⟩ := h pre d request post x epoch signature hsplit hf hstale
    exact lacks_of_refused hV hf hrefused
  · intro h pre d request post x epoch signature hsplit hf hstale
    exact (refused_of_lacks hV hf (h pre d request post x epoch signature hsplit hf hstale)).1

/-- No broadcast is replayed if those of each sender arrive with increasing epochs. -/
theorem replayProof_of_increasing {s₀ : AppState} {events : List CoreEvent}
    (h : events.Pairwise fun e e' => ∀ who x x' epoch epoch', e.Broadcasts V who x epoch →
      e'.Broadcasts V who x' epoch' → epoch < epoch') : ReplayProof V s₀ events := by
  intro pre d request post x epoch signature hsplit hf hstale
  obtain ⟨e, he, x', epoch', hack, hle⟩ := hstale
  subst hsplit
  have hlt : epoch' < epoch := (List.pairwise_append.1 h).2.2 e.1
    (Machine.fst_mem_of_mem_transcript he) _ List.mem_cons_self _ _ _ _ _ hack.1
    ⟨rfl, signature, hf⟩
  exact absurd hle (UInt64.not_le.2 hlt)

/-! ### The epochs of a sender -/

section Epochs

variable (home : Home)

/-- Where a device keeps its epoch. -/
def epochPath : PathBuf := home.path.join "revoke.epoch"

/-- Where the epoch is written first. -/
def epochTmpPath : PathBuf := home.path.join "revoke.epoch.tmp"

/-- `u64::from_le_bytes`. -/
def ofLeBytes64 (b : Bytes) : UInt64 := UInt64.ofNat (b.foldr (fun x n => x.toNat + 256 * n) 0)

/-- The largest epoch. -/
def maxEpoch : UInt64 := UInt64.ofNat (2 ^ 64 - 1)

/-- The epoch after the one that was saved; the first is 1. -/
def epochAfter (saved : Except IoError Bytes) : UInt64 :=
  match saved with
  | .ok bytes =>
    if bytes.length = 8 then
      -- `saturating_add`
      if ofLeBytes64 bytes = maxEpoch then maxEpoch else ofLeBytes64 bytes + 1
    else 1
  | .error _ => 1

/-- `next_revocation_epoch`. -/
def nextRevocationEpoch : FsM IoError UInt64 := fun t =>
  let next := epochAfter ((read (epochPath home) : FsM IoError Bytes) t).1
  (do
    replaceFile (epochTmpPath home) (epochPath home) (leBytes64 next)
    return next : FsM IoError UInt64) t

end Epochs

theorem foldr_digits (width n : ℕ) :
    (digits width n).toList.foldr (fun x n => x.toNat + 256 * n) 0 = n % 256 ^ width := by
  have hlist : ∀ width n, (digits width n).toList =
      (List.range width).map fun i => UInt8.ofNat (n / 256 ^ i % 256) := fun _ _ => rfl
  induction width generalizing n with
  | zero => rw [hlist, Nat.pow_zero, Nat.mod_one]; rfl
  | succ width ih =>
    have hshift : ∀ i, n / 256 ^ (i + 1) = n / 256 / 256 ^ i := fun i => by
      rw [Nat.div_div_eq_div_mul, Nat.pow_succ']
    have hrest := ih (n / 256)
    rw [hlist] at hrest ⊢
    rw [List.range_succ_eq_map, List.map_cons, List.map_map, List.foldr_cons,
      show ((fun i => UInt8.ofNat (n / 256 ^ i % 256)) ∘ Nat.succ) =
        fun i => UInt8.ofNat (n / 256 / 256 ^ i % 256) from funext fun i => by
          rw [Function.comp_apply, Nat.succ_eq_add_one, hshift], hrest, Nat.pow_zero, Nat.div_one,
      Nat.pow_succ', Nat.mod_mul, UInt8.toNat_ofNat']
    omega

theorem ofLeBytes64_leBytes64 (n : UInt64) : ofLeBytes64 (leBytes64 n) = n := by
  have hlt := n.toNat_lt
  rw [ofLeBytes64, leBytes64, foldr_digits, Nat.mod_eq_of_lt (by simpa using hlt),
    UInt64.ofNat_toNat]

theorem lt_add_one_of_ne_maxEpoch {n : UInt64} (h : n ≠ maxEpoch) : n < n + 1 := by
  have hlt := n.toNat_lt
  have hne : n.toNat ≠ 2 ^ 64 - 1 := fun heq => h (by rw [maxEpoch, ← heq, UInt64.ofNat_toNat])
  rw [UInt64.lt_iff_toNat_lt, UInt64.toNat_add, UInt64.toNat_one, Nat.mod_eq_of_lt (by omega)]
  omega

namespace Photo

/-- The revocation comes again, and another peer is named in it. -/
def altered : Message :=
  sentBy owner (.core (.revokeBroadcast (visitor.pub .sample) 1
    (Primitives.sample.sign owner.signingKey (revokePayload 1 (stranger.pub .sample)))))

theorem decode_revoking : AppFrame.decode env.frames revoking.payload =
    .core (.revokeBroadcast (stranger.pub .sample) 1
      (Primitives.sample.sign owner.signingKey (revokePayload 1 (stranger.pub .sample)))) :=
  decode_sentBy _ _

theorem decode_altered : AppFrame.decode env.frames altered.payload =
    .core (.revokeBroadcast (visitor.pub .sample) 1
      (Primitives.sample.sign owner.signingKey (revokePayload 1 (stranger.pub .sample)))) :=
  decode_sentBy _ _

/-- What the owner sends after its revocation is stale, if it has the same epoch. -/
theorem stale_revoking : Stale env ((coreRun env).transcript governed [.arrived drawn revoking])
    (owner.pub .sample) 1 :=
  ⟨_, List.mem_singleton_self _, stranger.pub .sample, 1,
    ⟨⟨rfl, _, decode_revoking⟩, by decide +kernel⟩, UInt64.le_refl 1⟩

/-- The owner has not signed the revocation of the other peer. -/
theorem replaysLackCredentials_altered :
    ReplaysLackCredentials env governed [.arrived drawn revoking, .arrived drawn altered] := by
  rintro (_ | ⟨e, pre⟩) d request post x epoch signature hsplit hf hstale
  · -- nothing has been acknowledged before the first one
    obtain ⟨_, he, -⟩ := hstale
    cases he
  · obtain ⟨rfl, hrest⟩ := List.cons.inj hsplit
    obtain ⟨rfl, hlast⟩ | ⟨-, hnil⟩ := List.singleton_eq_append_iff.1 hrest
    · obtain ⟨hevent, -⟩ := List.cons.inj hlast
      obtain ⟨rfl, rfl⟩ := CoreEvent.arrived.inj hevent
      obtain ⟨rfl, rfl, rfl⟩ := CoreFrame.revokeBroadcast.inj
        (AppFrame.core.inj (hf.symm.trans decode_altered))
      exact fun h => absurd h.1.signed (by decide +kernel)
    · cases hnil

end Photo

open Photo in
/-- The stale broadcast that names another peer is refused. -/
theorem replayProof_iff_governed :
    ReplayProof env governed [.arrived drawn revoking, .arrived drawn altered] ∧
      Stale env ((coreRun env).transcript governed [.arrived drawn revoking])
        altered.sender 1 :=
  ⟨(replayProof_iff ⟨rfl, rfl⟩).2 replaysLackCredentials_altered, stale_revoking⟩

open Photo in
/-- **A replayed broadcast is acknowledged again.** -/
theorem not_replayProof :
    ¬ ReplayProof env governed [.arrived drawn revoking, .arrived drawn revoking] := by
  intro h
  obtain ⟨reason, hrefused⟩ := h [.arrived drawn revoking] drawn revoking [] _ _ _ rfl
    decode_revoking stale_revoking
  have hagain : CoreEvent.AnsweredWith env (.revokeAck 1) (.arrived drawn revoking,
      ((coreRun env).step ((coreRun env).after governed [.arrived drawn revoking])
        (.arrived drawn revoking)).1) := by decide +kernel
  cases answeredWith_unique hagain hrefused

end Neonet
