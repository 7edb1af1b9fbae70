import Neonet.App.Handle
import Neonet.Files.Consistent
import Neonet.Lib.Unseen

/-!
# Peers that are revoked

An operator revokes a peer, and the core acknowledges that.  Storing and fetching then ask the list
of the revoked peers, but the frames that replicate chunks do not, and the list itself is a file
that a transfer may overwrite.

* `Acknowledged` : a message revokes a peer, and its acknowledgement is sent.
* `ShutOut` : handling a message changes nothing in the store and tells nothing of it.
* `KeepsRevocation` : the frames that get past the gates.
* `shutOut_of_acknowledged` : **in every run without such frames, whatever a revoked peer sends to
  the store or the core leaves it shut out.**
* `not_shutOut` : a revoked peer stores a chunk.
-/

namespace Neonet

open FileTree FsM

section Revoked

variable (V : AppEnv)

/-- The store of a core. -/
def blobPlaces : Set Loc := beneath ("blobs" :: V.home.loc)

/-- The message revokes `x`, and the core answers that it did. -/
def Acknowledged (d : Draws) (request : Message) (s : AppState) (x : PublicIdentity) : Prop :=
  ∃ epoch signature,
    AppFrame.decode V.frames request.payload = .core (.revokeBroadcast x epoch signature) ∧
      (V.handle d request s).2.sent =
        s.sent ++ [replyMessage V request (V.frames.encode (.core (.revokeAck epoch)))]

/-- The frames of the store and of the cores. -/
def AppFrame.OfStore : AppFrame → Prop
  | .storage _ | .core _ => True
  | _ => False

/-- Handling the message changes nothing in the store, and what is sent does not depend on what is
there. -/
structure ShutOut (d : Draws) (request : Message) (s : AppState) : Prop where
  blobs : ∀ l ∈ blobPlaces V, (V.handle d request s).2.disk.entry l = s.disk.entry l
  silent : ∀ u, Outside (blobPlaces V) s.disk u →
    (V.handle d request { s with disk := u }).2.sent = (V.handle d request s).2.sent

/-- The frame does not get past the revocation of `x`: it is no chunk of `x` with the right hash, it
does not ask for `x` which chunks are there, and it does not put a file together in place of the
list of the revoked peers. -/
def KeepsRevocation (x : PublicIdentity) (s : AppState) (a : Draws × Message) : Prop :=
  match AppFrame.decode V.frames a.2.payload with
  | .core (.chunkData hash (some bytes)) => a.2.sender = x → V.primitives.hash bytes ≠ hash
  | .core (.reconcileRequest hashes) => a.2.sender = x → hashes = []
  | .files (.chunk manifestId c) =>
    (revocationsPath V.home).norm ∉ lastPlaces V.primitives V.files V.home manifestId c s.disk
  | _ => True

end Revoked

variable {V : AppEnv} {d : Draws} {request : Message} {s : AppState} {x : PublicIdentity}
  {home : Home} {u : Tree}

/-- The list of the revoked peers names `x`. -/
structure IsRevoked (V : AppEnv) (x : PublicIdentity) (t : Tree) : Prop where
  listed : x.fingerprint V.primitives ∈ revokedNames V.storage V.home t

/-- **A revocation that is acknowledged is on the list.** -/
theorem isRevoked_of_acknowledged (h : Acknowledged V d request s x) :
    IsRevoked V x (V.handle d request s).2.disk := by
  obtain ⟨epoch, signature, hdecode, hsent⟩ := h
  rw [AppEnv.handle, hdecode, AppEnv.dispatch, AppEnv.handleCore] at hsent ⊢
  -- a refusal is not the acknowledgement
  have hrefused : ∀ reason, (V.refuseRevoke request epoch reason s).sent ≠
      s.sent ++ [replyMessage V request (V.frames.encode (.core (.revokeAck epoch)))] := by
    intro reason hsame
    rw [refuseRevoke_sent] at hsame
    obtain ⟨frame, hframe, -, hmessage⟩ :=
      delivered_eq_singleton.1 (List.append_cancel_left hsame)
    have hpayload := congrArg Message.payload hmessage
    rw [← Option.some.inj hframe] at hpayload
    have hdec := congrArg V.frames.decode hpayload
    rw [replyMessage, replyMessage, V.frames.decode_encode, V.frames.decode_encode] at hdec
    cases hdec
  split_ifs at hsent ⊢
  · exact absurd hsent (hrefused _)
  · exact absurd hsent (hrefused _)
  · rw [AppState.onDisk] at hsent ⊢
    cases hrun : revokeIdentity V.primitives V.storage V.home x s.disk with
    | mk r disk =>
    rw [hrun] at hsent
    rcases revokeIdentity_cases hrun with ⟨rfl, hnames⟩ | ⟨⟨e, rfl⟩, -⟩
    · refine ⟨?_⟩
      dsimp only
      rw [AppState.replied_disk, hnames]
      exact List.mem_insert_self
    · exact absurd hsent (by simp)
  · exact absurd hsent (hrefused _)

/-! ### Revocations are kept -/

theorem revocations_ne {c : String} {k : Loc} (h : c ≠ "revocations.json") :
    c :: k ≠ (revocationsPath home).norm := by
  rw [norm_revocationsPath]
  exact fun hl => h (List.cons.inj hl).1

theorem cons_loc_notMem_beneath {c c' : String} (h : c ≠ c') :
    c :: home.loc ∉ beneath (c' :: home.loc) := by
  intro hsuffix
  have hsame : c' :: home.loc = c :: home.loc := List.IsSuffix.eq_of_length hsuffix (by simp)
  exact h (List.cons.inj hsame).1.symm

theorem ne_of_getLast {a b : String} (h : a.toList.getLast? ≠ b.toList.getLast?) : a ≠ b :=
  fun hab => h (by rw [hab])

theorem revocations_notMem_transferPlaces {id : String} :
    (revocationsPath home).norm ∉ transferPlaces home id := by
  rintro (h | h | ⟨i, h⟩)
  · rcases h with h | h
    · rw [norm_manifestTmpPath] at h
      exact revocations_ne (by decide) h.symm
    · rw [norm_manifestPath] at h
      exact revocations_ne (by decide) h.symm
  · rcases h with h | h
    · rw [norm_stateTmpPath] at h
      exact revocations_ne (by decide) h.symm
    · rw [norm_statePath] at h
      exact revocations_ne (by decide) h.symm
  · rcases h with h | h
    · rw [norm_chunkTmpPath, chunkTmpName] at h
      refine revocations_ne (ne_of_getLast ?_) h.symm
      rw [getLast?_append_suffix (by decide)]
      decide
    · rw [norm_chunkPath, chunkName] at h
      refine revocations_ne (ne_of_getLast ?_) h.symm
      rw [getLast?_append_suffix (by decide)]
      decide

/-- A frame that is not of the cores, and puts no file together there, leaves the list alone. -/
theorem revocations_notMem_framePlaces {f : AppFrame} (hcore : ∀ f', f ≠ .core f')
    (hlast : ∀ id c, f = .files (.chunk id c) →
      (revocationsPath V.home).norm ∉ lastPlaces V.primitives V.files V.home id c s.disk) :
    (revocationsPath V.home).norm ∉ framePlaces V x s.disk f := by
  intro hmem
  have hlogs : (revocationsPath V.home).norm ∉ logPlaces V.home := by
    rintro ⟨name, dir, -, hl⟩
    have hlength := congrArg List.length hl
    simp at hlength
  match f with
  | .files (.announce id m name) =>
    exact revocations_notMem_transferPlaces (.inl hmem.2)
  | .files (.chunk id c) =>
    rcases hmem with ⟨hfiles, -⟩ | hfile
    · exact revocations_notMem_transferPlaces hfiles
    · exact hlast id c rfl hfile
  | .storage (.storeChunks fileId m cs) =>
    obtain ⟨-, c, hc, hl⟩ := hmem
    exact revocations_ne hc hl.symm
  | .burrow f =>
    rw [norm_revocationsPath] at hmem
    exact cons_loc_notMem_beneath (by decide) hmem
  | .core f => exact hcore f rfl
  | .rendezvous f =>
    rcases hmem with h | h
    · exact revocations_ne (by decide) h.symm
    · exact revocations_ne (by decide) h.symm
  | .pair f =>
    rcases hmem with h | h | h | h
    · exact revocations_ne (by decide) h.symm
    · exact revocations_ne (by decide) h.symm
    · exact revocations_ne (by decide) h.symm
    · exact revocations_ne (by decide) h.symm
  | .lobby f => exact hlogs hmem
  | .channel f => exact hlogs hmem
  | .raw _ => exact hmem
  | .files (.accept ..) | .files (.reject ..) | .files (.complete ..)
  | .files (.statusRequest ..) | .files (.status ..) | .files (.error ..) => exact hmem
  | .storage (.storeAck ..) | .storage (.fetchChunks ..) | .storage (.storedChunks ..)
  | .storage (.error ..) => exact hmem

/-- **A frame that meets the condition takes nobody off the list.** -/
theorem IsRevoked.step {a : Draws × Message} (h : IsRevoked V x s.disk)
    (ha : KeepsRevocation V x s a) : IsRevoked V x ((app V).step s a).2.disk := by
  by_cases hcore : ∃ f, AppFrame.decode V.frames a.2.payload = .core f
  · obtain ⟨f, hf⟩ := hcore
    have hstep : (app V).step s a = V.handleCore a.2 f s := by
      show V.handle a.1 a.2 s = _
      rw [AppEnv.handle, hf]
      rfl
    rw [hstep]
    exact ⟨revokedNames_handleCore h.listed⟩
  · have hplace := revocations_notMem_framePlaces (V := V) (x := a.2.sender) (s := s)
      (f := AppFrame.decode V.frames a.2.payload) (fun f' hf => hcore ⟨f', hf⟩) (by
        intro id c hf
        rw [KeepsRevocation, hf] at ha
        exact ha)
    have hframe : Frame (framePlaces V a.2.sender s.disk (AppFrame.decode V.frames a.2.payload))
        s.disk ((app V).step s a).2.disk := frame_handle
    refine ⟨?_⟩
    rw [revokedNames_of_frame hframe hplace]
    exact h.listed

theorem IsRevoked.after {frames : List (Draws × Message)} (h : IsRevoked V x s.disk)
    (hframes : (app V).Along (KeepsRevocation V x) s frames) :
    IsRevoked V x ((app V).after s frames).disk :=
  hframes.invariant (I := fun s' => IsRevoked V x s'.disk) h fun _ _ ha hs => hs.step ha

/-! ### What a revoked peer is answered -/

theorem clear_home {name : String} (hs : '/' ∉ name.toList) (hp : Plain name)
    (hne : name ≠ "blobs") :
    (V.home.path.join name).Clear (blobPlaces V) := by
  refine PathBuf.clear_of_downward ((downward_home V.home).join hs hp) ?_
  rw [PathBuf.norm_join hs hp, Home.norm_path]
  exact cons_loc_notMem_beneath hne

theorem revokedNames_outside {t : Tree} (h : Outside (blobPlaces V) t u) :
    revokedNames V.storage V.home u = revokedNames V.storage V.home t := by
  have hclear : (revocationsPath V.home).Clear (blobPlaces V) :=
    clear_home (by decide) (by decide) (by decide)
  have hread := (blind_read (ε := IoError) hclear t u h).1
  rw [revokedNames, revokedNames, hread]

/-- What a revoked peer is answered by the store. -/
def refusedStorage (V : AppEnv) : StorageFrame → Option StorageFrame
  | .storeChunks _ m _ =>
    match m.verifySignature V.primitives V.storage.manifest with
    | .error _ => some (.error (IoError.custom .invalidData "manifest signature is invalid").text)
    | .ok () => some (.error requesterRevoked.text)
  | .fetchChunks _ _ => some (.error requesterRevoked.text)
  | _ => none

theorem handleStorage_of_isRevoked {t : Tree} (h : IsRevoked V x t) (f : StorageFrame) :
    handleStorage V.primitives V.storage V.home x f t = (refusedStorage V f, t) := by
  have hr : nodeIsRevoked V.primitives V.storage V.home x t = (.ok true, t) := by
    rw [nodeIsRevoked_eq, decide_eq_true h.listed]
  cases f with
  | storeChunks fileId m cs =>
    rw [handleStorage, storeChunks, refusedStorage]
    cases m.verifySignature V.primitives V.storage.manifest with
    | error e => rfl
    | ok =>
      dsimp only
      rw [bind_of_ok hr]
      rfl
  | fetchChunks fileId offset =>
    rw [handleStorage, fetchChunks, bind_of_ok hr]
    rfl
  | storeAck | storedChunks | error => rfl

theorem handleStore_of_isRevoked {f : StorageFrame} (h : IsRevoked V request.sender s.disk) :
    (V.handleStore request f s).2 =
      match refusedStorage V f with
      | some answer => s.replied V request (.storage answer)
      | none => s := by
  rw [AppEnv.handleStore, handleStorage_of_isRevoked h]
  cases refusedStorage V f <;> rfl

theorem shutOut_handleStore (h : IsRevoked V request.sender s.disk) (f : StorageFrame) :
    (V.handleStore request f s).2.disk = s.disk ∧
      ∀ u, Outside (blobPlaces V) s.disk u →
        (V.handleStore request f { s with disk := u }).2.sent =
            (V.handleStore request f s).2.sent := by
  have hsame : ∀ s' : AppState, IsRevoked V request.sender s'.disk →
      (V.handleStore request f s').2.disk = s'.disk ∧ (V.handleStore request f s').2.sent =
        s'.sent ++ delivered V request ((refusedStorage V f).map .storage) := by
    intro s' h'
    rw [handleStore_of_isRevoked h']
    cases refusedStorage V f with
    | none => exact ⟨rfl, (List.append_nil _).symm⟩
    | some answer => exact ⟨AppState.replied_disk, AppState.replied_sent _⟩
  refine ⟨(hsame s h).1, fun u hu => ?_⟩
  have hrevoked : IsRevoked V request.sender u := by
    refine ⟨?_⟩
    rw [revokedNames_outside hu]
    exact h.listed
  rw [(hsame { s with disk := u } hrevoked).2, (hsame s h).2]

/-- A revocation writes nothing in the store, and does not depend on what is there. -/
theorem blind_revokeIdentity {y : PublicIdentity} :
    Blind (blobPlaces V) (revokeIdentity V.primitives V.storage V.home y) := by
  have hset : Blind (blobPlaces V) (revokedSet V.storage V.home) := by
    intro t u h
    rw [revokedSet_eq, revokedSet_eq, revokedNames_outside h]
    exact ⟨rfl, h⟩
  have htmp : (revocationsTmpPath V.home).Clear (blobPlaces V) :=
    clear_home (by decide) (by decide) (by decide)
  have hdst : (revocationsPath V.home).Clear (blobPlaces V) :=
    clear_home (by decide) (by decide) (by decide)
  exact hset.bind fun _ => blind_replaceFile htmp hdst

theorem within_revokeIdentity {y : PublicIdentity} :
    Within (revocationPlaces V.home) (revokeIdentity V.primitives V.storage V.home y) := by
  refine inert_revokedSet.within.bind fun _ => within_replaceFile.mono ?_
  rw [norm_revocationsTmpPath, norm_revocationsPath]
  exact Set.Subset.rfl

theorem operators_outside {t : Tree} (h : Outside (blobPlaces V) t u) :
    (operators V.storage V.home u).1 = (operators V.storage V.home t).1 := by
  have hclear : (operatorsPath V.home).Clear (blobPlaces V) :=
    clear_home (by decide) (by decide) (by decide)
  have hread := (blind_read (ε := IoError) hclear t u h).1
  unfold operators
  cases ht : (read (operatorsPath V.home) : FsM IoError Bytes) t with
  | mk r t' =>
  cases hu : (read (operatorsPath V.home) : FsM IoError Bytes) u with
  | mk r' u' =>
  rw [ht, hu] at hread
  obtain rfl : r = r' := hread
  cases r <;> rfl

theorem blobPlaces_disjoint {l : Loc} (hl : l ∈ blobPlaces V) : l ∉ revocationPlaces V.home := by
  rintro (rfl | rfl)
  · exact cons_loc_notMem_beneath (by decide) hl
  · exact cons_loc_notMem_beneath (by decide) hl

variable (request s) in
theorem shutOut_handleCore {f : CoreFrame}
    (hdata : ∀ bytes hash, f = .chunkData hash (some bytes) → V.primitives.hash bytes ≠ hash)
    (hask : ∀ hashes, f = .reconcileRequest hashes → hashes = []) :
    (∀ l ∈ blobPlaces V, (V.handleCore request f s).2.disk.entry l = s.disk.entry l) ∧
      ∀ u, Outside (blobPlaces V) s.disk u →
        (V.handleCore request f { s with disk := u }).2.sent =
            (V.handleCore request f s).2.sent := by
  cases f with
  | chunkData hash data =>
    cases data with
    | none => exact ⟨fun _ _ => rfl, fun _ _ => rfl⟩
    | some bytes =>
      have hrejected : ∀ s', (V.handleCore request (.chunkData hash (some bytes)) s').2 = s' :=
        fun s' => by rw [AppEnv.handleCore, if_pos (hdata bytes hash rfl)]
      exact ⟨fun l _ => by rw [hrejected], fun u _ => by rw [hrejected, hrejected]⟩
  -- Any other list would be compared with the blobs of the disk.
  | reconcileRequest hashes =>
    obtain rfl := hask hashes rfl
    have hempty : ∀ s', (V.handleCore request (.reconcileRequest []) s').2 =
        s'.replied V request (.core (.reconcileMissing [])) := fun s' => rfl
    exact ⟨fun l _ => by rw [hempty, AppState.replied_disk],
      fun u _ => by rw [hempty, hempty, AppState.replied_sent, AppState.replied_sent]⟩
  | revokeBroadcast revoked epoch signature =>
    constructor
    · intro l hl
      rw [AppEnv.handleCore]
      split_ifs
      · rw [refuseRevoke_disk]
      · rw [refuseRevoke_disk]
      · refine AppState.entry_onDisk within_revokeIdentity (blobPlaces_disjoint hl) fun _ _ => ?_
        rw [AppState.replied_disk]
      · rw [refuseRevoke_disk]
    · intro u hu
      rw [AppEnv.handleCore, AppEnv.handleCore, operators_outside hu]
      split_ifs
      · rw [refuseRevoke_sent, refuseRevoke_sent]
      · rw [refuseRevoke_sent, refuseRevoke_sent]
      · refine AppState.sent_onDisk (blind_revokeIdentity s.disk u hu).1.symm fun _ _ _ => ?_
        dsimp only
        rw [AppState.replied_sent, AppState.replied_sent]
      · rw [refuseRevoke_sent, refuseRevoke_sent]
  | reconcileMissing | revokeAck | revokeRefuse | error => exact ⟨fun _ _ => rfl, fun _ _ => rfl⟩

/-- **A revoked peer is shut out** by frames that meet the condition. -/
theorem shutOut_of_isRevoked (h : IsRevoked V request.sender s.disk)
    (hf : (AppFrame.decode V.frames request.payload).OfStore)
    (ha : KeepsRevocation V request.sender s (d, request)) : ShutOut V d request s := by
  rw [KeepsRevocation] at ha
  dsimp only at ha
  have hhandle : ∀ s', V.handle d request s' =
      V.dispatch d request s' (AppFrame.decode V.frames request.payload) := fun _ => rfl
  generalize AppFrame.decode V.frames request.payload = f at hf ha hhandle
  cases f with
  | storage f =>
    obtain ⟨hdisk, hsent⟩ := shutOut_handleStore h f
    refine ⟨fun l _ => ?_, fun u hu => ?_⟩
    · rw [hhandle, AppEnv.dispatch, hdisk]
    · rw [hhandle, hhandle]
      exact hsent u hu
  | core f =>
    have hdata : ∀ bytes hash, f = .chunkData hash (some bytes) →
        V.primitives.hash bytes ≠ hash := by
      intro bytes hash hf
      subst hf
      exact ha rfl
    have hask : ∀ hashes, f = .reconcileRequest hashes → hashes = [] := by
      intro hashes hf
      subst hf
      exact ha rfl
    obtain ⟨hblobs, hsent⟩ := shutOut_handleCore request s hdata hask
    refine ⟨fun l hl => ?_, fun u hu => ?_⟩
    · rw [hhandle]
      exact hblobs l hl
    · rw [hhandle, hhandle]
      exact hsent u hu
  | raw | files | burrow | rendezvous | pair | lobby | channel => exact hf.elim

/-- **Once a revocation is acknowledged, the peer is shut out.**  In a run of frames that meet the
condition, no frame of the store or of the cores that the peer sends changes the store, and what is
sent back does not depend on it. -/
theorem shutOut_of_acknowledged {later : List (Draws × Message)}
    (hack : Acknowledged V d request s x)
    (hlater : (app V).Along (KeepsRevocation V x) (V.handle d request s).2 later) :
    ∀ pre d' request' post, later = pre ++ (d', request') :: post → request'.sender = x →
      (AppFrame.decode V.frames request'.payload).OfStore →
        ShutOut V d' request' ((app V).after (V.handle d request s).2 pre) := by
  intro pre d' request' post hsplit hx hf
  subst hsplit hx
  obtain ⟨hpre, hpost⟩ := Machine.along_append.1 hlater
  have hrevoked : IsRevoked V request'.sender ((app V).after (V.handle d request s).2 pre).disk :=
    (isRevoked_of_acknowledged hack).after hpre
  have hkeeps : KeepsRevocation V request'.sender ((app V).after (V.handle d request s).2 pre)
      (d', request') := hpost.1
  exact shutOut_of_isRevoked hrevoked hf hkeeps

/-! ### A core that its owner governs -/

namespace Photo

/-- The directory of the node, in which the owner is an operator. -/
def governedDisk : Tree :=
  ((do
    createDirAll device.path
    setOperator .sample .sample device (owner.pub .sample) : FsM IoError Unit) disk).2

/-- The core before the first frame. -/
def governed : AppState := { start with disk := governedDisk }

/-- A peer. -/
def stranger : Identity := ⟨digits 32 8⟩

/-- The owner revokes it. -/
def revoking : Message :=
  sentBy owner (.core (.revokeBroadcast (stranger.pub .sample) 1
    (Primitives.sample.sign owner.signingKey (revokePayload 1 (stranger.pub .sample)))))

/-- A chunk with the right hash, which the peer sends. -/
def offering : Message := sentBy stranger (.core (.chunkData (polyHash [7]) (some [7])))

theorem acknowledged_revoking : Acknowledged env drawn revoking governed (stranger.pub .sample) :=
  ⟨1, _, decode_sentBy _ _, by decide +kernel⟩

end Photo

open Photo in
/-- What the peer fetches afterwards. -/
theorem shutOut_fetch :
    ShutOut env drawn (sentBy stranger (.storage (.fetchChunks "f" 0)))
      (env.handle drawn revoking governed).2 := by
  have hkeeps : (app env).Along (KeepsRevocation env (stranger.pub .sample))
      (env.handle drawn revoking governed).2
      [(drawn, sentBy stranger (.storage (.fetchChunks "f" 0)))] := by
    refine ⟨?_, trivial⟩
    rw [KeepsRevocation, decode_sentBy]
    trivial
  refine shutOut_of_acknowledged acknowledged_revoking hkeeps [] drawn _ [] rfl rfl ?_
  rw [decode_sentBy]
  trivial

open Photo in
/-- **A revoked peer stores a chunk**: no handler of the cores asks the list. -/
theorem not_shutOut :
    Acknowledged env drawn revoking governed (stranger.pub .sample) ∧
      offering.sender = stranger.pub .sample ∧
      (AppFrame.decode env.frames offering.payload).OfStore ∧
      ¬ ShutOut env drawn offering (env.handle drawn revoking governed).2 := by
  refine ⟨acknowledged_revoking, rfl, ?_, fun h => ?_⟩
  · rw [offering, decode_sentBy]
    trivial
  · have hsame := h.blobs [hex (polyHash [7]).toList ++ ".blob", "data", "blobs", "node"]
      ⟨[hex (polyHash [7]).toList ++ ".blob", "data"], rfl⟩
    have hstored : (env.handle drawn offering (env.handle drawn revoking governed).2).2.disk.entry
        [hex (polyHash [7]).toList ++ ".blob", "data", "blobs", "node"] ≠
      (env.handle drawn revoking governed).2.disk.entry
        [hex (polyHash [7]).toList ++ ".blob", "data", "blobs", "node"] := by decide +kernel
    exact hstored hsame

end Neonet
