import Neonet.App.Node

/-!
# The duties of a core

Chunks that are replicated by their hash, and keys that are revoked.

* `AppEnv.handleCore` : the frames of the cores.
* `revokeIdentity` : the list of the revoked peers gets one more.
* `operators` : who may revoke.
* `frame_handleCore` : the files that a frame may write.
* `revokeIdentity_cases`, `revokedNames_handleCore` : **nobody is taken off the list of the revoked
  peers by a frame of the cores.**
-/

namespace Neonet

open FileTree

section Revocation

variable (K : Primitives) (E : StorageEnv) (home : Home)

/-- Where the list of the revoked peers is written first. -/
def revocationsTmpPath : PathBuf := home.path.join "revocations.tmp"

/-- `revoke_identity`. -/
def revokeIdentity (x : PublicIdentity) : FsM IoError Unit := do
  let set ← revokedSet E home
  replaceFile (revocationsTmpPath home) (revocationsPath home)
    (E.names.encode (set.insert (x.fingerprint K)))

/-- Where the operators are kept. -/
def operatorsPath : PathBuf := home.path.join "operators.json"

/-- `operators`: nobody if the list cannot be read. -/
def operators : FsM IoError (List String) := fun t =>
  match (read (operatorsPath home) : FsM IoError Bytes) t with
  | (.ok bytes, t') => (.ok ((E.names.decode bytes).toOption.getD []), t')
  | (.error _, t') => (.ok [], t')

/-- `set_operator`. -/
def setOperator (x : PublicIdentity) : FsM IoError Unit := do
  let set ← operators E home
  replaceFile (home.path.join "operators.tmp") (operatorsPath home)
    (E.names.encode (set.insert (x.fingerprint K)))

/-- `u64::to_le_bytes`. -/
def leBytes64 (n : UInt64) : Bytes := (digits 8 n.toNat).toList

/-- `revoke_payload`. -/
def revokePayload (epoch : UInt64) (revoked : PublicIdentity) : Bytes :=
  leBytes64 epoch ++ revoked.publicKey.toList

end Revocation

section Replication

variable (home : Home)

/-- The directory of the replicated chunks. -/
def dataDir : PathBuf := (blobsDir home).join "data"

/-- Where a replicated chunk is kept. -/
def dataPath (hash : Digest) : PathBuf := (dataDir home).join (hex hash.toList ++ ".blob")

/-- Where a replicated chunk is written first. -/
def dataTmpPath (hash : Digest) : PathBuf := (dataDir home).join (hex hash.toList ++ ".blob.tmp")

/-- A replicated chunk is there. -/
def holdsData (t : Tree) (hash : Digest) : Bool :=
  match (pathExists (dataPath home hash) : FsM IoError Bool) t with
  | (.ok b, _) => b
  | (.error _, _) => false

/-- Keep a replicated chunk. -/
def putData (hash : Digest) (bytes : Bytes) : FsM IoError Unit := do
  createDirAll (dataDir home)
  replaceFile (dataTmpPath home hash) (dataPath home hash) bytes

end Replication

/-- `RevokeRefuse`, with the reasons of the handler. -/
def AppEnv.refuseRevoke (V : AppEnv) (request : Message) (epoch : UInt64) (reason : String)
    (s : AppState) : AppState :=
  s.replied V request (.core (.revokeRefuse epoch reason))

/-- `core::handle`. -/
def AppEnv.handleCore (V : AppEnv) (request : Message) :
    CoreFrame → AppState → Outcome × AppState
  | .reconcileRequest hashes, s =>
    (.handled .silent, s.replied V request
      (.core (.reconcileMissing (hashes.filter fun hash => !holdsData V.home s.disk hash))))
  | .reconcileMissing missing, s =>
    (.handled (.text ("peer is missing " ++ toString missing.length ++ " chunk(s)")), s)
  | .chunkData hash (some bytes), s =>
    -- whoever sends it, and whether or not it was asked for
    if V.primitives.hash bytes ≠ hash then
      (.handled (.text ("core rejected chunk " ++ hex hash.toList ++ ": hash mismatch")), s)
    else
      s.onDisk (putData V.home hash bytes) fun _ s =>
        (.handled (.text ("core reconciled chunk " ++ hex hash.toList)), s)
  | .chunkData hash none, s =>
    (.handled (.text ("peer could not supply chunk " ++ hex hash.toList)), s)
  | .revokeBroadcast revoked epoch signature, s =>
    -- a list of operators that cannot be read names none
    if request.sender.fingerprint V.primitives ∉
        ((operators V.storage V.home s.disk).1.toOption.getD []) then
      (.handled (.text ("revocation refused: " ++ request.sender.fingerprint V.primitives ++
          " is not an operator")),
        V.refuseRevoke request epoch "caller is not an operator of this core" s)
    else if V.parsesKey request.sender.publicKey = false then
      (.handled .silent, V.refuseRevoke request epoch "bad caller key" s)
    else if V.primitives.verify request.sender.publicKey (revokePayload epoch revoked) signature =
        false then
      (.handled .silent, V.refuseRevoke request epoch "invalid revocation signature" s)
    else
      s.onDisk (revokeIdentity V.primitives V.storage V.home revoked) fun _ s =>
        (.handled (.text ("revoked " ++ revoked.fingerprint V.primitives)),
          s.replied V request (.core (.revokeAck epoch)))
  | .revokeAck epoch, s =>
    (.handled (.text ("core acknowledged revocation epoch " ++ toString epoch.toNat)), s)
  | .revokeRefuse epoch reason, s =>
    (.handled (.text ("core refused revocation epoch " ++ toString epoch.toNat ++
        ": " ++ reason)), s)
  | .error message, s => (.handled (.text ("core error: " ++ message)), s)

variable {K : Primitives} {E : StorageEnv} {home : Home} {V : AppEnv} {request : Message}
  {s : AppState} {t t' : Tree}

/-! ### Places -/

@[simp] theorem norm_revocationsTmpPath :
    (revocationsTmpPath home).norm = "revocations.tmp" :: home.loc := by
  rw [revocationsTmpPath, PathBuf.norm_join (by decide) (by decide), Home.norm_path]

@[simp] theorem norm_dataDir : (dataDir home).norm = "data" :: "blobs" :: home.loc := by
  rw [dataDir, PathBuf.norm_join (by decide) (by decide), norm_blobsDir]

@[simp] theorem norm_dataPath (hash : Digest) :
    (dataPath home hash).norm = (hex hash.toList ++ ".blob") :: "data" :: "blobs" :: home.loc := by
  rw [dataPath, PathBuf.norm_join (toList_append_no_slash (hex_no_slash _) (by decide))
    (plain_append (by decide)), norm_dataDir]

@[simp] theorem norm_dataTmpPath (hash : Digest) :
    (dataTmpPath home hash).norm =
      (hex hash.toList ++ ".blob.tmp") :: "data" :: "blobs" :: home.loc := by
  rw [dataTmpPath, PathBuf.norm_join (toList_append_no_slash (hex_no_slash _) (by decide))
    (plain_append (by decide)), norm_dataDir]

/-- The places that a revocation writes. -/
def revocationPlaces (home : Home) : Set Loc :=
  {"revocations.tmp" :: home.loc, "revocations.json" :: home.loc}

/-- The places that a replicated chunk may be written to. -/
def dataPlaces (home : Home) : Set Loc := {l | ∃ c, l = c :: "data" :: "blobs" :: home.loc}

open FsM

theorem inert_revokedSet : Inert (revokedSet E home) := fun t => by rw [revokedSet_eq]

theorem touches_revokeIdentity {x : PublicIdentity} :
    Touches (revocationPlaces home) (revokeIdentity K E home x) := by
  refine inert_revokedSet.touches.bind fun _ => touches_replaceFile.mono ?_
  rw [norm_revocationsTmpPath, norm_revocationsPath]
  exact Set.Subset.rfl

/-- A revocation that succeeds puts the peer on the list; one that fails leaves the list alone. -/
theorem revokeIdentity_cases {x : PublicIdentity} {r : Except IoError Unit}
    (h : revokeIdentity K E home x t = (r, t')) :
    (r = .ok () ∧
        revokedNames E home t' = (revokedNames E home t).insert (x.fingerprint K)) ∨
      ((∃ e, r = .error e) ∧ revokedNames E home t' = revokedNames E home t) := by
  rw [revokeIdentity, bind_of_ok (revokedSet_eq E home t)] at h
  rcases replaceFile_cases h with ⟨hr, hfile, -⟩ | ⟨⟨e, he⟩, hframe⟩
  · refine .inl ⟨hr, ?_⟩
    rw [revokedNames, read_of_hasFile hfile]
    show (E.names.decode _).toOption.getD [] = _
    rw [E.names.decode_encode]
    rfl
  · refine .inr ⟨⟨_, he⟩, revokedNames_of_frame hframe ?_⟩
    rw [norm_revocationsPath, norm_revocationsTmpPath, Set.mem_singleton_iff, List.cons.injEq]
    exact fun h => absurd h.1 (by decide)

theorem touches_putData {hash : Digest} {bytes : Bytes} :
    Touches (dataPlaces home) (putData home hash bytes) := by
  refine touches_createDirAll.bind fun _ => touches_replaceFile.mono ?_
  rw [norm_dataTmpPath, norm_dataPath]
  rintro l (rfl | rfl) <;> exact ⟨_, rfl⟩

@[simp] theorem refuseRevoke_disk {epoch : UInt64} {reason : String} :
    (V.refuseRevoke request epoch reason s).disk = s.disk := AppState.replied_disk

theorem refuseRevoke_sent (epoch : UInt64) (reason : String) :
    (V.refuseRevoke request epoch reason s).sent =
      s.sent ++ delivered V request (some (.core (.revokeRefuse epoch reason))) :=
  AppState.replied_sent _

/-- A frame of the cores writes the list of the revoked peers, or a replicated chunk. -/
theorem frame_handleCore {f : CoreFrame} :
    Frame (revocationPlaces V.home ∪ dataPlaces V.home) s.disk
        (V.handleCore request f s).2.disk := by
  cases f with
  | chunkData hash data =>
    cases data with
    | none => rfl
    | some bytes =>
      rw [AppEnv.handleCore]
      split
      · rfl
      · exact AppState.frame_onDisk (touches_putData.mono Set.subset_union_right) fun _ _ => .refl _
  | revokeBroadcast revoked epoch signature =>
    rw [AppEnv.handleCore]
    split
    · rw [refuseRevoke_disk]
    · split
      · rw [refuseRevoke_disk]
      · split
        · rw [refuseRevoke_disk]
        · refine AppState.frame_onDisk (touches_revokeIdentity.mono Set.subset_union_left)
            fun _ _ => ?_
          rw [AppState.replied_disk]
  | reconcileRequest hashes =>
    rw [AppEnv.handleCore, AppState.replied_disk]
  | reconcileMissing | revokeAck | revokeRefuse | error => exact .refl _

theorem revokedNames_handleCore_of_ne {f : CoreFrame}
    (hf : ∀ x epoch signature, f ≠ .revokeBroadcast x epoch signature) :
    revokedNames V.storage V.home (V.handleCore request f s).2.disk =
      revokedNames V.storage V.home s.disk := by
  cases f with
  | chunkData hash data =>
    cases data with
    | none => rfl
    | some bytes =>
      rw [AppEnv.handleCore]
      split
      · rfl
      · have hframe : Frame (dataPlaces V.home) s.disk
            (s.onDisk (putData V.home hash bytes) fun _ s =>
            (.handled (.text ("core reconciled chunk " ++ hex hash.toList)), s)).2.disk :=
          AppState.frame_onDisk touches_putData fun _ _ => .refl _
        refine revokedNames_of_frame hframe ?_
        rintro ⟨c, hc⟩
        rw [norm_revocationsPath] at hc
        have hlength := congrArg List.length hc
        simp at hlength
  | revokeBroadcast revoked epoch signature => exact absurd rfl (hf revoked epoch signature)
  | reconcileRequest hashes => rw [AppEnv.handleCore, AppState.replied_disk]
  | reconcileMissing | revokeAck | revokeRefuse | error => rfl

/-- A frame of the cores takes nobody off the list of the revoked peers. -/
theorem revokedNames_handleCore {f : CoreFrame} {name : String}
    (h : name ∈ revokedNames V.storage V.home s.disk) :
    name ∈ revokedNames V.storage V.home (V.handleCore request f s).2.disk := by
  by_cases hf : ∀ x epoch signature, f ≠ .revokeBroadcast x epoch signature
  · rwa [revokedNames_handleCore_of_ne hf]
  · simp only [not_forall, not_not] at hf
    obtain ⟨revoked, epoch, signature, rfl⟩ := hf
    rw [AppEnv.handleCore]
    split_ifs
    · rwa [refuseRevoke_disk]
    · rwa [refuseRevoke_disk]
    · rw [AppState.onDisk]
      cases hrun : revokeIdentity V.primitives V.storage V.home revoked s.disk with
      | mk r disk =>
      rcases revokeIdentity_cases hrun with ⟨rfl, hnames⟩ | ⟨⟨e, rfl⟩, hnames⟩
      · dsimp only
        rw [AppState.replied_disk, hnames]
        exact List.mem_insert_of_mem h
      · dsimp only
        rw [hnames]
        exact h
    · rwa [refuseRevoke_disk]

end Neonet
