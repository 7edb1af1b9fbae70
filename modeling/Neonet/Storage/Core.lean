import Mathlib.Data.String.Basic
import Neonet.Files.Receive

/-!
# The storing core

A core keeps what is stored under a file id in one directory: a blob for each encrypted chunk,
named by its hash, the manifest, and the list of the readers.

* `storeChunks`, `fetchChunks` : the operations on the tree; `handle` : the frames.
* `core` : the requests of the peers as a machine.
* `storeChunks_accepted`, `storeChunks_rejected` : a request with a bad signature or of a revoked
  peer does nothing, another one stores.
* `inert_fetchChunks`, `touches_storeChunks` : fetching changes nothing, and storing writes files
  of one directory only.
-/

namespace Neonet

open FileTree

/-- A chunk as it is stored. -/
structure EncryptedChunk where
  index : UInt32
  nonce : ByteArr 24
  ciphertext : Bytes
  deriving DecidableEq

/-- An encrypted chunk, as it is written. -/
def EncryptedChunk.wire : Wire EncryptedChunk :=
  (Wire.u32.pair ((Wire.array 24).pair Wire.bytes)).comap
    (fun c => (c.index, c.nonce, c.ciphertext)) (fun x => .ok ⟨x.1, x.2.1, x.2.2⟩) fun _ => rfl

/-- The serialisations of the store, and the order in which the system lists a directory. -/
structure StorageEnv where
  manifest : Codec FileManifest
  chunk : Codec EncryptedChunk
  /-- A set of fingerprints, as a list without repetitions. -/
  names : Codec (List String)
  order : Finset String → List String
  lists : ListsAll order

/-- The names of a directory in alphabetical order. -/
def alphabetical (s : Finset String) : List String :=
  Quot.liftOn s.val (List.insertionSort (· ≤ ·)) fun _ _ h =>
    List.Perm.eq_of_pairwise' (List.pairwise_insertionSort ..) (List.pairwise_insertionSort ..)
      (((List.perm_insertionSort ..).trans h).trans (List.perm_insertionSort ..).symm)

theorem listsAll_alphabetical : ListsAll alphabetical := by
  rintro ⟨⟨l⟩, hl⟩
  have hperm : (alphabetical ⟨Quot.mk _ l, hl⟩).Perm l := List.perm_insertionSort ..
  exact ⟨hperm.nodup_iff.2 hl, fun c => hperm.mem_iff⟩

/-- A store to compute with. -/
def StorageEnv.sample : StorageEnv where
  manifest := FileManifest.wire.toCodec
  chunk := EncryptedChunk.wire.toCodec
  names := (Wire.seq Wire.string).toCodec
  order := alphabetical
  lists := listsAll_alphabetical

/-- `StorageFrame`. -/
inductive StorageFrame
  | storeChunks (fileId : String) (manifest : FileManifest) (chunks : List EncryptedChunk)
  | storeAck (fileId : String)
  | fetchChunks (fileId : String) (offset : UInt32)
  | storedChunks (fileId : String) (manifest : Option FileManifest) (chunks : List EncryptedChunk)
  | error (message : String)
  deriving DecidableEq

/-- `MAX_BATCH_PAYLOAD`. -/
def maxBatchPayload : ℕ := 900 * 1024

section Operations

variable (K : Primitives) (E : StorageEnv) (home : Home) (fileId : String)

/-- The directory of the store. -/
def blobsDir : PathBuf := home.path.join "blobs"

/-- The directory of a file id. -/
def blobDir : PathBuf := (blobsDir home).join fileId

/-- Where the readers are kept. -/
def aclPath : PathBuf := (blobDir home fileId).join "acl.json"

/-- Where the manifest is kept. -/
def storedManifestPath : PathBuf := (blobDir home fileId).join "manifest.json"

/-- Where the revoked fingerprints are kept. -/
def revocationsPath : PathBuf := home.path.join "revocations.json"

/-- `revoked_set`: empty if it cannot be read. -/
def revokedSet : FsM IoError (List String) := fun t =>
  match (read (revocationsPath home) : FsM IoError Bytes) t with
  | (.ok bytes, t') => (.ok ((E.names.decode bytes).toOption.getD []), t')
  | (.error _, t') => (.ok [], t')

/-- `node_is_revoked`. -/
def nodeIsRevoked (x : PublicIdentity) : FsM IoError Bool := do
  let revoked ← revokedSet E home
  return decide (x.fingerprint K ∈ revoked)

/-- `read_acl`. -/
def readAcl : FsM IoError (List String) := do
  if ← pathExists (aclPath home fileId) then
    let bytes ← read (aclPath home fileId)
    FsM.ofExcept ((E.names.decode bytes).mapError fun m => .custom .invalidData m)
  else return []

/-- `write_acl`. -/
def writeAcl (acl : List String) : FsM IoError Unit := do
  createDirAll (blobDir home fileId)
  write (aclPath home fileId) (E.names.encode acl)

/-- The name of a blob: the hash of the chunk as it is stored. -/
def blobName (chunk : EncryptedChunk) : String := K.hexHash (E.chunk.encode chunk)

/-- Keep one chunk. -/
def putBlob (chunk : EncryptedChunk) : FsM IoError Unit :=
  replaceFile ((blobDir home fileId).join (blobName K E chunk ++ ".tmp"))
    ((blobDir home fileId).join (blobName K E chunk)) (E.chunk.encode chunk)

/-- The part of `store_chunks` that keeps the chunks and the manifest. -/
def storeFiles (manifest : FileManifest) (chunks : List EncryptedChunk) : FsM IoError Unit := do
  createDirAll (blobDir home fileId)
  FsM.forEach (putBlob K E home fileId) chunks
  write (storedManifestPath home fileId) (E.manifest.encode manifest)

/-- The part of `store_chunks` that makes the requester a reader. -/
def addReader (requester : PublicIdentity) : FsM IoError Unit := do
  let acl ← readAcl E home fileId
  writeAcl E home fileId (acl.insert (requester.fingerprint K))

/-- The refusal of a revoked peer. -/
def requesterRevoked : IoError := .custom .permissionDenied "requester is revoked"

/-- `store_chunks`. -/
def storeChunks (requester : PublicIdentity) (manifest : FileManifest)
    (chunks : List EncryptedChunk) : FsM IoError Unit :=
  match manifest.verifySignature K E.manifest with
  | .error _ => FsM.fail (.custom .invalidData "manifest signature is invalid")
  | .ok () => do
    if ← nodeIsRevoked K E home requester then FsM.fail requesterRevoked
    else do
      storeFiles K E home fileId manifest chunks
      addReader K E home fileId requester

/-- The manifest, if one can be read. -/
def readManifest : FsM IoError (Option FileManifest) := fun t =>
  match (read (storedManifestPath home fileId) : FsM IoError Bytes) t with
  | (.ok bytes, t') => (.ok (E.manifest.decode bytes).toOption, t')
  | (.error _, t') => (.ok none, t')

/-- The names that `fetch_chunks` passes over. -/
def skipped (name : String) : Bool :=
  decide (name = "manifest.json") || ".tmp".toList.isSuffixOf name.toList ||
    decide (name = "acl.json")

/-- The chunks among the files of a listing. -/
def readHeld : List String → FsM IoError (List EncryptedChunk)
  | [] => return []
  | name :: names =>
    if skipped name then readHeld names
    else do
      let bytes ← readEntry (blobDir home fileId) name
      let rest ← readHeld names
      -- a file that is no chunk is left out
      match E.chunk.decode bytes with
      | .ok chunk => return chunk :: rest
      | .error _ => return rest

/-- Chunks in the order of their indices; chunks of one index keep theirs. -/
def sortHeld (cs : List EncryptedChunk) : List EncryptedChunk :=
  cs.insertionSort fun a b => a.index ≤ b.index

/-- A page: the first chunk, and as many of the following as the budget allows. -/
def takePage (first : Bool) (budget : ℕ) : List EncryptedChunk → List EncryptedChunk
  | [] => []
  | chunk :: rest =>
    if first = false ∧ budget < (E.chunk.encode chunk).length then []
    else chunk :: takePage false (budget - (E.chunk.encode chunk).length) rest

/-- The refusal of a peer that is not a reader. -/
def notReader : IoError := .custom .permissionDenied "not in the reader ACL for this file"

/-- The part of `fetch_chunks` for a reader. -/
def fetchPage (offset : UInt32) : FsM IoError (Option FileManifest × List EncryptedChunk) := do
  if ← pathIsDir (blobDir home fileId) then
    let manifest ← readManifest E home fileId
    let names ← readDir E.order (blobDir home fileId)
    let held ← readHeld E home fileId names
    return (manifest, takePage E true maxBatchPayload ((sortHeld held).drop offset.toNat))
  else return (none, [])

/-- `fetch_chunks`. -/
def fetchChunks (requester : PublicIdentity) (offset : UInt32) :
    FsM IoError (Option FileManifest × List EncryptedChunk) := do
  if ← nodeIsRevoked K E home requester then FsM.fail requesterRevoked
  else do
    let acl ← readAcl E home fileId
    if requester.fingerprint K ∈ acl then fetchPage E home fileId offset
    else FsM.fail notReader

/-- The reply to a store. -/
def storeReply : Except IoError Unit → StorageFrame
  | .ok () => .storeAck fileId
  | .error e => .error e.text

/-- The reply to a fetch. -/
def fetchReply : Except IoError (Option FileManifest × List EncryptedChunk) → StorageFrame
  | .ok (manifest, chunks) => .storedChunks fileId manifest chunks
  | .error e => .error e.text

/-- `handle`: what a frame of a peer is replied, if anything. -/
def handleStorage (sender : PublicIdentity) : StorageFrame → Tree → Option StorageFrame × Tree
  | .storeChunks fileId manifest chunks, t =>
    (some (storeReply fileId (storeChunks K E home fileId sender manifest chunks t).1),
      (storeChunks K E home fileId sender manifest chunks t).2)
  | .fetchChunks fileId offset, t =>
    (some (fetchReply fileId (fetchChunks K E home fileId sender offset t).1),
      (fetchChunks K E home fileId sender offset t).2)
  | _, t => (none, t)

/-- The requests of the peers as a machine over the tree. -/
def core : Machine Tree (PublicIdentity × StorageFrame) (Option StorageFrame) where
  step t request := handleStorage K E home request.1 request.2 t

end Operations

variable {K : Primitives} {E : StorageEnv} {home : Home} {fileId : String} {t t' : Tree}
  {x : PublicIdentity} {m : FileManifest} {cs : List EncryptedChunk}

/-! ### Places -/

theorem downward_home (home : Home) : PathBuf.Downward home.path :=
  fun c hc => (home.plain c (List.mem_reverse.1 hc)).2.2

@[simp] theorem norm_blobsDir : (blobsDir home).norm = "blobs" :: home.loc := by
  rw [blobsDir, PathBuf.norm_join (by decide) (by decide), Home.norm_path]

@[simp] theorem norm_aclPath :
    (aclPath home fileId).norm = "acl.json" :: (blobDir home fileId).norm :=
  PathBuf.norm_join (by decide) (by decide)

@[simp] theorem norm_storedManifestPath :
    (storedManifestPath home fileId).norm = "manifest.json" :: (blobDir home fileId).norm :=
  PathBuf.norm_join (by decide) (by decide)

@[simp] theorem norm_revocationsPath :
    (revocationsPath home).norm = "revocations.json" :: home.loc := by
  rw [revocationsPath, PathBuf.norm_join (by decide) (by decide), Home.norm_path]

theorem blobName_no_slash (c : EncryptedChunk) : '/' ∉ (blobName K E c).toList :=
  K.hexHash_no_slash _

theorem plain_blobName (c : EncryptedChunk) : Plain (blobName K E c) := K.plain_hexHash _

theorem length_blobName (c : EncryptedChunk) : (blobName K E c).toList.length = 64 :=
  K.length_toList_hexHash _

theorem blobTmpName_no_slash (c : EncryptedChunk) : '/' ∉ (blobName K E c ++ ".tmp").toList :=
  toList_append_no_slash (blobName_no_slash c) (by decide)

theorem length_blobTmpName (c : EncryptedChunk) :
    (blobName K E c ++ ".tmp").toList.length = 68 := by
  rw [String.toList_append, List.length_append, length_blobName]
  rfl

theorem ne_of_length {a b : String} (h : a.toList.length ≠ b.toList.length) : a ≠ b :=
  fun hab => h (by rw [hab])

@[simp] theorem norm_blobPath (c : EncryptedChunk) :
    ((blobDir home fileId).join (blobName K E c)).norm =
      blobName K E c :: (blobDir home fileId).norm :=
  PathBuf.norm_join (blobName_no_slash c) (plain_blobName c)

@[simp] theorem norm_blobTmpPath (c : EncryptedChunk) :
    ((blobDir home fileId).join (blobName K E c ++ ".tmp")).norm =
      (blobName K E c ++ ".tmp") :: (blobDir home fileId).norm :=
  PathBuf.norm_join (blobTmpName_no_slash c) (plain_append (by decide))

/-! ### Requests that only look -/

open FsM

variable (E home) in
/-- The fingerprints that are taken to be revoked. -/
def revokedNames (t : Tree) : List String :=
  (((read (revocationsPath home) : FsM IoError Bytes) t).1.toOption.map fun b =>
    (E.names.decode b).toOption.getD []).getD []

variable (E home) in
theorem revokedSet_eq (t : Tree) : revokedSet E home t = (.ok (revokedNames E home t), t) := by
  have hsnd := inert_read (ε := IoError) (p := revocationsPath home) t
  unfold revokedSet revokedNames
  cases hread : (read (revocationsPath home) : FsM IoError Bytes) t with
  | mk r t' =>
  rw [hread] at hsnd
  obtain rfl : t' = t := hsnd
  cases r <;> rfl

variable (K E home x) in
theorem nodeIsRevoked_eq (t : Tree) :
    nodeIsRevoked K E home x t = (.ok (decide (x.fingerprint K ∈ revokedNames E home t)), t) := by
  rw [nodeIsRevoked, bind_of_ok (revokedSet_eq E home t)]
  rfl

variable (K E home x) in
theorem nodeIsRevoked_cases (t : Tree) :
    nodeIsRevoked K E home x t = (.ok true, t) ∨ nodeIsRevoked K E home x t = (.ok false, t) := by
  rw [nodeIsRevoked_eq]
  cases decide (x.fingerprint K ∈ revokedNames E home t)
  · exact .inr rfl
  · exact .inl rfl

theorem inert_readAcl : Inert (readAcl E home fileId) := by
  refine inert_pathExists.bind fun b => ?_
  cases b
  · exact inert_pure _
  · exact inert_read.bind fun _ => inert_ofExcept _

theorem inert_readManifest : Inert (readManifest E home fileId) := by
  intro t
  have hsnd := inert_read (ε := IoError) (p := storedManifestPath home fileId) t
  unfold readManifest
  split <;> rename_i heq <;> rw [heq] at hsnd <;> exact hsnd

theorem inert_readHeld (names : List String) : Inert (readHeld E home fileId names) := by
  induction names with
  | nil => exact inert_pure _
  | cons name names ih =>
    rw [readHeld]
    split
    · exact ih
    · refine inert_readEntry.bind fun bytes => ih.bind fun rest => ?_
      split
      · exact inert_pure _
      · exact inert_pure _

/-- Fetching changes nothing. -/
theorem inert_fetchChunks {offset : UInt32} : Inert (fetchChunks K E home fileId x offset) := by
  intro t
  rcases nodeIsRevoked_cases K E home x t with h | h
  · rw [fetchChunks, bind_of_ok h]
    rfl
  · rw [fetchChunks, bind_of_ok h]
    refine inert_readAcl.bind (fun acl => ?_) t
    split
    · refine inert_pathIsDir.bind fun b => ?_
      cases b
      · exact inert_pure _
      · exact inert_readManifest.bind fun _ => inert_readDir.bind fun _ =>
          (inert_readHeld _).bind fun _ => inert_pure _
    · exact inert_fail _

variable (K E home fileId x) in
theorem core_fetch (offset : UInt32) (t : Tree) :
    (core K E home).step t (x, .fetchChunks fileId offset) =
      (some (fetchReply fileId (fetchChunks K E home fileId x offset t).1), t) := by
  have hsnd : (fetchChunks K E home fileId x offset t).2 = t := inert_fetchChunks t
  simp only [core, handleStorage, hsnd]

/-! ### Stores that are accepted -/

/-- The manifest is signed, and the peer is not revoked. -/
structure Accepts (K : Primitives) (E : StorageEnv) (home : Home) (m : FileManifest)
    (x : PublicIdentity) (t : Tree) : Prop where
  signed : m.verifySignature K E.manifest = .ok ()
  notRevoked : nodeIsRevoked K E home x t = (.ok false, t)

theorem storeChunks_accepted (h : Accepts K E home m x t) :
    storeChunks K E home fileId x m cs t =
      (storeFiles K E home fileId m cs >>= fun _ => addReader K E home fileId x) t := by
  rw [storeChunks, h.signed]
  dsimp only
  rw [bind_of_ok h.notRevoked]
  rfl

variable (fileId cs) in
/-- Otherwise the request does nothing. -/
theorem storeChunks_rejected (h : ¬ Accepts K E home m x t) :
    ∃ e, storeChunks K E home fileId x m cs t = (.error e, t) := by
  rw [storeChunks]
  cases hsigned : m.verifySignature K E.manifest with
  | error e => exact ⟨_, rfl⟩
  | ok =>
    dsimp only
    rcases nodeIsRevoked_cases K E home x t with hr | hr
    · rw [bind_of_ok hr]
      exact ⟨_, rfl⟩
    · exact absurd ⟨hsigned, hr⟩ h

theorem accepts_of_storeChunks (h : storeChunks K E home fileId x m cs t = (.ok (), t')) :
    Accepts K E home m x t := by
  by_contra hnot
  obtain ⟨e, he⟩ := storeChunks_rejected fileId cs hnot
  rw [he] at h
  cases h

/-! ### Which files a request writes -/

/-- The files of a directory of the store; none is called as the list of the revoked peers. -/
def storePlaces (home : Home) (fileId : String) : Set Loc :=
  {l | ∃ c, c ≠ "revocations.json" ∧ l = c :: (blobDir home fileId).norm}

/-- Those apart from the list of the readers. -/
def contentPlaces (home : Home) (fileId : String) : Set Loc :=
  storePlaces home fileId \ {(aclPath home fileId).norm}

theorem mem_contentPlaces {c : String} (h : c ≠ "revocations.json") (h' : c ≠ "acl.json") :
    c :: (blobDir home fileId).norm ∈ contentPlaces home fileId := by
  refine ⟨⟨c, h, rfl⟩, fun hmem => h' ?_⟩
  rw [Set.mem_singleton_iff, norm_aclPath] at hmem
  exact (List.cons.inj hmem).1

theorem blobPlaces_subset (c : EncryptedChunk) :
    {((blobDir home fileId).join (blobName K E c ++ ".tmp")).norm,
      ((blobDir home fileId).join (blobName K E c)).norm} ⊆ contentPlaces home fileId := by
  rintro l (rfl | rfl)
  · rw [norm_blobTmpPath]
    exact mem_contentPlaces (ne_of_length (by rw [length_blobTmpName]; decide))
      (ne_of_length (by rw [length_blobTmpName]; decide))
  · rw [norm_blobPath]
    exact mem_contentPlaces (ne_of_length (by rw [length_blobName]; decide))
      (ne_of_length (by rw [length_blobName]; decide))

theorem storedManifestPath_mem :
    {(storedManifestPath home fileId).norm} ⊆ contentPlaces home fileId := by
  rintro l rfl
  rw [norm_storedManifestPath]
  exact mem_contentPlaces (by decide) (by decide)

theorem aclPath_mem : {(aclPath home fileId).norm} ⊆ storePlaces home fileId := by
  rintro l rfl
  exact ⟨_, by decide, norm_aclPath⟩

theorem touches_storeFiles :
    Touches (contentPlaces home fileId) (storeFiles K E home fileId m cs) :=
  touches_createDirAll.bind fun _ =>
    Touches.bind (Touches.forEach fun c _ =>
        touches_replaceFile.mono (blobPlaces_subset c)) fun _ =>
      touches_write.mono storedManifestPath_mem

theorem touches_addReader :
    Touches {(aclPath home fileId).norm} (addReader K E home fileId x) :=
  inert_readAcl.touches.bind fun _ => touches_createDirAll.bind fun _ => touches_write

/-- A store writes only in the directory of its file id. -/
theorem touches_storeChunks :
    Touches (storePlaces home fileId) (storeChunks K E home fileId x m cs) := by
  intro t
  by_cases h : Accepts K E home m x t
  · rw [storeChunks_accepted h]
    exact Touches.bind (touches_storeFiles.mono Set.sdiff_subset)
      (fun _ => touches_addReader.mono aclPath_mem) t
  · obtain ⟨e, he⟩ := storeChunks_rejected fileId cs h
    rw [he]

theorem revokedNames_congr {u : Tree} (ha : t.accepts = u.accepts)
    (hf : t.file? (revocationsPath home).norm = u.file? (revocationsPath home).norm) :
    revokedNames E home t = revokedNames E home u := by
  have hread : ((read (revocationsPath home) : FsM IoError Bytes) t).1.toOption =
      ((read (revocationsPath home) : FsM IoError Bytes) u).1.toOption := by
    refine Option.ext fun b => ?_
    rw [norm_revocationsPath, ← Home.norm_path] at hf
    rw [toOption_read_eq_some, toOption_read_eq_some, revocationsPath,
      Tree.hasFile_join_iff (downward_home home) (by decide) (by decide),
      Tree.hasFile_join_iff (downward_home home) (by decide) (by decide), Tree.named, Tree.named,
      ha, hf]
  rw [revokedNames, revokedNames, hread]

theorem revokedNames_of_frame {S : Set Loc} (h : Frame S t t')
    (hS : (revocationsPath home).norm ∉ S) : revokedNames E home t' = revokedNames E home t :=
  revokedNames_congr h.grows.accepts (h.file? _ hS)

theorem nodeIsRevoked_congr {u : Tree} (ha : t.accepts = u.accepts)
    (hf : t.file? (revocationsPath home).norm = u.file? (revocationsPath home).norm) :
    (nodeIsRevoked K E home x t).1 = (nodeIsRevoked K E home x u).1 := by
  rw [nodeIsRevoked_eq, nodeIsRevoked_eq, revokedNames_congr ha hf]

theorem nodeIsRevoked_of_frame (h : Frame (storePlaces home fileId) t t')
    (hr : nodeIsRevoked K E home x t = (.ok false, t)) :
    nodeIsRevoked K E home x t' = (.ok false, t') := by
  have hplace : (revocationsPath home).norm ∉ storePlaces home fileId := by
    rintro ⟨c, hc, hl⟩
    rw [norm_revocationsPath] at hl
    exact hc (List.cons.inj hl).1.symm
  rw [nodeIsRevoked_eq] at hr ⊢
  rw [revokedNames_of_frame h hplace, (Prod.mk.inj hr).1]

end Neonet
