import Neonet.App.Handle

/-!
# Where peers can make a node write

Three strings that a peer chooses are joined to a directory of the node: the id of a transfer, the
name in a manifest, and the id of a stored file.  Only the paths of shared directories are checked.

* `inside` : the places strictly beneath a directory.
* `ownPlaces` : where a frame, or a pull, may write.
* `Contained` : what the node would have to check of them.
* `writes_contained` : **in every run that meets it, each frame and each pull writes only where it
  may, and all other files stay as they are.**
* `not_contained` : an id that leads upwards.
-/

namespace Neonet

open FileTree FsM

/-- The places strictly beneath `d`. -/
def inside (d : Loc) : Set Loc := {l | ∃ c k, l = c :: k ∧ d <:+ k}

/-- What makes a node write files that a peer has a say in. -/
inductive Access
  | files (request : Message) (frame : FilesFrame)
  | storage (request : Message) (frame : StorageFrame)
  /-- `store pull` without an output path, with the replies of the core. -/
  | pull (fileId : String) (key : ByteArr 32) (cwd : PathBuf) (fuel : ℕ)
      (replies : List (Except IoError Reply))

section Node

variable (V : AppEnv)

/-- What peers make a node write, one after the other. -/
def accesses : Machine AppState Access Unit where
  step s
    | .files request frame => ((), (V.handleFiles request frame s).2)
    | .storage request frame => ((), (V.handleStore request frame s).2)
    | .pull fileId key cwd fuel replies =>
      ((), { s with
        disk := (storePull V.primitives V.cipher key script fileId cwd none fuel
            replies s.disk).2 })

/-- The id of a transfer leads to one directory of `incoming`. -/
def OwnTransfer (id : String) : Prop :=
  ∃ c, (transferDir V.home id).norm = c :: "incoming" :: V.home.loc

/-- The id of a stored file leads to one directory of `blobs`. -/
def OwnBlobs (fileId : String) : Prop :=
  ∃ c, (blobDir V.home fileId).norm = c :: "blobs" :: V.home.loc

/-- Where it may write: beneath the directory of the transfer in `incoming`, beneath that of the
stored file in `blobs`, or a file of the current directory. -/
def ownPlaces : Access → Set Loc
  | .files _ (.announce id _ _) | .files _ (.chunk id _) =>
    {l | OwnTransfer V id ∧ l ∈ inside (transferDir V.home id).norm}
  | .storage _ (.storeChunks fileId _ _) =>
    {l | OwnBlobs V fileId ∧ l ∈ inside (blobDir V.home fileId).norm}
  | .pull _ _ cwd _ _ => {l | ∃ c, l = c :: cwd.norm}
  | _ => ∅

/-- An id that is joined to a directory of the node leads to a directory of its own there, and a
name in a manifest leads beneath that directory, or into the current one, if anything is written
for them. -/
def Contained (s : AppState) : Access → Prop
  | .files _ (.announce id m _) =>
    verifyManifest V.primitives V.files.manifest m = .ok () → OwnTransfer V id
  | .files _ (.chunk id c) =>
    (∀ m, (loadReceivedManifest V.files V.home id s.disk).1 = .ok m →
      verifyChunk V.primitives m c = .ok () → OwnTransfer V id) ∧
        ∀ l ∈ lastPlaces V.primitives V.files V.home id c s.disk,
          l ∈ inside (transferDir V.home id).norm
  | .storage request (.storeChunks fileId m _) =>
    Accepts V.primitives V.storage V.home m request.sender s.disk → OwnBlobs V fileId
  | .pull fileId _ cwd fuel replies =>
    ∀ m es, (pullChunks script fileId fuel replies).1 = some (.ok (m, es)) →
      ∃ c, (cwd.join m.name).norm = c :: cwd.norm
  | _ => True

end Node

variable {V : AppEnv} {s : AppState} {a : Access} {l : Loc} {id : String}

theorem cons_mem_inside {c : String} {d : Loc} : c :: d ∈ inside d := ⟨c, d, rfl, List.suffix_rfl⟩

theorem cons_cons_mem_inside {c x : String} {d : Loc} : c :: x :: d ∈ inside d :=
  ⟨c, x :: d, rfl, List.suffix_cons x d⟩

theorem manifestPlaces_inside (h : l ∈ manifestPlaces V.home id) :
    l ∈ inside (transferDir V.home id).norm := by
  rcases h with rfl | rfl
  · rw [norm_manifestTmpPath]; exact cons_mem_inside
  · rw [norm_manifestPath]; exact cons_mem_inside

theorem transferPlaces_inside (h : l ∈ transferPlaces V.home id) :
    l ∈ inside (transferDir V.home id).norm := by
  rcases h with h | h | ⟨i, h⟩
  · exact manifestPlaces_inside h
  · rcases h with rfl | rfl
    · rw [norm_stateTmpPath]; exact cons_mem_inside
    · rw [norm_statePath]; exact cons_mem_inside
  · rcases h with rfl | rfl
    · rw [norm_chunkTmpPath]; exact cons_cons_mem_inside
    · rw [norm_chunkPath]; exact cons_cons_mem_inside

theorem frame_storePull {K : Primitives} {A : Cipher} {key : ByteArr 32} {fileId : String}
    {cwd : PathBuf} {fuel : ℕ} {replies : List (Except IoError Reply)} {t : Tree} :
    Frame {l | ∃ m es, (pullChunks script fileId fuel replies).1 = some (.ok (m, es)) ∧
        l = (cwd.join m.name).norm}
      t (storePull K A key script fileId cwd none fuel replies t).2 := by
  rw [storePull]
  split
  · rfl
  · rfl
  · rename_i m es hpull
    split
    · rfl
    · rename_i chunks _
      have h : Frame {(destination cwd none m).norm} t
          (reconstruct K m chunks (destination cwd none m) t).2 := touches_reconstruct t
      have hplace : ({(destination cwd none m).norm} : Set Loc) ⊆
          {l | ∃ m es, (pullChunks script fileId fuel replies).1 = some (.ok (m, es)) ∧
            l = (cwd.join m.name).norm} := Set.singleton_subset_iff.2 ⟨m, es, hpull, rfl⟩
      split <;> rename_i heq <;> rw [heq] at h <;> exact h.mono hplace

/-- **A frame or a pull that meets the condition writes only where it may.** -/
theorem Contained.frame (h : Contained V s a) :
    Frame (ownPlaces V a) s.disk ((accesses V).step s a).2.disk := by
  match a with
  | .files request (.announce id m name) =>
    exact frame_handleFiles.mono fun l hl => ⟨h hl.1, manifestPlaces_inside hl.2⟩
  | .files request (.chunk id c) =>
    refine frame_handleFiles.mono ?_
    rintro l (⟨hl, m, hload, hv⟩ | hlast)
    · exact ⟨h.1 m hload hv, transferPlaces_inside hl⟩
    · have hinside := h.2 l hlast
      obtain ⟨m, s', hload, -, hv, -⟩ := hlast
      exact ⟨h.1 m hload hv, hinside⟩
  | .storage request (.storeChunks fileId m cs) =>
    refine frame_handleStore.mono ?_
    rintro l ⟨haccepts, c, -, rfl⟩
    exact ⟨h haccepts, cons_mem_inside⟩
  | .pull fileId key cwd fuel replies =>
    refine frame_storePull.mono ?_
    rintro l ⟨m, es, hpull, rfl⟩
    exact h m es hpull
  | .files _ (.accept ..) | .files _ (.reject ..) | .files _ (.complete ..)
  | .files _ (.statusRequest ..) | .files _ (.status ..) | .files _ (.error ..) =>
    exact frame_handleFiles.mono fun l hl => absurd hl (Set.notMem_empty l)
  | .storage _ (.storeAck ..) | .storage _ (.fetchChunks ..) | .storage _ (.storedChunks ..)
  | .storage _ (.error ..) =>
    exact frame_handleStore.mono fun l hl => absurd hl (Set.notMem_empty l)

/-- **Everything is written where it may be.**  In a run that meets the condition, each frame and
each pull writes only where it may, and all other files stay as they are. -/
theorem writes_contained {as : List Access} (h : (accesses V).Along (Contained V) s as) :
    (∀ pre a post, as = pre ++ a :: post →
      Frame (ownPlaces V a) ((accesses V).after s pre).disk
          ((accesses V).after s (pre ++ [a])).disk) ∧
    Frame {l | ∃ a ∈ as, l ∈ ownPlaces V a} s.disk ((accesses V).after s as).disk := by
  constructor
  · rintro pre a post rfl
    have hpost := (Machine.along_append.1 h).2
    rw [Machine.after_append]
    exact Contained.frame hpost.1
  · induction as generalizing s with
    | nil => rfl
    | cons a as ih =>
      have hstep : Frame {l | ∃ x ∈ a :: as, l ∈ ownPlaces V x} s.disk
          ((accesses V).step s a).2.disk :=
        (Contained.frame h.1).mono fun l hl => ⟨a, List.mem_cons_self, hl⟩
      refine hstep.trans ((ih h.2).mono ?_)
      rintro l ⟨x, hx, hl⟩
      exact ⟨x, List.mem_cons_of_mem _ hx, hl⟩

namespace Photo

/-- A key of a client. -/
def clientKey : ByteArr 32 := digits 32 5

/-- The chunks of the photo, as a client stores them. -/
def sealedPhoto : List EncryptedChunk :=
  (encryptAll .sample clientKey (digits 24) 0 [first, second]).toOption.getD []

/-- The photo is announced and arrives, it is stored, and it is pulled. -/
def album : List Access :=
  [.files note (.announce "p" (manifest "photo") "owner"), .files note (.chunk "p" first),
    .files note (.chunk "p" second),
    .storage note (.storeChunks "p" (manifest "photo") sealedPhoto),
    .pull "p" clientKey [] 1
      [.ok ⟨some (.storedChunks "p" (some (manifest "photo")) sealedPhoto), ""⟩]]

/-- A chunk of the photo, once it is announced. -/
theorem contained_chunk {s : AppState} {c : Chunk}
    (h : (loadReceivedManifest env.files env.home "p" s.disk).1 = .ok (manifest "photo")) :
    Contained env s (.files note (.chunk "p" c)) := by
  refine ⟨fun _ _ _ => ⟨"p", by decide⟩, ?_⟩
  rintro l ⟨m, -, hload, -, -, -, -, rfl⟩
  obtain rfl := Except.ok.inj (h.symm.trans hload)
  exact ⟨"photo", _, by decide +kernel, List.suffix_rfl⟩

theorem contained_album : (accesses env).Along (Contained env) start album := by
  refine ⟨fun _ => ⟨"p", by decide⟩, contained_chunk (by decide +kernel),
    contained_chunk (by decide +kernel), fun _ => ⟨"p", by decide⟩, fun m es hpull => ?_, trivial⟩
  have hphoto : (pullChunks script "p" 1 [.ok ⟨some (.storedChunks "p" (some (manifest "photo"))
      sealedPhoto), ""⟩]).1 = some (.ok (manifest "photo", sealedPhoto)) := by decide +kernel
  obtain ⟨rfl, -⟩ := Prod.mk.inj (Except.ok.inj (Option.some.inj (hphoto.symm.trans hpull)))
  exact ⟨"photo", by decide +kernel⟩

end Photo

open Photo in
/-- The photo stands in the directory of its transfer and where it is pulled to, and everything that
was written stands where it may. -/
theorem writes_contained_photo :
    Frame {l | ∃ a ∈ album, l ∈ ownPlaces env a} start.disk
      ((accesses env).after start album).disk ∧
    ((accesses env).after start album).disk.file? ["photo", "p", "incoming", "node"] =
      some [1, 2, 3] ∧
    (((accesses env).after start album).disk.file? ["acl.json", "p", "blobs", "node"]).isSome ∧
    ((accesses env).after start album).disk.file? ["photo"] = some [1, 2, 3] :=
  ⟨(writes_contained contained_album).2, by decide +kernel⟩

open Photo in
/-- Announced under an id that leads upwards, the manifest is written to the directory of the node
itself. -/
theorem not_contained :
    verifyManifest env.primitives env.files.manifest (manifest "photo") = .ok () ∧
      ¬ Frame {l | ∃ c, l ∈ inside (c :: "incoming" :: env.home.loc)} start.disk
        ((accesses env).step start (.files note
            (.announce ".." (manifest "photo") "owner"))).2.disk := by
  refine ⟨by decide +kernel, fun h => ?_⟩
  have hsame := h.file? ["manifest.json", "node"] (by
    rintro ⟨c, x, k, he, hk⟩
    obtain rfl := (List.cons.inj he).2
    have hlength := hk.length_le
    simp [env, AppEnv.sample, device] at hlength)
  have hwritten : ((accesses env).step start
      (.files note (.announce ".." (manifest "photo") "owner"))).2.disk.file?
        ["manifest.json", "node"] ≠ start.disk.file? ["manifest.json", "node"] := by decide +kernel
  exact hwritten hsame

end Neonet
