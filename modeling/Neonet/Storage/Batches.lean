import Neonet.Lib.Addressed
import Neonet.Storage.Access
import Neonet.Storage.Client

/-!
# What the batches of a push leave

A core keeps the blobs of a file id as a content-addressed store: each under the hash of its bytes.

* `filesOf`, `blobsOf` : the files of a directory of the store, and the blobs among them.
* `Stored` : chunks were put into the blobs, and the other files left alone.
* `Stored.of_storeChunks`, `Stored.of_storeBatches` : **a store that is acknowledged** does this,
  and so do batches one after the other.
* `storeBatches_batches` : the batches of a push, and **what is left when all are stored**: the
  blobs that were there and those of the chunks, each once.
-/

namespace Neonet

open FileTree FsM

section Definitions

variable (K : Primitives) (E : StorageEnv) (home : Home) (fileId : String)

/-- The files in the directory of the file id, by their names. -/
def filesOf (t : Tree) (name : String) : Option Bytes :=
  t.file? (name :: (blobDir home fileId).norm)

/-- The blobs under the file id: the files that stand under the hash of their bytes. -/
def blobsOf (t : Tree) : Addressed K.hexHash where
  get name := (filesOf home fileId t name).filter fun b => decide (K.hexHash b = name)
  addressed _ _ h := of_decide_eq_true (Option.filter_eq_some_iff.1 h).2

/-- Batches are stored one after the other. -/
def storeBatches (requester : PublicIdentity) (manifest : FileManifest)
    (bs : List (List EncryptedChunk)) : FsM IoError Unit :=
  forEach (storeChunks K E home fileId requester manifest) bs

/-- From `t` to `t'` chunks were stored under the file id. -/
structure Stored (es : List EncryptedChunk) (t t' : Tree) : Prop where
  /-- The chunks were put into the blobs, one after the other. -/
  blobs : blobsOf K home fileId t' = (blobsOf K home fileId t).putAll (es.map E.chunk.encode)
  /-- No temporary file is left. -/
  temporary : ∀ e ∈ es, filesOf home fileId t' (blobName K E e ++ ".tmp") = none
  /-- The other files are as they were, apart from the manifest and the list of the readers. -/
  others : ∀ name, name ≠ "manifest.json" → name ≠ "acl.json" →
    (∀ e ∈ es, name ≠ blobName K E e ∧ name ≠ blobName K E e ++ ".tmp") →
      filesOf home fileId t' name = filesOf home fileId t name

/-- No two of the blobs and of the chunks have the same hash, as they are stored. -/
def Collisionless (es : List EncryptedChunk) (t : Tree) : Prop :=
  Set.InjOn K.hash ((blobsOf K home fileId t).held ∪ {b | ∃ e ∈ es, E.chunk.encode e = b})

/-- What `fetch_chunks` does not pass over in a directory stands under the hash of its bytes. -/
def OnlyBlobs (d : Loc) (t : Tree) : Prop :=
  ∀ name b, t.file? (name :: d) = some b → skipped name = false → K.hexHash b = name

end Definitions

variable {K : Primitives} {E : StorageEnv} {home : Home} {fileId : String} {t t' t'' : Tree}
  {x : PublicIdentity} {m : FileManifest} {e : EncryptedChunk} {es es' : List EncryptedChunk}
  {bs : List (List EncryptedChunk)} {name : String} {b : Bytes} {d : Loc} {S : Set Loc}

namespace Collisionless

theorem mono (h : Collisionless K E home fileId es' t) (hsub : es ⊆ es') :
    Collisionless K E home fileId es t := by
  refine Set.InjOn.mono (Set.union_subset_union_right _ ?_) h
  rintro b ⟨e, he, hb⟩
  exact ⟨e, hsub he, hb⟩

theorem hexHash (h : Collisionless K E home fileId es t) :
    Set.InjOn K.hexHash
      ((blobsOf K home fileId t).held ∪ {b | b ∈ es.map E.chunk.encode}) := by
  intro a ha b hb hab
  simp only [List.mem_map] at ha hb
  exact h ha hb (Primitives.hash_of_hexHash hab)

theorem insert (h : Collisionless K E home fileId [e] t) :
    Set.InjOn K.hexHash (insert (E.chunk.encode e) (blobsOf K home fileId t).held) := by
  refine h.hexHash.mono ?_
  rintro b (rfl | hb)
  · exact .inr List.mem_cons_self
  · exact .inl hb

end Collisionless

/-! ### One chunk -/

theorem blobsOf_get :
    (blobsOf K home fileId t).get name = some b ↔
      filesOf home fileId t name = some b ∧ K.hexHash b = name := by
  rw [blobsOf, Option.filter_eq_some_iff, decide_eq_true_iff]

theorem blobTmpName_ne (e e' : EncryptedChunk) : blobName K E e ++ ".tmp" ≠ blobName K E e' :=
  ne_of_length (by rw [length_blobTmpName, length_blobName]; decide)

theorem skipped_blobTmpName (e : EncryptedChunk) : skipped (blobName K E e ++ ".tmp") = true := by
  simp [skipped, String.toList_append]

/-- **A chunk that is kept**: its blob, no temporary file, and nothing else. -/
theorem putBlob_ok (h : putBlob K E home fileId e t = (.ok (), t')) :
    filesOf home fileId t' (blobName K E e) = some (E.chunk.encode e) ∧
      filesOf home fileId t' (blobName K E e ++ ".tmp") = none ∧
        ∀ name, name ≠ blobName K E e → name ≠ blobName K E e ++ ".tmp" →
          filesOf home fileId t' name = filesOf home fileId t name := by
  have hgone := file?_tmp_of_replaceFile h (by
    rw [norm_blobTmpPath, norm_blobPath]
    exact fun hsame => blobTmpName_ne e e (List.cons.inj hsame).1)
  rw [norm_blobTmpPath] at hgone
  rcases replaceFile_cases h with ⟨-, hfile, hframe⟩ | ⟨⟨o, ho⟩, -⟩
  · have hblob := hfile.2
    rw [norm_blobPath] at hblob
    rw [norm_blobTmpPath, norm_blobPath] at hframe
    refine ⟨hblob, hgone, fun name hname htmp => hframe.file? _ ?_⟩
    rintro (hl | hl)
    · exact htmp (List.cons.inj hl).1
    · exact hname (List.cons.inj hl).1
  · cases ho

/-- **A chunk that is kept is put into the blobs**, if it collides with none. -/
theorem blobsOf_putBlob (h : putBlob K E home fileId e t = (.ok (), t'))
    (hinj : Collisionless K E home fileId [e] t) :
    blobsOf K home fileId t' = (blobsOf K home fileId t).put (E.chunk.encode e) := by
  obtain ⟨hblob, -, hother⟩ := putBlob_ok h
  refine Addressed.ext_get fun name => Option.ext fun b => ?_
  have haddr : K.hexHash (E.chunk.encode e) = blobName K E e := rfl
  rw [Addressed.get_put_of_injOn hinj.insert, blobsOf_get, haddr]
  by_cases hname : name = blobName K E e
  · rw [hname, hblob, if_pos rfl]
    constructor
    · exact fun hb => hb.1
    · intro hb
      exact ⟨hb, by rw [← Option.some.inj hb, haddr]⟩
  · rw [if_neg hname, blobsOf_get]
    refine and_congr_left fun hb => ?_
    -- a temporary file is no blob
    have htmp : name ≠ blobName K E e ++ ".tmp" := by
      rw [← hb]
      exact K.hexHash_ne (by rw [length_blobTmpName]; decide)
    rw [hother name hname htmp]

/-! ### Stores -/

namespace Stored

theorem of_frame (h : Frame S t t')
    (hS : ∀ name, name :: (blobDir home fileId).norm ∈ S →
      name = "manifest.json" ∨ name = "acl.json") :
    Stored K E home fileId [] t t' := by
  have hsame : ∀ name, name ≠ "manifest.json" → name ≠ "acl.json" →
      filesOf home fileId t' name = filesOf home fileId t name := fun name hname hname' =>
    h.file? _ fun hmem => (hS name hmem).elim hname hname'
  refine ⟨Addressed.ext_get fun name => Option.ext fun b => ?_, by simp,
    fun name hname hname' _ => hsame name hname hname'⟩
  rw [List.map_nil, Addressed.putAll_nil, blobsOf_get, blobsOf_get]
  refine and_congr_left fun hb => ?_
  rw [hsame name (hb ▸ K.hexHash_ne (by decide)) (hb ▸ K.hexHash_ne (by decide))]

theorem refl (t : Tree) : Stored K E home fileId [] t t :=
  of_frame (Frame.refl (S := ∅) t) fun _ hmem => hmem.elim

theorem of_touches {α : Type} {p : FsM IoError α} {r : Except IoError α} (h : Touches S p)
    (hrun : p t = (r, t')) (hS : ∀ name, name :: (blobDir home fileId).norm ∈ S →
      name = "manifest.json" ∨ name = "acl.json") : Stored K E home fileId [] t t' := by
  have hframe := h t
  rw [hrun] at hframe
  exact of_frame hframe hS

theorem of_putBlob (h : putBlob K E home fileId e t = (.ok (), t'))
    (hinj : Collisionless K E home fileId [e] t) :
    Stored K E home fileId [e] t t' := by
  obtain ⟨-, hgone, hother⟩ := putBlob_ok h
  refine ⟨blobsOf_putBlob h hinj, ?_, fun name _ _ hname => ?_⟩
  · rintro _ (_ | ⟨_, ⟨⟩⟩)
    exact hgone
  · obtain ⟨hblob, htmp⟩ := hname e List.mem_cons_self
    exact hother name hblob htmp

/-- **Chunks after chunks.** -/
theorem trans (h : Stored K E home fileId es t t') (h' : Stored K E home fileId es' t' t'') :
    Stored K E home fileId (es ++ es') t t'' := by
  refine ⟨?_, fun e he => ?_, fun name hname hname' hnew => ?_⟩
  · rw [h'.blobs, h.blobs, List.map_append, Addressed.putAll_append]
  · -- a temporary file of the first chunks is one of the others again, or stays away
    by_cases hagain : ∃ e' ∈ es', blobName K E e' = blobName K E e
    · obtain ⟨e', he', hsame⟩ := hagain
      rw [← hsame]
      exact h'.temporary e' he'
    · have he : e ∈ es := by
        refine (List.mem_append.1 he).resolve_right fun he' => hagain ⟨e, he', rfl⟩
      rw [h'.others _ (ne_of_length (by rw [length_blobTmpName]; decide))
        (ne_of_length (by rw [length_blobTmpName]; decide)), h.temporary e he]
      refine fun e' he' => ⟨blobTmpName_ne e e', fun hsame => hagain ⟨e', he', ?_⟩⟩
      exact (String.append_left_inj _).1 hsame.symm
  · rw [h'.others name hname hname' fun e he => hnew e (List.mem_append_right _ he),
      h.others name hname hname' fun e he => hnew e (List.mem_append_left _ he)]

/-- What does not collide with the chunks that were stored does not collide afterwards. -/
theorem collisionless (h : Stored K E home fileId es t t')
    (hinj : Collisionless K E home fileId (es ++ es') t) :
    Collisionless K E home fileId es' t' := by
  refine Set.InjOn.mono ?_ hinj
  rintro b (hb | ⟨e, he, hb⟩)
  · rw [h.blobs] at hb
    rcases Addressed.held_putAll_subset hb with hb | hb
    · exact .inl hb
    · obtain ⟨e, he, hb⟩ := List.mem_map.1 hb
      exact .inr ⟨e, List.mem_append_left _ he, hb⟩
  · exact .inr ⟨e, List.mem_append_right _ he, hb⟩

theorem of_putBlobs (h : forEach (putBlob K E home fileId) es t = (.ok (), t'))
    (hinj : Collisionless K E home fileId es t) : Stored K E home fileId es t t' := by
  induction es generalizing t with
  | nil =>
    obtain ⟨-, rfl⟩ := Prod.mk.inj h
    exact refl t
  | cons e es ih =>
    obtain ⟨_, t₁, hput, hrest⟩ := bind_ok.1 h
    have hfirst : Stored K E home fileId [e] t t₁ := of_putBlob hput (hinj.mono (by simp))
    exact hfirst.trans (ih hrest (hfirst.collisionless hinj))

/-- **A store that is acknowledged** puts its chunks into the blobs. -/
theorem of_storeChunks (h : storeChunks K E home fileId x m es t = (.ok (), t'))
    (hinj : Collisionless K E home fileId es t) : Stored K E home fileId es t t' := by
  rw [storeChunks_accepted (accepts_of_storeChunks h)] at h
  obtain ⟨_, t₃, hfiles, hreader⟩ := bind_ok.1 h
  obtain ⟨_, t₁, hcreate, hrest⟩ := bind_ok.1 hfiles
  obtain ⟨_, t₂, hput, hwrite⟩ := bind_ok.1 hrest
  have hcreated : Stored K E home fileId [] t t₁ :=
    of_touches (touches_createDirAll (S := ∅)) hcreate fun _ hmem => hmem.elim
  have hmanifest : Stored K E home fileId [] t₂ t₃ := by
    refine of_touches touches_write hwrite fun name hmem => ?_
    rw [norm_storedManifestPath] at hmem
    exact .inl (List.cons.inj hmem).1
  have hacl : Stored K E home fileId [] t₃ t' := by
    refine of_touches touches_addReader hreader fun name hmem => ?_
    rw [norm_aclPath] at hmem
    exact .inr (List.cons.inj hmem).1
  have hkept := of_putBlobs hput (hcreated.collisionless hinj)
  have hall := hcreated.trans (hkept.trans (hmanifest.trans hacl))
  rwa [List.append_nil, List.append_nil, List.nil_append] at hall

/-- **All batches**, one after the other. -/
theorem of_storeBatches (h : storeBatches K E home fileId x m bs t = (.ok (), t'))
    (hinj : Collisionless K E home fileId bs.flatten t) :
    Stored K E home fileId bs.flatten t t' := by
  induction bs generalizing t with
  | nil =>
    obtain ⟨-, rfl⟩ := Prod.mk.inj h
    exact refl t
  | cons batch bs ih =>
    obtain ⟨_, t₁, hstore, hrest⟩ := bind_ok.1 h
    rw [List.flatten_cons] at hinj ⊢
    have hfirst : Stored K E home fileId batch t t₁ :=
      of_storeChunks hstore (hinj.mono (List.subset_append_left _ _))
    exact hfirst.trans (ih hrest (hfirst.collisionless hinj))

/-- The blobs afterwards are those of before and those of the chunks. -/
theorem blobs_get (h : Stored K E home fileId es t t') (hinj : Collisionless K E home fileId es t) :
    (blobsOf K home fileId t').get name = some b ↔ (blobsOf K home fileId t).get name = some b ∨
      ∃ e ∈ es, blobName K E e = name ∧ E.chunk.encode e = b := by
  rw [h.blobs, Addressed.get_putAll_eq_some_iff hinj.hexHash, List.mem_map]
  refine or_congr_right ?_
  constructor
  · rintro ⟨⟨e, he, rfl⟩, hname⟩
    exact ⟨e, he, hname, rfl⟩
  · rintro ⟨e, he, hname, rfl⟩
    exact ⟨⟨e, he, rfl⟩, hname⟩

end Stored

/-! ### Runs -/

theorem OnlyBlobs.frame (h : OnlyBlobs K d t) (hf : Frame S t t')
    (hS : ∀ name, name :: d ∈ S → skipped name = true) : OnlyBlobs K d t' := by
  intro name b hb hskip
  refine h name b ?_ hskip
  rw [← hf.file? (name :: d) fun hmem => by rw [hS name hmem] at hskip; cases hskip]
  exact hb

theorem preserves_putBlob : Preserves (OnlyBlobs K d) (putBlob K E home fileId e) := by
  intro t ht
  have htmp : ∀ name, name :: d = ((blobDir home fileId).join (blobName K E e ++ ".tmp")).norm →
      skipped name = true := by
    intro name hname
    rw [norm_blobTmpPath] at hname
    rw [(List.cons.inj hname).1, skipped_blobTmpName]
  cases hput : putBlob K E home fileId e t with
  | mk res t' =>
  rcases replaceFile_cases hput with ⟨-, hfile, hframe⟩ | ⟨-, hframe⟩
  · intro name b hb hskip
    by_cases hname : name :: d = ((blobDir home fileId).join (blobName K E e)).norm
    · -- this is the blob
      rw [hname] at hb
      obtain rfl := Option.some.inj (hfile.2.symm.trans hb)
      rw [norm_blobPath] at hname
      exact (List.cons.inj hname).1.symm
    · refine ht name b ?_ hskip
      rw [← hframe.file? (name :: d)]
      · exact hb
      · rintro (hl | hl)
        · rw [htmp name hl] at hskip
          cases hskip
        · exact hname hl
  · exact ht.frame hframe htmp

theorem preserves_storeChunks :
    Preserves (OnlyBlobs K d) (storeChunks K E home fileId x m es) := by
  have helsewhere : ∀ {α : Type} {s : String} {p : FsM IoError α}, skipped s = true →
      Touches {s :: (blobDir home fileId).norm} p → Preserves (OnlyBlobs K d) p := by
    intro α s p hs hp
    refine hp.preserves fun t t' hframe ht => ht.frame hframe fun name hname => ?_
    rw [(List.cons.inj (Set.mem_singleton_iff.1 hname)).1, hs]
  intro t ht
  by_cases haccepts : Accepts K E home m x t
  · rw [storeChunks_accepted haccepts]
    refine Preserves.bind (Preserves.bind ?_ fun _ => Preserves.bind ?_ fun _ => ?_) (fun _ => ?_) t
      ht
    · exact (touches_createDirAll (S := ∅)).preserves fun t t' hframe ht =>
        ht.frame hframe fun _ hmem => hmem.elim
    · exact Preserves.forEach fun _ _ => preserves_putBlob
    · exact helsewhere (s := "manifest.json") (by decide)
        (norm_storedManifestPath ▸ touches_write)
    · exact helsewhere (s := "acl.json") (by decide) (norm_aclPath ▸ touches_addReader)
  · obtain ⟨err, herr⟩ := storeChunks_rejected fileId es haccepts
    rw [herr]
    exact ht

/-- In such a directory the blobs are all that is not passed over. -/
theorem OnlyBlobs.get (h : OnlyBlobs K (blobDir home fileId).norm t)
    (hskip : skipped name = false) :
    (blobsOf K home fileId t).get name = filesOf home fileId t name := by
  refine Option.ext fun b => ?_
  rw [blobsOf_get]
  exact and_iff_left_of_imp fun hb => h name b hb hskip

/-! ### Pushes -/

/-- **A push to a core** that reports success has stored its batches. -/
theorem pushBatches_ok_iff {debug : StorageFrame → String} :
    pushBatches (coreServer K E home x debug) fileId m bs t = (.ok (), t') ↔
      storeBatches K E home fileId x m bs t = (.ok (), t') := by
  induction bs generalizing t with
  | nil => exact Iff.rfl
  | cons batch bs ih =>
    rw [pushBatches, storeBatches, forEach]
    simp only [coreServer, core, handleStorage]
    cases hstore : storeChunks K E home fileId x m batch t with
    | mk res t₁ =>
    cases res with
    | error e =>
      rw [bind_of_error hstore]
      exact iff_of_false (fun h => by cases h) fun h => by cases h
    | ok =>
      rw [bind_of_ok hstore]
      exact ih

theorem OnlyBlobs.storeBatches {r : Except IoError Unit} (h : OnlyBlobs K d t)
    (hrun : storeBatches K E home fileId x m bs t = (r, t')) : OnlyBlobs K d t' := by
  have hpreserved : Preserves (OnlyBlobs K d) (Neonet.storeBatches K E home fileId x m bs) :=
    Preserves.forEach fun _ _ => preserves_storeChunks
  have hafter := hpreserved t h
  rwa [hrun] at hafter

/-- **The batches of a push**: none is empty, they hold the chunks in order, each is a single chunk
or within the budget, and storing them one after the other leaves the blobs that were there and
those of the chunks.  Where there were only blobs, there are only blobs afterwards, and each chunk
is in one file, under its hash. -/
theorem storeBatches_batches :
    (∀ batch ∈ batches E es, batch ≠ []) ∧ (batches E es).flatten = es ∧
    (∀ batch ∈ batches E es, batch.length = 1 ∨
      (batch.map fun e => (E.chunk.encode e).length).sum ≤ maxBatchPayload) ∧
    ∀ t t', storeBatches K E home fileId x m (batches E es) t = (.ok (), t') →
      Collisionless K E home fileId es t →
        (∀ name b, (blobsOf K home fileId t').get name = some b ↔
          (blobsOf K home fileId t).get name = some b ∨
            ∃ e ∈ es, blobName K E e = name ∧ E.chunk.encode e = b) ∧
        Stored K E home fileId es t t' ∧
        (OnlyBlobs K (blobDir home fileId).norm t → OnlyBlobs K (blobDir home fileId).norm t' ∧
          ∀ e ∈ es, ∀ name, skipped name = false →
            (filesOf home fileId t' name = some (E.chunk.encode e) ↔ name = blobName K E e)) := by
  refine ⟨fun _ => ne_nil_of_mem_batches, flatten_batches, fun _ => fits_batches, ?_⟩
  intro t t' hrun hinj
  have hstored : Stored K E home fileId es t t' := by
    have hall := Stored.of_storeBatches hrun (by rwa [flatten_batches])
    rwa [flatten_batches] at hall
  refine ⟨fun _ _ => hstored.blobs_get hinj, hstored, fun honly => ?_⟩
  have honly' : OnlyBlobs K (blobDir home fileId).norm t' := honly.storeBatches hrun
  refine ⟨honly', fun e he name hskip => ?_⟩
  rw [← honly'.get hskip, hstored.blobs_get hinj]
  constructor
  · rintro (hb | ⟨e', -, hname, hb⟩)
    · exact (Addressed.addressed _ _ _ hb).symm
    · rw [← hname, blobName, blobName, hb]
  · exact fun hname => .inr ⟨e, he, hname.symm, rfl⟩

/-! ### A chunk that is stored again -/

namespace Parcel

open Cabinet

/-- Another chunk. -/
def other : EncryptedChunk := ⟨1, digits 24 2, [8]⟩

/-- The core after the first chunk was stored. -/
def before : Tree :=
  (storeChunks .sample .sample device "f" (owner.pub .sample) (manifest owner) [blob] disk).2

/-- The core after a push of both chunks. -/
def pushed : Tree :=
  (storeBatches .sample .sample device "f" (owner.pub .sample) (manifest owner)
    (batches .sample [blob, other]) before).2

theorem distinct : ∀ e ∈ [blob, other], ∀ e' ∈ [blob, other],
    Primitives.sample.hash (StorageEnv.sample.chunk.encode e) =
      Primitives.sample.hash (StorageEnv.sample.chunk.encode e') → e = e' := by
  decide +kernel

theorem not_held_disk (b : Bytes) : b ∉ (blobsOf .sample device "f" disk).held := by
  rintro ⟨name, hb⟩
  have hentry := Tree.file?_eq_some.1 (blobsOf_get.1 hb).1
  rw [disk, Tree.entry_bare_cons] at hentry
  cases hentry

theorem collisionless_disk : Collisionless .sample .sample device "f" [blob, other] disk := by
  rintro a (ha | ⟨e, he, rfl⟩) b (hb | ⟨e', he', rfl⟩) hab
  · exact absurd ha (not_held_disk a)
  · exact absurd ha (not_held_disk a)
  · exact absurd hb (not_held_disk b)
  · rw [distinct e he e' he' hab]

/-- The blob that is there is that of the first chunk. -/
theorem stored_before : Stored .sample .sample device "f" [blob] disk before := by
  have hrun : (storeChunks .sample .sample device "f" (owner.pub .sample) (manifest owner) [blob]
      disk).1 = .ok () := by decide +kernel
  refine Stored.of_storeChunks (Prod.ext hrun ?_) (collisionless_disk.mono (by simp))
  rw [before]

theorem collisionless_before : Collisionless .sample .sample device "f" [blob, other] before :=
  stored_before.collisionless (collisionless_disk.mono (by simp))

theorem onlyBlobs_before : OnlyBlobs .sample (blobDir device "f").norm before := by
  refine preserves_storeChunks disk fun name b hb => ?_
  have hentry := Tree.file?_eq_some.1 hb
  rw [disk, Tree.entry_bare_cons] at hentry
  cases hentry

end Parcel

open Parcel Cabinet in
/-- The first chunk is stored again, and still once. -/
theorem storeBatches_parcel :
    (∀ name b, (blobsOf .sample device "f" pushed).get name = some b ↔
      (blobsOf .sample device "f" before).get name = some b ∨
        ∃ e ∈ [blob, other], blobName .sample .sample e = name ∧
          StorageEnv.sample.chunk.encode e = b) ∧
    Stored .sample .sample device "f" [blob, other] before pushed ∧
    OnlyBlobs .sample (blobDir device "f").norm pushed ∧
    ∀ e ∈ [blob, other], ∀ name, skipped name = false →
      (filesOf device "f" pushed name = some (StorageEnv.sample.chunk.encode e) ↔
        name = blobName .sample .sample e) := by
  have hrun : storeBatches .sample .sample device "f" (owner.pub .sample) (manifest owner)
      (batches .sample [blob, other]) before = (.ok (), pushed) := by
    refine Prod.ext (by decide +kernel) ?_
    rw [pushed]
  obtain ⟨hblobs, hstored, honly⟩ :=
    storeBatches_batches.2.2.2 before pushed hrun collisionless_before
  exact ⟨hblobs, hstored, honly onlyBlobs_before⟩

end Neonet
