import Neonet.Lib.Past
import Neonet.Storage.Integrity

/-!
# The blob store of a core

A blob is kept in a file whose name is the hash of its ciphertext, and read again by this name.

* `CoreBlobStore.put`, `CoreBlobStore.get` : a blob is written, and read.
* `Immutable` : what was put under an id is what is got there, after every later put.
* `immutable_iff` : **this is so iff no two blobs agree in the ciphertext and differ elsewhere**,
  since the index and the nonce are not hashed.
-/

namespace Neonet

open FileTree FsM

instance : OfOs StorageError := ⟨fun e => .io (.os e)⟩

/-- `CoreBlobStore`. -/
structure CoreBlobStore where
  root : PathBuf

section Operations

variable (K : Primitives) (C : Codec EncryptedChunk) (store : CoreBlobStore)

/-- Where a blob is kept. -/
def CoreBlobStore.blobPath (id : String) : PathBuf := store.root.join id

/-- `CoreBlobStore::put`. -/
def CoreBlobStore.put (blob : EncryptedChunk) : FsM StorageError String := do
  let id := K.hexHash blob.ciphertext
  write (store.blobPath id) (C.encode blob)
  return id

/-- `CoreBlobStore::get`. -/
def CoreBlobStore.get (id : String) : FsM StorageError EncryptedChunk := do
  let bytes ← read (store.blobPath id)
  FsM.ofExcept ((C.decode bytes).mapError .codec)

/-- Blobs are put, one after the other. -/
def putting : Machine Tree EncryptedChunk (Except StorageError String) where
  step t blob := store.put K C blob t

/-- At each time, all that was put before is got again under the id it was given. -/
def Immutable (t : Tree) (blobs : List EncryptedChunk) : Prop :=
  ∀ pre post, blobs = pre ++ post → ∀ e ∈ (putting K C store).transcript t pre, ∀ id,
    e.2 = .ok id → (store.get C id ((putting K C store).after t pre)).1 = .ok e.1

end Operations

variable {K : Primitives} {C : Codec EncryptedChunk} {store : CoreBlobStore} {t t' : Tree}
  {blob : EncryptedChunk} {blobs : List EncryptedChunk} {id : String}

theorem put_ok (h : store.put K C blob t = (.ok id, t')) :
    id = K.hexHash blob.ciphertext ∧ t'.HasFile (store.blobPath id) (C.encode blob) := by
  rw [CoreBlobStore.put] at h
  obtain ⟨u, t₁, hwrite, hpure⟩ := bind_ok.1 h
  obtain ⟨hid, rfl⟩ := Prod.mk.inj hpure
  obtain rfl := Except.ok.inj hid
  exact ⟨rfl, hasFile_of_write hwrite⟩

theorem touches_put (K : Primitives) (C : Codec EncryptedChunk) (store : CoreBlobStore)
    (blob : EncryptedChunk) :
    Touches {(store.blobPath (K.hexHash blob.ciphertext)).norm} (store.put K C blob) :=
  touches_write.bind fun _ => touches_pure _

theorem get_of_hasFile (h : t.HasFile (store.blobPath id) (C.encode blob)) :
    (store.get C id t).1 = .ok blob := by
  rw [CoreBlobStore.get, bind_of_ok (read_of_hasFile h), C.decode_encode]
  rfl

theorem norm_blobPath_injective {a b : Bytes}
    (h : (store.blobPath (K.hexHash a)).norm = (store.blobPath (K.hexHash b)).norm) :
    K.hash a = K.hash b := by
  rw [CoreBlobStore.blobPath, CoreBlobStore.blobPath,
    PathBuf.norm_join (K.hexHash_no_slash _) (K.plain_hexHash _),
    PathBuf.norm_join (K.hexHash_no_slash _) (K.plain_hexHash _)] at h
  exact Primitives.hash_of_hexHash (List.cons.inj h).1

/-- **One put** leaves a file as it is unless it has the same id, and then the same blob. -/
theorem hasFile_put {b : EncryptedChunk}
    (h : t.HasFile (store.blobPath (K.hexHash b.ciphertext)) (C.encode b))
    (hok : store.put K C blob t = (.ok id, t'))
    (hsame : K.hash blob.ciphertext = K.hash b.ciphertext → blob = b) :
    t'.HasFile (store.blobPath (K.hexHash b.ciphertext)) (C.encode b) := by
  by_cases hhash : K.hash blob.ciphertext = K.hash b.ciphertext
  · obtain rfl := hsame hhash
    obtain ⟨rfl, hfile⟩ := put_ok hok
    exact hfile
  · have hframe := touches_put K C store blob t
    rw [hok] at hframe
    refine h.frame hframe fun hmem => hhash ?_
    exact (norm_blobPath_injective (Set.mem_singleton_iff.1 hmem)).symm

/-- The file of a blob is the same after a run, if no other blob of the run has its id. -/
theorem hasFile_after {b : EncryptedChunk}
    (h : t.HasFile (store.blobPath (K.hexHash b.ciphertext)) (C.encode b))
    (hok : ∀ e ∈ (putting K C store).transcript t blobs, ∃ id, e.2 = .ok id)
    (hsame : ∀ b' ∈ blobs, K.hash b'.ciphertext = K.hash b.ciphertext → b' = b) :
    ((putting K C store).after t blobs).HasFile (store.blobPath (K.hexHash b.ciphertext))
      (C.encode b) := by
  induction blobs generalizing t with
  | nil => exact h
  | cons blob blobs ih =>
    obtain ⟨id, hid⟩ := hok _ List.mem_cons_self
    have hput : store.put K C blob t = (.ok id, ((putting K C store).step t blob).2) :=
      Prod.ext hid rfl
    rw [Machine.after_cons]
    refine ih (hasFile_put h hput (hsame blob List.mem_cons_self))
      (fun e he => hok e (List.mem_cons_of_mem _ he)) fun b' hb' => ?_
    exact hsame b' (List.mem_cons_of_mem _ hb')

/-- **All puts**: each blob is in its file. -/
theorem hasFile_of_run
    (hok : ∀ e ∈ (putting K C store).transcript t blobs, ∃ id, e.2 = .ok id)
    (hsame : ∀ b ∈ blobs, ∀ b' ∈ blobs, K.hash b.ciphertext = K.hash b'.ciphertext → b = b') :
    ∀ e ∈ (putting K C store).transcript t blobs, ∀ id, e.2 = .ok id →
      ((putting K C store).after t blobs).HasFile (store.blobPath id) (C.encode e.1) := by
  induction blobs generalizing t with
  | nil => simp [Machine.transcript]
  | cons blob blobs ih =>
    have hrest : ∀ e ∈ (putting K C store).transcript ((putting K C store).step t blob).2 blobs,
        ∃ id, e.2 = .ok id := fun e he => hok e (List.mem_cons_of_mem _ he)
    intro e he id hid
    rw [Machine.after_cons]
    rcases List.mem_cons.1 he with rfl | he
    · -- the first blob is in its file before the others are put
      have hput : store.put K C blob t = (.ok id, ((putting K C store).step t blob).2) :=
        Prod.ext hid rfl
      obtain ⟨rfl, hfile⟩ := put_ok hput
      exact hasFile_after hfile hrest fun b' hb' hhash =>
        hsame b' (List.mem_cons_of_mem _ hb') blob List.mem_cons_self hhash
    · exact ih hrest (fun b hb b' hb' => hsame b (List.mem_cons_of_mem _ hb) b'
        (List.mem_cons_of_mem _ hb')) e he id hid

theorem exists_put (hok : ∀ e ∈ (putting K C store).transcript t blobs, ∃ id, e.2 = .ok id) :
    ∀ b ∈ blobs, (b, .ok (K.hexHash b.ciphertext)) ∈ (putting K C store).transcript t blobs := by
  induction blobs generalizing t with
  | nil => simp
  | cons blob blobs ih =>
    intro b hb
    rcases List.mem_cons.1 hb with rfl | hb
    · obtain ⟨id, hid⟩ := hok _ List.mem_cons_self
      have hput : store.put K C b t = (.ok id, ((putting K C store).step t b).2) :=
        Prod.ext hid rfl
      obtain ⟨rfl, -⟩ := put_ok hput
      exact List.mem_cons.2 (.inl (Prod.ext rfl hid.symm))
    · exact List.mem_cons_of_mem _ (ih (fun e he => hok e (List.mem_cons_of_mem _ he)) b hb)

/-- **An id keeps what it denotes iff no two blobs with one ciphertext differ elsewhere.** -/
theorem immutable_iff (hok : ∀ e ∈ (putting K C store).transcript t blobs, ∃ id, e.2 = .ok id)
    (hcollision : NoCollision K (blobs.map EncryptedChunk.ciphertext)) :
    Immutable K C store t blobs ↔
      ∀ b ∈ blobs, ∀ b' ∈ blobs, b.ciphertext = b'.ciphertext → b = b' := by
  constructor
  · intro h b hb b' hb' hsame
    have hget := h blobs [] (List.append_nil _).symm _ (exists_put hok b hb) _ rfl
    have hget' := h blobs [] (List.append_nil _).symm _ (exists_put hok b' hb') _ rfl
    dsimp only at hget hget'
    rw [hsame, hget'] at hget
    exact (Except.ok.inj hget).symm
  · rintro h pre post rfl e he id hid
    have hpre : ∀ e ∈ (putting K C store).transcript t pre, ∃ id, e.2 = .ok id := fun e he =>
      hok e (by rw [Machine.transcript_append]; exact List.mem_append_left _ he)
    refine get_of_hasFile (hasFile_of_run hpre ?_ e he id hid)
    intro b hb b' hb' hhash
    have hmem : ∀ {c}, c ∈ pre → c ∈ pre ++ post := fun hc => List.mem_append_left _ hc
    refine h b (hmem hb) b' (hmem hb') (hcollision _ ?_ _ ?_ hhash)
    · exact List.mem_map_of_mem (hmem hb)
    · exact List.mem_map_of_mem (hmem hb')

namespace Shelved

/-- A store in a directory of its own. -/
def shelf : CoreBlobStore := ⟨["blobs"]⟩

/-- The directory is empty. -/
def disk : Tree := (Tree.bare fun _ => true).mkdir ["blobs"]

/-- A blob. -/
def memo : EncryptedChunk := ⟨0, digits 24 1, [7, 7]⟩

/-- Another blob with the same ciphertext. -/
def other : EncryptedChunk := ⟨1, digits 24 2, [7, 7]⟩

end Shelved

open Shelved in
/-- One blob is put twice, and another one. -/
theorem immutable_iff_twice :
    Immutable .sample EncryptedChunk.wire.toCodec shelf disk [memo, ⟨1, digits 24 2, [8]⟩, memo] :=
  have hok : ∀ e ∈ (putting .sample EncryptedChunk.wire.toCodec shelf).transcript disk
      [memo, ⟨1, digits 24 2, [8]⟩, memo],
        e.2 = .ok (Primitives.sample.hexHash e.1.ciphertext) := by decide +kernel
  (immutable_iff (fun e he => ⟨_, hok e he⟩) (by decide +kernel)).2 (by decide)

open Shelved in
/-- The second blob takes the place of the first one. -/
theorem not_immutable :
    ¬ ∀ (K : Primitives) (C : Codec EncryptedChunk) (store : CoreBlobStore) (t : Tree)
      (blobs : List EncryptedChunk),
        (∀ e ∈ (putting K C store).transcript t blobs, ∃ id, e.2 = .ok id) →
          NoCollision K (blobs.map EncryptedChunk.ciphertext) → Immutable K C store t blobs := by
  intro h
  have hok : ∀ e ∈ (putting .sample EncryptedChunk.wire.toCodec shelf).transcript disk
      [memo, other], e.2 = .ok (Primitives.sample.hexHash e.1.ciphertext) := by decide +kernel
  have hget := h .sample EncryptedChunk.wire.toCodec shelf disk [memo, other]
    (fun e he => ⟨_, hok e he⟩) (by decide +kernel) [memo, other] [] rfl
    (memo, .ok (Primitives.sample.hexHash [7, 7])) (by decide +kernel) _ rfl
  exact absurd hget (by decide +kernel)

end Neonet
