import Neonet.App.Sizes
import Neonet.Storage.RoundTrip

/-!
# The frames of a stored file

A file is cut into blocks of 768 KiB, its chunks are stored in batches and fetched in pages of
900 KiB.  The frames of both carry the manifest besides, whose length grows with the number of the
blocks.

* `chunkLength`, `manifestLength`, `frameLength` : the lengths, from that of the file and its name.
* `length_storeChunks`, `length_storedChunks` : the length of a frame of a manifest and chunks.
* `PageLength` : what the chunks of one frame take: nothing, one chunk, or one with the last.
* `SealedFile.pageLength` : **two full chunks never go into one frame.**
* `framesFit_iff` : **every frame of a file can be sent** exactly when the frames of these lengths
  can.
-/

namespace Neonet

open FileTree FsM

/-- The length of a numeral. -/
def numeralLength (n : ℕ) : ℕ := (Wire.nat.write n).length

/-- How many blocks a file has. -/
def blockCount (length : ℕ) : ℕ := (length + defaultChunkSize - 1) / defaultChunkSize

/-- The length of a block of a file. -/
def blockLength (length i : ℕ) : ℕ := min defaultChunkSize (length - i * defaultChunkSize)

/-- The length of a chunk: its index, its nonce, and its ciphertext with the tag of 16 bytes. -/
def chunkLength (length i : ℕ) : ℕ :=
  numeralLength i + 24 + (numeralLength (blockLength length i + 16) + (blockLength length i + 16))

/-- The length of the manifest: its version, the name, the sizes, the hashes, the signer and the
signature. -/
def manifestLength (name length : ℕ) : ℕ :=
  1 + (numeralLength name + name) + numeralLength length + 3 +
    (numeralLength (blockCount length) + 32 * blockCount length) + 32 + 64

/-- The length of the application frame that replies a manifest and chunks of a given length. -/
def replyLength (name length chunks : ℕ) : ℕ := 69 + manifestLength name length + chunks

/-- The length of this frame inside a message inside a messaging frame. -/
def frameLength (name length chunks : ℕ) : ℕ :=
  81 + (numeralLength (replyLength name length chunks) + replyLength name length chunks)

/-- What the chunks of one frame can take: nothing, one chunk, or one and the last if both are
within the budget. -/
inductive PageLength (length : ℕ) : ℕ → Prop
  | none : PageLength length 0
  | one {i : ℕ} (hi : i < blockCount length) : PageLength length (chunkLength length i)
  | two {i : ℕ} (hi : i + 1 < blockCount length)
      (hle : chunkLength length i + chunkLength length (blockCount length - 1) ≤
        maxBatchPayload) :
      PageLength length (chunkLength length i + chunkLength length (blockCount length - 1))

section Spec

variable (K : Primitives) (E : StorageEnv)

/-- A frame of the store is serialised, inside a message inside a messaging frame, to as many bytes
as may be sent. -/
def Sendable (frame : StorageFrame) : Prop :=
  ∀ (id : ByteArr 16) (sender recipient : PublicIdentity),
    (MessageCodecs.postcard.frame.encode
      (.message ⟨id, sender, recipient, AppFrame.wire.write (.storage frame)⟩)).length ≤
        maxMessageSize

/-- Every frame of a file can be sent: the requests that store its chunks, and the replies of any
core that holds some of them, under its manifest or none. -/
structure FramesFit (m : FileManifest) (es : List EncryptedChunk) : Prop where
  request : ∀ batch ∈ batches E es,
    Sendable (.storeChunks (manifestId K E.manifest m) m batch)
  reply : ∀ (home : Home) (x : PublicIdentity) (t : Tree) (mo mo' : Option FileManifest)
    (held page : List EncryptedChunk) (offset : UInt32),
      HoldsChunks E home (manifestId K E.manifest m) mo held t → (∀ m' ∈ mo, m' = m) →
        held.Subperm es →
          (fetchChunks K E home (manifestId K E.manifest m) x offset t).1 = .ok (mo', page) →
            Sendable (.storedChunks (manifestId K E.manifest m) mo' page)

end Spec

/-- The cipher puts a tag of 16 bytes to the text. -/
def Cipher.Tags (A : Cipher) : Prop :=
  ∀ key nonce aad text sealed, A.encrypt key nonce aad text = some sealed →
    sealed.length = text.length + 16

variable {K : Primitives} {E : StorageEnv} {A : Cipher} {key : ByteArr 32} {home : Home}
  {nonces : ℕ → ByteArr 24} {m : FileManifest} {cs : List Chunk} {es page : List EncryptedChunk}
  {length name n : ℕ}

/-! ### The lengths of what is written -/

theorem length_hash_list {ds : List Digest} :
    ((Wire.seq (Wire.array 32)).write ds).length = numeralLength ds.length + 32 * ds.length := by
  have hmap : (ds.map fun d => ((Wire.array 32).write d).length) = ds.map fun _ => 32 :=
    List.map_congr_left fun d _ => d.toList_length
  rw [Wire.length_seq, hmap]
  simp [numeralLength, Nat.mul_comm]

theorem FileManifest.length_write :
    (FileManifest.wire.write m).length =
      numeralLength m.version.toNat + (numeralLength m.name.utf8ByteSize + m.name.utf8ByteSize) +
        numeralLength m.totalSize.toNat + numeralLength m.chunkSize.toNat +
          (numeralLength m.chunks.length + 32 * m.chunks.length) + 32 + 64 := by
  have hkey : (PublicIdentity.wire.write m.signer).length = 32 := m.signer.publicKey.toList_length
  have hsign : ((Wire.array 64).write m.signature).length = 64 := m.signature.toList_length
  have hwrite : FileManifest.wire.write m =
      Wire.nat.write m.version.toNat ++ (Wire.string.write m.name ++
        (Wire.nat.write m.totalSize.toNat ++ (Wire.nat.write m.chunkSize.toNat ++
          ((Wire.seq (Wire.array 32)).write m.chunks ++
            (PublicIdentity.wire.write m.signer ++ (Wire.array 64).write m.signature))))) := rfl
  rw [hwrite]
  simp only [List.length_append, Wire.length_string, length_hash_list, hkey, hsign, numeralLength]
  omega

theorem EncryptedChunk.length_write (e : EncryptedChunk) :
    (EncryptedChunk.wire.write e).length =
      numeralLength e.index.toNat + 24 +
        (numeralLength e.ciphertext.length + e.ciphertext.length) := by
  have hnonce : ((Wire.array 24).write e.nonce).length = 24 := e.nonce.toList_length
  have hwrite : EncryptedChunk.wire.write e =
      Wire.nat.write e.index.toNat ++ ((Wire.array 24).write e.nonce ++
        Wire.bytes.write e.ciphertext) := rfl
  rw [hwrite]
  simp only [List.length_append, Wire.length_bytes, hnonce, numeralLength]
  omega

theorem numeralLength_mono : Monotone numeralLength := fun _ _ => Wire.length_nat_mono

/-- What is sent of a frame, besides its own bytes. -/
theorem sendable_iff {frame : StorageFrame} :
    Sendable frame ↔
      81 + (Wire.bytes.write (AppFrame.wire.write (.storage frame))).length ≤ maxMessageSize := by
  have hlength : ∀ id sender recipient, (MessageCodecs.postcard.frame.encode
      (.message ⟨id, sender, recipient, AppFrame.wire.write (.storage frame)⟩)).length =
        81 + (Wire.bytes.write (AppFrame.wire.write (.storage frame))).length := by
    intro id sender recipient
    rw [MessagingFrame.length_encode, Message.length_encode]
    dsimp only
    omega
  constructor
  · intro h
    rw [← hlength (digits 16 0) ⟨digits 32 0⟩ ⟨digits 32 0⟩]
    exact h _ _ _
  · intro h id sender recipient
    rw [hlength]
    exact h

/-! ### Blocks and chunks -/

/-- All blocks but the last are full. -/
theorem blockLength_of_lt {i : ℕ} (h : i + 1 < blockCount length) :
    blockLength length i = defaultChunkSize := by
  have hle : (i + 2) * defaultChunkSize ≤ length + defaultChunkSize - 1 :=
    (Nat.le_div_iff_mul_le (by decide)).1 h
  have hsize : defaultChunkSize = 786432 := rfl
  rw [hsize] at hle
  rw [blockLength, hsize]
  omega

theorem chunkLength_of_lt {i : ℕ} (h : i + 1 < blockCount length) :
    chunkLength length i = numeralLength i + 786475 := by
  have hsize : defaultChunkSize = 786432 := rfl
  have hnumeral : numeralLength (786432 + 16) = 3 :=
    Wire.length_nat_of_three (by omega) (by omega)
  simp only [chunkLength, blockLength_of_lt h, hsize, hnumeral, Nat.add_assoc, Nat.reduceAdd]

/-- The chunks of a file of a length, encrypted. -/
structure SealedFile (E : StorageEnv) (length : ℕ) (es : List EncryptedChunk) : Prop where
  count : es.length = blockCount length
  index : es.map (fun e => e.index.toNat) = List.range es.length
  size : ∀ e ∈ es, chunkSize E e = chunkLength length e.index.toNat

theorem SealedFile.lt (h : SealedFile E length es) {e : EncryptedChunk} (he : e ∈ es) :
    e.index.toNat < blockCount length := by
  have hmem : e.index.toNat ∈ es.map fun e => e.index.toNat := List.mem_map_of_mem he
  rw [h.index, List.mem_range, h.count] at hmem
  exact hmem

theorem SealedFile.exists (h : SealedFile E length es) {i : ℕ} (hi : i < blockCount length) :
    ∃ e ∈ es, e.index.toNat = i := by
  have hmem : i ∈ es.map fun e => e.index.toNat := by
    rw [h.index, List.mem_range, h.count]
    exact hi
  exact List.mem_map.1 hmem

/-- **Chunks of a file that go into one frame**: none, a single one, or one and the last.  Two
full chunks are more than the budget. -/
theorem SealedFile.pageLength (h : SealedFile E length es) (hmem : ∀ e ∈ page, e ∈ es)
    (hinc : page.Pairwise fun a b => a.index < b.index)
    (hfits : page.length ≤ 1 ∨ (page.map (chunkSize E)).sum ≤ maxBatchPayload) :
    page.length ≤ 2 ∧ PageLength length (page.map (chunkSize E)).sum := by
  rcases page with _ | ⟨a, _ | ⟨b, rest⟩⟩
  · exact ⟨Nat.zero_le _, .none⟩
  · have ha : a ∈ es := hmem a (by simp)
    refine ⟨by simp, ?_⟩
    rw [List.map_singleton, List.sum_singleton, h.size a ha]
    exact .one (h.lt ha)
  · have ha : a ∈ es := hmem a (by simp)
    have hb : b ∈ es := hmem b (by simp)
    have hab : a.index.toNat < b.index.toNat :=
      UInt32.lt_iff_toNat_lt.1 (List.rel_of_pairwise_cons hinc (by simp))
    have hbn := h.lt hb
    have hbudget : maxBatchPayload = 921600 := rfl
    have hsum : chunkLength length a.index.toNat + chunkLength length b.index.toNat +
        (rest.map (chunkSize E)).sum ≤ maxBatchPayload := by
      rcases hfits with hone | hfits
      · simp at hone
      · rwa [List.map_cons, List.map_cons, List.sum_cons, List.sum_cons, h.size a ha, h.size b hb,
          ← Nat.add_assoc] at hfits
    have hfull : chunkLength length a.index.toNat = numeralLength a.index.toNat + 786475 :=
      chunkLength_of_lt (by omega)
    -- the second chunk is the last one of the file
    have hlast : b.index.toNat = blockCount length - 1 := by
      by_contra hne
      have hfull' : chunkLength length b.index.toNat = numeralLength b.index.toNat + 786475 :=
        chunkLength_of_lt (by omega)
      omega
    have hrest : rest = [] := by
      refine List.eq_nil_iff_forall_not_mem.2 fun c hc => ?_
      have hbc : b.index.toNat < c.index.toNat :=
        UInt32.lt_iff_toNat_lt.1 (List.rel_of_pairwise_cons (List.Pairwise.of_cons hinc) hc)
      have hcn := h.lt (hmem c (by simp [hc]))
      omega
    subst hrest
    refine ⟨by simp, ?_⟩
    rw [List.map_cons, List.map_cons, List.map_nil, List.sum_cons, List.sum_cons, List.sum_nil,
      Nat.add_zero, h.size a ha, h.size b hb, hlast]
    refine .two (by omega) ?_
    simpa [hlast] using hsum

theorem batchesFrom_fits {current : List EncryptedChunk} {carried : ℕ}
    (hcarried : (current.map (chunkSize E)).sum = carried)
    (hfits : current.length ≤ 1 ∨ carried ≤ maxBatchPayload) :
    ∀ batch ∈ batchesFrom E current carried es,
      batch.length ≤ 1 ∨ (batch.map (chunkSize E)).sum ≤ maxBatchPayload := by
  induction es generalizing current carried with
  | nil =>
    intro batch hbatch
    rw [batchesFrom, List.mem_singleton] at hbatch
    rw [hbatch, hcarried]
    exact hfits
  | cons e es ih =>
    intro batch hbatch
    rw [batchesFrom] at hbatch
    split at hbatch
    · rcases List.mem_cons.1 hbatch with rfl | hbatch
      · rw [hcarried]
        exact hfits
      · exact ih (by simp [chunkSize]) (.inl le_rfl) batch hbatch
    · rename_i hle
      refine ih ?_ (.inr (Nat.le_of_not_lt hle)) batch hbatch
      rw [List.map_append, List.sum_append, hcarried, List.map_singleton, List.sum_singleton]
      rfl

theorem batches_fit {batch : List EncryptedChunk} (h : batch ∈ batches E es) :
    batch.length ≤ 1 ∨ (batch.map (chunkSize E)).sum ≤ maxBatchPayload := by
  cases es with
  | nil => cases h
  | cons e es => exact batchesFrom_fits (by simp [chunkSize]) (.inl le_rfl) batch h

theorem sublist_of_mem_batches {batch : List EncryptedChunk} (h : batch ∈ batches E es) :
    batch.Sublist es := by
  have hsub := List.sublist_flatten_of_mem h
  rwa [flatten_batches] at hsub

theorem map_length_encryptAll {i : ℕ} (hA : A.Tags) (h : encryptAll A key nonces i cs = .ok es) :
    es.map (fun e => e.ciphertext.length) = cs.map fun c => c.data.length + 16 := by
  induction cs generalizing i es with
  | nil =>
    obtain rfl := Except.ok.inj h
    rfl
  | cons c cs ih =>
    obtain ⟨sealed, rest, hseal, hrest, rfl⟩ := encryptAll_cons h
    rw [List.map_cons, List.map_cons, ih hrest, hA _ _ _ _ _ hseal]

theorem length_of_chunksFrom {content : Bytes}
    (h : chunksFrom K 0 (readBlocks defaultChunkSize content.length content) = .ok cs) :
    cs.length = blockCount content.length := by
  have hdata := congrArg List.length (chunksFrom_ok h).1
  have hblocks := congrArg List.length
    (map_length_readBlocks (n := defaultChunkSize) (by decide) (Nat.le_refl content.length))
  simp only [List.length_map, List.length_range] at hdata hblocks
  rw [hdata, hblocks, blockCount]

/-- **The chunks of a file, encrypted one by one.** -/
theorem sealedFile_encryptAll {content : Bytes} (hE : E.Postcard) (hA : A.Tags)
    (hchunks : chunksFrom K 0 (readBlocks defaultChunkSize content.length content) = .ok cs)
    (hencrypt : encryptAll A key nonces 0 cs = .ok es) : SealedFile E content.length es := by
  obtain ⟨hdata, -, hindex, -⟩ := chunksFrom_ok hchunks
  have hcount : es.length = blockCount content.length := by
    have hmap := congrArg List.length (map_index_encryptAll hencrypt)
    rw [List.length_map, List.length_map] at hmap
    rw [hmap, length_of_chunksFrom hchunks]
  have hindices : es.map (fun e => e.index.toNat) = List.range es.length := by
    have h₁ := congrArg (List.map UInt32.toNat) (map_index_encryptAll hencrypt)
    have h₂ := congrArg List.length (map_index_encryptAll hencrypt)
    have h₃ := congrArg List.length hdata
    simp only [List.map_map, List.length_map] at h₁ h₂ h₃
    rw [List.range_eq_range', h₂, h₃]
    exact h₁.trans hindex
  have hlengths : es.map (fun e => e.ciphertext.length) =
      (List.range (blockCount content.length)).map fun i => blockLength content.length i + 16 := by
    have hmap := congrArg (List.map (· + 16))
      (map_length_readBlocks (n := defaultChunkSize) (by decide) (Nat.le_refl content.length))
    rw [← hdata, List.map_map, List.map_map, List.map_map] at hmap
    exact (map_length_encryptAll hA hencrypt).trans hmap
  refine ⟨hcount, hindices, fun e he => ?_⟩
  obtain ⟨k, hk, rfl⟩ := List.getElem_of_mem he
  have hik : es[k].index.toNat = k := by
    have h := congrArg (fun l => l[k]?) hindices
    simpa [hk] using h
  have hlength : es[k].ciphertext.length = blockLength content.length k + 16 := by
    have h := congrArg (fun l => l[k]?) hlengths
    simpa [hk, ← hcount] using h
  have hsize : chunkSize E es[k] = (EncryptedChunk.wire.write es[k]).length := by
    rw [chunkSize, hE.chunk]
    rfl
  rw [hsize, EncryptedChunk.length_write, hik, hlength, chunkLength]

/-! ### The frames -/

theorem length_buildManifest {content : Bytes} {path : PathBuf} {owner : Identity}
    (hchunks : chunksFrom K 0 (readBlocks defaultChunkSize content.length content) = .ok cs)
    (hm : m = (unsignedManifest K path owner defaultChunkSize content cs).signed K E.manifest
      owner) :
    (FileManifest.wire.write m).length =
      manifestLength ((fileName path).getD "unnamed").utf8ByteSize content.length := by
  obtain ⟨hdata, -, -, hbound⟩ := chunksFrom_ok hchunks
  have hcount := length_of_chunksFrom hchunks
  have hfew : blockCount content.length < 2 ^ 32 := by
    rw [← hcount, ← List.length_map (f := Chunk.data), hdata]
    rcases hbound with hnil | hlt
    · rw [hnil]
      decide
    · omega
  have hsmall : content.length < 2 ^ 64 := by
    have hdiv := (Nat.div_lt_iff_lt_mul (by decide)).1 hfew
    have hsize : defaultChunkSize = 786432 := rfl
    rw [hsize] at hdiv
    omega
  have htotal : (UInt64.ofNat content.length).toNat = content.length :=
    UInt64.toNat_ofNat_of_lt' hsmall
  have hversion : numeralLength (1 : UInt16).toNat = 1 := by decide
  have hsize : numeralLength (UInt32.ofNat defaultChunkSize).toNat = 3 :=
    Wire.length_nat_of_three (by decide) (by decide)
  have hname : m.name = (fileName path).getD "unnamed" := by rw [hm]; rfl
  have hhashes : m.chunks.length = blockCount content.length := by
    rw [hm, ← hcount]
    exact List.length_map _
  have hv : m.version = 1 := by rw [hm]; rfl
  have ht : m.totalSize = UInt64.ofNat content.length := by rw [hm]; rfl
  have hc : m.chunkSize = UInt32.ofNat defaultChunkSize := by rw [hm]; rfl
  rw [FileManifest.length_write, manifestLength, hv, ht, hc, hversion, hsize, htotal, hname,
    hhashes]

theorem length_chunks (hE : E.Postcard) :
    ((Wire.seq EncryptedChunk.wire).write page).length =
      numeralLength page.length + (page.map (chunkSize E)).sum := by
  have hsize : chunkSize E = fun e => (EncryptedChunk.wire.write e).length := by
    funext e
    rw [chunkSize, hE.chunk]
    rfl
  rw [Wire.length_seq, hsize, numeralLength]

theorem length_tag {n : ℕ} (h : n < 128) : (Wire.nat.write n).length = 1 :=
  le_antisymm (Wire.length_nat_le (by omega)) Wire.length_nat_pos

/-- The length of a request. -/
theorem length_storeChunks (hE : E.Postcard) (hpage : page.length ≤ 2) :
    (AppFrame.wire.write (.storage (.storeChunks (manifestId K E.manifest m) m page))).length =
      68 + (FileManifest.wire.write m).length + (page.map (chunkSize E)).sum := by
  have hcount : numeralLength page.length = 1 := length_tag (by omega)
  rw [AppFrame.wire, Wire.length_enum, StorageFrame.wire, Wire.length_enum]
  simp only [Wire.pair, List.length_append, Wire.length_string, utf8ByteSize_manifestId,
    length_chunks hE, hcount, length_tag (n := 3) (by omega), length_tag (n := 0) (by omega),
    length_tag (n := 64) (by omega)]
  omega

/-- The length of a reply. -/
theorem length_storedChunks {mo : Option FileManifest} (hE : E.Postcard) (hpage : page.length ≤ 2) :
    (AppFrame.wire.write (.storage (.storedChunks (manifestId K E.manifest m) mo page))).length =
      68 + ((Wire.option FileManifest.wire).write mo).length + (page.map (chunkSize E)).sum := by
  have hcount : numeralLength page.length = 1 := length_tag (by omega)
  rw [AppFrame.wire, Wire.length_enum, StorageFrame.wire, Wire.length_enum]
  simp only [Wire.pair, List.length_append, Wire.length_string, utf8ByteSize_manifestId,
    length_chunks hE, hcount, length_tag (n := 3) (by omega), length_tag (n := 64) (by omega)]
  omega

theorem length_option_manifest {mo : Option FileManifest} (h : ∀ m' ∈ mo, m' = m) :
    ((Wire.option FileManifest.wire).write mo).length ≤
      1 + (FileManifest.wire.write m).length := by
  cases mo with
  | none =>
    rw [Wire.option, Wire.length_enum, length_tag (n := 0) (by omega)]
    exact Nat.le_add_right _ _
  | some m' =>
    rw [h m' rfl, Wire.option, Wire.length_enum, length_tag (n := 1) (by omega)]

theorem sendable_of_le {frame : StorageFrame} {c : ℕ}
    (h : (AppFrame.wire.write (.storage frame)).length ≤ replyLength name length c)
    (hfits : frameLength name length c ≤ maxMessageSize) : Sendable frame := by
  have hnumeral := numeralLength_mono h
  rw [sendable_iff, Wire.length_bytes]
  rw [frameLength] at hfits
  show 81 + (numeralLength _ + _) ≤ _
  omega

theorem sendable_storedChunks (hE : E.Postcard)
    (hm : (FileManifest.wire.write m).length = manifestLength name length)
    (hpage : page.length ≤ 2) :
    Sendable (.storedChunks (manifestId K E.manifest m) (some m) page) ↔
      frameLength name length (page.map (chunkSize E)).sum ≤ maxMessageSize := by
  have hwrite : (AppFrame.wire.write
      (.storage (.storedChunks (manifestId K E.manifest m) (some m) page))).length =
        replyLength name length (page.map (chunkSize E)).sum := by
    rw [length_storedChunks hE hpage, Wire.option, Wire.length_enum,
      length_tag (n := 1) (by omega), hm, replyLength]
    omega
  rw [sendable_iff, Wire.length_bytes, hwrite]
  rfl

/-! ### A core that holds some of the chunks -/

theorem SealedFile.nodup (h : SealedFile E length es) : (es.map EncryptedChunk.index).Nodup := by
  have hnodup : (es.map fun e => e.index.toNat).Nodup := h.index ▸ List.nodup_range
  refine List.Nodup.of_map UInt32.toNat ?_
  rwa [List.map_map]

/-- Only readers that are not revoked are replied to. -/
theorem fetchChunks_ok {x : PublicIdentity} {fileId : String} {offset : UInt32} {t : Tree}
    {r : Option FileManifest × List EncryptedChunk}
    (h : (fetchChunks K E home fileId x offset t).1 = .ok r) :
    nodeIsRevoked K E home x t = (.ok false, t) ∧
      IsReader E home fileId (x.fingerprint K) t := by
  constructor
  · rw [nodeIsRevoked_eq]
    by_cases hrevoked : x.fingerprint K ∈ revokedNames E home t
    · rw [fetchChunks, bind_of_ok (nodeIsRevoked_eq K E home x t), decide_eq_true hrevoked] at h
      cases h
    · rw [decide_eq_false hrevoked]
  · by_contra hreader
    obtain ⟨e, he⟩ := fetchChunks_refused hreader offset
    rw [he] at h
    cases h

/-- **What a core replies** that holds some chunks of a file. -/
theorem SealedFile.reply (h : SealedFile E length es) (hE : E.Postcard) {x : PublicIdentity}
    {fileId : String} {offset : UInt32} {t : Tree} {mo mo' : Option FileManifest}
    {held : List EncryptedChunk} (hholds : HoldsChunks E home fileId mo held t)
    (hheld : held.Subperm es)
    (hfetch : (fetchChunks K E home fileId x offset t).1 = .ok (mo', page)) :
    mo' = mo ∧ page.length ≤ 2 ∧ PageLength length (page.map (chunkSize E)).sum := by
  obtain ⟨hrevoked, hreader⟩ := fetchChunks_ok hfetch
  obtain ⟨found, hperm, hpages⟩ := hholds.fetch hreader hrevoked
  rw [hpages] at hfetch
  obtain ⟨rfl, rfl⟩ := Prod.mk.inj (Except.ok.inj hfetch)
  have hsub : (sortHeld found).Subperm es := (perm_sortHeld.trans hperm).subperm.trans hheld
  have hnodup : ((sortHeld found).map EncryptedChunk.index).Nodup := by
    obtain ⟨some, hsome, hsublist⟩ := hsub
    exact (hsome.map _).nodup_iff.1 (h.nodup.sublist (hsublist.map _))
  have hpage : (pageOf E ((sortHeld found).drop offset.toNat)).Sublist (sortHeld found) :=
    Pages.page_sublist.trans (List.drop_sublist _ _)
  exact ⟨rfl, h.pageLength (fun e he => hsub.subset (hpage.subset he))
    ((pairwise_lt_sortHeld hnodup).sublist hpage)
    (Pages.page_fits fun e _ => hE.chunkSize_pos e)⟩

/-! ### Every part of a file is held by some core -/

namespace Holder

/-- The core's state directory. -/
def device : Home := ⟨["core"], Home.plain_core⟩

/-- The files of a core that holds up to two chunks. -/
def files (E : StorageEnv) (reader : String) (m : FileManifest) (held : List EncryptedChunk) :
    List (String × Bytes) :=
  ("manifest.json", E.manifest.encode m) :: ("acl.json", E.names.encode [reader]) ::
    (["a", "b"].zip held).map fun c => (c.1, E.chunk.encode c.2)

end Holder

open Holder

theorem norm_blobDir {fileId : String} (hs : '/' ∉ fileId.toList) (hp : Plain fileId) :
    (blobDir device fileId).norm = [fileId, "blobs", "core"] := by
  rw [blobDir, PathBuf.norm_join hs hp, blobsDir, PathBuf.norm_join (by decide) (by decide)]
  rfl

theorem lists_created {p : PathBuf} (hp : p.Downward) :
    ((createDirAll p : FsM IoError Unit) (Tree.bare fun _ => true)).2.Lists p (fun _ => none) ∧
      ((createDirAll p : FsM IoError Unit) (Tree.bare fun _ => true)).2.HasDir p ∧
        ∀ c l, ¬ c :: l <:+ p.norm →
          ((createDirAll p : FsM IoError Unit) (Tree.bare fun _ => true)).2.entry (c :: l) =
            none := by
  have hlists : (Tree.bare fun _ => true).Lists p fun _ => none :=
    ⟨fun _ => Tree.entry_bare_cons, fun _ h => absurd rfl h⟩
  have hnamed : (Tree.bare fun _ => true).named p = true := by simp [Tree.named, Tree.bare]
  have hfiles : ∀ k, k <:+ p.norm → (Tree.bare fun _ => true).file? k = none := by
    intro k _
    rw [Tree.file?_eq_none]
    intro b hb
    cases k with
    | nil => rw [(Tree.bare fun _ => true).isDir_root.entry] at hb; cases hb
    | cons c k => rw [Tree.entry_bare_cons] at hb; cases hb
  obtain ⟨hok, -⟩ := createDirAll_downward (ε := IoError) (t := Tree.bare fun _ => true) hp
  obtain ⟨hdone, hentry⟩ := hok ⟨hnamed, hfiles⟩
  obtain ⟨hlists', hd⟩ := hlists.createDirAll (ε := IoError) hp (Prod.ext hdone rfl)
  refine ⟨hlists', hd, fun c l h => ?_⟩
  rw [hentry, if_neg h, Tree.entry_bare_cons]

theorem nodeIsRevoked_of_missing {x : PublicIdentity} {t : Tree}
    (h : t.file? (revocationsPath home).norm = none) :
    nodeIsRevoked K E home x t = (.ok false, t) := by
  have hnames : revokedNames E home t = [] := by
    cases hread : (read (revocationsPath home) : FsM IoError Bytes) t with
    | mk r t' =>
    cases r with
    | error e => rw [revokedNames, hread]; rfl
    | ok b =>
      have hfile := (read_eq_ok.1 hread).2.2
      rw [h] at hfile
      cases hfile
  rw [nodeIsRevoked_eq, hnames]
  rfl

theorem contents_files (reader : String) {held : List EncryptedChunk} (h : held.length ≤ 2) :
    contents (files E reader m held) (fun _ => none) "manifest.json" =
        some (E.manifest.encode m) ∧
      contents (files E reader m held) (fun _ => none) "acl.json" =
        some (E.names.encode [reader]) ∧
      ((files E reader m held).map Prod.fst).Nodup ∧
      ((files E reader m held).map Prod.fst).filterMap
        (heldIn E (contents (files E reader m held) fun _ => none)) = held := by
  have hmanifest : skipped "manifest.json" = true := by decide
  have hacl : skipped "acl.json" = true := by decide
  have ha : skipped "a" = false := by decide
  have hb : skipped "b" = false := by decide
  rcases held with _ | ⟨e, _ | ⟨e', _ | ⟨e'', held⟩⟩⟩
  · simp [files, contents, heldIn, hmanifest, hacl]
  · simp [files, contents, heldIn, hmanifest, hacl, ha, E.chunk.decode_encode, Except.toOption]
  · simp [files, contents, heldIn, hmanifest, hacl, ha, hb, E.chunk.decode_encode,
      Except.toOption]
  · simp at h

/-- Some core holds these two chunks, and gives them to a reader. -/
theorem exists_holder (x : PublicIdentity) {held : List EncryptedChunk} (hheld : held.length ≤ 2) :
    ∃ t, HoldsChunks E device (manifestId K E.manifest m) (some m) held t ∧
      IsReader E device (manifestId K E.manifest m) (x.fingerprint K) t ∧
        nodeIsRevoked K E device x t = (.ok false, t) := by
  have hs : '/' ∉ (manifestId K E.manifest m).toList := K.hexHash_no_slash _
  have hp : Plain (manifestId K E.manifest m) := K.plain_hexHash _
  have hdown : (blobDir device (manifestId K E.manifest m)).Downward := downward_blobDir hs hp
  obtain ⟨hempty, hd, hnone⟩ := lists_created hdown
  have haccepts : ∀ c, ((createDirAll (blobDir device (manifestId K E.manifest m)) :
      FsM IoError Unit) (Tree.bare fun _ => true)).2.accepts c = true := fun c => by
    rw [accepts_createDirAll]
    rfl
  have hlists := hempty.putFiles (files E (x.fingerprint K) m held) hd.2 fun c _ => haccepts c.1
  have hd' := hd.grows (Tree.grows_putFiles (blobDir device (manifestId K E.manifest m)).norm
    (files E (x.fingerprint K) m held))
  obtain ⟨hmanifest, hacl, hnodup, hheldIn⟩ :=
    contents_files (E := E) (m := m) (x.fingerprint K) hheld
  refine ⟨_, ⟨_, (files E (x.fingerprint K) m held).map Prod.fst, hlists, hd', ?_, ?_, ?_, ?_⟩,
    ⟨[x.fingerprint K], ?_, List.mem_singleton_self _⟩, ?_⟩
  · rw [manifestIn, hmanifest, Option.bind_some, E.manifest.decode_encode]
    rfl
  · exact hnodup
  · exact fun c => by simp [contents_ne_none]
  · rw [hheldIn]
  · rw [(readAcl_eq hlists hd').1 [x.fingerprint K] ?_]
    rw [readersIn, hacl]
    dsimp only
    rw [E.names.decode_encode]
    rfl
  · -- no list of the revoked stands on the disk
    refine nodeIsRevoked_of_missing (Tree.file?_eq_none.2 fun b hb => ?_)
    rw [norm_revocationsPath, Tree.entry_putFiles fun c h => ?_, hnone] at hb
    · cases hb
    · rw [norm_blobDir hs hp]
      simp [List.suffix_cons_iff, device]
    · rw [norm_blobDir hs hp] at h
      exact absurd (congrArg List.length h) (by simp [device])

/-! ### All frames of a file -/

/-- Every frame can be sent if the frames of the lengths can. -/
theorem SealedFile.framesFit (h : SealedFile E length es) (hE : E.Postcard)
    (hm : (FileManifest.wire.write m).length = manifestLength name length)
    (hlengths : ∀ c, PageLength length c → frameLength name length c ≤ maxMessageSize) :
    FramesFit K E m es := by
  constructor
  · intro batch hbatch
    have hsub := sublist_of_mem_batches hbatch
    have hinc : es.Pairwise fun a b => a.index < b.index := by
      have hlt : (es.map fun e => e.index.toNat).Pairwise (· < ·) :=
        h.index ▸ List.pairwise_lt_range
      exact (List.pairwise_map.1 hlt).imp fun hlt => UInt32.lt_iff_toNat_lt.2 hlt
    obtain ⟨hfew, hpage⟩ := h.pageLength (fun e he => hsub.subset he) (hinc.sublist hsub)
      (batches_fit hbatch)
    refine sendable_of_le ?_ (hlengths _ hpage)
    rw [length_storeChunks hE hfew, hm, replyLength]
    omega
  · intro home x t mo mo' held page offset hholds hmo hheld hfetch
    obtain ⟨rfl, hfew, hpage⟩ := h.reply hE hholds hheld hfetch
    have hoption := length_option_manifest hmo
    refine sendable_of_le ?_ (hlengths _ hpage)
    rw [length_storedChunks hE hfew, replyLength]
    omega

/-- A page of chunks of the file is the reply of some core. -/
theorem FramesFit.sendable (h : FramesFit K E m es) {held : List EncryptedChunk}
    (hheld : held.Subperm es) (hfew : held.length ≤ 2)
    (hinc : held.Pairwise fun a b => a.index < b.index) (hpage : pageOf E held = held) :
    Sendable (.storedChunks (manifestId K E.manifest m) (some m) held) := by
  obtain ⟨t, hholds, hreader, hrevoked⟩ :=
    exists_holder (K := K) (E := E) (m := m) ⟨digits 32 0⟩ hfew
  obtain ⟨found, hperm, hpages⟩ := hholds.fetch hreader hrevoked
  have hfetch := congrArg Prod.fst (hpages 0)
  rw [sortHeld_eq hperm hinc, show (0 : UInt32).toNat = 0 from rfl, List.drop_zero, hpage] at hfetch
  exact h.reply device _ t (some m) (some m) held held 0 hholds (by simp) hheld hfetch

/-- **The lengths that matter**: if all frames can be sent, these frames are not too long. -/
theorem SealedFile.frameLength_le (h : SealedFile E length es) (hE : E.Postcard)
    (hm : (FileManifest.wire.write m).length = manifestLength name length)
    (hfit : FramesFit K E m es) {c : ℕ} (hc : PageLength length c) :
    frameLength name length c ≤ maxMessageSize := by
  cases hc with
  | none =>
    have hsend := hfit.sendable List.nil_subperm (Nat.zero_le _) List.Pairwise.nil rfl
    have hlength := (sendable_storedChunks hE hm (Nat.zero_le _)).1 hsend
    rwa [List.map_nil, List.sum_nil] at hlength
  | @one i hi =>
    obtain ⟨e, he, rfl⟩ := h.exists hi
    have hsend := hfit.sendable (List.singleton_subperm_iff.2 he) (by simp) (by simp)
      (by simp [pageOf, Pages.page, Pages.takeUnder])
    have hlength := (sendable_storedChunks hE hm (by simp)).1 hsend
    rwa [List.map_singleton, List.sum_singleton, h.size e he] at hlength
  | @two i hi hle =>
    obtain ⟨e, he, rfl⟩ := h.exists (i := i) (by omega)
    obtain ⟨e', he', hlast⟩ := h.exists (i := blockCount length - 1) (by omega)
    have hlt : e.index < e'.index := UInt32.lt_iff_toNat_lt.2 (by omega)
    have hne : e ≠ e' := fun heq => absurd (heq ▸ hlt) (UInt32.lt_irrefl _)
    have hsub : [e, e'].Subperm es :=
      List.subperm_of_subset (by simpa using hne) (by simp [he, he'])
    have hsum : chunkSize E e + chunkSize E e' ≤ maxBatchPayload := by
      rw [h.size e he, h.size e' he', hlast]
      exact hle
    have hpage : pageOf E [e, e'] = [e, e'] := by
      have hsecond : ¬ maxBatchPayload - chunkSize E e < chunkSize E e' := by omega
      simp [pageOf, Pages.page, Pages.takeUnder, hsecond]
    have hsend := hfit.sendable hsub (by simp) (by simpa using hlt) hpage
    have hlength := (sendable_storedChunks hE hm (by simp)).1 hsend
    rwa [List.map_cons, List.map_singleton, List.sum_cons, List.sum_singleton, h.size e he,
      h.size e' he', hlast] at hlength

theorem sealedFile_of_buildManifest {path : PathBuf} {owner : Identity} {content : Bytes} {t : Tree}
    (hE : E.Postcard) (hA : A.Tags)
    (hread : (read path : FsM FileError Bytes) t = (.ok content, t))
    (hbuild : (buildManifest K E.manifest path owner defaultChunkSize t).1 = .ok (m, cs))
    (hencrypt : encryptAll A key nonces 0 cs = .ok es) :
    SealedFile E content.length es ∧
      (FileManifest.wire.write m).length =
        manifestLength ((fileName path).getD "unnamed").utf8ByteSize content.length := by
  rw [buildManifest_eq hread (by decide)] at hbuild
  cases hchunks : chunksFrom K 0 (readBlocks defaultChunkSize content.length content) with
  | error e =>
    rw [hchunks] at hbuild
    cases hbuild
  | ok cs' =>
    rw [hchunks] at hbuild
    obtain ⟨hm, rfl⟩ := Prod.mk.inj (Except.ok.inj hbuild)
    exact ⟨sealedFile_encryptAll hE hA hchunks hencrypt, length_buildManifest hchunks hm.symm⟩

/-- **Every frame of a file can be sent** exactly when the frames of these lengths are not too
long. -/
theorem framesFit_iff {path : PathBuf} {owner : Identity} {content : Bytes} {t : Tree}
    (hE : E.Postcard) (hA : A.Tags)
    (hread : (read path : FsM FileError Bytes) t = (.ok content, t))
    (hbuild : (buildManifest K E.manifest path owner defaultChunkSize t).1 = .ok (m, cs))
    (hencrypt : encryptAll A key nonces 0 cs = .ok es) :
    FramesFit K E m es ↔
      ∀ c, PageLength content.length c →
        frameLength ((fileName path).getD "unnamed").utf8ByteSize content.length c ≤
          maxMessageSize := by
  obtain ⟨hfile, hmanifest⟩ := sealedFile_of_buildManifest hE hA hread hbuild hencrypt
  exact ⟨fun hfit _ hc => hfile.frameLength_le hE hmanifest hfit hc, hfile.framesFit hE hmanifest⟩

/-! ### A short note and a large file -/

/-- A cipher to compute with, with a tag of 16 bytes. -/
def Cipher.tagged : Cipher where
  encrypt key nonce aad text :=
    some ((polyHash (key.toList ++ nonce.toList ++ aad ++ text)).toList.take 16 ++ text)
  decrypt key nonce aad sealed :=
    if (polyHash (key.toList ++ nonce.toList ++ aad ++ sealed.drop 16)).toList.take 16 =
      sealed.take 16 then some (sealed.drop 16) else none

theorem Cipher.tags_tagged : Cipher.tagged.Tags := by
  intro key nonce aad text sealed h
  obtain rfl := Option.some.inj h
  have hdigest : ∀ d : Digest, d.toList.length = 32 := fun d => d.toList_length
  rw [List.length_append, List.length_take, hdigest]
  omega

theorem encryptAll_tagged {i : ℕ} : ∃ es, encryptAll Cipher.tagged key nonces i cs = .ok es := by
  induction cs generalizing i with
  | nil => exact ⟨[], rfl⟩
  | cons c cs ih =>
    obtain ⟨rest, hrest⟩ := ih (i := i + 1)
    exact ⟨_, by rw [encryptAll, encryptChunk, hrest]; rfl⟩

open Desk in
theorem exists_sealed (content : Bytes) (h : blockCount content.length < 2 ^ 32) :
    ∃ m cs es, (buildManifest .sample StorageEnv.sample.manifest ["note"] Cabinet.owner
        defaultChunkSize (disk content)).1 = .ok (m, cs) ∧
      encryptAll Cipher.tagged storageKey drawn 0 cs = .ok es := by
  have hcount := congrArg List.length
    (map_length_readBlocks (n := defaultChunkSize) (by decide) (Nat.le_refl content.length))
  rw [List.length_map, List.length_map, List.length_range] at hcount
  obtain ⟨cs, hcs⟩ : ∃ cs, chunksFrom .sample 0
      (readBlocks defaultChunkSize content.length content) = .ok cs :=
    exists_chunksFrom (by rw [hcount]; simpa [blockCount] using h)
  obtain ⟨es, hes⟩ : ∃ es, encryptAll Cipher.tagged storageKey drawn 0 cs = .ok es :=
    encryptAll_tagged
  refine ⟨(unsignedManifest .sample ["note"] Cabinet.owner defaultChunkSize content cs).signed
    .sample StorageEnv.sample.manifest Cabinet.owner, cs, es, ?_, hes⟩
  rw [buildManifest_eq (read_disk content) (by decide), hcs]
  rfl

open Desk in
/-- The frames of a note of one byte can be sent. -/
theorem framesFit_iff_note :
    ∃ m cs es, (buildManifest .sample StorageEnv.sample.manifest ["note"] Cabinet.owner
        defaultChunkSize (disk [5])).1 = .ok (m, cs) ∧
      encryptAll Cipher.tagged storageKey drawn 0 cs = .ok es ∧ FramesFit .sample .sample m es := by
  obtain ⟨m, cs, es, hbuild, hencrypt⟩ := exists_sealed [5] (by decide)
  refine ⟨m, cs, es, hbuild, hencrypt, (framesFit_iff ⟨rfl, rfl⟩ Cipher.tags_tagged
    (read_disk [5]) hbuild hencrypt).2 fun c hc => ?_⟩
  have hone : blockCount [(5 : UInt8)].length = 1 := by decide
  cases hc with
  | none => decide +kernel
  | @one i hi =>
    obtain rfl : i = 0 := by omega
    decide +kernel
  | two hi => omega

open Desk in
/-- **The frames of a file of 8200 blocks cannot**: its manifest takes 256 KiB of them. -/
theorem not_framesFit :
    ¬ ∀ (K : Primitives) (E : StorageEnv) (A : Cipher) (key : ByteArr 32)
      (nonces : ℕ → ByteArr 24) (path : PathBuf) (owner : Identity) (content : Bytes) (t : Tree)
      (m : FileManifest) (cs : List Chunk) (es : List EncryptedChunk), E.Postcard → A.Tags →
        (read path : FsM FileError Bytes) t = (.ok content, t) →
          (buildManifest K E.manifest path owner defaultChunkSize t).1 = .ok (m, cs) →
            encryptAll A key nonces 0 cs = .ok es → FramesFit K E m es := by
  intro h
  -- which bytes they are does not matter
  obtain ⟨content, hlength⟩ : ∃ content : Bytes, content.length = 8200 * 786432 :=
    ⟨List.replicate (8200 * 786432) 0, List.length_replicate⟩
  have hcount : blockCount content.length = 8200 := by
    rw [hlength]
    decide
  obtain ⟨m, cs, es, hbuild, hencrypt⟩ := exists_sealed content (by omega)
  have hfit := h .sample .sample .tagged storageKey drawn ["note"] Cabinet.owner content
    (disk content) m cs es ⟨rfl, rfl⟩ Cipher.tags_tagged (read_disk content) hbuild hencrypt
  obtain ⟨hfile, hmanifest⟩ := sealedFile_of_buildManifest ⟨rfl, rfl⟩ Cipher.tags_tagged
    (read_disk content) hbuild hencrypt
  have hle := hfile.frameLength_le ⟨rfl, rfl⟩ hmanifest hfit (.one (i := 0) (by omega))
  have hchunk : chunkLength content.length 0 = numeralLength 0 + 786475 :=
    chunkLength_of_lt (by omega)
  have hmax : maxMessageSize = 1048576 := rfl
  rw [frameLength, replyLength, manifestLength, hchunk, hcount, hmax] at hle
  omega

end Neonet
