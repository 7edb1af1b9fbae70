import Mathlib.Data.List.Sort
import Neonet.Identity

/-!
# Files, chunks and manifests

* `buildManifest` : read a file in blocks, hash each, and sign the list.
* `verifyChunk` : a chunk belongs to a manifest at its index.
* `reconstruct` : verify the chunks in the order of their indices and write them out.

Main results:

* `buildManifest_ok` : the manifest of a file is signed, its chunks verify and hold the file's
  content in order.
* `reconstruct_ok` : what a successful `reconstruct` verified and wrote.
* `sortByIndex_eq_range` : as many chunks of different indices as there are indices are, sorted,
  the chunks `0, 1, …`; `sortByIndex_of_perm` : the chunks of a file, put in order again.
-/

namespace Neonet

open FileTree

/-- A signed list of the hashes of a file's chunks. -/
structure FileManifest where
  version : UInt16
  name : String
  totalSize : UInt64
  chunkSize : UInt32
  chunks : List Digest
  signer : PublicIdentity
  signature : Signature
  deriving DecidableEq

/-- A chunk of a file. -/
structure Chunk where
  index : UInt32
  hash : Digest
  data : Bytes
  deriving DecidableEq

/-- Why a file operation fails. -/
inductive FileError
  | io (e : IoError)
  | codec (message : String)
  | hashMismatch (index : UInt32)
  | invalidSignature
  | invalidIndex
  /-- Not an error of the program: it indexes a list out of its bounds, and stops there. -/
  | panicked
  deriving DecidableEq

/-- `to_string` of an error. -/
def FileError.text : FileError → String
  | .io e => "I/O: " ++ e.text
  | .codec m => "codec: " ++ m
  | .hashMismatch i => "chunk " ++ toString i.toNat ++ " hash mismatch"
  | .invalidSignature => "manifest signature invalid"
  | .invalidIndex => "chunk index out of range"
  | .panicked => "index out of bounds"

instance : OfOs FileError := ⟨fun e => .io (.os e)⟩

/-- A manifest, as it is written. -/
def FileManifest.wire : Wire FileManifest :=
  (Wire.u16.pair (Wire.string.pair (Wire.u64.pair (Wire.u32.pair ((Wire.seq (Wire.array 32)).pair
    (PublicIdentity.wire.pair (Wire.array 64))))))).comap
    (fun m => (m.version, m.name, m.totalSize, m.chunkSize, m.chunks, m.signer, m.signature))
    (fun x => .ok ⟨x.1, x.2.1, x.2.2.1, x.2.2.2.1, x.2.2.2.2.1, x.2.2.2.2.2.1, x.2.2.2.2.2.2⟩)
    fun _ => rfl

section Manifests

variable (K : Primitives) (C : Codec FileManifest)

/-- The signature field before the manifest is signed. -/
def zeroSignature : Signature := List.Vector.replicate 64 0

/-- `FileManifest::unsigned_bytes`. -/
def FileManifest.unsignedBytes (m : FileManifest) : Bytes :=
  C.encode { m with signature := zeroSignature }

/-- `FileManifest::verify_signature`. -/
def FileManifest.verifySignature (m : FileManifest) : Except FileError Unit :=
  if K.verify m.signer.publicKey (m.unsignedBytes C) m.signature then .ok ()
  else .error .invalidSignature

/-- `verify_manifest`. -/
def verifyManifest (m : FileManifest) : Except FileError Unit :=
  match m.verifySignature K C with
  | .error e => .error e
  | .ok () => if m.chunks = [] then .error .invalidIndex else .ok ()

/-- `manifest_id`. -/
def manifestId (m : FileManifest) : String := K.hexHash (m.unsignedBytes C)

/-- `verify_chunk`. -/
def verifyChunk (m : FileManifest) (c : Chunk) : Except FileError Unit :=
  match m.chunks[c.index.toNat]? with
  | none => .error .invalidIndex
  | some expected =>
    if expected ≠ c.hash ∨ K.hash c.data ≠ expected then .error (.hashMismatch c.index)
    else .ok ()

/-! ### Building a manifest -/

/-- What successive reads into a buffer of `n` bytes return. -/
def readBlocks (n : ℕ) : ℕ → Bytes → List Bytes
  | 0, _ => []
  | fuel + 1, rest => if rest = [] then [] else rest.take n :: readBlocks n fuel (rest.drop n)

/-- The chunks of the blocks from index `i` on; the index after each must be a `u32`. -/
def chunksFrom (i : UInt32) : List Bytes → Except FileError (List Chunk)
  | [] => .ok []
  | data :: rest =>
    if i.toNat + 1 < 2 ^ 32 then
      (chunksFrom (i + 1) rest).map fun cs => ⟨i, K.hash data, data⟩ :: cs
    else .error .invalidIndex

/-- `Path::file_name`. -/
def fileName (path : PathBuf) : Option String :=
  match (path.filter fun c => c ≠ "" ∧ c ≠ ".").getLast? with
  | some c => if c = ".." then none else some c
  | none => none

/-- The manifest of a file before it is signed. -/
def unsignedManifest (path : PathBuf) (identity : Identity) (chunkSize : ℕ) (content : Bytes)
    (chunks : List Chunk) : FileManifest :=
  { version := 1
    name := (fileName path).getD "unnamed"
    totalSize := UInt64.ofNat content.length
    chunkSize := UInt32.ofNat chunkSize
    chunks := chunks.map Chunk.hash
    signer := identity.pub K
    signature := zeroSignature }

/-- The manifest with the signature of its signer. -/
def FileManifest.signed (identity : Identity) (m : FileManifest) : FileManifest :=
  { m with signature := K.sign identity.signingKey (m.unsignedBytes C) }

/-- `build_manifest`. -/
def buildManifest (path : PathBuf) (identity : Identity) (chunkSize : ℕ) :
    FsM FileError (FileManifest × List Chunk) :=
  if chunkSize = 0 ∨ 2 ^ 32 ≤ chunkSize then FsM.fail .invalidIndex
  else do
    let content ← read path
    let chunks ← FsM.ofExcept (chunksFrom K 0 (readBlocks chunkSize content.length content))
    return ((unsignedManifest K path identity chunkSize content chunks).signed K C identity, chunks)

/-- `DEFAULT_CHUNK_SIZE`. -/
def defaultChunkSize : ℕ := 768 * 1024

/-! ### Putting a file together -/

/-- Chunks in the order of their indices; chunks of one index keep theirs. -/
def sortByIndex (cs : List Chunk) : List Chunk := cs.insertionSort fun a b => a.index ≤ b.index

/-- The error of a file that came out with another length than the manifest says. -/
def sizeMismatch : FileError := .io (.custom .invalidData "reconstructed size mismatch")

/-- `reconstruct`. -/
def reconstruct (m : FileManifest) (chunks : List Chunk) (output : PathBuf) :
    FsM FileError Unit := do
  let out ← File.create output
  FsM.forEach (fun c => do
    FsM.ofExcept (verifyChunk K m c)
    File.writeAll out c.data) (sortByIndex chunks)
  let len ← File.len out
  if len ≠ m.totalSize.toNat then FsM.fail sizeMismatch

end Manifests

variable {K : Primitives} {C : Codec FileManifest} {m : FileManifest} {c : Chunk}

theorem verifyChunk_ok :
    verifyChunk K m c = .ok () ↔ m.chunks[c.index.toNat]? = some c.hash ∧
        K.hash c.data = c.hash := by
  unfold verifyChunk
  split
  · rename_i h; simp [h]
  · rename_i expected h
    rw [h]
    by_cases he : expected = c.hash <;> by_cases hd : K.hash c.data = expected
    · simp [he ▸ hd, he]
    · simp [he ▸ hd, he]
    · simp [he]
    · simp [he]

theorem verifySignature_ok :
    m.verifySignature K C = .ok () ↔
      K.verify m.signer.publicKey (m.unsignedBytes C) m.signature = true := by
  unfold FileManifest.verifySignature
  split <;> simp_all

theorem verifyManifest_ok :
    verifyManifest K C m = .ok () ↔ m.verifySignature K C = .ok () ∧ m.chunks ≠ [] := by
  unfold verifyManifest
  split
  · rename_i h; simp [h]
  · rename_i h; simp [h]

/-! ### The blocks of a file -/

theorem flatten_readBlocks {n fuel : ℕ} (hn : 0 < n) {b : Bytes} (h : b.length ≤ fuel) :
    (readBlocks n fuel b).flatten = b := by
  induction fuel generalizing b with
  | zero => rw [List.length_eq_zero_iff.1 (Nat.le_zero.1 h)]; rfl
  | succ fuel ih =>
    rw [readBlocks]
    split
    · rename_i hb; rw [hb]; rfl
    · rename_i hb
      have hpos : 0 < b.length := List.length_pos_of_ne_nil hb
      rw [List.flatten_cons, ih (by rw [List.length_drop]; omega), List.take_append_drop]

theorem readBlocks_eq_nil {n fuel : ℕ} {b : Bytes} (h : b.length ≤ fuel) :
    readBlocks n fuel b = [] ↔ b = [] := by
  cases fuel with
  | zero => simpa [readBlocks] using h
  | succ fuel =>
    rw [readBlocks]
    split <;> simp_all

theorem length_le_of_mem_readBlocks {n fuel : ℕ} {b d : Bytes} (h : d ∈ readBlocks n fuel b) :
    d.length ≤ n := by
  induction fuel generalizing b with
  | zero => cases h
  | succ fuel ih =>
    rw [readBlocks] at h
    split at h
    · cases h
    · rcases List.mem_cons.1 h with rfl | h
      · exact List.length_take_le _ _
      · exact ih h

/-- **The lengths of the blocks**: all but the last have `n` bytes. -/
theorem map_length_readBlocks {n fuel : ℕ} (hn : 0 < n) {b : Bytes} (h : b.length ≤ fuel) :
    (readBlocks n fuel b).map List.length =
      (List.range ((b.length + n - 1) / n)).map fun i => min n (b.length - i * n) := by
  induction fuel generalizing b with
  | zero =>
    have hb : b.length = 0 := Nat.le_zero.1 h
    have hcount : (b.length + n - 1) / n = 0 := Nat.div_eq_of_lt (by omega)
    rw [hcount]
    rfl
  | succ fuel ih =>
    rw [readBlocks]
    split
    · rename_i hb
      have hcount : (b.length + n - 1) / n = 0 := by
        rw [hb, List.length_nil]
        exact Nat.div_eq_of_lt (by omega)
      rw [hcount]
      rfl
    · rename_i hb
      have hpos : 0 < b.length := List.length_pos_of_ne_nil hb
      have hcount : (b.length + n - 1) / n = (b.length - n + n - 1) / n + 1 := by
        rcases Nat.lt_or_ge b.length n with hlt | hge
        · have hrest : (b.length - n + n - 1) / n = 0 := Nat.div_eq_of_lt (by omega)
          have hone : b.length + n - 1 = b.length - 1 + n := by omega
          rw [hrest, hone, Nat.add_div_right _ hn, Nat.div_eq_of_lt (by omega)]
        · have hmore : b.length + n - 1 = b.length - n + n - 1 + n := by omega
          rw [hmore, Nat.add_div_right _ hn]
      have hrest := ih (b := b.drop n) (by rw [List.length_drop]; omega)
      rw [List.length_drop] at hrest
      rw [hcount, List.range_succ_eq_map, List.map_cons, List.map_cons, hrest, List.map_map,
        List.length_take, Nat.zero_mul, Nat.sub_zero]
      congr 1
      refine List.map_congr_left fun i _ => ?_
      rw [Function.comp_apply, Nat.succ_mul, Nat.sub_sub, Nat.add_comm n]

theorem exists_chunksFrom {i : UInt32} {ds : List Bytes} (h : i.toNat + ds.length < 2 ^ 32) :
    ∃ cs, chunksFrom K i ds = .ok cs := by
  induction ds generalizing i with
  | nil => exact ⟨[], rfl⟩
  | cons d ds ih =>
    rw [List.length_cons] at h
    have hlt : i.toNat + 1 < 2 ^ 32 := by omega
    have hsucc : (i + 1).toNat = i.toNat + 1 := by
      rw [UInt32.toNat_add]
      exact Nat.mod_eq_of_lt hlt
    obtain ⟨cs, hcs⟩ := ih (i := i + 1) (by omega)
    exact ⟨_, by rw [chunksFrom, if_pos hlt, hcs]; rfl⟩

/-- **The chunks of some blocks**: their data are the blocks, their indices count up. -/
theorem chunksFrom_ok {i : UInt32} {ds : List Bytes} {cs : List Chunk}
    (h : chunksFrom K i ds = .ok cs) :
    cs.map Chunk.data = ds ∧ cs.map Chunk.hash = ds.map K.hash ∧
      cs.map (fun c => c.index.toNat) = List.range' i.toNat ds.length ∧
        (ds = [] ∨ i.toNat + ds.length < 2 ^ 32) := by
  induction ds generalizing i cs with
  | nil =>
    obtain rfl := Except.ok.inj h
    exact ⟨rfl, rfl, rfl, .inl rfl⟩
  | cons d ds ih =>
    rw [chunksFrom] at h
    split at h
    · rename_i hi
      cases hrest : chunksFrom K (i + 1) ds with
      | error e => rw [hrest] at h; cases h
      | ok rest =>
        rw [hrest] at h
        obtain rfl := Except.ok.inj h
        obtain ⟨hdata, hhash, hindex, hbound⟩ := ih hrest
        have hsucc : (i + 1).toNat = i.toNat + 1 := by
          rw [UInt32.toNat_add]
          exact Nat.mod_eq_of_lt hi
        rw [hsucc] at hindex hbound
        refine ⟨by simp [hdata], by simp [hhash], by simp [hindex, List.range'_succ], .inr ?_⟩
        rcases hbound with rfl | hbound
        · simpa using hi
        · rw [List.length_cons]; omega
    · cases h

theorem hash_data_of_map {cs : List Chunk} {ds : List Bytes} (hdata : cs.map Chunk.data = ds)
    (hhash : cs.map Chunk.hash = ds.map K.hash) : ∀ c ∈ cs, K.hash c.data = c.hash := by
  rw [← hdata, List.map_map] at hhash
  exact fun c hc => (List.map_inj_left.1 hhash c hc).symm

theorem verifySignature_signed {identity : Identity} (hs : m.signer = identity.pub K)
    (hverify : ∀ b, K.verify (K.verifyingKey identity.signingKey) b
      (K.sign identity.signingKey b) = true) :
    (m.signed K C identity).verifySignature K C = .ok () := by
  rw [verifySignature_ok]
  have hkey : m.signer.publicKey = K.verifyingKey identity.signingKey := by rw [hs]; rfl
  exact hkey ▸ hverify _

/-- **The manifest of a file.**  It is signed, names the hash of every chunk, and the chunks hold
the content of the file in order. -/
theorem buildManifest_ok {path : PathBuf} {identity : Identity} {n : ℕ} {t t' : Tree}
    {cs : List Chunk} (h : buildManifest K C path identity n t = (.ok (m, cs), t')) :
    t' = t ∧ ∃ content, (read path : FsM FileError Bytes) t = (.ok content, t) ∧
      m = (unsignedManifest K path identity n content cs).signed K C identity ∧
      (∀ c ∈ cs, K.hash c.data = c.hash ∧ c.data.length ≤ n) ∧
      cs.map (fun c => c.index.toNat) = List.range cs.length ∧ cs.length < 2 ^ 32 ∧
      (cs.map Chunk.data).flatten = content ∧ (cs = [] ↔ content = []) := by
  unfold buildManifest at h
  split at h
  · cases h
  · rename_i hn
    obtain ⟨content, t₁, hread, h⟩ := FsM.bind_ok.1 h
    obtain ⟨chunks, t₂, hchunks, h⟩ := FsM.bind_ok.1 h
    obtain ⟨rfl, -⟩ := read_ok.1 hread
    obtain ⟨hcs, rfl⟩ := Prod.mk.inj hchunks
    obtain ⟨hmc, rfl⟩ := Prod.mk.inj h
    obtain ⟨rfl, rfl⟩ := Prod.mk.inj (Except.ok.inj hmc)
    obtain ⟨hdata, hhash, hindex, hbound⟩ := chunksFrom_ok hcs
    have hlen : chunks.length = (readBlocks n content.length content).length := by
      rw [← hdata, List.length_map]
    refine ⟨rfl, content, hread, rfl, fun c hc => ⟨hash_data_of_map hdata hhash c hc, ?_⟩, ?_, ?_,
      ?_, ?_⟩
    · exact length_le_of_mem_readBlocks (hdata ▸ List.mem_map_of_mem hc)
    · rw [hindex, hlen, List.range_eq_range']
      rfl
    · rw [hlen]
      rcases hbound with h | h
      · rw [h]; simp
      · have h0 : (0 : UInt32).toNat = 0 := rfl
        omega
    · rw [hdata, flatten_readBlocks (by omega) le_rfl]
    · rw [← readBlocks_eq_nil (n := n) le_rfl, ← List.length_eq_zero_iff,
        ← List.length_eq_zero_iff, hlen]

theorem buildManifest_eq {path : PathBuf} {identity : Identity} {n : ℕ} {t : Tree}
    {content : Bytes} (hread : (read path : FsM FileError Bytes) t = (.ok content, t))
    (hn : ¬ (n = 0 ∨ 2 ^ 32 ≤ n)) :
    buildManifest K C path identity n t =
      ((chunksFrom K 0 (readBlocks n content.length content)).map fun cs =>
        ((unsignedManifest K path identity n content cs).signed K C identity, cs), t) := by
  rw [buildManifest, if_neg hn, FsM.bind_of_ok hread]
  cases chunksFrom K 0 (readBlocks n content.length content) with
  | error e => rfl
  | ok cs => rfl

theorem verifyChunk_of_range {cs : List Chunk} (hm : m.chunks = cs.map Chunk.hash)
    (hindex : cs.map (fun c => c.index.toNat) = List.range cs.length)
    (hhash : ∀ c ∈ cs, K.hash c.data = c.hash) : ∀ c ∈ cs, verifyChunk K m c = .ok () := by
  intro c hc
  obtain ⟨k, hk, rfl⟩ := List.getElem_of_mem hc
  have hik : cs[k].index.toNat = k := by
    have h := congrArg (fun l => l[k]?) hindex
    simpa [hk] using h
  refine verifyChunk_ok.2 ⟨?_, hhash _ hc⟩
  rw [hik, hm, List.getElem?_map, List.getElem?_eq_getElem hk]
  rfl

theorem length_flatten_le {cs : List Chunk} {n : ℕ} (h : ∀ c ∈ cs, c.data.length ≤ n) :
    (cs.map Chunk.data).flatten.length ≤ cs.length * n := by
  induction cs with
  | nil => simp
  | cons c cs ih =>
    have hc := h c List.mem_cons_self
    have hcs := ih fun x hx => h x (List.mem_cons_of_mem _ hx)
    rw [List.map_cons, List.flatten_cons, List.length_append, List.length_cons, Nat.succ_mul]
    omega

/-! ### Putting chunks in order -/

theorem perm_sortByIndex (cs : List Chunk) : (sortByIndex cs).Perm cs := List.perm_insertionSort ..

/-- Numbers below `n`, each at most once and `n` of them, are `0, …, n - 1` in some order. -/
theorem perm_range_of_nodup {is : List ℕ} {n : ℕ} (hnodup : is.Nodup) (hlt : ∀ i ∈ is, i < n)
    (hlen : is.length = n) : is.Perm (List.range n) := by
  have hsub : is ⊆ List.range n := fun i hi => List.mem_range.2 (hlt i hi)
  refine (hnodup.subperm hsub).perm_of_length_le ?_
  rw [hlen, List.length_range]

theorem map_toNat_insertionSort {is : List UInt32} {n : ℕ}
    (h : (is.map UInt32.toNat).Perm (List.range n)) :
    (is.insertionSort (· ≤ ·)).map UInt32.toNat = List.range n := by
  have hsorted : ((is.insertionSort (· ≤ ·)).map UInt32.toNat).Pairwise (· ≤ ·) := by
    rw [List.pairwise_map]
    exact (List.pairwise_insertionSort (· ≤ ·) is).imp fun h => UInt32.le_iff_toNat_le.1 h
  refine List.Perm.eq_of_pairwise' hsorted ?_ ?_
  · exact List.pairwise_lt_range.imp le_of_lt
  · exact ((List.perm_insertionSort ..).map _).trans h

theorem map_index_sortByIndex (cs : List Chunk) :
    (sortByIndex cs).map Chunk.index = (cs.map Chunk.index).insertionSort (· ≤ ·) :=
  List.map_insertionSort _ _ _ _ fun _ _ _ _ => Iff.rfl

/-- **As many chunks with different indices as there are indices are, sorted, the chunks
`0, 1, …`.** -/
theorem sortByIndex_eq_range {cs : List Chunk} {n : ℕ} (hnodup : (cs.map Chunk.index).Nodup)
    (hlt : ∀ c ∈ cs, c.index.toNat < n) (hlen : cs.length = n) :
    (sortByIndex cs).map (fun c => c.index.toNat) = List.range n := by
  have hperm : ((cs.map Chunk.index).map UInt32.toNat).Perm (List.range n) := by
    refine perm_range_of_nodup (hnodup.map fun a b h =>
        UInt32.toNat_inj.1 h) ?_ (by simpa using hlen)
    simpa using hlt
  have h := map_toNat_insertionSort hperm
  rwa [← map_index_sortByIndex, List.map_map] at h

/-- **The chunks of a file, put in order again.** -/
theorem sortByIndex_of_perm {shuffled cs : List Chunk} (hperm : shuffled.Perm cs)
    (hindex : cs.map (fun c => c.index.toNat) = List.range cs.length) :
    sortByIndex shuffled = cs := by
  have hnodup : (cs.map fun c => c.index.toNat).Nodup := hindex ▸ List.nodup_range
  have hsorted : (sortByIndex shuffled).Pairwise fun a b => a.index ≤ b.index :=
    List.pairwise_insertionSort ..
  have horder : cs.Pairwise fun a b => a.index ≤ b.index := by
    have hlt : (cs.map fun c => c.index.toNat).Pairwise (· < ·) := hindex ▸ List.pairwise_lt_range
    exact (List.pairwise_map.1 hlt).imp fun h => UInt32.le_iff_toNat_le.2 h.le
  refine List.Perm.eq_of_pairwise (fun a b ha hb hab hba => ?_) hsorted horder
    ((perm_sortByIndex shuffled).trans hperm)
  -- chunks of one index are one chunk
  have ha' : a ∈ cs := hperm.mem_iff.1 ((perm_sortByIndex shuffled).mem_iff.1 ha)
  rw [UInt32.le_iff_toNat_le] at hab hba
  exact List.inj_on_of_nodup_map hnodup ha' hb (by omega)

/-! ### Writing a file out -/

/-- **What a successful `reconstruct` has verified and written.** -/
theorem reconstruct_ok {cs : List Chunk} {output : PathBuf} {t t' : Tree} :
    reconstruct K m cs output t = (.ok (), t') ↔
      ∃ l, t.place output = .ok l ∧ (∀ c ∈ cs, verifyChunk K m c = .ok ()) ∧
        ((sortByIndex cs).flatMap Chunk.data).length = m.totalSize.toNat ∧
          t' = t.putFile l ((sortByIndex cs).flatMap Chunk.data) := by
  have hlen : ∀ l, t.place output = .ok l → ∀ b,
      (File.len l : FsM FileError ℕ) (t.putFile l b) = (.ok b.length, t.putFile l b) := by
    intro l hl b
    obtain ⟨hr, hd⟩ := Tree.place_ok.1 hl
    rw [File.len, Tree.file?_putFile_self (Tree.resolve_isDir_tail hr) hd]
    rfl
  constructor
  · intro h
    obtain ⟨l, t₁, hcreate, h⟩ := FsM.bind_ok.1 h
    obtain ⟨hl, rfl⟩ := create_ok.1 hcreate
    obtain ⟨_, t₂, hloop, h⟩ := FsM.bind_ok.1 h
    have ht₂ : t₂ = t.putFile l ([] ++ (sortByIndex cs).flatMap Chunk.data) := by
      refine forEach_append_ok (fun c _ b t'' hround => ?_) hloop
      obtain ⟨_, t₃, hv, hw⟩ := FsM.bind_ok.1 hround
      obtain ⟨-, rfl⟩ := Prod.mk.inj hv
      rw [writeAll_putFile hl] at hw
      exact (Prod.mk.inj hw).2.symm
    rw [List.nil_append] at ht₂
    subst ht₂
    rw [FsM.bind_of_ok (hlen l hl _)] at h
    split at h
    · cases h
    · rename_i hsize
      refine ⟨l, hl, fun c hc => ?_, not_not.1 hsize, (Prod.mk.inj h).2.symm⟩
      obtain ⟨t₃, t₄, hround⟩ := forEach_each_ok hloop c ((perm_sortByIndex cs).mem_iff.2 hc)
      obtain ⟨_, t₅, hv, -⟩ := FsM.bind_ok.1 hround
      exact (Prod.mk.inj hv).1
  · rintro ⟨l, hl, hv, hsize, rfl⟩
    rw [reconstruct, FsM.bind_of_ok (create_ok.2 ⟨hl, rfl⟩)]
    have hround : ∀ c ∈ sortByIndex cs, ∀ b,
        (do
          FsM.ofExcept (verifyChunk K m c)
          File.writeAll l c.data : FsM FileError Unit) (t.putFile l b) =
            (.ok (), t.putFile l (b ++ c.data)) := by
      intro c hc b
      rw [FsM.bind_ofExcept_ok (hv c ((perm_sortByIndex cs).mem_iff.1 hc)), writeAll_putFile hl]
    have hloop := forEach_append (b := []) hround
    rw [FsM.bind_of_ok hloop, List.nil_append, FsM.bind_of_ok (hlen l hl _),
      if_neg (not_not.2 hsize)]
    rfl

end Neonet
