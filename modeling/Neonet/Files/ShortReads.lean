import Neonet.Files.Manifest

/-!
# A file that is read in pieces

A read may return fewer bytes than the buffer holds, so the chunks of a file need not be as long
as the chunk size.

* `shortBlocks` : what the reads return if the `k`-th has `count k` bytes, or all that are left.
* `buildManifestReading` : `build_manifest` with such reads; `buildManifestReading_full` is the case
  of full ones.
* `Describes` : the manifest and the chunks describe the content, and restore it in any order.
* `describes_buildManifest` : **they do, however the file is read.**
-/

namespace Neonet

open FileTree

/-- What the reads return from the `k`-th on. -/
def shortBlocks (count : ℕ → ℕ) : ℕ → ℕ → Bytes → List Bytes
  | _, 0, _ => []
  | k, fuel + 1, rest =>
    if rest = [] then [] else rest.take (count k) :: shortBlocks count (k + 1) fuel
      (rest.drop (count k))

/-- Before the end of the file a read returns something, and no more than the buffer holds. -/
def Reads (size : ℕ) (count : ℕ → ℕ) : Prop := ∀ k, 0 < count k ∧ count k ≤ size

section Build

variable (K : Primitives) (C : Codec FileManifest)

/-- `build_manifest`, with reads that may be short. -/
def buildManifestReading (count : ℕ → ℕ) (path : PathBuf) (identity : Identity) (chunkSize : ℕ) :
    FsM FileError (FileManifest × List Chunk) :=
  if chunkSize = 0 ∨ 2 ^ 32 ≤ chunkSize then FsM.fail .invalidIndex
  else do
    let content ← read path
    let chunks ← FsM.ofExcept (chunksFrom K 0 (shortBlocks count 0 content.length content))
    return ((unsignedManifest K path identity chunkSize content chunks).signed K C identity, chunks)

/-- The manifest and the chunks are those of the content, and restore it in any order. -/
structure Describes (chunkSize : ℕ) (m : FileManifest) (cs : List Chunk) (content : Bytes) :
    Prop where
  index : cs.map (fun c => c.index.toNat) = List.range cs.length
  data : ∀ c ∈ cs, c.data ≠ [] ∧ c.data.length ≤ chunkSize
  hash : m.chunks = cs.map Chunk.hash ∧ ∀ c ∈ cs, K.hash c.data = c.hash
  whole : (cs.map Chunk.data).flatten = content
  size : m.totalSize.toNat = content.length
  signed : m.verifySignature K C = .ok ()
  restores : ∀ shuffled output t l, shuffled.Perm cs → t.place output = .ok l →
    reconstruct K m shuffled output t = (.ok (), t.putFile l content)

end Build

variable {K : Primitives} {C : Codec FileManifest} {m : FileManifest} {cs : List Chunk}
  {count : ℕ → ℕ} {size k fuel : ℕ} {b : Bytes}

/-! ### The pieces -/

theorem shortBlocks_full : shortBlocks (fun _ => size) k fuel b = readBlocks size fuel b := by
  induction fuel generalizing k b with
  | zero => rfl
  | succ fuel ih => rw [shortBlocks, readBlocks, ih]

theorem flatten_shortBlocks (hcount : Reads size count) (h : b.length ≤ fuel) :
    (shortBlocks count k fuel b).flatten = b := by
  induction fuel generalizing k b with
  | zero => rw [List.length_eq_zero_iff.1 (Nat.le_zero.1 h)]; rfl
  | succ fuel ih =>
    rw [shortBlocks]
    split
    · rename_i hb; rw [hb]; rfl
    · rename_i hb
      have hpos : 0 < b.length := List.length_pos_of_ne_nil hb
      have hsome := (hcount k).1
      rw [List.flatten_cons, ih (by rw [List.length_drop]; omega), List.take_append_drop]

theorem mem_shortBlocks (hcount : Reads size count) {d : Bytes}
    (h : d ∈ shortBlocks count k fuel b) : d ≠ [] ∧ d.length ≤ size := by
  induction fuel generalizing k b with
  | zero => cases h
  | succ fuel ih =>
    obtain ⟨hsome, hfits⟩ := hcount k
    rw [shortBlocks] at h
    split at h
    · cases h
    · rename_i hb
      rcases List.mem_cons.1 h with rfl | h
      · refine ⟨fun hnil => ?_, ?_⟩
        · rcases List.take_eq_nil_iff.1 hnil with hzero | hnil
          · omega
          · exact hb hnil
        · rw [List.length_take]
          omega
      · exact ih h

/-- On full reads it is `buildManifest`. -/
theorem buildManifestReading_full {path : PathBuf} {identity : Identity} :
    buildManifestReading K C (fun _ => size) path identity size =
      buildManifest K C path identity size := by
  simp only [buildManifestReading, buildManifest, shortBlocks_full]

/-! ### Any order -/

/-- **A file is described by its manifest and its chunks, however it is read.** -/
theorem describes_buildManifest {path : PathBuf} {identity : Identity} {t t' : Tree}
    {content : Bytes} (hcount : Reads size count)
    (hverify : ∀ text, K.verify (K.verifyingKey identity.signingKey) text
      (K.sign identity.signingKey text) = true)
    (hread : (read path : FsM FileError Bytes) t = (.ok content, t))
    (h : buildManifestReading K C count path identity size t = (.ok (m, cs), t')) :
    Describes K C size m cs content := by
  rw [buildManifestReading] at h
  split at h
  · cases h
  rename_i hsize
  rw [FsM.bind_of_ok hread] at h
  obtain ⟨chunks, t₁, hchunks, h⟩ := FsM.bind_ok.1 h
  obtain ⟨hcs, rfl⟩ := Prod.mk.inj hchunks
  obtain ⟨hmc, -⟩ := Prod.mk.inj h
  obtain ⟨hm, rfl⟩ := Prod.mk.inj (Except.ok.inj hmc)
  obtain ⟨hdata, hhash, hindex, hbound⟩ := chunksFrom_ok hcs
  have hlen : chunks.length = (shortBlocks count 0 content.length content).length := by
    rw [← hdata, List.length_map]
  have hrange : chunks.map (fun c => c.index.toNat) = List.range chunks.length := by
    rw [hindex, hlen, List.range_eq_range']
    rfl
  have hpieces : ∀ c ∈ chunks, c.data ≠ [] ∧ c.data.length ≤ size := fun c hc =>
    mem_shortBlocks hcount (hdata ▸ List.mem_map_of_mem hc)
  have hcontent : (chunks.map Chunk.data).flatten = content := by
    rw [hdata, flatten_shortBlocks hcount le_rfl]
  have hhashes := hash_data_of_map hdata hhash
  have hchunks : m.chunks = chunks.map Chunk.hash := by rw [← hm]; rfl
  -- as many chunks as there are indices, each shorter than `2 ^ 32`, are shorter than `2 ^ 64`
  have hsmall : content.length < 2 ^ 64 := by
    have hcount' : chunks.length ≤ 2 ^ 32 - 1 := by
      rw [hlen]
      rcases hbound with hnil | hlt
      · rw [hnil]; simp
      · have h0 : (0 : UInt32).toNat = 0 := rfl
        omega
    have hproduct : chunks.length * size ≤ (2 ^ 32 - 1) * (2 ^ 32 - 1) :=
      Nat.mul_le_mul hcount' (by omega)
    have htotal := length_flatten_le fun c hc => (hpieces c hc).2
    rw [hcontent] at htotal
    omega
  have htotal : m.totalSize.toNat = content.length := by
    rw [← hm]
    exact UInt64.toNat_ofNat_of_lt' hsmall
  refine ⟨hrange, hpieces, ⟨hchunks, hhashes⟩, hcontent, htotal, ?_, ?_⟩
  · rw [← hm]
    exact verifySignature_signed rfl hverify
  · intro shuffled output t l hperm hl
    have hsort := sortByIndex_of_perm hperm hrange
    have hwritten : (sortByIndex shuffled).flatMap Chunk.data = content := by
      rw [hsort, List.flatMap_def, hcontent]
    refine reconstruct_ok.2 ⟨l, hl, fun c hc => ?_, by rw [hwritten, htotal], by rw [hwritten]⟩
    exact verifyChunk_of_range hchunks hrange hhashes c (hperm.mem_iff.1 hc)

namespace Sips

/-- A disk with a file of three bytes. -/
def tree : Tree := (Tree.bare fun _ => true).putFile ["memo"] [1, 2, 3]

/-- The signer of the file. -/
def signer : Identity := ⟨digits 32 7⟩

/-- The file, read one byte first and two then. -/
def built : Except FileError (FileManifest × List Chunk) :=
  (buildManifestReading .sample FileManifest.wire.toCodec (fun k => if k = 0 then 1 else 2) ["memo"]
    signer 2 tree).1

end Sips

open Sips in
/-- A file of three bytes, read in two pieces. -/
theorem describes_buildManifest_sips : ∃ m cs, built = .ok (m, cs) ∧
    cs.map Chunk.data = [[1], [2, 3]] ∧
      Describes .sample FileManifest.wire.toCodec 2 m cs [1, 2, 3] := by
  have hok : (built.toOption.map fun x => x.2.map Chunk.data) = some [[1], [2, 3]] := by
    decide +kernel
  obtain ⟨⟨m, cs⟩, hbuilt, hdata⟩ := Option.map_eq_some_iff.1 hok
  have hb : built = .ok (m, cs) := by
    cases hcase : built with
    | error e => rw [hcase] at hbuilt; cases hbuilt
    | ok x => rw [hcase] at hbuilt; exact congrArg _ (Option.some.inj hbuilt)
  have hcount : Reads 2 fun k => if k = 0 then 1 else 2 := by
    intro k
    dsimp only
    split <;> omega
  have hread : (read ["memo"] : FsM FileError Bytes) tree = (.ok [1, 2, 3], tree) :=
    read_of_hasFile (hasFile_putFile (by decide +kernel))
  have hverify : ∀ text, Primitives.sample.verify
      (Primitives.sample.verifyingKey signer.signingKey) text
        (Primitives.sample.sign signer.signingKey text) = true := by
    intro text
    simp [Primitives.sample]
  exact ⟨m, cs, hb, hdata, describes_buildManifest hcount hverify hread (Prod.ext hb rfl)⟩

end Neonet
