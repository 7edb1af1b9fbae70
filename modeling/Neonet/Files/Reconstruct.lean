import Mathlib.Algebra.BigOperators.Group.List.Basic
import Mathlib.Data.List.GetD
import Mathlib.Data.List.Sublists
import Neonet.Files.Manifest

/-!
# What a file put together holds

`reconstruct` verifies each chunk by itself and the length of them all at the end.

* `Blocks` : a content is one block for each index of the manifest, in order.
* `Reproduces` : whatever `reconstruct` reports to be written is such a content.
* `reproduces_of_each_once` : this holds of chunks with each index once.
* `GapsFilled` : what is written by chance: with the blocks of the indices that do not occur, one
  chunk of each other index makes the same bytes as all the chunks.
* `reproduces_iff` : **the chunks are put together rightly exactly if** one of them does not
  verify, or they have not the size of the file, so that nothing is reported, or each index occurs
  once, or the gaps are filled.
* `not_reproduces_twice` : the first of two chunks, given twice.
-/

namespace Neonet

open FileTree

section Blocks

variable (K : Primitives) (m : FileManifest)

/-- The content is one block for each index, in order, each with the hash that the manifest has
for it, and as long as the manifest says. -/
def Blocks (content : Bytes) : Prop :=
  ∃ blocks : List Bytes, blocks.map K.hash = m.chunks ∧ blocks.flatten = content ∧
    content.length = m.totalSize.toNat

/-- If `reconstruct` reports success, the output holds the blocks of the manifest. -/
def Reproduces (cs : List Chunk) : Prop :=
  ∀ output t t', reconstruct K m cs output t = (.ok (), t') →
    ∃ content, (read output : FsM FileError Bytes) t' = (.ok content, t') ∧ Blocks K m content

variable (cs : List Chunk)

/-- Each index of the manifest is that of exactly one chunk. -/
def EachOnce : Prop := (cs.map fun c => c.index.toNat).Perm (List.range m.chunks.length)

instance : Decidable (EachOnce m cs) := inferInstanceAs (Decidable (List.Perm _ _))

/-- The chunks of one index. -/
def chunksAt (i : ℕ) : List Chunk := cs.filter fun c => c.index.toNat = i

/-- The data of one chunk of the index, or the given block if it has none. -/
def blockAt (missing : ℕ → Bytes) (i : ℕ) : Bytes :=
  ((chunksAt cs i).head?.map Chunk.data).getD (missing i)

/-- The chunks that are too many fill the gaps: there are blocks for the indices without a chunk
which together with one chunk of each other index are, in order, the same bytes as all the
chunks. -/
def GapsFilled : Prop :=
  ∃ missing : ℕ → Bytes,
    (∀ i < m.chunks.length, chunksAt cs i = [] →
      m.chunks[i]? = some (K.hash (missing i))) ∧
    (List.range m.chunks.length).flatMap (blockAt cs missing) =
      (List.range m.chunks.length).flatMap fun i => (chunksAt cs i).flatMap Chunk.data

end Blocks

variable {K : Primitives} {m : FileManifest} {cs : List Chunk}

theorem read_reconstruct {output : PathBuf} {t t' : Tree}
    (h : reconstruct K m cs output t = (.ok (), t')) :
    (read output : FsM FileError Bytes) t' =
      (.ok ((sortByIndex cs).flatMap Chunk.data), t') := by
  obtain ⟨l, hl, -, -, rfl⟩ := reconstruct_ok.1 h
  exact read_of_hasFile (hasFile_putFile hl)

theorem map_hash_of_each_once (hv : ∀ c ∈ cs, verifyChunk K m c = .ok ())
    (hnodup : (cs.map Chunk.index).Nodup) (hlen : cs.length = m.chunks.length) :
    ((sortByIndex cs).map Chunk.data).map K.hash = m.chunks := by
  have hlt : ∀ c ∈ cs, c.index.toNat < m.chunks.length := fun c hc =>
    (List.getElem?_eq_some_iff.1 (verifyChunk_ok.1 (hv c hc)).1).1
  have hrange := sortByIndex_eq_range hnodup hlt hlen
  have hlength : (sortByIndex cs).length = m.chunks.length := by
    rw [(perm_sortByIndex cs).length_eq, hlen]
  refine List.ext_getElem (by simpa using hlength) fun k hk hk' => ?_
  rw [List.length_map, List.length_map] at hk
  have hindex : (sortByIndex cs)[k].index.toNat = k := by
    have h := congrArg (fun l => l[k]?) hrange
    simpa [hk, hlength ▸ hk] using h
  obtain ⟨hhash, hdata⟩ := verifyChunk_ok.1
    (hv _ ((perm_sortByIndex cs).mem_iff.1 (List.getElem_mem hk)))
  rw [hindex, List.getElem?_eq_getElem hk', Option.some.injEq] at hhash
  rw [List.getElem_map, List.getElem_map, hdata, hhash]

/-- **Chunks with each index once** restore the file. -/
theorem reproduces_of_each_once (h : EachOnce m cs) : Reproduces K m cs := by
  intro output t t' hrun
  obtain ⟨-, -, hv, hsize, -⟩ := reconstruct_ok.1 hrun
  have hnodup : (cs.map Chunk.index).Nodup := by
    have hnat : ((cs.map Chunk.index).map UInt32.toNat).Nodup := by
      rw [List.map_map]
      exact h.nodup_iff.2 List.nodup_range
    exact .of_map _ hnat
  have hlen : cs.length = m.chunks.length := by simpa using h.length_eq
  refine ⟨_, read_reconstruct hrun, (sortByIndex cs).map Chunk.data,
    map_hash_of_each_once hv hnodup hlen, ?_, hsize⟩
  rw [List.flatMap_def]

/-! ### Chunks that are too many -/

theorem mem_chunksAt {c : Chunk} {i : ℕ} : c ∈ chunksAt cs i ↔ c ∈ cs ∧ c.index.toNat = i := by
  simp [chunksAt]

/-- Sorting leaves the chunks of one index in their order. -/
theorem chunksAt_sortByIndex (i : ℕ) : chunksAt (sortByIndex cs) i = chunksAt cs i := by
  have hsorted : (chunksAt cs i).Pairwise fun a b => a.index ≤ b.index := by
    refine List.pairwise_of_forall_mem_list fun a ha b hb => ?_
    rw [UInt32.le_iff_toNat_le, (mem_chunksAt.1 ha).2, (mem_chunksAt.1 hb).2]
  have hsub : (chunksAt cs i).Sublist (chunksAt (sortByIndex cs) i) := by
    have h := (List.sublist_insertionSort hsorted List.filter_sublist).filter
      fun c => decide (c.index.toNat = i)
    simp only [chunksAt, List.filter_filter, Bool.and_self] at h
    exact h
  exact (hsub.eq_of_length ((perm_sortByIndex cs).filter _).length_eq.symm).symm

/-- Sorted chunks are those of each index in turn. -/
theorem flatMap_chunksAt {l : List Chunk} (hl : l.Pairwise fun a b => a.index ≤ b.index) (n : ℕ) :
    (List.range n).flatMap (chunksAt l) = l.filter fun c => c.index.toNat < n := by
  induction n with
  | zero => simp
  | succ n ih =>
    rw [List.range_succ, List.flatMap_append, ih, List.flatMap_singleton]
    clear ih
    induction l with
    | nil => rfl
    | cons c l ih =>
      obtain ⟨hfirst, hrest⟩ := List.pairwise_cons.1 hl
      rcases Nat.lt_trichotomy c.index.toNat n with hlt | heq | hgt
      · simp only [chunksAt, List.filter_cons, hlt, hlt.ne, Nat.lt_succ_of_lt hlt, decide_true,
          decide_false, if_true, Bool.false_eq_true, if_false, List.cons_append]
        exact congrArg (c :: ·) (ih hrest)
      · -- no chunk that follows has a smaller index
        have hnone : l.filter (fun c => decide (c.index.toNat < n)) = [] := by
          refine List.filter_eq_nil_iff.2 fun d hd => ?_
          have hle := UInt32.le_iff_toNat_le.1 (hfirst d hd)
          simp only [decide_eq_true_eq]
          omega
        have h := ih hrest
        rw [hnone, List.nil_append] at h
        simp only [chunksAt, List.filter_cons, heq, hnone, Nat.lt_irrefl, Nat.lt_succ_self,
          decide_true, decide_false, if_true, Bool.false_eq_true, if_false, List.nil_append]
        exact congrArg (c :: ·) h
      · have hle : ¬ c.index.toNat < n + 1 := by omega
        simp only [chunksAt, List.filter_cons, hgt.ne', hgt.not_gt, hle, decide_false,
          Bool.false_eq_true, if_false]
        exact ih hrest

theorem flatMap_data_sortByIndex (hv : ∀ c ∈ cs, verifyChunk K m c = .ok ()) :
    (sortByIndex cs).flatMap Chunk.data =
      (List.range m.chunks.length).flatMap fun i => (chunksAt cs i).flatMap Chunk.data := by
  have hall : (sortByIndex cs).filter (fun c => c.index.toNat < m.chunks.length) =
      sortByIndex cs := by
    refine List.filter_eq_self.2 fun c hc => ?_
    have hget := (verifyChunk_ok.1 (hv c ((perm_sortByIndex cs).mem_iff.1 hc))).1
    exact decide_eq_true (List.getElem?_eq_some_iff.1 hget).1
  have hparts := flatMap_chunksAt (l := sortByIndex cs) (List.pairwise_insertionSort ..)
    m.chunks.length
  rw [hall] at hparts
  rw [← hparts, List.flatMap_assoc]
  simp only [chunksAt_sortByIndex]

theorem length_flatMap_sortByIndex :
    ((sortByIndex cs).flatMap Chunk.data).length = (cs.map fun c => c.data.length).sum := by
  rw [List.length_flatMap]
  exact ((perm_sortByIndex cs).map _).sum_eq

theorem map_hash_blockAt {missing : ℕ → Bytes} (hv : ∀ c ∈ cs, verifyChunk K m c = .ok ())
    (hmissing : ∀ i < m.chunks.length, chunksAt cs i = [] →
      m.chunks[i]? = some (K.hash (missing i))) :
    ((List.range m.chunks.length).map (blockAt cs missing)).map K.hash = m.chunks := by
  refine List.ext_getElem? fun i => ?_
  rw [List.map_map, List.getElem?_map]
  by_cases hi : i < m.chunks.length
  · rw [List.getElem?_range hi, Option.map_some, Function.comp_apply, blockAt]
    cases hat : chunksAt cs i with
    | nil => exact (hmissing i hi hat).symm
    | cons c rest =>
      obtain ⟨hc, rfl⟩ := mem_chunksAt.1 (hat ▸ List.mem_cons_self : c ∈ chunksAt cs i)
      obtain ⟨hhash, hdata⟩ := verifyChunk_ok.1 (hv c hc)
      rw [hhash, ← hdata]
      rfl
  · rw [List.getElem?_eq_none (by simpa using hi), List.getElem?_eq_none (by simpa using hi)]
    rfl

/-- **Chunks that fill the gaps** restore the file. -/
theorem reproduces_of_gapsFilled (h : GapsFilled K m cs) : Reproduces K m cs := by
  intro output t t' hrun
  obtain ⟨missing, hmissing, hbytes⟩ := h
  obtain ⟨-, -, hv, hsize, -⟩ := reconstruct_ok.1 hrun
  refine ⟨_, read_reconstruct hrun, _, map_hash_blockAt hv hmissing, ?_, hsize⟩
  rw [← List.flatMap_def, hbytes, flatMap_data_sortByIndex hv]

/-- What a block of the content hashes to tells which block it is, so the blocks of the indices
that occur are those of their chunks. -/
theorem gapsFilled_of_blocks (hv : ∀ c ∈ cs, verifyChunk K m c = .ok ())
    (hK : Set.InjOn K.hash {b | b <:+: (sortByIndex cs).flatMap Chunk.data})
    (h : Blocks K m ((sortByIndex cs).flatMap Chunk.data)) : GapsFilled K m cs := by
  obtain ⟨blocks, hhash, hflat, -⟩ := h
  have hlen : blocks.length = m.chunks.length := by rw [← hhash, List.length_map]
  have hget : ∀ i (hi : i < blocks.length), m.chunks[i]? = some (K.hash blocks[i]) := by
    intro i hi
    rw [← hhash, List.getElem?_map, List.getElem?_eq_getElem hi]
    rfl
  have hblocks : (List.range m.chunks.length).map (blockAt cs fun i => blocks.getD i []) =
      blocks := by
    refine List.ext_getElem (by simp [hlen]) fun i hi hi' => ?_
    rw [List.getElem_map, List.getElem_range, blockAt]
    cases hat : chunksAt cs i with
    | nil => exact List.getD_eq_getElem _ _ hi'
    | cons c rest =>
      obtain ⟨hc, hindex⟩ := mem_chunksAt.1 (hat ▸ List.mem_cons_self : c ∈ chunksAt cs i)
      obtain ⟨hexpected, hdata⟩ := verifyChunk_ok.1 (hv c hc)
      rw [hindex, hget i hi', Option.some.injEq] at hexpected
      have hpart : c.data <:+: (sortByIndex cs).flatMap Chunk.data := by
        rw [List.flatMap_def]
        exact List.infix_of_mem_flatten
          (List.mem_map_of_mem ((perm_sortByIndex cs).mem_iff.2 hc))
      exact hK hpart (hflat ▸ List.infix_of_mem_flatten (List.getElem_mem hi'))
        (hdata.trans hexpected.symm)
  refine ⟨fun i => blocks.getD i [], fun i hi _ => ?_, ?_⟩
  · have hi' : i < blocks.length := hlen ▸ hi
    simp only [hget i hi', List.getD_eq_getElem _ _ hi']
  · rw [List.flatMap_def, hblocks, hflat, flatMap_data_sortByIndex hv]

/-- **Which chunks are put together rightly.**  A success means that the blocks of the manifest
were written exactly if there is no success, since a chunk does not verify or the chunks have not
the size of the file, or if each index occurs once, or if the chunks that are too many fill the
gaps. -/
theorem reproduces_iff (K : Primitives) (m : FileManifest) (cs : List Chunk)
    (hK : Set.InjOn K.hash {b | b <:+: (sortByIndex cs).flatMap Chunk.data}) :
    Reproduces K m cs ↔
      (∃ c ∈ cs, verifyChunk K m c ≠ .ok ()) ∨
        (cs.map fun c => c.data.length).sum ≠ m.totalSize.toNat ∨
          EachOnce m cs ∨ GapsFilled K m cs := by
  constructor
  · intro h
    by_cases hv : ∃ c ∈ cs, verifyChunk K m c ≠ .ok ()
    · exact .inl hv
    by_cases hsize : (cs.map fun c => c.data.length).sum ≠ m.totalSize.toNat
    · exact .inr (.inl hsize)
    push Not at hv hsize
    -- on a bare disk the file is written
    have hplace : (Tree.bare fun _ => true).place ["out"] = .ok ["out"] := by decide +kernel
    have hrun := reconstruct_ok.2 ⟨_, hplace, hv, length_flatMap_sortByIndex.trans hsize, rfl⟩
    obtain ⟨content, hread, hblocks⟩ := h _ _ _ hrun
    rw [read_reconstruct hrun] at hread
    obtain rfl := Except.ok.inj (Prod.mk.inj hread).1
    exact .inr (.inr (.inr (gapsFilled_of_blocks hv hK hblocks)))
  · rintro (⟨c, hc, hfails⟩ | hsize | honce | hgaps)
    · intro output t t' hrun
      obtain ⟨-, -, hv, -, -⟩ := reconstruct_ok.1 hrun
      exact absurd (hv c hc) hfails
    · intro output t t' hrun
      obtain ⟨-, -, -, hwritten, -⟩ := reconstruct_ok.1 hrun
      exact absurd (length_flatMap_sortByIndex.symm.trans hwritten) hsize
    · exact reproduces_of_each_once honce
    · exact reproduces_of_gapsFilled hgaps

namespace Pieces

/-- The block of one index. -/
def first : Chunk := ⟨0, polyHash [5], [5]⟩

/-- A manifest of two blocks. -/
def manifest : FileManifest :=
  ⟨1, "pieces", 2, 1, [polyHash [5], polyHash [6]], ⟨List.Vector.replicate 32 0⟩, zeroSignature⟩

theorem reconstruct_first : reconstruct .sample manifest [first, first] ["out"]
    (.bare fun _ => true) = (.ok (), (Tree.bare fun _ => true).putFile ["out"] [5, 5]) :=
  reconstruct_ok.2 ⟨["out"], by decide +kernel, by decide +kernel, by decide +kernel, rfl⟩

theorem not_blocks : ¬ Blocks .sample manifest [5, 5] := by
  rintro ⟨blocks, hhash, hflat, -⟩
  obtain ⟨a, b, rfl⟩ : ∃ a b, blocks = [a, b] :=
    List.length_eq_two.1 (by simpa [manifest] using congrArg List.length hhash)
  obtain ⟨ha, hb⟩ : polyHash a = polyHash [5] ∧ polyHash b = polyHash [6] := by
    simpa [manifest, Primitives.sample] using hhash
  have hab : a ++ b = [5, 5] := by simpa using hflat
  -- the second block is what the first one leaves
  rcases a with _ | ⟨x, _ | ⟨y, a⟩⟩
  · exact absurd ha (by decide)
  · obtain rfl : b = [5] := (List.cons.inj hab).2
    exact absurd hb (by decide)
  · obtain ⟨-, hrest⟩ := List.append_eq_nil_iff.1 (List.cons.inj (List.cons.inj hab).2).2
    subst hrest
    exact absurd hb (by decide)

theorem injOn_infix {l : Bytes}
    (h : ∀ a ∈ l.sublists, ∀ b ∈ l.sublists, polyHash a = polyHash b → a = b) :
    Set.InjOn polyHash {b | b <:+: l} := fun a ha b hb =>
  h a (List.mem_sublists.2 ha.sublist) b (List.mem_sublists.2 hb.sublist)

end Pieces

open Pieces in
/-- The two blocks are restored in whatever order they come, and two equal blocks from one of
them. -/
theorem reproduces_iff_two :
    Reproduces .sample manifest [⟨1, polyHash [6], [6]⟩, first] ∧
      Reproduces .sample { manifest with chunks := [polyHash [5], polyHash [5]] }
        [first, first] := by
  refine ⟨(reproduces_iff .sample _ _ ?_).2 (.inr (.inr (.inl (by decide)))),
    (reproduces_iff .sample _ _ ?_).2 (.inr (.inr (.inr ⟨fun _ => [5], ?_, by decide⟩)))⟩
  · exact injOn_infix (by decide)
  · exact injOn_infix (by decide)
  · decide

open Pieces in
/-- The first of two blocks, given twice, passes for both. -/
theorem not_reproduces_twice :
    ¬ ∀ (m : FileManifest) (cs : List Chunk), Reproduces .sample m cs := by
  intro h
  obtain ⟨content, hread, hblocks⟩ := h manifest [first, first] _ _ _ reconstruct_first
  rw [read_reconstruct reconstruct_first] at hread
  obtain rfl := Except.ok.inj (Prod.mk.inj hread).1
  exact not_blocks hblocks

end Neonet
