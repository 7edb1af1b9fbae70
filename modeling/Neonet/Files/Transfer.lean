import Mathlib.Data.List.TakeWhile
import Neonet.Files.Receive

/-!
# Fetching the chunks of a manifest

Each index is asked of some sources in turn, until one of them answers with a chunk that verifies.
An answer is verified against the index it names, which need not be the index that was asked for.

* `transferManifest` : the coordinator; a source is any function of the index.
* `Passes`, `Supplied` : an answer for an index verifies, or has the data of that index.
* `transferManifest_eq` : **the state in which it ends**: the indices with an answer that passes,
  and the others.
* `Partitions` : the verified and the lost indices are those that were, and were not, supplied.
* `partitions_iff` : they are exactly if there are fewer than `2 ^ 32` indices and the same
  indices pass that are supplied.
* `not_partitions` : a source that answers with the first chunk always.
-/

namespace Neonet

/-- `ChunkSource`: what a source answers for an index. -/
abbrev ChunkSource := UInt32 → Except FileError Chunk

/-- `TransferState::mark_lost`. -/
def TransferState.markLost (s : TransferState) (index : UInt32) : TransferState :=
  if index ∈ s.lostChunks then s else { s with lostChunks := s.lostChunks ++ [index] }

/-- `iter().cycle().take(n)`. -/
def cycleTake {α : Type} (as : List α) (n : ℕ) : List α := (List.replicate n as).flatten.take n

section Coordinator

variable (K : Primitives) (m : FileManifest)

/-- The sources are asked until one answers with a chunk that verifies: whether one did, and how
many were asked. -/
def askSources (index : UInt32) : List ChunkSource → ℕ → Bool × ℕ
  | [], attempts => (false, attempts)
  | source :: rest, attempts =>
    match source index with
    | .ok chunk =>
      if verifyChunk K m chunk = .ok () then (true, attempts + 1)
      else askSources index rest (attempts + 1)
    | .error _ => askSources index rest (attempts + 1)

/-- One round of the loop over the indices. -/
def transferIndex (sources : List ChunkSource) (budget : ℕ) (s : TransferState)
    (index : UInt32) : TransferState :=
  let r := askSources K m index (cycleTake sources (min sources.length budget)) 0
  let s := if r.1 then s.markVerified index else s
  if !r.1 || r.2 == 0 then s.markLost index else s

/-- `transfer_manifest`.  The number of the indices is cut to 32 bits. -/
def transferManifest (sources : List ChunkSource) (retryBudget : ℕ) : TransferState :=
  ((List.range (UInt32.ofNat m.chunks.length).toNat).map UInt32.ofNat).foldl
    (transferIndex K m sources (max retryBudget 1)) (.new m)

/-- One of the sources answers for `i` with a chunk that verifies. -/
def Passes (sources : List ChunkSource) (i : UInt32) : Prop :=
  ∃ source ∈ sources, ∃ c, source i = .ok c ∧ verifyChunk K m c = .ok ()

/-- One of the sources answers for `i` with data that hash to what the manifest has there. -/
def Supplied (sources : List ChunkSource) (i : UInt32) : Prop :=
  ∃ source ∈ sources, ∃ c, source i = .ok c ∧ m.chunks[i.toNat]? = some (K.hash c.data)

/-- The state splits the indices of the manifest into those that the sources supplied and those
that they did not. -/
structure Partitions (sources : List ChunkSource) (s : TransferState) : Prop where
  verified_nodup : s.verifiedChunks.Nodup
  lost_nodup : s.lostChunks.Nodup
  disjoint : s.verifiedChunks.Disjoint s.lostChunks
  covers : ∀ n, (∃ i ∈ s.verifiedChunks ++ s.lostChunks, i.toNat = n) ↔ n < m.chunks.length
  verified : ∀ i ∈ s.verifiedChunks, Supplied K m sources i
  lost : ∀ i ∈ s.lostChunks, ¬ Supplied K m sources i

end Coordinator

variable {K : Primitives} {m : FileManifest} {sources : List ChunkSource} {i : UInt32}
  {attempts n : ℕ} {s : TransferState}

/-! ### One index -/

theorem cycleTake_of_le {α : Type} {as : List α} (h : n ≤ as.length) :
    cycleTake as n = as.take n := by
  cases n with
  | zero => simp [cycleTake]
  | succ n =>
    rw [cycleTake, List.replicate_succ, List.flatten_cons, List.take_append_of_le_length h]

theorem askSources_fst :
    (askSources K m i sources attempts).1 = true ↔ Passes K m sources i := by
  induction sources generalizing attempts with
  | nil => simp [askSources, Passes]
  | cons source rest ih =>
    have hcons : Passes K m (source :: rest) i ↔
        (∃ c, source i = .ok c ∧ verifyChunk K m c = .ok ()) ∨ Passes K m rest i := by
      simp [Passes]
    rw [askSources, hcons]
    split
    · rename_i chunk hanswer
      split
      · rename_i hv
        simp [hanswer, hv]
      · rename_i hv
        simp [hanswer, hv, ih]
    · rename_i hanswer
      simp [hanswer, ih]

theorem le_askSources_snd : attempts ≤ (askSources K m i sources attempts).2 := by
  induction sources generalizing attempts with
  | nil => exact le_rfl
  | cons source rest ih =>
    rw [askSources]
    split
    · split
      · exact Nat.le_succ _
      · exact (Nat.le_succ _).trans ih
    · exact (Nat.le_succ _).trans ih

theorem askSources_snd_pos (h : (askSources K m i sources attempts).1 = true) :
    attempts < (askSources K m i sources attempts).2 := by
  cases sources with
  | nil => cases h
  | cons source rest =>
    rw [askSources]
    split
    · split
      · exact Nat.lt_succ_self _
      · exact le_askSources_snd
    · exact le_askSources_snd

open Classical in
/-- **One round**: the index is verified if an answer passes, and lost otherwise. -/
theorem transferIndex_eq {budget : ℕ} :
    transferIndex K m sources budget s i =
      if Passes K m (sources.take budget) i then s.markVerified i else s.markLost i := by
  have htake : cycleTake sources (min sources.length budget) = sources.take budget := by
    rw [cycleTake_of_le (Nat.min_le_left ..), Nat.min_comm, ← List.take_eq_take_min]
  rw [transferIndex, htake]
  by_cases hpass : Passes K m (sources.take budget) i
  · have hfst : (askSources K m i (sources.take budget) 0).1 = true := askSources_fst.2 hpass
    have hpos := askSources_snd_pos hfst
    simp [hfst, hpass, hpos.ne']
  · have hfst : (askSources K m i (sources.take budget) 0).1 = false := by
      rw [← Bool.not_eq_true, askSources_fst]
      exact hpass
    simp [hfst, hpass]

/-! ### All indices -/

theorem ofNat_notMem_range (h : n < 2 ^ 32) : UInt32.ofNat n ∉ (List.range n).map UInt32.ofNat := by
  intro hmem
  obtain ⟨k, hk, heq⟩ := List.mem_map.1 hmem
  have hlt := List.mem_range.1 hk
  have hnat := congrArg UInt32.toNat heq
  rw [UInt32.toNat_ofNat_of_lt' (hlt.trans h), UInt32.toNat_ofNat_of_lt' h] at hnat
  omega

open Classical in
/-- **The state after the first indices.** -/
theorem foldl_transferIndex {budget : ℕ} (hn : n ≤ 2 ^ 32) :
    ((List.range n).map UInt32.ofNat).foldl (transferIndex K m sources budget) (.new m) =
      ⟨m, ((List.range n).map UInt32.ofNat).filter fun i => Passes K m (sources.take budget) i,
        ((List.range n).map UInt32.ofNat).filter fun i =>
          ¬ Passes K m (sources.take budget) i⟩ := by
  induction n with
  | zero => rfl
  | succ n ih =>
    have hfresh := ofNat_notMem_range (n := n) (by omega)
    rw [List.range_succ, List.map_append, List.foldl_append, ih (by omega), List.filter_append,
      List.filter_append, List.map_singleton, List.foldl_cons, List.foldl_nil, transferIndex_eq]
    by_cases hpass : Passes K m (sources.take budget) (UInt32.ofNat n)
    · have hnew : UInt32.ofNat n ∉ ((List.range n).map UInt32.ofNat).filter fun i =>
          Passes K m (sources.take budget) i := fun h => hfresh (List.mem_filter.1 h).1
      rw [if_pos hpass, TransferState.markVerified, if_neg hnew]
      simp [hpass]
    · have hnew : UInt32.ofNat n ∉ ((List.range n).map UInt32.ofNat).filter fun i =>
          ¬ Passes K m (sources.take budget) i := fun h => hfresh (List.mem_filter.1 h).1
      rw [if_neg hpass, TransferState.markLost, if_neg hnew]
      simp [hpass]

open Classical in
/-- **The state in which the coordinator ends.** -/
theorem transferManifest_eq (sources : List ChunkSource) (retryBudget : ℕ) :
    transferManifest K m sources retryBudget =
      ⟨m, ((List.range (m.chunks.length % 2 ^ 32)).map UInt32.ofNat).filter fun i =>
          Passes K m (sources.take (max retryBudget 1)) i,
        ((List.range (m.chunks.length % 2 ^ 32)).map UInt32.ofNat).filter fun i =>
          ¬ Passes K m (sources.take (max retryBudget 1)) i⟩ := by
  have hnat : (UInt32.ofNat m.chunks.length).toNat = m.chunks.length % 2 ^ 32 := UInt32.toNat_ofNat'
  rw [transferManifest, hnat, foldl_transferIndex (Nat.mod_lt _ (by decide)).le]

theorem mem_map_range_ofNat (hn : n ≤ 2 ^ 32) :
    i ∈ (List.range n).map UInt32.ofNat ↔ i.toNat < n := by
  rw [List.mem_map]
  constructor
  · rintro ⟨k, hk, rfl⟩
    have hlt := List.mem_range.1 hk
    rwa [UInt32.toNat_ofNat_of_lt' (hlt.trans_le hn)]
  · exact fun hi => ⟨i.toNat, List.mem_range.2 hi, UInt32.ofNat_toNat⟩

theorem nodup_map_range_ofNat (hn : n ≤ 2 ^ 32) : ((List.range n).map UInt32.ofNat).Nodup := by
  refine List.Nodup.map_on (fun a ha b hb hab => ?_) List.nodup_range
  have ha' := (List.mem_range.1 ha).trans_le hn
  have hb' := (List.mem_range.1 hb).trans_le hn
  have hnat := congrArg UInt32.toNat hab
  rwa [UInt32.toNat_ofNat_of_lt' ha', UInt32.toNat_ofNat_of_lt' hb'] at hnat

/-- **When the verified and the lost indices are those that were and were not supplied.** -/
theorem partitions_iff (K : Primitives) (m : FileManifest) (sources : List ChunkSource)
    (retryBudget : ℕ) :
    Partitions K m (sources.take (max retryBudget 1)) (transferManifest K m sources retryBudget) ↔
      m.chunks.length < 2 ^ 32 ∧ ∀ i : UInt32, i.toNat < m.chunks.length →
        (Passes K m (sources.take (max retryBudget 1)) i ↔
          Supplied K m (sources.take (max retryBudget 1)) i) := by
  classical
  have hmod : m.chunks.length % 2 ^ 32 < 2 ^ 32 := Nat.mod_lt _ (by decide)
  have hmem : ∀ i : UInt32, i ∈ (List.range (m.chunks.length % 2 ^ 32)).map UInt32.ofNat ↔
      i.toNat < m.chunks.length % 2 ^ 32 := fun i => mem_map_range_ofNat hmod.le
  rw [transferManifest_eq]
  constructor
  · intro h
    have hlt : m.chunks.length < 2 ^ 32 := by
      by_contra hge
      -- the first index that is cut off is not covered
      obtain ⟨i, hi, hin⟩ := (h.covers (m.chunks.length % 2 ^ 32)).2 (by omega)
      rcases List.mem_append.1 hi with hi | hi
      · have := (hmem i).1 (List.mem_filter.1 hi).1
        omega
      · have := (hmem i).1 (List.mem_filter.1 hi).1
        omega
    refine ⟨hlt, fun i hi => ?_⟩
    rw [← Nat.mod_eq_of_lt hlt] at hi
    constructor
    · exact fun hpass => h.verified i (List.mem_filter.2 ⟨(hmem i).2 hi, by simpa using hpass⟩)
    · intro hsupplied
      by_contra hpass
      exact h.lost i (List.mem_filter.2 ⟨(hmem i).2 hi, by simpa using hpass⟩) hsupplied
  · rintro ⟨hlt, h⟩
    rw [Nat.mod_eq_of_lt hlt] at hmem ⊢
    have hnodup := nodup_map_range_ofNat hlt.le
    refine ⟨hnodup.filter _, hnodup.filter _, ?_, fun n => ?_, ?_, ?_⟩
    · intro i hv hl
      have hpass := (List.mem_filter.1 hv).2
      have hno := (List.mem_filter.1 hl).2
      simp only [decide_eq_true_eq] at hpass hno
      exact hno hpass
    · constructor
      · rintro ⟨i, hi, rfl⟩
        rcases List.mem_append.1 hi with hi | hi <;> exact (hmem i).1 (List.mem_filter.1 hi).1
      · intro hn
        have hnat : (UInt32.ofNat n).toNat = n := UInt32.toNat_ofNat_of_lt' (hn.trans hlt)
        refine ⟨UInt32.ofNat n, ?_, hnat⟩
        have hin := (hmem (UInt32.ofNat n)).2 (by omega)
        rw [List.mem_append, List.mem_filter, List.mem_filter]
        by_cases hpass : Passes K m (sources.take (max retryBudget 1)) (UInt32.ofNat n)
        · exact .inl ⟨hin, by simpa using hpass⟩
        · exact .inr ⟨hin, by simpa using hpass⟩
    · intro i hi
      obtain ⟨hin, hpass⟩ := List.mem_filter.1 hi
      exact (h i ((hmem i).1 hin)).1 (by simpa using hpass)
    · intro i hi hsupplied
      obtain ⟨hin, hpass⟩ := List.mem_filter.1 hi
      simp only [decide_eq_true_eq] at hpass
      exact hpass ((h i ((hmem i).1 hin)).2 hsupplied)

namespace Liar

/-- A manifest of two blocks. -/
def manifest : FileManifest :=
  ⟨1, "pieces", 2, 1, [polyHash [5], polyHash [6]], ⟨List.Vector.replicate 32 0⟩, zeroSignature⟩

/-- A source with the first block for every index. -/
def source : ChunkSource := fun _ => .ok ⟨0, polyHash [5], [5]⟩

end Liar

open Liar in
/-- A source that answers with the first block for every index is taken to have supplied the
second. -/
theorem not_partitions : ¬ ∀ (m : FileManifest) (sources : List ChunkSource) (retryBudget : ℕ),
    Partitions .sample m (sources.take (max retryBudget 1))
      (transferManifest .sample m sources retryBudget) := by
  intro h
  have hsupplied := (h manifest [source] 1).verified 1 (by decide +kernel)
  obtain ⟨s, hs, c, hc, hhash⟩ := hsupplied
  obtain rfl : s = source := by simpa using hs
  obtain rfl := Except.ok.inj hc
  exact absurd hhash (by decide +kernel)

end Neonet
