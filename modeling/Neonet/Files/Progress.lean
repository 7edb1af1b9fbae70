import Neonet.Files.Consistent
import Neonet.Files.Transfer

/-!
# How far a transfer is

A transfer is complete if as many indices are verified as there are chunks, and missing are the
chunks whose index is not verified.

* `TransferState.Agrees` : the transfer is complete iff nothing is missing.
* `TransferState.agrees_of_inRange` : a state with indices of its manifest, each once, agrees.
* `TransferState.InRange.after` : marks of indices of the manifest keep it so.
* `TransferState.inRange_iff` : **it is so exactly if the state agrees, and so does every state that
  marks of indices of the manifest make of it.**
-/

namespace Neonet

/-- What is recorded of an index. -/
inductive Mark
  | verified (index : UInt32)
  | lost (index : UInt32)

/-- If the index is recorded as verified, it is that of a chunk. -/
def Mark.InRange (m : FileManifest) (a : Mark) : Prop :=
  ∀ i, a = .verified i → i.toNat < m.chunks.length

namespace TransferState

/-- `mark_verified` or `mark_lost`. -/
def mark (s : TransferState) : Mark → TransferState
  | .verified index => s.markVerified index
  | .lost index => s.markLost index

/-- A state after some marks. -/
def after (s : TransferState) (marks : List Mark) : TransferState := marks.foldl mark s

/-- The transfer is complete iff nothing is missing. -/
def Agrees (s : TransferState) : Prop := s.complete = true ↔ s.missing = []

variable {s : TransferState} {m : FileManifest} {i : UInt32} {a : Mark} {marks : List Mark}

/-! ### Counting -/

/-- Nothing is missing iff every index is verified: the number of a chunk is cut to 32 bits. -/
theorem missing_eq_nil_iff :
    s.missing = [] ↔ ∀ i : UInt32, i.toNat < s.manifest.chunks.length → i ∈ s.verifiedChunks := by
  rw [missing, List.filter_eq_nil_iff]
  constructor
  · intro h i hi
    have hmem : i ∈ (List.range s.manifest.chunks.length).map UInt32.ofNat :=
      List.mem_map.2 ⟨i.toNat, List.mem_range.2 hi, UInt32.ofNat_toNat⟩
    simpa using h i hmem
  · intro h i hi
    obtain ⟨k, hk, rfl⟩ := List.mem_map.1 hi
    have hlt := List.mem_range.1 hk
    have hcut : (UInt32.ofNat k).toNat ≤ k := by
      rw [UInt32.toNat_ofNat']
      exact Nat.mod_le ..
    simpa using h _ (hcut.trans_lt hlt)

theorem complete_iff : s.complete = true ↔ s.verifiedChunks.length = s.manifest.chunks.length := by
  rw [complete, decide_eq_true_eq]

/-- **A state with different indices of its manifest** is complete iff nothing is missing. -/
theorem agrees_of_inRange (h : s.InRange) (hm : s.manifest.chunks.length ≤ 2 ^ 32) : s.Agrees := by
  have hlt : s.verifiedChunks ⊆ (List.range s.manifest.chunks.length).map UInt32.ofNat :=
    fun i hi => (mem_map_range_ofNat hm).2 (h.lt i hi)
  have hsubperm := h.nodup.subperm hlt
  rw [Agrees, complete_iff, missing_eq_nil_iff]
  constructor
  · intro hcount i hi
    have hperm := hsubperm.perm_of_length_le (by simp [hcount])
    exact hperm.mem_iff.2 ((mem_map_range_ofNat hm).2 hi)
  · intro hall
    have hge : (List.range s.manifest.chunks.length).map UInt32.ofNat ⊆ s.verifiedChunks :=
      fun i hi => hall i ((mem_map_range_ofNat hm).1 hi)
    have hperm := hsubperm.antisymm ((nodup_map_range_ofNat hm).subperm hge)
    simpa using hperm.length_eq

/-- If nothing is missing in a complete state, there is no room for another entry. -/
theorem inRange_of_complete (hm : s.manifest.chunks.length ≤ 2 ^ 32) (hcomplete : s.complete = true)
    (hmissing : s.missing = []) : s.InRange := by
  have hge : (List.range s.manifest.chunks.length).map UInt32.ofNat ⊆ s.verifiedChunks :=
    fun i hi => missing_eq_nil_iff.1 hmissing i ((mem_map_range_ofNat hm).1 hi)
  have hperm := ((nodup_map_range_ofNat hm).subperm hge).perm_of_length_le
    (by simp [complete_iff.1 hcomplete])
  exact ⟨hperm.nodup_iff.1 (nodup_map_range_ofNat hm),
    fun i hi => (mem_map_range_ofNat hm).1 (hperm.mem_iff.2 hi)⟩

/-! ### Marks -/

theorem manifest_mark : (s.mark a).manifest = s.manifest := by
  cases a with
  | verified index => rw [mark, markVerified]; split <;> rfl
  | lost index => rw [mark, markLost]; split <;> rfl

theorem prefix_mark : s.verifiedChunks <+: (s.mark a).verifiedChunks := by
  cases a with
  | verified index =>
    rw [mark, markVerified]
    split
    · exact List.prefix_rfl
    · exact List.prefix_append ..
  | lost index => rw [mark, markLost]; split <;> exact List.prefix_rfl

theorem mem_mark :
    i ∈ (s.mark a).verifiedChunks ↔ i ∈ s.verifiedChunks ∨ a = .verified i := by
  cases a with
  | verified index =>
    rw [mark, markVerified]
    split
    · rename_i hmem
      simp only [Mark.verified.injEq, iff_self_or]
      rintro rfl
      exact hmem
    · simp [eq_comm]
  | lost index => rw [mark, markLost]; split <;> simp

theorem InRange.mark (h : s.InRange) (ha : a.InRange s.manifest) : (s.mark a).InRange where
  nodup := by
    cases a with
    | verified index =>
      rw [TransferState.mark, markVerified]
      split
      · exact h.nodup
      · rename_i hfresh
        exact h.nodup.append (List.nodup_singleton _) (List.disjoint_singleton.2 hfresh)
    | lost index => rw [TransferState.mark, markLost]; split <;> exact h.nodup
  lt i hi := by
    rw [manifest_mark]
    exact (mem_mark.1 hi).elim (h.lt i) (ha i)

theorem manifest_after : (s.after marks).manifest = s.manifest := by
  induction marks generalizing s with
  | nil => rfl
  | cons a marks ih => exact ih.trans manifest_mark

theorem prefix_after : s.verifiedChunks <+: (s.after marks).verifiedChunks := by
  induction marks generalizing s with
  | nil => exact List.prefix_rfl
  | cons a marks ih => exact prefix_mark.trans ih

theorem mem_after :
    i ∈ (s.after marks).verifiedChunks ↔ i ∈ s.verifiedChunks ∨ .verified i ∈ marks := by
  induction marks generalizing s with
  | nil => simp [after]
  | cons a marks ih =>
    rw [after, List.foldl_cons, ← after, ih, mem_mark, List.mem_cons, or_assoc, eq_comm (a := a)]

theorem InRange.after (h : s.InRange) (hmarks : ∀ a ∈ marks, a.InRange s.manifest) :
    (s.after marks).InRange := by
  induction marks generalizing s with
  | nil => exact h
  | cons a marks ih =>
    refine ih (h.mark (hmarks a List.mem_cons_self)) fun b hb => ?_
    rw [manifest_mark]
    exact hmarks b (List.mem_cons_of_mem _ hb)

theorem inRange_of_after (h : (s.after marks).InRange) : s.InRange :=
  ⟨h.nodup.sublist prefix_after.sublist, fun i hi =>
    manifest_after (s := s) ▸ h.lt i (prefix_after.subset hi)⟩

/-- **A state has different indices of its manifest exactly if it agrees and goes on agreeing**,
whatever further indices of the manifest are marked. -/
theorem inRange_iff (hm : s.manifest.chunks.length ≤ 2 ^ 32) :
    (∀ marks : List Mark, (∀ a ∈ marks, a.InRange s.manifest) → (s.after marks).Agrees) ↔
      s.InRange := by
  constructor
  · intro h
    -- with all indices marked, nothing is missing
    have hagrees := h (((List.range s.manifest.chunks.length).map UInt32.ofNat).map .verified) (by
      intro a ha i hi
      subst hi
      obtain ⟨j, hj, hji⟩ := List.mem_map.1 ha
      exact (mem_map_range_ofNat hm).1 (Mark.verified.inj hji ▸ hj))
    have hmissing := missing_eq_nil_iff.2 fun i hi => mem_after.2 (.inr
      (List.mem_map_of_mem ((mem_map_range_ofNat hm).2 (manifest_after (s := s) ▸ hi))))
    refine inRange_of_after (inRange_of_complete ?_ (hagrees.2 hmissing) hmissing)
    rw [manifest_after]
    exact hm
  · intro h marks hmarks
    refine agrees_of_inRange (h.after hmarks) ?_
    rw [manifest_after]
    exact hm

end TransferState

end Neonet
