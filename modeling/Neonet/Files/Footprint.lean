import Neonet.Files.Complete

/-!
# What the receiver of a file writes

* `transferPlaces` : the files that are kept of a transfer.
* `lastPlaces` : where the last chunk puts the file together.
* `frame_announce`, `frame_receiveChunk` : **the files that a call may write.**
-/

namespace Neonet

open FileTree FsM

section Places

variable (K : Primitives) (C : FileCodecs) (home : Home) (id : String) (c : Chunk) (t : Tree)

/-- The files that are kept of a transfer. -/
def transferPlaces : Set Loc :=
  {l | l ∈ manifestPlaces home id ∨ l ∈ statePlaces home id ∨ ∃ i, l ∈ chunkPlaces home id i}

/-- Where the file is put together, if the chunk is the last of its transfer: the place that the
name in the recorded manifest leads to. -/
def lastPlaces : Set Loc :=
  {l | ∃ m s, (loadReceivedManifest C home id t).1 = .ok m ∧ (resumeFor C home id m t).1 = .ok s ∧
    verifyChunk K m c = .ok () ∧ c.index ∉ s.verifiedChunks ∧
      s.verifiedChunks.length + 1 = m.chunks.length ∧ l = (outputPath home id m).norm}

/-- What a chunk writes: nothing unless it verifies against the recorded manifest. -/
def receivedPlaces : Set Loc :=
  {l | l ∈ transferPlaces home id ∧
    ∃ m, (loadReceivedManifest C home id t).1 = .ok m ∧ verifyChunk K m c = .ok ()} ∪
      lastPlaces K C home id c t

end Places

variable {K : Primitives} {C : FileCodecs} {home : Home} {id : String} {m : FileManifest}
  {s : TransferState} {t t' : Tree} {c : Chunk}

theorem inert_loadReceivedManifest : Inert (loadReceivedManifest C home id) :=
  inert_read.bind fun _ => inert_ofExcept _

theorem inert_loadTransferState : Inert (loadTransferState C home id) :=
  inert_read.bind fun _ => inert_ofExcept _

theorem inert_resumeFor : Inert (resumeFor C home id m) := by
  intro t
  have h : (loadTransferState C home id t).2 = t := inert_loadTransferState t
  unfold resumeFor
  split <;> rename_i heq <;> rw [heq] at h <;> exact h

theorem touches_writeReceivedManifest :
    Touches (manifestPlaces home id) (writeReceivedManifest C home id m) :=
  touches_createDirAll.bind fun _ => touches_replaceFile

theorem touches_saveTransferState : Touches (statePlaces home id) (saveTransferState C home id s) :=
  touches_createDirAll.bind fun _ => touches_replaceFile

/-- An announcement writes the manifest, if it verifies. -/
theorem frame_announce :
    Frame {l | verifyManifest K C.manifest m = .ok () ∧ l ∈ manifestPlaces home id} t
      (announce K C home id m t).2 := by
  rw [announce]
  by_cases hv : verifyManifest K C.manifest m = .ok ()
  · have hwrites : Touches {l | verifyManifest K C.manifest m = .ok () ∧ l ∈ manifestPlaces home id}
        (writeReceivedManifest C home id m) :=
            touches_writeReceivedManifest.mono fun l hl => ⟨hv, hl⟩
    exact ((touches_ofExcept _).bind fun _ => hwrites.bind fun _ => inert_resumeFor.touches) t
  · cases hres : verifyManifest K C.manifest m with
    | ok => exact absurd hres hv
    | error e => rfl

theorem touches_writeVerified {out : Loc} {i : UInt32} :
    Touches {out} (writeVerified K home id m out i) := by
  refine inert_read.touches.bind fun bytes => ?_
  split
  · exact touches_fail _
  · exact (touches_ofExcept _).bind fun _ => touches_writeAll

theorem touches_reconstructFromVerified {output : PathBuf} :
    Touches {output.norm} (reconstructFromVerified K home id m s output) := by
  refine touches_create_bind rfl ?_
  refine (Touches.forEach fun i _ => touches_writeVerified).bind fun _ =>
      touches_len.bind fun len => ?_
  split
  · exact touches_fail _
  · exact touches_pure _

theorem touches_keepChunk : Touches (chunkPlaces home id c.index) (keepChunk home id c) :=
  touches_createDirAll.bind fun _ => touches_replaceFile

theorem frame_recordChunk :
    Frame (statePlaces home id ∪ {l | ∃ s, (resumeFor C home id m t).1 = .ok s ∧
        c.index ∉ s.verifiedChunks ∧ s.verifiedChunks.length + 1 = m.chunks.length ∧
          l = (outputPath home id m).norm})
      t (recordChunk K C home id m c t).2 := by
  have hinert : (resumeFor C home id m t).2 = t := inert_resumeFor t
  cases hres : resumeFor C home id m t with
  | mk r t₁ =>
  rw [hres] at hinert
  obtain rfl : t₁ = t := hinert
  rw [recordChunk]
  cases r with
  | error e => rw [bind_of_error hres]
  | ok s =>
    rw [bind_of_ok hres]
    split
    · rfl
    · rename_i hnew
      refine (touches_saveTransferState.mono Set.subset_union_left).bind (fun _ => ?_) t₁
      split
      · rename_i hlast
        rw [List.length_append, List.length_singleton] at hlast
        refine (touches_reconstructFromVerified.mono ?_).bind fun _ => touches_pure _
        exact Set.singleton_subset_iff.2 (.inr ⟨s, rfl, hnew, hlast, rfl⟩)
      · exact touches_pure _

theorem touches_reconstruct {cs : List Chunk} {output : PathBuf} :
    Touches {output.norm} (reconstruct K m cs output) := by
  refine touches_create_bind rfl ?_
  refine (Touches.forEach fun i _ => (touches_ofExcept _).bind fun _ => touches_writeAll).bind
    fun _ => touches_len.bind fun len => ?_
  split
  · exact touches_fail _
  · exact touches_pure _

/-! ### Keeping a chunk -/

theorem hasFile_state_iff {b : Bytes} (hload : (loadReceivedManifest C home id t).1 = .ok m)
    (hf : Frame (chunkPlaces home id c.index) t t') :
    t'.HasFile (statePath home id) b ↔ t.HasFile (statePath home id) b := by
  refine ⟨fun h => ?_, fun h => h.frame hf statePath_notMem_chunkPlaces⟩
  -- the directory is there, because the manifest was read from it
  obtain ⟨bytes, t₁, hread, -⟩ := bind_ok.1 (Prod.ext hload rfl : _ = (Except.ok m, _))
  obtain ⟨d, hl, hd, hdir, -⟩ := Tree.resolve_of_join (read_eq_ok.1 hread).2.1
      (by decide) (by decide)
  obtain ⟨d', -, -, -, ha⟩ := Tree.resolve_of_join h.1 (by decide) (by decide)
  rw [hf.grows.accepts] at ha
  have hstate := Tree.resolve_join (s := "state.json") hd hdir (by decide) (by decide) ha
  have hnorm := Tree.resolve_norm hstate
  refine ⟨?_, (hf.file? _ statePath_notMem_chunkPlaces).symm.trans h.2⟩
  rw [statePath, hstate, ← hnorm]

theorem toOption_loadTransferState :
    (loadTransferState C home id t).1.toOption =
      ((read (statePath home id) : FsM FileError Bytes) t).1.toOption.bind
        fun b => (C.state.decode b).toOption := by
  rw [loadTransferState, bind_apply]
  split
  · rename_i b t₁ heq
    rw [heq, ofExcept_apply]
    show ((C.state.decode b).mapError FileError.codec).toOption = (C.state.decode b).toOption
    cases C.state.decode b <;> rfl
  · rename_i e t₁ heq
    rw [heq]
    rfl

theorem fst_resumeFor :
    (resumeFor C home id m t).1 =
      .ok ((loadTransferState C home id t).1.toOption.getD (.new m)) := by
  unfold resumeFor
  split <;> rename_i heq <;> rw [heq] <;> rfl

theorem fst_resumeFor_of_frame (hload : (loadReceivedManifest C home id t).1 = .ok m)
    (hf : Frame (chunkPlaces home id c.index) t t') :
    (resumeFor C home id m t').1 = (resumeFor C home id m t).1 := by
  have hread : ((read (statePath home id) : FsM FileError Bytes) t').1.toOption =
      ((read (statePath home id) : FsM FileError Bytes) t).1.toOption := by
    refine Option.ext fun b => ?_
    rw [toOption_read_eq_some, toOption_read_eq_some, hasFile_state_iff hload hf]
  rw [fst_resumeFor, fst_resumeFor, toOption_loadTransferState, toOption_loadTransferState, hread]

/-- **What a chunk writes**: the files of its transfer, and the file that is put together. -/
theorem frame_receiveChunk :
    Frame (receivedPlaces K C home id c t) t (receiveChunk K C home id c t).2 := by
  rw [receiveChunk_eq]
  cases hload : loadReceivedManifest C home id t with
  | mk res t₁ =>
  have ht : t₁ = t := by
    have h : (loadReceivedManifest C home id t).2 = t := inert_loadReceivedManifest t
    rwa [hload] at h
  subst ht
  have hfst : (loadReceivedManifest C home id t₁).1 = res := by rw [hload]
  cases res with
  | error e => rw [bind_of_error hload]
  | ok m =>
  rw [bind_of_ok hload]
  cases hv : verifyChunk K m c with
  | error e => rw [bind_ofExcept_error rfl]
  | ok =>
  rw [bind_ofExcept_ok rfl]
  have hfiles : ∀ l ∈ transferPlaces home id, l ∈ receivedPlaces K C home id c t₁ :=
    fun l hl => .inl ⟨hl, m, hfst, hv⟩
  have hchunk : chunkPlaces home id c.index ⊆ receivedPlaces K C home id c t₁ :=
    fun l hl => hfiles l (.inr (.inr ⟨c.index, hl⟩))
  -- the chunk is kept first, which does not change the state that is resumed
  have hkept : Frame (chunkPlaces home id c.index) t₁ (keepChunk home id c t₁).2 :=
    touches_keepChunk t₁
  cases hkeep : keepChunk home id c t₁ with
  | mk r t₂ =>
  rw [hkeep] at hkept
  cases r with
  | error e =>
    rw [bind_of_error hkeep]
    exact hkept.mono hchunk
  | ok =>
  rw [bind_of_ok hkeep]
  refine (hkept.mono hchunk).trans (frame_recordChunk.mono ?_)
  rintro l (hl | ⟨s, hs, hnew, hlast, rfl⟩)
  · exact hfiles l (.inr (.inl hl))
  · rw [fst_resumeFor_of_frame hfst hkept] at hs
    exact .inr ⟨m, s, hfst, hs, hv, hnew, hlast, rfl⟩

end Neonet
