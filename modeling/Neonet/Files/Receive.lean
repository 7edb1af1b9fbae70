import Mathlib.Data.Nat.Digits.Defs
import Neonet.Files.Manifest
import Neonet.Lib.Lts

/-!
# Receiving a file

The receiving side of a transfer keeps three things under `incoming/<id>`: the manifest, the
state with the indices that were verified, and a cache with the data of each verified chunk.

* `announce`, `receiveChunk`, `reconstructFromVerified` : the operations on the tree.
* `Receiver` : the receiver in the abstract: the indices in the order in which they were
  verified first, and the data that were received last for each.
* `Holds` : the tree holds that receiver.
* `recordChunk_step` : the ways in which the index of a chunk is recorded.
* `receiveChunk_step` : **what a call with a chunk that verifies can do**, whatever the system
  refuses in between; `receiveChunk_rejected` : a call with another chunk does nothing.
* `announce_again`, `announce_first` : what an announcement can do.
* `receiver` : the calls of a transfer as a machine.
-/

namespace Neonet

open FileTree

/-! ### Names of chunk files -/

/-- The decimal digits of `n`, the low one first. -/
def decimalDigits : ℕ → ℕ → List ℕ
  | 0, _ => []
  | fuel + 1, n => if n < 10 then [n] else n % 10 :: decimalDigits fuel (n / 10)

/-- The digits of a `u32`, at least eight of them. -/
def paddedDigits (n : UInt32) : List ℕ :=
  decimalDigits 10 n.toNat ++ List.replicate (8 - (decimalDigits 10 n.toNat).length) 0

/-- The format `{:08}`. -/
def decimal08 (n : UInt32) : String := String.ofList ((paddedDigits n).reverse.map hexDigit)

theorem ofDigits_decimalDigits {fuel n : ℕ} (h : n < 10 ^ fuel) :
    Nat.ofDigits 10 (decimalDigits fuel n) = n := by
  induction fuel generalizing n with
  | zero =>
    have hn : n = 0 := by simpa using h
    rw [hn]; rfl
  | succ fuel ih =>
    rw [decimalDigits]
    split
    · simp [Nat.ofDigits_cons]
    · rw [Nat.ofDigits_cons, ih (by rw [Nat.pow_succ] at h; omega)]
      exact Nat.mod_add_div n 10

theorem lt_of_mem_decimalDigits {fuel n d : ℕ} (h : d ∈ decimalDigits fuel n) : d < 10 := by
  induction fuel generalizing n with
  | zero => cases h
  | succ fuel ih =>
    rw [decimalDigits] at h
    split at h
    · rename_i hn
      rw [List.mem_singleton.1 h]; exact hn
    · rcases List.mem_cons.1 h with rfl | h
      · exact Nat.mod_lt _ (by decide)
      · exact ih h

theorem lt_of_mem_paddedDigits {n : UInt32} {d : ℕ} (h : d ∈ paddedDigits n) : d < 10 := by
  rcases List.mem_append.1 h with h | h
  · exact lt_of_mem_decimalDigits h
  · rw [List.eq_of_mem_replicate h]; decide

theorem ofDigits_paddedDigits (n : UInt32) : Nat.ofDigits 10 (paddedDigits n) = n.toNat := by
  have hn : n.toNat < 10 ^ 10 := n.toNat_lt.trans (by decide)
  rw [paddedDigits, Nat.ofDigits_append_replicate_zero, ofDigits_decimalDigits hn]

theorem map_hexDigit_injOn {ds es : List ℕ} (hds : ∀ d ∈ ds, d < 10) (hes : ∀ e ∈ es, e < 10)
    (h : ds.map hexDigit = es.map hexDigit) : ds = es := by
  induction ds generalizing es with
  | nil => exact (List.map_eq_nil_iff.1 h.symm).symm
  | cons d ds ih =>
    cases es with
    | nil => cases h
    | cons e es =>
      obtain ⟨h₁, h₂⟩ := List.cons.inj h
      have hd := hds d List.mem_cons_self
      have he := hes e List.mem_cons_self
      rw [hexDigit_injOn d (by omega) e (by omega) h₁,
        ih (fun x hx => hds x (List.mem_cons_of_mem _ hx))
          (fun x hx => hes x (List.mem_cons_of_mem _ hx)) h₂]

theorem decimal08_injective : Function.Injective decimal08 := by
  intro m n h
  have hl := String.ofList_injective h
  have hd : (paddedDigits m).reverse = (paddedDigits n).reverse :=
    map_hexDigit_injOn (fun d hd => lt_of_mem_paddedDigits (List.mem_reverse.1 hd))
      (fun d hd => lt_of_mem_paddedDigits (List.mem_reverse.1 hd)) hl
  have hv := congrArg (Nat.ofDigits 10) (List.reverse_injective hd)
  rw [ofDigits_paddedDigits, ofDigits_paddedDigits] at hv
  exact UInt32.toNat_inj.1 hv

theorem decimal08_no_slash (n : UInt32) : '/' ∉ (decimal08 n).toList := by
  rw [decimal08, String.toList_ofList]
  intro h
  obtain ⟨d, -, hd⟩ := List.mem_map.1 h
  exact hexDigit_ne_slash d hd

/-- The name of a chunk in the cache. -/
def chunkName (i : UInt32) : String := decimal08 i ++ ".chunk"

/-- The name of a chunk while it is written. -/
def chunkTmpName (i : UInt32) : String := decimal08 i ++ ".chunk.tmp"

theorem toList_append_no_slash {a b : String} (ha : '/' ∉ a.toList) (hb : '/' ∉ b.toList) :
    '/' ∉ (a ++ b).toList := by
  rw [String.toList_append, List.mem_append]
  exact fun h => h.elim ha hb

theorem plain_of_length {s : String} (h : 2 < s.toList.length) : Plain s := by
  refine ⟨?_, ?_, ?_⟩ <;> rintro rfl <;> revert h <;> decide

theorem plain_append {a b : String} (h : 2 < b.toList.length) : Plain (a ++ b) :=
  plain_of_length (by rw [String.toList_append, List.length_append]; omega)

theorem append_left_inj' {a b s : String} (h : a ++ s = b ++ s) : a = b := by
  have hl := congrArg String.toList h
  rw [String.toList_append, String.toList_append] at hl
  exact String.toList_inj.1 (List.append_cancel_right hl)

theorem chunkName_injective : Function.Injective chunkName :=
  fun _ _ h => decimal08_injective (append_left_inj' h)

theorem chunkName_no_slash (i : UInt32) : '/' ∉ (chunkName i).toList :=
  toList_append_no_slash (decimal08_no_slash i) (by decide)

theorem chunkTmpName_no_slash (i : UInt32) : '/' ∉ (chunkTmpName i).toList :=
  toList_append_no_slash (decimal08_no_slash i) (by decide)

theorem plain_chunkName (i : UInt32) : Plain (chunkName i) := plain_append (by decide)

theorem plain_chunkTmpName (i : UInt32) : Plain (chunkTmpName i) := plain_append (by decide)

theorem chunkName_ne_tmpName (i j : UInt32) : chunkName i ≠ chunkTmpName j := by
  intro h
  have hl := congrArg (fun s => s.toList.getLast?) h
  simp only [chunkName, chunkTmpName, String.toList_append] at hl
  rw [List.getLast?_append_of_ne_nil _ (by decide), List.getLast?_append_of_ne_nil _ (by decide)]
    at hl
  exact absurd hl (by decide)

/-! ### The operations -/

/-- What the receiver remembers of a transfer. -/
structure TransferState where
  manifest : FileManifest
  verifiedChunks : List UInt32
  lostChunks : List UInt32
  deriving DecidableEq

/-- A transfer state, as it is written. -/
def TransferState.wire : Wire TransferState :=
  (FileManifest.wire.pair ((Wire.seq Wire.u32).pair (Wire.seq Wire.u32))).comap
    (fun s => (s.manifest, s.verifiedChunks, s.lostChunks))
    (fun x => .ok ⟨x.1, x.2.1, x.2.2⟩) fun _ => rfl

/-- The serialisation of manifests and transfer states. -/
structure FileCodecs where
  manifest : Codec FileManifest
  state : Codec TransferState

/-- The serialisation of the program. -/
def FileCodecs.postcard : FileCodecs where
  manifest := FileManifest.wire.toCodec
  state := TransferState.wire.toCodec

namespace TransferState

/-- `TransferState::new`. -/
def new (manifest : FileManifest) : TransferState := ⟨manifest, [], []⟩

variable (s : TransferState)

/-- `TransferState::mark_verified`. -/
def markVerified (index : UInt32) : TransferState :=
  if index ∈ s.verifiedChunks then s
  else { s with verifiedChunks := s.verifiedChunks ++ [index] }

/-- `TransferState::missing`. -/
def missing : List UInt32 :=
  ((List.range s.manifest.chunks.length).map UInt32.ofNat).filter fun i => i ∉ s.verifiedChunks

/-- `TransferState::complete`. -/
def complete : Bool := decide (s.verifiedChunks.length = s.manifest.chunks.length)

end TransferState

/-- `ReceiveStatus`. -/
inductive ReceiveStatus
  | verified (complete : Bool)
  | needsResend (index : UInt32) (reason : String)
  deriving DecidableEq

section Operations

variable (K : Primitives) (C : FileCodecs) (home : Home) (id : String)

/-- `transfers_dir`. -/
def transfersDir : PathBuf := home.path.join "incoming"

/-- The directory of a transfer. -/
def transferDir : PathBuf := (transfersDir home).join id

/-- Where the manifest is kept. -/
def manifestPath : PathBuf := (transferDir home id).join "manifest.json"

/-- Where the manifest is written first. -/
def manifestTmpPath : PathBuf := (transferDir home id).join "manifest.json.tmp"

/-- `state_path`. -/
def statePath : PathBuf := (transferDir home id).join "state.json"

/-- Where the state is written first. -/
def stateTmpPath : PathBuf := (transferDir home id).join "state.json.tmp"

/-- The chunk cache. -/
def chunkDir : PathBuf := (transferDir home id).join "chunks"

/-- Where a chunk is kept. -/
def chunkPath (i : UInt32) : PathBuf := (chunkDir home id).join (chunkName i)

/-- Where a chunk is written first. -/
def chunkTmpPath (i : UInt32) : PathBuf := (chunkDir home id).join (chunkTmpName i)

/-- `write_received_manifest`. -/
def writeReceivedManifest (m : FileManifest) : FsM FileError Unit := do
  createDirAll (transferDir home id)
  replaceFile (manifestTmpPath home id) (manifestPath home id) (C.manifest.encode m)

/-- `load_received_manifest`. -/
def loadReceivedManifest : FsM FileError FileManifest := do
  let bytes ← read (manifestPath home id)
  FsM.ofExcept ((C.manifest.decode bytes).mapError .codec)

/-- `save_transfer_state`. -/
def saveTransferState (s : TransferState) : FsM FileError Unit := do
  createDirAll (transferDir home id)
  replaceFile (stateTmpPath home id) (statePath home id) (C.state.encode s)

/-- `load_transfer_state`. -/
def loadTransferState : FsM FileError TransferState := do
  let bytes ← read (statePath home id)
  FsM.ofExcept ((C.state.decode bytes).mapError .codec)

/-- `resume_for`: the state that was saved, or a new one. -/
def resumeFor (m : FileManifest) : FsM FileError TransferState := fun t =>
  match loadTransferState C home id t with
  | (.ok s, t') => (.ok s, t')
  | (.error _, t') => (.ok (.new m), t')

/-- The receiving of an Announce: check the manifest, record it, look how far it is. -/
def announce (m : FileManifest) : FsM FileError TransferState := do
  FsM.ofExcept (verifyManifest K C.manifest m)
  writeReceivedManifest C home id m
  resumeFor C home id m

/-- One round of the loop of `reconstruct_from_verified`: a chunk of the cache is verified again
and written out. -/
def writeVerified (m : FileManifest) (out : Loc) (index : UInt32) : FsM FileError Unit := do
  let bytes ← read (chunkPath home id index)
  match m.chunks[index.toNat]? with
  | none => FsM.fail .panicked
  | some hash =>
    FsM.ofExcept (verifyChunk K m ⟨index, hash, bytes⟩)
    File.writeAll out bytes

/-- `reconstruct_from_verified`. -/
def reconstructFromVerified (m : FileManifest) (s : TransferState) (output : PathBuf) :
    FsM FileError Unit := do
  let out ← File.create output
  FsM.forEach (writeVerified K home id m out) (s.verifiedChunks.insertionSort (· ≤ ·))
  let len ← File.len out
  if len ≠ m.totalSize.toNat then FsM.fail sizeMismatch

/-- `receive_chunk`. -/
def receiveChunk (chunk : Chunk) : FsM FileError ReceiveStatus := do
  let manifest ← loadReceivedManifest C home id
  FsM.ofExcept (verifyChunk K manifest chunk)
  -- the data of a chunk that is known already are written again
  createDirAll (chunkDir home id)
  replaceFile (chunkTmpPath home id chunk.index) (chunkPath home id chunk.index) chunk.data
  let state ← resumeFor C home id manifest
  if chunk.index ∈ state.verifiedChunks then
    return .verified (decide (state.verifiedChunks.length = manifest.chunks.length))
  else do
    let state := { state with verifiedChunks := state.verifiedChunks ++ [chunk.index] }
    saveTransferState C home id state
    -- the last chunk puts the file together
    if state.verifiedChunks.length = manifest.chunks.length then
      reconstructFromVerified K home id manifest state ((transferDir home id).join manifest.name)
      return .verified true
    else return .verified false

end Operations

/-! ### The parts of `receive_chunk` -/

section Parts

variable (K : Primitives) (C : FileCodecs) (home : Home) (id : String) (m : FileManifest)
  (c : Chunk)

/-- The data of a chunk are put into the cache. -/
def keepChunk : FsM FileError Unit := do
  createDirAll (chunkDir home id)
  replaceFile (chunkTmpPath home id c.index) (chunkPath home id c.index) c.data

/-- Where the file of a transfer is put together. -/
def outputPath : PathBuf := (transferDir home id).join m.name

/-- What is done with a chunk that verified and is kept: its index is saved, and the last one puts
the file together. -/
def recordChunk : FsM FileError ReceiveStatus := do
  let state ← resumeFor C home id m
  if c.index ∈ state.verifiedChunks then
    return .verified (decide (state.verifiedChunks.length = m.chunks.length))
  else do
    let state := { state with verifiedChunks := state.verifiedChunks ++ [c.index] }
    saveTransferState C home id state
    if state.verifiedChunks.length = m.chunks.length then
      reconstructFromVerified K home id m state (outputPath home id m)
      return .verified true
    else return .verified false

theorem receiveChunk_eq :
    receiveChunk K C home id c =
      (do
        let m ← loadReceivedManifest C home id
        FsM.ofExcept (verifyChunk K m c)
        keepChunk home id c
        recordChunk K C home id m c) := by
  simp only [receiveChunk, keepChunk, recordChunk, outputPath, FsM.bind_assoc]

/-- The state with one index more. -/
def TransferState.withIndex (s : TransferState) (i : UInt32) : TransferState :=
  { s with verifiedChunks := s.verifiedChunks ++ [i] }

/-- The ways in which recording a chunk can end, if the state that is resumed is `s`. -/
inductive ChunkRecorded (t : Tree) (s : TransferState) :
    Except FileError ReceiveStatus → Tree → Prop
  /-- The index is in the state. -/
  | again (mem : c.index ∈ s.verifiedChunks) :
      ChunkRecorded t s (.ok (.verified (decide (s.verifiedChunks.length = m.chunks.length)))) t
  /-- The state could not be saved. -/
  | failed {e : FileError} {t' : Tree}
      (save : saveTransferState C home id (s.withIndex c.index) t = (.error e, t'))
      (fresh : c.index ∉ s.verifiedChunks) : ChunkRecorded t s (.error e) t'
  /-- The index is new, and not the last. -/
  | more {t' : Tree} (save : saveTransferState C home id (s.withIndex c.index) t = (.ok (), t'))
      (fresh : c.index ∉ s.verifiedChunks)
      (length : (s.withIndex c.index).verifiedChunks.length ≠ m.chunks.length) :
      ChunkRecorded t s (.ok (.verified false)) t'
  /-- The index is the last, and the file is put together. -/
  | last {t₁ t' : Tree} {res : Except FileError Unit}
      (save : saveTransferState C home id (s.withIndex c.index) t = (.ok (), t₁))
      (fresh : c.index ∉ s.verifiedChunks)
      (length : (s.withIndex c.index).verifiedChunks.length = m.chunks.length)
      (reconstruct : reconstructFromVerified K home id m (s.withIndex c.index)
        (outputPath home id m) t₁ = (res, t')) :
      ChunkRecorded t s (res.map fun _ => .verified true) t'

variable {K C home id m c}

theorem recordChunk_step {t t' : Tree} {s : TransferState} {res : Except FileError ReceiveStatus}
    (hs : resumeFor C home id m t = (.ok s, t)) (h : recordChunk K C home id m c t = (res, t')) :
    ChunkRecorded K C home id m c t s res t' := by
  rw [recordChunk, FsM.bind_of_ok hs] at h
  split at h
  · rename_i hmem
    obtain ⟨rfl, rfl⟩ := Prod.mk.inj h
    exact .again hmem
  rename_i hfresh
  rcases FsM.bind_cases h with ⟨e, hsave, rfl⟩ | ⟨_, t₁, hsave, h⟩
  · exact .failed hsave hfresh
  split at h
  · rename_i hlength
    rcases FsM.bind_cases h with ⟨e, hrec, rfl⟩ | ⟨_, t₂, hrec, h⟩
    · exact .last hsave hfresh hlength hrec
    · obtain ⟨rfl, rfl⟩ := Prod.mk.inj h
      exact .last hsave hfresh hlength hrec
  · rename_i hlength
    obtain ⟨rfl, rfl⟩ := Prod.mk.inj h
    exact .more hsave hfresh hlength

end Parts

/-! ### The receiver in the abstract -/

/-- The indices in the order in which they were verified first, and the last data of each. -/
structure Receiver where
  verified : List UInt32
  cache : UInt32 → Option Bytes

namespace Receiver

/-- Nothing received. -/
def empty : Receiver := ⟨[], fun _ => none⟩

/-- Keep the data of a chunk. -/
def keep (r : Receiver) (c : Chunk) : Receiver :=
  { r with cache := Function.update r.cache c.index (some c.data) }

/-- Receive a chunk that verifies. -/
def receive (r : Receiver) (c : Chunk) : Receiver :=
  { r.keep c with
    verified := if c.index ∈ r.verified then r.verified else r.verified ++ [c.index] }

/-- Receive chunks one after the other. -/
def receiveAll : Receiver → List Chunk → Receiver := List.foldl receive

end Receiver

section Places

variable (home : Home) (id : String)

@[simp] theorem norm_transfersDir : (transfersDir home).norm = "incoming" :: home.loc := by
  rw [transfersDir, PathBuf.norm_join (by decide) (by decide), Home.norm_path]

@[simp] theorem norm_manifestPath :
    (manifestPath home id).norm = "manifest.json" :: (transferDir home id).norm :=
  PathBuf.norm_join (by decide) (by decide)

@[simp] theorem norm_manifestTmpPath :
    (manifestTmpPath home id).norm = "manifest.json.tmp" :: (transferDir home id).norm :=
  PathBuf.norm_join (by decide) (by decide)

@[simp] theorem norm_statePath :
    (statePath home id).norm = "state.json" :: (transferDir home id).norm :=
  PathBuf.norm_join (by decide) (by decide)

@[simp] theorem norm_stateTmpPath :
    (stateTmpPath home id).norm = "state.json.tmp" :: (transferDir home id).norm :=
  PathBuf.norm_join (by decide) (by decide)

@[simp] theorem norm_chunkDir : (chunkDir home id).norm = "chunks" :: (transferDir home id).norm :=
  PathBuf.norm_join (by decide) (by decide)

@[simp] theorem norm_chunkPath (i : UInt32) :
    (chunkPath home id i).norm = chunkName i :: "chunks" :: (transferDir home id).norm := by
  rw [chunkPath, PathBuf.norm_join (chunkName_no_slash i) (plain_chunkName i), norm_chunkDir]

@[simp] theorem norm_chunkTmpPath (i : UInt32) :
    (chunkTmpPath home id i).norm = chunkTmpName i :: "chunks" :: (transferDir home id).norm := by
  rw [chunkTmpPath, PathBuf.norm_join (chunkTmpName_no_slash i) (plain_chunkTmpName i),
    norm_chunkDir]

/-- The places that recording a manifest writes. -/
def manifestPlaces : Set Loc := {(manifestTmpPath home id).norm, (manifestPath home id).norm}

/-- The places that saving the state writes. -/
def statePlaces : Set Loc := {(stateTmpPath home id).norm, (statePath home id).norm}

/-- The places that keeping a chunk writes. -/
def chunkPlaces (i : UInt32) : Set Loc :=
    {(chunkTmpPath home id i).norm, (chunkPath home id i).norm}

variable {home id} {i j : UInt32} {d : Loc}

theorem cons_notMem_chunkPlaces {c : String} :
    c :: (transferDir home id).norm ∉ chunkPlaces home id i := by
  simp only [chunkPlaces, norm_chunkTmpPath, norm_chunkPath, Set.mem_insert_iff,
    Set.mem_singleton_iff, List.cons.injEq, not_or, not_and]
  exact ⟨fun _ => Tree.ne_cons_self _, fun _ => Tree.ne_cons_self _⟩

theorem manifestPath_notMem_chunkPlaces : (manifestPath home id).norm ∉ chunkPlaces home id i := by
  rw [norm_manifestPath]
  exact cons_notMem_chunkPlaces

theorem statePath_notMem_chunkPlaces : (statePath home id).norm ∉ chunkPlaces home id i := by
  rw [norm_statePath]
  exact cons_notMem_chunkPlaces

theorem chunkPath_notMem_of_tail {S : Set Loc} (hS : ∀ l ∈ S, l.tail = (transferDir home id).norm) :
    (chunkPath home id i).norm ∉ S := by
  intro h
  rw [norm_chunkPath] at h
  exact Tree.ne_cons_self _ (hS _ h).symm

theorem chunkPath_notMem_manifestPlaces : (chunkPath home id i).norm ∉ manifestPlaces home id :=
  chunkPath_notMem_of_tail (by simp [manifestPlaces])

theorem chunkPath_notMem_statePlaces : (chunkPath home id i).norm ∉ statePlaces home id :=
  chunkPath_notMem_of_tail (by simp [statePlaces])

theorem chunkPath_notMem_chunkPlaces (h : i ≠ j) :
    (chunkPath home id i).norm ∉ chunkPlaces home id j := by
  simp only [chunkPlaces, norm_chunkTmpPath, norm_chunkPath, Set.mem_insert_iff,
    Set.mem_singleton_iff, List.cons.injEq, not_or, not_and]
  exact ⟨fun he => absurd he (chunkName_ne_tmpName i j), fun he =>
      absurd (chunkName_injective he) h⟩

theorem manifestPath_notMem_statePlaces : (manifestPath home id).norm ∉ statePlaces home id := by
  simp [statePlaces]

theorem statePath_notMem_manifestPlaces : (statePath home id).norm ∉ manifestPlaces home id := by
  simp [manifestPlaces]

end Places

/-! ### The tree holds a receiver -/

section Holds

variable (C : FileCodecs) (home : Home) (id : String) (M : FileManifest)

/-- The manifest is recorded, the state is saved unless it is still new, and the data in the
cache are those of the receiver. -/
structure Holds (t : Tree) (r : Receiver) : Prop where
  dir : t.HasDir (transferDir home id)
  manifest : t.HasFile (manifestPath home id) (C.manifest.encode M)
  state : (r.verified = [] ∧ t.file? (statePath home id).norm = none) ∨
    t.HasFile (statePath home id) (C.state.encode ⟨M, r.verified, []⟩)
  cached : ∀ i b, r.cache i = some b → t.HasFile (chunkPath home id i) b

end Holds

variable {K : Primitives} {C : FileCodecs} {home : Home} {id : String} {M : FileManifest}
  {t t' : Tree} {r : Receiver} {c : Chunk}

namespace Holds

theorem load (h : Holds C home id M t r) : loadReceivedManifest C home id t = (.ok M, t) := by
  rw [loadReceivedManifest, FsM.bind_of_ok (read_of_hasFile h.manifest), FsM.ofExcept_apply,
    C.manifest.decode_encode]
  rfl

theorem resume (h : Holds C home id M t r) :
    resumeFor C home id M t = (.ok ⟨M, r.verified, []⟩, t) := by
  rcases h.state with ⟨hr, hnone⟩ | hstate
  · -- there is nothing to load, so the state is new
    cases hread : (read (statePath home id) : FsM FileError Bytes) t with
    | mk res t₁ =>
      cases res with
      | ok b =>
        have := (read_eq_ok.1 hread).2.2
        rw [hnone] at this
        cases this
      | error e =>
        have ht := congrArg Prod.snd hread
        rw [inert_read t] at ht
        rw [resumeFor, loadTransferState, FsM.bind_of_error hread, hr, ht]
        rfl
  · have hload : loadTransferState C home id t = (.ok ⟨M, r.verified, []⟩, t) := by
      rw [loadTransferState, FsM.bind_of_ok (read_of_hasFile hstate), FsM.ofExcept_apply,
        C.state.decode_encode]
      rfl
    rw [resumeFor, hload]

theorem frame {S : Set Loc} (h : Holds C home id M t r) (hf : Frame S t t')
    (hm : (manifestPath home id).norm ∉ S) (hs : (statePath home id).norm ∉ S)
    (hc : ∀ i, r.cache i ≠ none → (chunkPath home id i).norm ∉ S) : Holds C home id M t' r := by
  refine ⟨h.dir.grows hf.grows, h.manifest.frame hf hm, ?_, fun i b hb => ?_⟩
  · rcases h.state with ⟨hr, hnone⟩ | hstate
    · exact .inl ⟨hr, (hf.file? _ hs).trans hnone⟩
    · exact .inr (hstate.frame hf hs)
  · exact (h.cached i b hb).frame hf (hc i (by rw [hb]; simp))

theorem keep (h : Holds C home id M t r) (hf : Frame (chunkPlaces home id c.index) t t')
    (hc : t'.HasFile (chunkPath home id c.index) c.data) :
    Holds C home id M t' (r.keep c) := by
  have hs : (statePath home id).norm ∉ chunkPlaces home id c.index := statePath_notMem_chunkPlaces
  refine ⟨h.dir.grows hf.grows, h.manifest.frame hf manifestPath_notMem_chunkPlaces, ?_,
    fun i b hb => ?_⟩
  · rcases h.state with ⟨hr, hnone⟩ | hstate
    · exact .inl ⟨hr, (hf.file? _ hs).trans hnone⟩
    · exact .inr (hstate.frame hf hs)
  · by_cases hi : i = c.index
    · subst hi
      simp only [Receiver.keep, Function.update_self, Option.some.injEq] at hb
      exact hb ▸ hc
    · simp only [Receiver.keep, Function.update_of_ne hi] at hb
      exact (h.cached i b hb).frame hf (chunkPath_notMem_chunkPlaces hi)

theorem save {vs : List UInt32} {res : Except FileError Unit} (h : Holds C home id M t r)
    (hsave : saveTransferState C home id ⟨M, vs, []⟩ t = (res, t')) :
    Frame (statePlaces home id) t t' ∧ t.SameDirs t' ∧
      ((res = .ok () ∧ Holds C home id M t' { r with verified := vs }) ∨
        ((∃ e, res = .error (.io (.os e))) ∧ Holds C home id M t' r)) := by
  rw [saveTransferState, FsM.bind_of_ok (createDirAll_of_hasDir h.dir)] at hsave
  have hdirs : t.SameDirs t' := sameDirs_of_replaceFile hsave
  have hm : (manifestPath home id).norm ∉ statePlaces home id := manifestPath_notMem_statePlaces
  rcases replaceFile_cases hsave with ⟨hok, hfile, hframe⟩ | ⟨herr, hframe⟩
  · refine ⟨hframe, hdirs, .inl ⟨hok, h.dir.grows hframe.grows, h.manifest.frame hframe hm,
      .inr hfile, fun i b hb => ?_⟩⟩
    exact (h.cached i b hb).frame hframe chunkPath_notMem_statePlaces
  · refine ⟨hframe.mono (by simp [statePlaces]), hdirs, .inr ⟨herr, h.frame hframe ?_ ?_ ?_⟩⟩
    · simp
    · simp
    · intro i _ hmem
      exact chunkPath_notMem_statePlaces (.inl hmem)

end Holds

/-! ### What a call can do -/

/-- The ways a call with a chunk that verifies can end.  In each, `t₁` is the tree up to the
reconstruction. -/
inductive Received (K : Primitives) (C : FileCodecs) (home : Home) (id : String) (M : FileManifest)
    (r : Receiver) (c : Chunk) (t₁ : Tree) : Except FileError ReceiveStatus → Tree → Prop
  /-- The system refused something before the state was saved. -/
  | failed {e : OsError} (holds : Holds C home id M t₁ r ∨ Holds C home id M t₁ (r.keep c)) :
      Received K C home id M r c t₁ (.error (.io (.os e))) t₁
  /-- The index had been verified before. -/
  | again (mem : c.index ∈ r.verified) (holds : Holds C home id M t₁ (r.keep c)) :
      Received K C home id M r c t₁
        (.ok (.verified (decide (r.verified.length = M.chunks.length)))) t₁
  /-- The index is new, and not the last. -/
  | more (notMem : c.index ∉ r.verified) (holds : Holds C home id M t₁ (r.receive c))
      (length : (r.receive c).verified.length ≠ M.chunks.length) :
      Received K C home id M r c t₁ (.ok (.verified false)) t₁
  /-- The index is the last: the state is saved, and the file is put together. -/
  | last {res : Except FileError Unit} {t' : Tree} (notMem : c.index ∉ r.verified)
      (holds : Holds C home id M t₁ (r.receive c))
      (length : (r.receive c).verified.length = M.chunks.length)
      (reconstruct : reconstructFromVerified K home id M ⟨M, (r.receive c).verified, []⟩
        ((transferDir home id).join M.name) t₁ = (res, t')) :
      Received K C home id M r c t₁ (res.map fun _ => .verified true) t'

theorem Holds.keepChunk {res : Except FileError Unit} (h : Holds C home id M t r)
    (hrun : keepChunk home id c t = (res, t')) :
    Frame (chunkPlaces home id c.index) t t' ∧
      ((createDirAll (chunkDir home id) : FsM FileError Unit) t).2.SameDirs t' ∧
        ((res = .ok () ∧ Holds C home id M t' (r.keep c)) ∨
          ((∃ e, res = .error (.io (.os e))) ∧ Holds C home id M t' r)) := by
  have hempty : Frame ∅ t ((createDirAll (chunkDir home id) : FsM FileError Unit) t).2 :=
    touches_createDirAll t
  have h₁ : Holds C home id M ((createDirAll (chunkDir home id) : FsM FileError Unit) t).2 r :=
    h.frame hempty (by simp) (by simp) (by simp)
  have hframe₁ : Frame (chunkPlaces home id c.index) t
      ((createDirAll (chunkDir home id) : FsM FileError Unit) t).2 :=
    hempty.mono (Set.empty_subset _)
  rcases FsM.bind_cases hrun with ⟨e, hdir, rfl⟩ | ⟨_, t₁, hdir, hrun⟩
  · rw [hdir] at h₁ hframe₁ ⊢
    obtain ⟨e, rfl⟩ := createDirAll_error hdir
    exact ⟨hframe₁, .refl _, .inr ⟨⟨e, rfl⟩, h₁⟩⟩
  rw [hdir] at h₁ hframe₁ ⊢
  have hdirs : t₁.SameDirs t' := sameDirs_of_replaceFile hrun
  rcases replaceFile_cases hrun with ⟨rfl, hfile, hframe₂⟩ | ⟨⟨e, rfl⟩, hframe₂⟩
  · exact ⟨hframe₁.trans hframe₂, hdirs, .inl ⟨rfl, h₁.keep hframe₂ hfile⟩⟩
  · -- only the temporary file may have been written
    have hsub : {(chunkTmpPath home id c.index).norm} ⊆ chunkPlaces home id c.index :=
      Set.singleton_subset_iff.2 (Set.mem_insert _ _)
    have hcache : ∀ i, (chunkPath home id i).norm ∉
        ({(chunkTmpPath home id c.index).norm} : Set Loc) := by
      intro i hmem
      rw [Set.mem_singleton_iff, norm_chunkPath, norm_chunkTmpPath] at hmem
      exact chunkName_ne_tmpName _ _ (List.cons.inj hmem).1
    have h₂ : Holds C home id M t' r := h₁.frame hframe₂
      (fun hmem => manifestPath_notMem_chunkPlaces (hsub hmem))
      (fun hmem => statePath_notMem_chunkPlaces (hsub hmem)) fun i _ => hcache i
    exact ⟨hframe₁.trans (hframe₂.mono hsub), hdirs, .inr ⟨⟨e, rfl⟩, h₂⟩⟩

theorem Holds.recordChunk {res : Except FileError ReceiveStatus}
    (h : Holds C home id M t (r.keep c)) (hrun : recordChunk K C home id M c t = (res, t')) :
    ∃ t₁, Frame (statePlaces home id) t t₁ ∧ (c.index ∈ r.verified → t₁ = t) ∧ t.SameDirs t₁ ∧
      Received K C home id M r c t₁ res t' := by
  have hreceive : c.index ∉ r.verified →
      { r.keep c with verified := r.verified ++ [c.index] } = r.receive c := fun hfresh => by
    rw [Receiver.receive, if_neg hfresh]
  cases recordChunk_step h.resume hrun with
  | again mem => exact ⟨t, .refl _, fun _ => rfl, .refl _, .again mem h⟩
  | failed save fresh =>
    obtain ⟨hframe, hdirs, ⟨hok, -⟩ | ⟨⟨e, he⟩, h₁⟩⟩ := h.save save
    · cases hok
    · obtain rfl := Except.error.inj he
      exact ⟨t', hframe, fun hmem => absurd hmem fresh, hdirs, .failed (.inr h₁)⟩
  | more save fresh length =>
    obtain ⟨hframe, hdirs, ⟨-, h₁⟩ | ⟨⟨e, he⟩, -⟩⟩ := h.save save
    · exact ⟨t', hframe, fun hmem => absurd hmem fresh, hdirs,
        .more fresh (hreceive fresh ▸ h₁) (hreceive fresh ▸ length)⟩
    · cases he
  | @last t₁ _ res save fresh length reconstruct =>
    obtain ⟨hframe, hdirs, ⟨-, h₁⟩ | ⟨⟨e, he⟩, -⟩⟩ := h.save save
    · exact ⟨t₁, hframe, fun hmem => absurd hmem fresh, hdirs,
        .last fresh (hreceive fresh ▸ h₁) (hreceive fresh ▸ length)
          (hreceive fresh ▸ reconstruct)⟩
    · cases he

/-- **What a call can do.**  A chunk that verifies is kept, its index is saved, and when it was
the last the file is put together; the system may refuse at any point.  The state is left alone
when the index had been verified before. -/
theorem receiveChunk_step {res : Except FileError ReceiveStatus} (h : Holds C home id M t r)
    (hv : verifyChunk K M c = .ok ()) (hrun : receiveChunk K C home id c t = (res, t')) :
    ∃ t₁, Frame (chunkPlaces home id c.index ∪ statePlaces home id) t t₁ ∧
      (c.index ∈ r.verified → Frame (chunkPlaces home id c.index) t t₁) ∧
      ((createDirAll (chunkDir home id) : FsM FileError Unit) t).2.SameDirs t₁ ∧
        Received K C home id M r c t₁ res t' := by
  rw [receiveChunk_eq, FsM.bind_of_ok h.load, FsM.bind_ofExcept_ok hv] at hrun
  rcases FsM.bind_cases hrun with ⟨e, hkeep, rfl⟩ | ⟨_, t₁, hkeep, hrun⟩
  · obtain ⟨hchunk, hdirs, ⟨hok, -⟩ | ⟨⟨e', he⟩, h₁⟩⟩ := h.keepChunk hkeep
    · cases hok
    · obtain rfl := Except.error.inj he
      exact ⟨t', hchunk.mono Set.subset_union_left, fun _ => hchunk, hdirs, .failed (.inl h₁)⟩
  · obtain ⟨hchunk, hdirs, ⟨-, h₁⟩ | ⟨⟨e, he⟩, -⟩⟩ := h.keepChunk hkeep
    swap
    · cases he
    obtain ⟨t₂, hstate, hsame, hdirs₂, hreceived⟩ := h₁.recordChunk hrun
    refine ⟨t₂, ?_, fun hmem => hsame hmem ▸ hchunk, hdirs.trans hdirs₂, hreceived⟩
    exact (hchunk.mono Set.subset_union_left).trans (hstate.mono Set.subset_union_right)

/-- A call with a chunk that does not verify does nothing. -/
theorem receiveChunk_rejected {e : FileError} (h : Holds C home id M t r)
    (hv : verifyChunk K M c = .error e) : receiveChunk K C home id c t = (.error e, t) := by
  rw [receiveChunk, FsM.bind_of_ok h.load, FsM.bind_ofExcept_error hv]

/-- A call before any announcement does nothing. -/
theorem receiveChunk_unannounced (h : t.file? (manifestPath home id).norm = none) :
    ∃ e, receiveChunk K C home id c t = (.error e, t) := by
  cases hread : (read (manifestPath home id) : FsM FileError Bytes) t with
  | mk res t₁ =>
  cases res with
  | ok b =>
    have hb := (read_eq_ok.1 hread).2.2
    rw [h] at hb
    cases hb
  | error e =>
    have ht := congrArg Prod.snd hread
    rw [inert_read t] at ht
    refine ⟨e, ?_⟩
    rw [receiveChunk, loadReceivedManifest, FsM.bind_of_error (FsM.bind_of_error hread), ht]

theorem writeReceivedManifest_cases {res : Except FileError Unit}
    (h : writeReceivedManifest C home id M t = (res, t')) :
    Frame (manifestPlaces home id) t t' ∧
      ((res = .ok () ∧ t'.HasDir (transferDir home id) ∧
          t'.HasFile (manifestPath home id) (C.manifest.encode M)) ∨
        ((∃ e, res = .error (.io (.os e))) ∧
          t'.file? (manifestPath home id).norm = t.file? (manifestPath home id).norm)) := by
  have hframe₁ : Frame ∅ t ((createDirAll (transferDir home id) : FsM FileError Unit) t).2 :=
    touches_createDirAll t
  rcases FsM.bind_cases h with ⟨e, hdir, rfl⟩ | ⟨_, t₁, hdir, h⟩
  · rw [hdir] at hframe₁
    obtain ⟨e, rfl⟩ := createDirAll_error hdir
    exact ⟨hframe₁.mono (Set.empty_subset _), .inr ⟨⟨e, rfl⟩, hframe₁.file? _ (Set.notMem_empty _)⟩⟩
  · rw [hdir] at hframe₁
    rcases replaceFile_cases h with ⟨rfl, hfile, hframe₂⟩ | ⟨⟨e, rfl⟩, hframe₂⟩
    · exact ⟨(hframe₁.mono (Set.empty_subset _)).trans hframe₂,
        .inl ⟨rfl, (hasDir_of_createDirAll hdir).grows hframe₂.grows, hfile⟩⟩
    · have hsub : {(manifestTmpPath home id).norm} ⊆ manifestPlaces home id :=
        Set.singleton_subset_iff.2 (Set.mem_insert _ _)
      refine ⟨(hframe₁.mono (Set.empty_subset _)).trans (hframe₂.mono hsub), .inr ⟨⟨e, rfl⟩, ?_⟩⟩
      rw [hframe₂.file? _ (by simp), hframe₁.file? _ (Set.notMem_empty _)]

/-- **An announcement of the manifest that is recorded changes nothing of the transfer.** -/
theorem announce_again {res : Except FileError TransferState} (h : Holds C home id M t r)
    (hM : verifyManifest K C.manifest M = .ok ())
    (hrun : announce K C home id M t = (res, t')) :
    Frame (manifestPlaces home id) t t' ∧ Holds C home id M t' r ∧
      ((∃ e, res = .error (.io (.os e))) ∨ res = .ok ⟨M, r.verified, []⟩) := by
  rw [announce, FsM.bind_ofExcept_ok hM] at hrun
  cases hw : writeReceivedManifest C home id M t with
  | mk r₁ t₁ =>
  obtain ⟨hframe, hcases⟩ := writeReceivedManifest_cases hw
  have hstate : (r.verified = [] ∧ t₁.file? (statePath home id).norm = none) ∨
      t₁.HasFile (statePath home id) (C.state.encode ⟨M, r.verified, []⟩) :=
    h.state.imp (fun ⟨hr, hn⟩ => ⟨hr, (hframe.file? _ statePath_notMem_manifestPlaces).trans hn⟩)
      fun hf => hf.frame hframe statePath_notMem_manifestPlaces
  have hcached : ∀ i b, r.cache i = some b → t₁.HasFile (chunkPath home id i) b :=
    fun i b hb => (h.cached i b hb).frame hframe chunkPath_notMem_manifestPlaces
  rcases hcases with ⟨rfl, hdir, hfile⟩ | ⟨⟨e, rfl⟩, hfile⟩
  · have h₁ : Holds C home id M t₁ r := ⟨hdir, hfile, hstate, hcached⟩
    rw [FsM.bind_of_ok hw, h₁.resume] at hrun
    obtain ⟨rfl, rfl⟩ := Prod.mk.inj hrun
    exact ⟨hframe, h₁, .inr rfl⟩
  · rw [FsM.bind_of_error hw] at hrun
    obtain ⟨rfl, rfl⟩ := Prod.mk.inj hrun
    exact ⟨hframe, ⟨h.dir.grows hframe.grows, ⟨hframe.grows.resolve h.manifest.1,
      hfile.trans h.manifest.2⟩, hstate, hcached⟩, .inl ⟨e, rfl⟩⟩

/-- **The first announcement, where no state is saved, begins an empty transfer.** -/
theorem announce_first {res : Except FileError TransferState}
    (hfresh : t.file? (statePath home id).norm = none)
    (hM : verifyManifest K C.manifest M = .ok ())
    (hrun : announce K C home id M t = (res, t')) :
    Frame (manifestPlaces home id) t t' ∧
      (((∃ e, res = .error (.io (.os e))) ∧
          t'.file? (manifestPath home id).norm = t.file? (manifestPath home id).norm) ∨
        (res = .ok (.new M) ∧ Holds C home id M t' .empty)) := by
  rw [announce, FsM.bind_ofExcept_ok hM] at hrun
  cases hw : writeReceivedManifest C home id M t with
  | mk r₁ t₁ =>
  obtain ⟨hframe, hcases⟩ := writeReceivedManifest_cases hw
  rcases hcases with ⟨rfl, hdir, hfile⟩ | ⟨⟨e, rfl⟩, hfile⟩
  · have h₁ : Holds C home id M t₁ .empty :=
      ⟨hdir, hfile, .inl ⟨rfl, (hframe.file? _ statePath_notMem_manifestPlaces).trans hfresh⟩,
        fun _ _ hb => by cases hb⟩
    rw [FsM.bind_of_ok hw, h₁.resume] at hrun
    obtain ⟨rfl, rfl⟩ := Prod.mk.inj hrun
    exact ⟨hframe, .inr ⟨rfl, h₁⟩⟩
  · rw [FsM.bind_of_error hw] at hrun
    obtain ⟨rfl, rfl⟩ := Prod.mk.inj hrun
    exact ⟨hframe, .inl ⟨⟨e, rfl⟩, hfile⟩⟩

/-! ### The calls of a transfer -/

/-- What is done under the identifier of a transfer. -/
inductive Call
  | announce (m : FileManifest)
  | chunk (c : Chunk)
  deriving DecidableEq

/-- What a call returns. -/
inductive Answer
  | resume (s : TransferState)
  | status (s : ReceiveStatus)
  deriving DecidableEq

/-- The calls under one identifier as a machine over the tree. -/
def receiver (K : Primitives) (C : FileCodecs) (home : Home) (id : String) :
    Machine Tree Call (Except FileError Answer) where
  step t
    | .announce m =>
      (((announce K C home id m t).1.map .resume), (announce K C home id m t).2)
    | .chunk c =>
      (((receiveChunk K C home id c t).1.map .status), (receiveChunk K C home id c t).2)

/-- The calls are announcements of `M` and chunks. -/
def About (M : FileManifest) (calls : List Call) : Prop :=
  ∀ call ∈ calls, call = .announce M ∨ ∃ c, call = .chunk c

/-- The chunks of the calls that verify against `M`. -/
def validChunks (K : Primitives) (M : FileManifest) : List Call → List Chunk
  | [] => []
  | .announce _ :: calls => validChunks K M calls
  | .chunk c :: calls =>
    if verifyChunk K M c = .ok () then c :: validChunks K M calls else validChunks K M calls

theorem mem_validChunks {calls : List Call} :
    c ∈ validChunks K M calls ↔ .chunk c ∈ calls ∧ verifyChunk K M c = .ok () := by
  induction calls with
  | nil => simp [validChunks]
  | cons call calls ih =>
    cases call with
    | announce m => simp [validChunks, ih]
    | chunk d =>
      rw [validChunks]
      split
      · rename_i hd
        rw [List.mem_cons, ih, List.mem_cons, Call.chunk.injEq]
        constructor
        · rintro (rfl | ⟨h, hv⟩)
          · exact ⟨.inl rfl, hd⟩
          · exact ⟨.inr h, hv⟩
        · rintro ⟨rfl | h, hv⟩
          · exact .inl rfl
          · exact .inr ⟨h, hv⟩
      · rename_i hd
        rw [ih, List.mem_cons, Call.chunk.injEq]
        constructor
        · rintro ⟨h, hv⟩; exact ⟨.inr h, hv⟩
        · rintro ⟨rfl | h, hv⟩
          · exact absurd hv hd
          · exact ⟨h, hv⟩

end Neonet
