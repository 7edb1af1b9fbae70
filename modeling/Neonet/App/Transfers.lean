import Neonet.App.Handle
import Neonet.Files.Consistent

/-!
# The transfers that a node records

Any peer may announce any manifest under any id, and may send chunks under any id.  The receiver
never compares the id with the manifest.

* `transfers` : the frames of the file transfer as a machine.
* `KeepsTransfers` : what the receiver would have to check of a frame.
* `transfers_consistent` : **in every run of frames that meet it, the recorded transfers are
  consistent and no frame makes the node panic.**
* `transfers_panic` : two manifests under one id.
-/

namespace Neonet

open FileTree FsM

/-- The frames of the file transfer that a node handles, one after the other. -/
def transfers (V : AppEnv) : Machine AppState (Message × FilesFrame) Outcome where
  step s a := V.handleFiles a.1 a.2 s

/-- A manifest is announced under its own id, and a state that is saved there is about it.  A chunk
does not put a file together at a place where transfers are looked up. -/
def KeepsTransfers (V : AppEnv) (s : AppState) (a : Message × FilesFrame) : Prop :=
  match a.2 with
  | .announce manifestId manifest _ =>
    verifyManifest V.primitives V.files.manifest manifest = .ok () →
      Keyed V.primitives V.files V.home manifestId manifest s.disk
  | .chunk manifestId chunk => KeepsRecords V.primitives V.files V.home manifestId chunk s.disk
  | _ => True

/-- The transfers on the disk of a node are consistent. -/
structure TransfersOk (V : AppEnv) (s : AppState) : Prop where
  consistent : Consistent V.primitives V.files V.home s.disk
  matched : Matched V.files s.disk

variable {V : AppEnv} {s : AppState} {a : Message × FilesFrame}

theorem TransfersOk.of_disk {s' : AppState} (h : TransfersOk V s) (hd : s'.disk = s.disk) :
    TransfersOk V s' := ⟨hd ▸ h.consistent, hd ▸ h.matched⟩

/-- **A frame that meets the condition keeps the transfers consistent, and does not panic.** -/
theorem TransfersOk.step (h : TransfersOk V s) (ha : KeepsTransfers V s a) :
    TransfersOk V ((transfers V).step s a).2 ∧ ((transfers V).step s a).1 ≠ .panicked := by
  obtain ⟨request, f⟩ := a
  have hreplied : ∀ {disk : Tree} {frame : AppFrame},
      Consistent V.primitives V.files V.home disk ∧ Matched V.files disk →
        TransfersOk V (({ s with disk } : AppState).replied V request frame) := by
    intro disk frame hok
    exact TransfersOk.of_disk (s := { s with disk }) ⟨hok.1, hok.2⟩ AppState.replied_disk
  cases f with
  | announce manifestId manifest senderName =>
    simp only [transfers, AppEnv.handleFiles]
    cases hrun : announce V.primitives V.files V.home manifestId manifest s.disk with
    | mk res disk =>
    have hok := h.consistent.announce h.matched hrun ha
    have hno : (announce V.primitives V.files V.home manifestId manifest s.disk).1 ≠
        .error .panicked := avoids_announce s.disk
    rw [hrun] at hno
    split <;> rename_i heq <;> obtain ⟨rfl, rfl⟩ := Prod.mk.inj heq
    · exact ⟨hreplied hok, by simp⟩
    · exact absurd rfl hno
    · exact ⟨hreplied hok, by simp⟩
  | chunk manifestId c =>
    simp only [transfers, AppEnv.handleFiles]
    cases hrun : receiveChunk V.primitives V.files V.home manifestId c s.disk with
    | mk res disk =>
    obtain ⟨hok, hno⟩ := h.consistent.chunk h.matched hrun ha
    rcases res with e | ((_ | _) | _)
    · split <;> rename_i heq <;> obtain ⟨he, rfl⟩ := Prod.mk.inj heq
      · cases he
      · exact absurd he hno
      · exact ⟨hreplied hok, by simp⟩
    · exact ⟨⟨hok.1, hok.2⟩, by simp [AppEnv.answerChunk]⟩
    · exact ⟨hreplied hok, by simp [AppEnv.answerChunk]⟩
    · exact ⟨hreplied hok, by simp [AppEnv.answerChunk]⟩
  | statusRequest manifestId =>
    have hinert : (loadTransferState V.files V.home manifestId s.disk).2 = s.disk :=
      inert_loadTransferState s.disk
    simp only [transfers, AppEnv.handleFiles]
    split <;> rename_i heq <;> rw [heq] at hinert <;> obtain rfl := hinert <;>
      exact ⟨hreplied ⟨h.consistent, h.matched⟩, by simp⟩
  | accept | reject | complete | status | error =>
      exact ⟨h, by simp [transfers, AppEnv.handleFiles]⟩

/-- **The transfers stay consistent.**  In a run of frames that meet the condition, after every
frame each transfer is kept under the id of its manifest and its state has different indices of
that manifest, and no frame makes the node panic. -/
theorem transfers_consistent {frames : List (Message × FilesFrame)} (h : TransfersOk V s)
    (hframes : (transfers V).Along (KeepsTransfers V) s frames) :
    ∀ pre post, frames = pre ++ post →
      TransfersOk V ((transfers V).after s pre) ∧
        ∀ a rest, post = a :: rest →
          ((transfers V).step ((transfers V).after s pre) a).1 ≠ .panicked := by
  intro pre post hsplit
  subst hsplit
  obtain ⟨hpre, hpost⟩ := Machine.along_append.1 hframes
  have hok : TransfersOk V ((transfers V).after s pre) :=
    hpre.invariant h fun s' a ha hs => (hs.step ha).1
  refine ⟨hok, fun a rest hrest => ?_⟩
  subst hrest
  exact (hok.step hpost.1).2

/-! ### Two manifests under one id -/

namespace Photo

/-- A manifest of three chunks. -/
def longer : FileManifest :=
  FileManifest.signed Primitives.sample FileCodecs.postcard.manifest owner
    { manifest "photo" with
      totalSize := 4
      chunks := [polyHash [1, 2], polyHash [3], polyHash [4]] }

/-- Its third chunk. -/
def third : Chunk := ⟨2, polyHash [4], [4]⟩

theorem transfersOk_start : TransfersOk env start := by
  have hnone : ∀ c l, disk.file? (c :: l) = none := fun c l => by
    rw [Tree.file?, disk, Tree.entry_bare_cons]
  refine ⟨⟨fun id b hb => ?_, fun id b hb => ?_⟩, fun D s hs => ?_⟩
  · rw [show start.disk = disk from rfl, hnone] at hb
    cases hb
  · rw [show start.disk = disk from rfl, hnone] at hb
    cases hb
  · rw [stateAt, show start.disk = disk from rfl, hnone] at hs
    cases hs

/-- The id under which the photo is announced. -/
def photoId : String := manifestId .sample FileCodecs.postcard.manifest (manifest "photo")

/-- The photo is announced, its chunks arrive in the other order, one of them twice, and the sender
asks for the state. -/
def exchange : List (Message × FilesFrame) :=
  [(note, .announce photoId (manifest "photo") "owner"), (note, .chunk photoId second),
    (note, .chunk photoId second), (note, .chunk photoId first), (note, .statusRequest photoId)]

/-- A chunk of the photo, once it is announced. -/
theorem keepsTransfers_chunk {s : AppState} {c : Chunk}
    (h : (loadReceivedManifest env.files env.home photoId s.disk).1 = .ok (manifest "photo")) :
    KeepsTransfers env s (note, .chunk photoId c) := by
  rintro l ⟨m, -, hload, -, -, -, -, rfl⟩
  obtain rfl := Except.ok.inj (h.symm.trans hload)
  decide +kernel

theorem keepsTransfers_exchange : (transfers env).Along (KeepsTransfers env) start exchange := by
  refine ⟨fun _ => ⟨rfl, fun s hs => ?_⟩, keepsTransfers_chunk (by decide +kernel),
    keepsTransfers_chunk (by decide +kernel), keepsTransfers_chunk (by decide +kernel), trivial,
    trivial⟩
  rw [stateAt, show start.disk = disk from rfl, Tree.file?, disk, Tree.entry_bare_cons] at hs
  cases hs

end Photo

open Photo in
/-- The photo is put together from its two chunks and recorded as complete, and the transfers are
consistent. -/
theorem transfers_consistent_photo :
    TransfersOk env ((transfers env).after start exchange) ∧
    (loadTransferState env.files env.home photoId ((transfers env).after start exchange).disk).1 =
      .ok ⟨manifest "photo", [1, 0], []⟩ ∧
    ((transfers env).after start exchange).disk.file? ["photo", photoId, "incoming", "node"] =
      some [1, 2, 3] :=
  ⟨(transfers_consistent transfersOk_start keepsTransfers_exchange _ []
    (List.append_nil _).symm).1, by decide +kernel⟩

open Photo in
/-- Two manifests that verify, under one id: the third chunk of the first is an index that the
second has not, and putting the file together panics. -/
theorem transfers_panic :
    TransfersOk env start ∧
      verifyManifest env.primitives env.files.manifest longer = .ok () ∧
      verifyManifest env.primitives env.files.manifest (manifest "photo") = .ok () ∧
      ((transfers env).step ((transfers env).after start
        [(note, .announce "p" longer "owner"), (note, .chunk "p" third),
          (note, .announce "p" (manifest "photo") "owner")]) (note, .chunk "p" first)).1 =
        .panicked :=
  ⟨transfersOk_start, by decide +kernel⟩

end Neonet
