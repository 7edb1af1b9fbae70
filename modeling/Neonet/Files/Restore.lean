import Mathlib.Data.List.TakeWhile
import Neonet.Files.Manifest

/-!
# A restore that fails

`reconstruct` opens its output first, which empties it, and verifies each chunk when its turn has
come.

* `Disk` : how much is taken of what is written, and with what the calls after it fail.
* `reconstructOn` : `reconstruct` on such a disk; `reconstructOn_sound` is the case of one without
  faults.
* `reconstructOn_spec` : **what stands at the output, and when the restore succeeds.**
* `KeepsOutput` : a restore that fails leaves the output as it was.
* `keepsOutput_iff` : it does so exactly if nothing fails after the output is opened, or if the
  output held what is written up to the failure already.
* `not_keepsOutput` : a damaged chunk over a good copy.
-/

namespace Neonet

open FileTree

/-- How the disk takes what is written to the output. -/
structure Disk where
  /-- How long the output may get, if there is a limit. -/
  room : Option ℕ
  /-- What a write over the limit fails with. -/
  full : IoError
  /-- What the calls after the last write fail with, if they do. -/
  closing : Option IoError

namespace Disk

variable (D : Disk)

/-- What is kept of a content. -/
def fits (b : Bytes) : Bytes :=
  match D.room with
  | none => b
  | some n => b.take n

/-- `write_all` on an open file: what fits is written, also when the write fails. -/
def writeAll (f : Loc) (b : Bytes) : FsM FileError Unit := fun t =>
  let content := (t.file? f).getD [] ++ b
  (if D.fits content = content then .ok () else .error (.io D.full), t.putFile f (D.fits content))

/-- A disk without faults. -/
def sound : Disk := ⟨none, .os .notFound, none⟩

variable {D} {a b : Bytes}

@[simp] theorem fits_nil : D.fits [] = [] := by
  unfold fits
  split <;> simp

theorem fits_iff : D.fits b = b ↔ ∀ n, D.room = some n → b.length ≤ n := by
  unfold fits
  cases D.room with
  | none => simp
  | some n => simp

theorem fits_of_append (h : D.fits (a ++ b) = a ++ b) : D.fits a = a := by
  rw [fits_iff] at h ⊢
  intro n hn
  have hlen := h n hn
  rw [List.length_append] at hlen
  omega

/-- Nothing is added to what does not fit. -/
theorem fits_append (h : D.fits a ≠ a) : D.fits (a ++ b) = D.fits a := by
  unfold fits at h ⊢
  cases hroom : D.room with
  | none => simp [hroom] at h
  | some n =>
    rw [hroom] at h
    have hlen : n ≤ a.length := by
      by_contra hlt
      exact h (List.take_of_length_le (by omega))
    exact List.take_append_of_le_length hlen

end Disk

section Restores

variable (K : Primitives) (D : Disk) (m : FileManifest) (cs : List Chunk)

/-- `reconstruct` on a disk that may fail. -/
def reconstructOn (output : PathBuf) : FsM FileError Unit := do
  let out ← File.create output
  FsM.forEach (fun c => do
    FsM.ofExcept (verifyChunk K m c)
    D.writeAll out c.data) (sortByIndex cs)
  match D.closing with
  | some e => FsM.fail (.io e)
  | none =>
    let len ← File.len out
    if len ≠ m.totalSize.toNat then FsM.fail sizeMismatch

/-- The data of the chunks before the first that does not verify, in the order of the indices. -/
def verifiedData : Bytes :=
  ((sortByIndex cs).takeWhile fun c => (verifyChunk K m c).isOk).flatMap Chunk.data

/-- The chunks verify, the disk takes them all, and they are as long as the manifest says. -/
structure Restorable : Prop where
  verified : ∀ c ∈ cs, verifyChunk K m c = .ok ()
  taken : D.fits ((sortByIndex cs).flatMap Chunk.data) = (sortByIndex cs).flatMap Chunk.data
  closed : D.closing = none
  size : ((sortByIndex cs).flatMap Chunk.data).length = m.totalSize.toNat

/-- A restore that fails leaves at the output what was there. -/
def KeepsOutput (output : PathBuf) (t : Tree) : Prop :=
  ∀ e t', reconstructOn K D m cs output t = (.error e, t') →
    ∀ l, t.resolve output = .ok l → t'.entry l = t.entry l

end Restores

variable {K : Primitives} {D : Disk} {m : FileManifest} {cs : List Chunk} {output : PathBuf}
  {t : Tree} {l : Loc} {b : Bytes}

/-- On a disk without faults it is `reconstruct`. -/
theorem reconstructOn_sound : reconstructOn K .sound m cs output = reconstruct K m cs output := by
  have hwrite : ∀ f b, Disk.sound.writeAll f b = File.writeAll f b := fun f b =>
    funext fun t => by simp [Disk.writeAll, File.writeAll, Disk.sound, Disk.fits]
  simp only [reconstructOn, reconstruct, hwrite]
  rfl

theorem isOk_verifyChunk {c : Chunk} :
    (verifyChunk K m c).isOk = true ↔ verifyChunk K m c = .ok () := by
  cases verifyChunk K m c with
  | error e => simp [Except.isOk, Except.toBool]
  | ok u => simp [Except.isOk, Except.toBool]

/-- **One round and all rounds**: what verifies is written as far as it fits. -/
theorem forEach_writeAll (K : Primitives) (m : FileManifest) (cs : List Chunk)
    (hl : t.place output = .ok l) (hb : D.fits b = b) :
    ∃ r, FsM.forEach (fun c => do
        FsM.ofExcept (verifyChunk K m c)
        D.writeAll l c.data) cs (t.putFile l b) =
          (r, t.putFile l (D.fits (b ++
            (cs.takeWhile fun c => (verifyChunk K m c).isOk).flatMap Chunk.data))) ∧
      (r = .ok () ↔ (∀ c ∈ cs, verifyChunk K m c = .ok ()) ∧
        D.fits (b ++ cs.flatMap Chunk.data) = b ++ cs.flatMap Chunk.data) := by
  obtain ⟨hr, hd⟩ := Tree.place_ok.1 hl
  induction cs generalizing b with
  | nil =>
    refine ⟨.ok (), ?_, by simp [hb]⟩
    simp only [List.takeWhile_nil, List.flatMap_nil, List.append_nil, hb]
    rfl
  | cons c cs ih =>
    have hfile : ((t.putFile l b).file? l).getD [] = b := by
      rw [Tree.file?_putFile_self (Tree.resolve_isDir_tail hr) hd, Option.getD_some]
    cases hv : verifyChunk K m c with
    | error e =>
      -- the loop ends here, before anything of this chunk is written
      refine ⟨.error e, ?_, by simp [hv]⟩
      rw [FsM.forEach, FsM.bind_of_error (FsM.bind_ofExcept_error hv)]
      simp [hv, Except.isOk, Except.toBool, hb]
    | ok u =>
      have hround : (do
          FsM.ofExcept (verifyChunk K m c)
          D.writeAll l c.data : FsM FileError Unit) (t.putFile l b) =
            (if D.fits (b ++ c.data) = b ++ c.data then .ok () else .error (.io D.full),
              t.putFile l (D.fits (b ++ c.data))) := by
        rw [FsM.bind_ofExcept_ok hv, Disk.writeAll]
        simp only [hfile, Tree.putFile_putFile]
      have htake : (c :: cs).takeWhile (fun c => (verifyChunk K m c).isOk) =
          c :: cs.takeWhile fun c => (verifyChunk K m c).isOk :=
        List.takeWhile_cons_of_pos (isOk_verifyChunk.2 hv)
      rw [htake, List.flatMap_cons, List.flatMap_cons, ← List.append_assoc, ← List.append_assoc]
      by_cases hfits : D.fits (b ++ c.data) = b ++ c.data
      · rw [if_pos hfits, hfits] at hround
        obtain ⟨r, hloop, hiff⟩ := ih hfits
        refine ⟨r, by rw [FsM.forEach, FsM.bind_of_ok hround, hloop], ?_⟩
        rw [hiff, List.forall_mem_cons]
        exact and_congr_left' (by simp [hv])
      · rw [if_neg hfits] at hround
        refine ⟨.error (.io D.full), ?_, iff_of_false (by simp) fun h => ?_⟩
        · rw [FsM.forEach, FsM.bind_of_error hround, Disk.fits_append hfits]
        · exact hfits (Disk.fits_of_append h.2)

theorem verifiedData_of_verified (h : ∀ c ∈ cs, verifyChunk K m c = .ok ()) :
    verifiedData K m cs = (sortByIndex cs).flatMap Chunk.data := by
  have hall : ∀ c ∈ sortByIndex cs, (verifyChunk K m c).isOk = true := by
    intro c hc
    exact isOk_verifyChunk.2 (h c ((perm_sortByIndex cs).mem_iff.1 hc))
  rw [verifiedData, List.takeWhile_eq_self_iff.2 hall]

/-- **What a restore leaves at its output, and when it succeeds.** -/
theorem reconstructOn_spec (K : Primitives) (D : Disk) (m : FileManifest) (cs : List Chunk)
    (hl : t.place output = .ok l) :
    ∃ r, reconstructOn K D m cs output t = (r, t.putFile l (D.fits (verifiedData K m cs))) ∧
      (r = .ok () ↔ Restorable K D m cs) := by
  obtain ⟨hr, hd⟩ := Tree.place_ok.1 hl
  -- The file is created first: from then on the tree has it, whatever part was written.
  obtain ⟨r, hloop, hiff⟩ :=
    forEach_writeAll K m (sortByIndex cs) hl (Disk.fits_nil (D := D))
  simp only [List.nil_append] at hloop hiff
  rw [reconstructOn, FsM.bind_of_ok (create_ok.2 ⟨hl, rfl⟩)]
  cases r with
  | error e =>
    refine ⟨.error e, FsM.bind_of_error hloop, ?_⟩
    refine iff_of_false (by simp) fun h => ?_
    have hall : ∀ c ∈ sortByIndex cs, verifyChunk K m c = .ok () :=
      fun c hc => h.verified c ((perm_sortByIndex cs).mem_iff.1 hc)
    exact absurd (hiff.2 ⟨hall, h.taken⟩) (by simp)
  | ok u =>
    obtain ⟨hall, htaken⟩ := hiff.1 rfl
    have hverified : ∀ c ∈ cs, verifyChunk K m c = .ok () :=
      fun c hc => hall c ((perm_sortByIndex cs).mem_iff.2 hc)
    have hlen : ∀ x, (File.len l : FsM FileError ℕ) (t.putFile l x) =
        (.ok x.length, t.putFile l x) := by
      intro x
      rw [File.len, Tree.file?_putFile_self (Tree.resolve_isDir_tail hr) hd]
      rfl
    rw [FsM.bind_of_ok hloop]
    cases hclosing : D.closing with
    | some e =>
      refine ⟨.error (.io e), rfl, iff_of_false (by simp) fun h => ?_⟩
      rw [h.closed] at hclosing
      cases hclosing
    | none =>
      have hdata : D.fits (verifiedData K m cs) = (sortByIndex cs).flatMap Chunk.data := by
        rw [verifiedData_of_verified hverified, htaken]
      rw [verifiedData] at hdata
      dsimp only
      rw [FsM.bind_of_ok (hlen _), verifiedData, hdata]
      by_cases hsize : ((sortByIndex cs).flatMap Chunk.data).length = m.totalSize.toNat
      · rw [if_neg (not_not.2 hsize)]
        exact ⟨.ok (), rfl, iff_of_true rfl ⟨hverified, htaken, hclosing, hsize⟩⟩
      · rw [if_pos hsize]
        exact ⟨.error sizeMismatch, rfl, iff_of_false (by simp) fun h => hsize h.size⟩

/-- **When a failure leaves the output alone**: if there is none once the output is open, or if
the output held what is written before it. -/
theorem keepsOutput_iff (K : Primitives) (D : Disk) (m : FileManifest) (cs : List Chunk)
    (output : PathBuf) (t : Tree) :
    KeepsOutput K D m cs output t ↔ ∀ l, t.place output = .ok l →
      Restorable K D m cs ∨ t.file? l = some (D.fits (verifiedData K m cs)) := by
  constructor
  · intro h l hl
    obtain ⟨hr, hd⟩ := Tree.place_ok.1 hl
    obtain ⟨r, hrun, hiff⟩ := reconstructOn_spec K D m cs hl
    cases r with
    | ok u => exact .inl (hiff.1 rfl)
    | error e =>
      have hentry := h e _ hrun l hr
      rw [Tree.entry_putFile_self (Tree.resolve_isDir_tail hr) hd] at hentry
      exact .inr (Tree.file?_eq_some.2 hentry.symm)
  · intro h e t' hrun l hr
    by_cases hd : t.IsDir l
    · -- nothing can be created at a directory
      have hplace : t.place output = .error .isADirectory := by
        rw [Tree.place, hr]
        exact if_pos hd
      have hcreate : (File.create output : FsM FileError Loc) t =
          (.error (OfOs.ofOs .isADirectory), t) := by
        rw [File.create, hplace]
      rw [reconstructOn, FsM.bind_of_error hcreate] at hrun
      rw [← (Prod.mk.inj hrun).2]
    · have hl : t.place output = .ok l := Tree.place_ok.2 ⟨hr, hd⟩
      obtain ⟨r, hrun', hiff⟩ := reconstructOn_spec K D m cs hl
      rw [hrun'] at hrun
      obtain ⟨rfl, rfl⟩ := Prod.mk.inj hrun
      rcases h l hl with hok | hfile
      · exact absurd (hiff.2 hok) (by simp)
      · rw [Tree.entry_putFile_self (Tree.resolve_isDir_tail hr) hd]
        exact (Tree.file?_eq_some.1 hfile).symm

namespace Damaged

/-- A manifest of one byte. -/
def manifest : FileManifest :=
  ⟨1, "copy", 1, 1, [polyHash [5]], ⟨List.Vector.replicate 32 0⟩, zeroSignature⟩

/-- Its chunk, with another byte. -/
def chunk : Chunk := ⟨0, polyHash [5], [6]⟩

/-- A good copy of the file. -/
def tree : Tree := (Tree.bare fun _ => true).putFile ["copy"] [5]

end Damaged

open Damaged in
/-- A damaged chunk destroys the good copy that the restore was to replace. -/
theorem not_keepsOutput : ¬ ∀ (D : Disk) (m : FileManifest) (cs : List Chunk) (output : PathBuf)
    (t : Tree), KeepsOutput .sample D m cs output t := by
  intro h
  have hfails : (reconstructOn .sample .sound manifest [chunk] ["copy"] tree).1 =
      .error (.hashMismatch 0) := by decide +kernel
  have hkept := h .sound manifest [chunk] ["copy"] tree _ _ (Prod.ext hfails rfl) ["copy"]
    (by decide +kernel)
  exact absurd hkept (by decide +kernel)

end Neonet
