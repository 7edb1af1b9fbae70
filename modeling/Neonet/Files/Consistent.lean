import Neonet.Files.Footprint

/-!
# Transfers that stay consistent

The manifest, the state and the cache of a transfer are kept under an id that the sender chooses,
and each is loaded by itself.

* `manifestAt`, `stateAt` : what the files of a directory say.
* `Consistent` : every transfer is kept under the id of its manifest, and its state is about that
  manifest.
* `Matched` : a state anywhere on the disk is about the manifest beside it.
* `Matched.announce`, `Matched.chunk` : **what a call must meet to keep all that, and that it does
  not panic then.**
-/

namespace Neonet

open FileTree FsM

section Records

variable (K : Primitives) (C : FileCodecs) (home : Home) (t : Tree) (D : Loc)

/-- The manifest that a directory keeps. -/
def manifestAt : Option FileManifest :=
  (t.file? ("manifest.json" :: D)).bind fun b => (C.manifest.decode b).toOption

/-- The state that a directory keeps. -/
def stateAt : Option TransferState :=
  (t.file? ("state.json" :: D)).bind fun b => (C.state.decode b).toOption

/-- The places at which the files of a transfer are looked up. -/
def Reserved (l : Loc) : Prop := l.head? = some "manifest.json" ∨ l.head? = some "state.json"

instance (l : Loc) : Decidable (Reserved l) := inferInstanceAs (Decidable (_ ∨ _))

/-- The indices of a state are different indices of its manifest. -/
structure TransferState.InRange (s : TransferState) : Prop where
  nodup : s.verifiedChunks.Nodup
  lt : ∀ i ∈ s.verifiedChunks, i.toNat < s.manifest.chunks.length

/-- A state on the disk has indices of its manifest only, and that manifest is the one beside
it, if there is one. -/
def Matched : Prop :=
  ∀ D s, stateAt C t D = some s → s.InRange ∧ ∀ m, manifestAt C t D = some m → s.manifest = m

/-- Every transfer that is recorded is kept under the id of its manifest, and its state is a state
of that manifest. -/
structure Consistent : Prop where
  manifest : ∀ id b, t.file? ("manifest.json" :: id :: "incoming" :: home.loc) = some b →
    ∃ m, manifestAt C t (id :: "incoming" :: home.loc) = some m ∧ manifestId K C.manifest m = id
  state : ∀ id b, t.file? ("state.json" :: id :: "incoming" :: home.loc) = some b →
    ∃ s, stateAt C t (id :: "incoming" :: home.loc) = some s ∧ s.InRange ∧
      manifestAt C t (id :: "incoming" :: home.loc) = some s.manifest

end Records

variable {K : Primitives} {C : FileCodecs} {home : Home} {id : String} {m : FileManifest}
  {s : TransferState} {t t' : Tree} {c : Chunk} {D : Loc}

/-! ### What the files say -/

theorem manifestAt_congr (h : t'.file? ("manifest.json" :: D) = t.file? ("manifest.json" :: D)) :
    manifestAt C t' D = manifestAt C t D := by rw [manifestAt, manifestAt, h]

theorem stateAt_congr (h : t'.file? ("state.json" :: D) = t.file? ("state.json" :: D)) :
    stateAt C t' D = stateAt C t D := by rw [stateAt, stateAt, h]

theorem manifestAt_of_hasFile {b : Bytes} (h : t.HasFile (manifestPath home id) b) :
    manifestAt C t (transferDir home id).norm = (C.manifest.decode b).toOption := by
  rw [manifestAt, ← norm_manifestPath, h.2]
  rfl

theorem stateAt_of_hasFile {b : Bytes} (h : t.HasFile (statePath home id) b) :
    stateAt C t (transferDir home id).norm = (C.state.decode b).toOption := by
  rw [stateAt, ← norm_statePath, h.2]
  rfl

theorem manifestAt_of_load (h : loadReceivedManifest C home id t = (.ok m, t')) :
    manifestAt C t (transferDir home id).norm = some m := by
  obtain ⟨b, t₁, hread, hdecode⟩ := bind_ok.1 h
  rw [manifestAt_of_hasFile (read_eq_ok.1 hread).2]
  rw [ofExcept_apply] at hdecode
  cases hd : C.manifest.decode b with
  | error e => rw [hd] at hdecode; cases hdecode
  | ok m' =>
    rw [hd] at hdecode
    obtain ⟨hm, -⟩ := Prod.mk.inj hdecode
    obtain rfl := Except.ok.inj hm
    rfl

theorem stateAt_of_load (h : loadTransferState C home id t = (.ok s, t')) :
    stateAt C t (transferDir home id).norm = some s := by
  obtain ⟨b, t₁, hread, hdecode⟩ := bind_ok.1 h
  rw [stateAt_of_hasFile (read_eq_ok.1 hread).2]
  rw [ofExcept_apply] at hdecode
  cases hd : C.state.decode b with
  | error e => rw [hd] at hdecode; cases hdecode
  | ok s' =>
    rw [hd] at hdecode
    obtain ⟨hs, -⟩ := Prod.mk.inj hdecode
    obtain rfl := Except.ok.inj hs
    rfl

variable (C home id m t) in
theorem resumeFor_cases :
    ∃ s, resumeFor C home id m t = (.ok s, t) ∧
      (stateAt C t (transferDir home id).norm = some s ∨ s = .new m) := by
  have hinert : (loadTransferState C home id t).2 = t := inert_loadTransferState t
  unfold resumeFor
  cases hload : loadTransferState C home id t with
  | mk res t₁ =>
  rw [hload] at hinert
  obtain rfl : t₁ = t := hinert
  cases res with
  | error e => exact ⟨_, rfl, .inr rfl⟩
  | ok s => exact ⟨s, rfl, .inl (stateAt_of_load hload)⟩

/-! ### What the calls leave alone -/

/-- The files at which transfers are looked up are the same. -/
def SameRecords (t t' : Tree) : Prop := ∀ l, Reserved l → t'.file? l = t.file? l

theorem SameRecords.of_frame {S : Set Loc} (h : Frame S t t') (hS : ∀ l ∈ S, ¬ Reserved l) :
    SameRecords t t' := fun l hl => h.file? l fun hmem => hS l hmem hl

theorem SameRecords.matched (h : SameRecords t t') (ht : Matched C t) : Matched C t' := by
  intro D s hs
  rw [stateAt_congr (h _ (.inr rfl))] at hs
  rw [manifestAt_congr (h _ (.inl rfl))]
  exact ht D s hs

theorem SameRecords.consistent (h : SameRecords t t') (ht : Consistent K C home t) :
    Consistent K C home t' where
  manifest id b hb := by
    rw [h _ (.inl rfl)] at hb
    rw [manifestAt_congr (h _ (.inl rfl))]
    exact ht.manifest id b hb
  state id b hb := by
    rw [h _ (.inr rfl)] at hb
    rw [stateAt_congr (h _ (.inr rfl)), manifestAt_congr (h _ (.inl rfl))]
    exact ht.state id b hb

theorem getLast?_append_suffix {a b : String} (hb : b.toList ≠ []) :
    (a ++ b).toList.getLast? = b.toList.getLast? := by
  rw [String.toList_append, List.getLast?_append_of_ne_nil _ hb]

theorem not_reserved_of_getLast {a : String} (h : a.toList.getLast? ≠ some 'n') :
    ¬ Reserved (a :: D) := by
  rintro (h' | h') <;> obtain rfl := Option.some.inj h' <;> exact h (by decide)

theorem not_reserved_chunk {l : Loc} {i : UInt32} (h : l ∈ chunkPlaces home id i) :
    ¬ Reserved l := by
  rcases h with rfl | rfl
  · rw [norm_chunkTmpPath]
    refine not_reserved_of_getLast ?_
    rw [chunkTmpName, getLast?_append_suffix (by decide)]
    decide
  · rw [norm_chunkPath]
    refine not_reserved_of_getLast ?_
    rw [chunkName, getLast?_append_suffix (by decide)]
    decide

theorem not_reserved_manifestTmp : ¬ Reserved (manifestTmpPath home id).norm := by
  rw [norm_manifestTmpPath]
  exact not_reserved_of_getLast (by decide)

theorem not_reserved_stateTmp : ¬ Reserved (stateTmpPath home id).norm := by
  rw [norm_stateTmpPath]
  exact not_reserved_of_getLast (by decide)

/-! ### Announcements -/

/-- An announcement leaves the records alone, or replaces the manifest of its id by one that
verifies. -/
theorem announce_records {res : Except FileError TransferState}
    (h : announce K C home id m t = (res, t')) :
    SameRecords t t' ∨ verifyManifest K C.manifest m = .ok () ∧
      t'.file? (manifestPath home id).norm = some (C.manifest.encode m) ∧
        ∀ l, Reserved l → l ≠ (manifestPath home id).norm → t'.file? l = t.file? l := by
  cases hv : verifyManifest K C.manifest m with
  | error e =>
    rw [announce, bind_ofExcept_error hv] at h
    obtain ⟨-, rfl⟩ := Prod.mk.inj h
    exact .inl fun _ _ => rfl
  | ok =>
    rw [announce, bind_ofExcept_ok hv] at h
    cases hw : writeReceivedManifest C home id m t with
    | mk r₁ t₁ =>
    obtain ⟨hframe, hcases⟩ := writeReceivedManifest_cases hw
    have hsame : ∀ l, Reserved l → l ≠ (manifestPath home id).norm → t₁.file? l = t.file? l := by
      intro l hl hne
      refine hframe.file? l ?_
      rintro (rfl | rfl)
      · exact not_reserved_manifestTmp hl
      · exact hne rfl
    rcases hcases with ⟨rfl, -, hfile⟩ | ⟨⟨e, rfl⟩, hfile⟩
    · obtain ⟨s, hs, -⟩ := resumeFor_cases C home id m t₁
      rw [bind_of_ok hw, hs] at h
      obtain ⟨-, rfl⟩ := Prod.mk.inj h
      exact .inr ⟨rfl, hfile.2, hsame⟩
    · rw [bind_of_error hw] at h
      obtain ⟨-, rfl⟩ := Prod.mk.inj h
      refine .inl fun l hl => ?_
      by_cases hne : l = (manifestPath home id).norm
      · exact hne ▸ hfile
      · exact hsame l hl hne

/-- The announced manifest is kept under its own id, and a state that is saved there is about
it. -/
def Keyed (K : Primitives) (C : FileCodecs) (home : Home) (id : String) (m : FileManifest)
    (t : Tree) : Prop :=
  manifestId K C.manifest m = id ∧
    ∀ s, stateAt C t (transferDir home id).norm = some s → s.manifest = m

theorem norm_transferDir_of_plain (hslash : '/' ∉ id.toList) (hid : Plain id) :
    (transferDir home id).norm = id :: "incoming" :: home.loc := by
  rw [transferDir, PathBuf.norm_join hslash hid, norm_transfersDir]

theorem Keyed.norm_transferDir (h : Keyed K C home id m t) :
    (transferDir home id).norm = id :: "incoming" :: home.loc := by
  rw [← h.1]
  exact norm_transferDir_of_plain (K.hexHash_no_slash _) (K.plain_hexHash _)

/-- **An announcement under its own id keeps the transfers consistent.** -/
theorem Consistent.announce {res : Except FileError TransferState} (ht : Consistent K C home t)
    (hm : Matched C t) (h : announce K C home id m t = (res, t'))
    (hkeyed : verifyManifest K C.manifest m = .ok () → Keyed K C home id m t) :
    Consistent K C home t' ∧ Matched C t' := by
  rcases announce_records h with hsame | ⟨hv, hfile, hsame⟩
  · exact ⟨hsame.consistent ht, hsame.matched hm⟩
  have hkeyed := hkeyed hv
  have hdir := hkeyed.norm_transferDir
  rw [norm_manifestPath, hdir] at hfile hsame
  have hmanifest : manifestAt C t' (id :: "incoming" :: home.loc) = some m := by
    rw [manifestAt, hfile]
    show (C.manifest.decode _).toOption = some m
    rw [C.manifest.decode_encode]
    rfl
  -- Only the manifest of the one transfer is written: its own state speaks of it by `hkeyed`.
  have hstate : ∀ D, stateAt C t' D = stateAt C t D := fun D =>
    stateAt_congr (hsame _ (.inr rfl) (by simp))
  have hother : ∀ D, D ≠ id :: "incoming" :: home.loc → manifestAt C t' D = manifestAt C t D :=
    fun D hD => manifestAt_congr (hsame _ (.inl rfl) fun he => hD (List.cons.inj he).2)
  have habout := hdir ▸ hkeyed.2
  refine ⟨⟨fun id' b hb => ?_, fun id' b hb => ?_⟩, fun D s hs => ?_⟩
  · by_cases hid : id' = id
    · exact hid ▸ ⟨m, hmanifest, hkeyed.1⟩
    · have hne : id' :: "incoming" :: home.loc ≠ id :: "incoming" :: home.loc :=
        fun he => hid (List.cons.inj he).1
      rw [hsame _ (.inl rfl) fun he => hne (List.cons.inj he).2] at hb
      rw [hother _ hne]
      exact ht.manifest id' b hb
  · rw [hsame _ (.inr rfl) (by simp)] at hb
    obtain ⟨s, hs, hrange, hman⟩ := ht.state id' b hb
    refine ⟨s, (hstate _).trans hs, hrange, ?_⟩
    by_cases hid : id' = id
    · subst hid
      rw [hmanifest, habout s hs]
    · rw [hother _ fun he => hid (List.cons.inj he).1]
      exact hman
  · rw [hstate] at hs
    obtain ⟨hrange, hman⟩ := hm D s hs
    refine ⟨hrange, fun m' hm' => ?_⟩
    by_cases hD : D = id :: "incoming" :: home.loc
    · subst hD
      rw [hmanifest] at hm'
      exact Option.some.inj hm' ▸ habout s hs
    · rw [hother D hD] at hm'
      exact hman m' hm'

/-! ### Errors that are no panics -/

theorem ofOs_ne_panicked (o : OsError) : (OfOs.ofOs o : FileError) ≠ .panicked := by rintro ⟨⟩

theorem verifyChunk_ne_panicked : verifyChunk K m c ≠ .error .panicked := by
  unfold verifyChunk
  split
  · simp
  · split <;> simp

theorem avoids_loadReceivedManifest : Avoids .panicked (loadReceivedManifest C home id) := by
  refine (avoids_read ofOs_ne_panicked).bind fun b => avoids_ofExcept ?_
  cases C.manifest.decode b <;> simp [Except.mapError]

/-- A round of the loop does not index out of bounds if the manifest has the index. -/
theorem avoids_writeVerified {out : Loc} {i : UInt32} (h : i.toNat < m.chunks.length) :
    Avoids .panicked (writeVerified K home id m out i) := by
  refine (avoids_read ofOs_ne_panicked).bind fun bytes => ?_
  rw [List.getElem?_eq_getElem h]
  exact (avoids_ofExcept verifyChunk_ne_panicked).bind fun _ => fun _ => by simp [File.writeAll]

/-- **A file is put together without a panic** from indices that the manifest has. -/
theorem avoids_reconstructFromVerified {output : PathBuf}
    (h : ∀ i ∈ s.verifiedChunks, i.toNat < m.chunks.length) :
    Avoids .panicked (reconstructFromVerified K home id m s output) := by
  refine (avoids_create ofOs_ne_panicked).bind fun out => ?_
  refine Avoids.bind (Avoids.forEach fun i hi => ?_) fun _ => ?_
  · exact avoids_writeVerified (h i ((List.perm_insertionSort ..).mem_iff.1 hi))
  · refine Avoids.bind (fun _ => by simp [File.len]) fun len => ?_
    split
    · exact avoids_fail (by simp [sizeMismatch])
    · exact avoids_pure _

theorem avoids_keepChunk : Avoids .panicked (keepChunk home id c) :=
  (avoids_createDirAll ofOs_ne_panicked).bind fun _ => avoids_replaceFile ofOs_ne_panicked

theorem avoids_announce : Avoids .panicked (announce K C home id m) := by
  refine Avoids.bind (avoids_ofExcept ?_) fun _ => Avoids.bind ?_ fun _ => ?_
  · unfold verifyManifest FileManifest.verifySignature
    split
    · rename_i e he
      split at he
      · cases he
      · cases he; simp
    · split <;> simp
  · exact (avoids_createDirAll ofOs_ne_panicked).bind fun _ => avoids_replaceFile ofOs_ne_panicked
  · intro t
    obtain ⟨s, hs, -⟩ := resumeFor_cases C home id m t
    rw [hs]
    simp

/-! ### Chunks -/

/-- If the chunk is the last of its transfer, the file is not put together at a place where
transfers are looked up. -/
def KeepsRecords (K : Primitives) (C : FileCodecs) (home : Home) (id : String) (c : Chunk)
    (t : Tree) : Prop :=
  ∀ l ∈ lastPlaces K C home id c t, ¬ Reserved l

/-- What saving the state of a chunk does to the records. -/
structure Saved (C : FileCodecs) (home : Home) (id : String) (m : FileManifest) (c : Chunk)
    (s : TransferState) (t t' : Tree) : Prop where
  resumed : stateAt C t (transferDir home id).norm = some s ∨ s = .new m
  fresh : c.index ∉ s.verifiedChunks
  file : t'.file? (statePath home id).norm = some (C.state.encode (s.withIndex c.index))
  same : ∀ l, Reserved l → l ≠ (statePath home id).norm → t'.file? l = t.file? l

theorem saveTransferState_cases {res : Except FileError Unit}
    (h : saveTransferState C home id s t = (res, t')) :
    (res = .ok () ∧ t'.HasFile (statePath home id) (C.state.encode s) ∧
        Frame (statePlaces home id) t t') ∨
      ((∃ e, res = .error (.io (.os e))) ∧ Frame {(stateTmpPath home id).norm} t t') := by
  have hframe : ∀ S, Frame S t ((createDirAll (transferDir home id) : FsM FileError Unit) t).2 :=
    fun S => touches_createDirAll t
  rcases bind_cases h with ⟨e, hdir, rfl⟩ | ⟨_, t₁, hdir, h⟩
  · rw [hdir] at hframe
    obtain ⟨o, rfl⟩ := createDirAll_error hdir
    exact .inr ⟨⟨o, rfl⟩, hframe _⟩
  · rw [hdir] at hframe
    rcases replaceFile_cases h with ⟨rfl, hfile, hreplace⟩ | ⟨⟨o, rfl⟩, hreplace⟩
    · exact .inl ⟨rfl, hfile, (hframe _).trans hreplace⟩
    · exact .inr ⟨⟨o, rfl⟩, (hframe _).trans hreplace⟩

/-- **Recording a chunk** leaves the records alone or adds its index to the state; it panics at
most if an index of the state is not one of the manifest. -/
theorem recordChunk_records {res : Except FileError ReceiveStatus}
    (h : recordChunk K C home id m c t = (res, t'))
    (hkeeps : ∀ s, (resumeFor C home id m t).1 = .ok s → c.index ∉ s.verifiedChunks →
      s.verifiedChunks.length + 1 = m.chunks.length → ¬ Reserved (outputPath home id m).norm) :
    (SameRecords t t' ∧ res ≠ .error .panicked) ∨
      ∃ s, Saved C home id m c s t t' ∧
        ((∀ i ∈ (s.withIndex c.index).verifiedChunks, i.toNat < m.chunks.length) →
          res ≠ .error .panicked) := by
  obtain ⟨s, hs, hresumed⟩ := resumeFor_cases C home id m t
  have hsaved : ∀ {t₁}, saveTransferState C home id (s.withIndex c.index) t = (.ok (), t₁) →
      c.index ∉ s.verifiedChunks → Saved C home id m c s t t₁ := by
    intro t₁ hsave hfresh
    rcases saveTransferState_cases hsave with ⟨-, hfile, hframe⟩ | ⟨⟨o, he⟩, -⟩
    · refine ⟨hresumed, hfresh, hfile.2, fun l hl hne => hframe.file? l ?_⟩
      rintro (rfl | rfl)
      · exact not_reserved_stateTmp hl
      · exact hne rfl
    · cases he
  cases recordChunk_step hs h with
  | again => exact .inl ⟨fun _ _ => rfl, by simp⟩
  | failed save =>
    rcases saveTransferState_cases save with ⟨hok, -⟩ | ⟨⟨o, he⟩, hframe⟩
    · cases hok
    · obtain rfl := Except.error.inj he
      exact .inl ⟨.of_frame hframe fun l hl => Set.mem_singleton_iff.1 hl ▸ not_reserved_stateTmp,
        by simp⟩
  | more save fresh => exact .inr ⟨s, hsaved save fresh, fun _ => by simp⟩
  -- The output is written after the state, to a place that holds no record.
  | @last t₁ _ res save fresh length reconstruct =>
    rw [TransferState.withIndex, List.length_append, List.length_singleton] at length
    have hout := hkeeps s (by rw [hs]) fresh length
    have hput : Frame {(outputPath home id m).norm} t₁ (reconstructFromVerified K home id m
        (s.withIndex c.index) (outputPath home id m) t₁).2 := touches_reconstructFromVerified t₁
    rw [reconstruct] at hput
    have hrecords : SameRecords t₁ t' :=
      .of_frame hput fun l hl => Set.mem_singleton_iff.1 hl ▸ hout
    obtain ⟨-, -, hfile, hsame⟩ := hsaved save fresh
    refine .inr ⟨s, ⟨hresumed, fresh, by rw [hrecords _ (by simp [Reserved]), hfile],
      fun l hl hne => (hrecords l hl).trans (hsame l hl hne)⟩, fun hlt he => ?_⟩
    cases res with
    | ok => cases he
    | error e =>
      obtain rfl := Except.error.inj he
      exact avoids_reconstructFromVerified hlt t₁ (congrArg Prod.fst reconstruct)

/-- **Receiving a chunk** leaves the records alone or adds its index to the state of the manifest
that is recorded; it panics at most if an index of the state is not one of the manifest. -/
theorem receiveChunk_records {res : Except FileError ReceiveStatus}
    (h : receiveChunk K C home id c t = (res, t')) (hkeeps : KeepsRecords K C home id c t) :
    (SameRecords t t' ∧ res ≠ .error .panicked) ∨
      ∃ m s, manifestAt C t (transferDir home id).norm = some m ∧ verifyChunk K m c = .ok () ∧
        Saved C home id m c s t t' ∧
        ((∀ i ∈ (s.withIndex c.index).verifiedChunks, i.toNat < m.chunks.length) →
          res ≠ .error .panicked) := by
  rw [receiveChunk_eq] at h
  have hinert : (loadReceivedManifest C home id t).2 = t := inert_loadReceivedManifest t
  have hpanic : (loadReceivedManifest C home id t).1 ≠ .error .panicked :=
    avoids_loadReceivedManifest t
  rcases bind_cases h with ⟨e, hload, rfl⟩ | ⟨m, t₀, hload, hrest⟩
  · rw [hload] at hinert hpanic
    obtain rfl : t' = t := hinert
    exact .inl ⟨fun _ _ => rfl, fun he => hpanic (congrArg _ (Except.error.inj he))⟩
  rw [hload] at hinert
  obtain rfl : t₀ = t := hinert
  cases hv : verifyChunk K m c with
  | error e =>
    rw [bind_ofExcept_error hv] at hrest
    obtain ⟨rfl, rfl⟩ := Prod.mk.inj hrest
    refine .inl ⟨fun _ _ => rfl, fun he => ?_⟩
    exact verifyChunk_ne_panicked (hv.trans (congrArg _ (Except.error.inj he)))
  | ok =>
  rw [bind_ofExcept_ok hv] at hrest
  -- the chunk itself is kept, which no record is
  have hframe : Frame (chunkPlaces home id c.index) t₀ (keepChunk home id c t₀).2 :=
    touches_keepChunk t₀
  have hno : (keepChunk home id c t₀).1 ≠ .error .panicked := avoids_keepChunk t₀
  have hsame : SameRecords t₀ (keepChunk home id c t₀).2 :=
    .of_frame hframe fun _ hl => not_reserved_chunk hl
  rcases bind_cases hrest with ⟨e, hkeep, rfl⟩ | ⟨_, t₁, hkeep, hrecord⟩
  · rw [hkeep] at hno hsame
    exact .inl ⟨hsame, fun he => hno (congrArg _ (Except.error.inj he))⟩
  rw [hkeep] at hframe hsame
  have hfst : (loadReceivedManifest C home id t₀).1 = .ok m := by rw [hload]
  have hmanifest := manifestAt_of_load hload
  replace hrecord := recordChunk_records hrecord fun s hs => by
    rw [fst_resumeFor_of_frame hfst hframe] at hs
    exact fun hnew hlast => hkeeps _ ⟨m, s, hfst, hs, hv, hnew, hlast, rfl⟩
  rcases hrecord with ⟨hsame', hno⟩ | ⟨s, hsaved, hno⟩
  · exact .inl ⟨fun l hl => (hsame' l hl).trans (hsame l hl), hno⟩
  · have hstate : stateAt C t₁ (transferDir home id).norm =
        stateAt C t₀ (transferDir home id).norm :=
      stateAt_congr (hsame _ (.inr rfl))
    exact .inr ⟨m, s, hmanifest, hv, ⟨hstate ▸ hsaved.resumed, hsaved.fresh, hsaved.file,
      fun l hl hne => (hsaved.same l hl hne).trans (hsame l hl)⟩, hno⟩

theorem TransferState.inRange_new : (TransferState.new m).InRange :=
  ⟨List.nodup_nil, fun _ hi => absurd hi List.not_mem_nil⟩

theorem TransferState.InRange.withIndex (h : s.InRange) (hfresh : c.index ∉ s.verifiedChunks)
    (hlt : c.index.toNat < s.manifest.chunks.length) : (s.withIndex c.index).InRange := by
  refine ⟨List.nodup_append.2 ⟨h.nodup, List.nodup_singleton _, ?_⟩, fun i hi => ?_⟩
  · intro a ha b hb hab
    rw [List.mem_singleton.1 hb] at hab
    exact hfresh (hab ▸ ha)
  · rcases List.mem_append.1 hi with hi | hi
    · exact h.lt i hi
    · rw [List.mem_singleton.1 hi]
      exact hlt

/-- **A chunk keeps the transfers consistent, and does not panic**, unless it puts the file
together at a place where transfers are looked up. -/
theorem Consistent.chunk {res : Except FileError ReceiveStatus} (ht : Consistent K C home t)
    (hm : Matched C t) (h : receiveChunk K C home id c t = (res, t'))
    (hkeeps : KeepsRecords K C home id c t) :
    (Consistent K C home t' ∧ Matched C t') ∧ res ≠ .error .panicked := by
  rcases receiveChunk_records h hkeeps with ⟨hsame, hno⟩ | ⟨m, s, hmanifest, hv, hsaved, hno⟩
  · exact ⟨⟨hsame.consistent ht, hsame.matched hm⟩, hno⟩
  -- The state is the one resumed from the records, or a new one of the announced manifest.
  have hrange : s.InRange ∧ s.manifest = m := by
    rcases hsaved.resumed with hs | rfl
    · exact ⟨(hm _ s hs).1, (hm _ s hs).2 m hmanifest⟩
    · exact ⟨TransferState.inRange_new, rfl⟩
  obtain ⟨hrange, rfl⟩ := hrange
  have hlt : c.index.toNat < s.manifest.chunks.length :=
    (List.getElem?_eq_some_iff.1 (verifyChunk_ok.1 hv).1).1
  have hrange' := hrange.withIndex hsaved.fresh hlt
  have hfile := hsaved.file
  have hsame := hsaved.same
  rw [norm_statePath] at hfile hsame
  have hman : ∀ D, manifestAt C t' D = manifestAt C t D := fun D =>
    manifestAt_congr (hsame _ (.inl rfl) (by simp))
  have hstate : stateAt C t' (transferDir home id).norm = some (s.withIndex c.index) := by
    rw [stateAt, hfile]
    show (C.state.decode _).toOption = some _
    rw [C.state.decode_encode]
    rfl
  have hother : ∀ D, D ≠ (transferDir home id).norm →
      t'.file? ("state.json" :: D) = t.file? ("state.json" :: D) :=
    fun D hD => hsame _ (.inr rfl) fun he => hD (List.cons.inj he).2
  refine ⟨⟨⟨fun id' b hb => ?_, fun id' b hb => ?_⟩, fun D s' hs' => ?_⟩, hno hrange'.lt⟩
  · rw [hsame _ (.inl rfl) (by simp)] at hb
    rw [hman]
    exact ht.manifest id' b hb
  · rw [hman]
    by_cases hD : id' :: "incoming" :: home.loc = (transferDir home id).norm
    · rw [hD]
      exact ⟨_, hstate, hrange', hmanifest⟩
    · rw [hother _ hD] at hb
      rw [stateAt_congr (hother _ hD)]
      exact ht.state id' b hb
  · rw [hman]
    by_cases hD : D = (transferDir home id).norm
    · subst hD
      rw [hstate] at hs'
      obtain rfl := Option.some.inj hs'
      exact ⟨hrange', fun m' hm' => Option.some.inj (hmanifest.symm.trans hm')⟩
    · rw [stateAt_congr (hother _ hD)] at hs'
      exact hm D s' hs'

end Neonet
