import Neonet.Lib.Crash
import Neonet.Storage.Paging

/-!
# A store that is cut off

`store_chunks` puts the blobs in place by renaming them, but it writes the manifest and the list of
the readers over the old ones.

* `storeOps`, `storeChunks_eq` : a store is a list of operations on the files of a directory.
* `CanPull`, `canPull_iff` : **what a directory must hold** for a reader to pull from it.
* `Recoverable` : the file can be pulled after the crash, or after one more push.
* `Survives` : what the files must be like for that.
* `recoverable_iff` : **a file is recoverable after a crash exactly if its directory survives.**
* `not_recoverable` : the list of the readers is cut off; nobody ever reads the file again.
-/

namespace Neonet

open FileTree FsM DirOp

section Operations

variable (K : Primitives) (E : StorageEnv) (home : Home) (fileId : String) (x : PublicIdentity)
  (m : FileManifest) (es : List EncryptedChunk)

/-- The operations that keep one chunk. -/
def blobOps (e : EncryptedChunk) : List DirOp :=
  [.write (blobName K E e ++ ".tmp") (E.chunk.encode e),
    .rename (blobName K E e ++ ".tmp") (blobName K E e)]

/-- The operations that keep the chunks and the manifest. -/
def fileOps : List DirOp :=
  .create :: es.flatMap (blobOps K E) ++ [.write "manifest.json" (E.manifest.encode m)]

/-- The operations that write the list of the readers. -/
def aclOps (acl : List String) : List DirOp :=
  [.create, .write "acl.json" (E.names.encode acl)]

/-- The operations of `store_chunks` on a directory with these files. -/
def storeOps (f : String → Option Bytes) : List DirOp :=
  fileOps K E m es ++
    aclOps E (((readersIn E f).getD []).insert (x.fingerprint K))

/-- What the batches of a push make of the files of a directory. -/
def pushedFiles (f : String → Option Bytes) (bs : List (List EncryptedChunk)) :
    String → Option Bytes :=
  bs.foldl (fun f batch => applyAll f (storeOps K E x m batch f)) f

end Operations

variable {K : Primitives} {E : StorageEnv} {home : Home} {fileId : String} {x : PublicIdentity}
  {m : FileManifest} {es : List EncryptedChunk} {f f' : String → Option Bytes} {t t' : Tree}

/-! ### A store as a list of operations -/

theorem runAll_blobOps (e : EncryptedChunk) :
    runAll IoError (blobDir home fileId) (blobOps K E e) = putBlob K E home fileId e := by
  funext t
  simp only [blobOps, putBlob, replaceFile, runAll, forEach, DirOp.run, bind_apply, pure_apply]
  cases (write ((blobDir home fileId).join (blobName K E e ++ ".tmp")) (E.chunk.encode e) :
      FsM IoError Unit) t with
  | mk res t₁ =>
  cases res with
  | error err => rfl
  | ok =>
    dsimp only
    cases (rename ((blobDir home fileId).join (blobName K E e ++ ".tmp"))
        ((blobDir home fileId).join (blobName K E e)) : FsM IoError Unit) t₁ with
    | mk res t₂ => cases res <;> rfl

theorem runAll_flatMap_blobOps :
    runAll IoError (blobDir home fileId) (es.flatMap (blobOps K E)) =
      forEach (putBlob K E home fileId) es := by
  induction es with
  | nil => rfl
  | cons e es ih =>
    rw [List.flatMap_cons, runAll_append, runAll_blobOps, ih]
    rfl

theorem runAll_singleton {op : DirOp} :
    runAll IoError (blobDir home fileId) [op] = DirOp.run IoError (blobDir home fileId) op := by
  funext t
  simp only [runAll, forEach, bind_apply, pure_apply]
  cases DirOp.run IoError (blobDir home fileId) op t with
  | mk res t₁ => cases res <;> rfl

theorem storeFiles_eq :
    storeFiles K E home fileId m es = runAll IoError (blobDir home fileId) (fileOps K E m es) := by
  rw [fileOps, List.cons_append, ← List.singleton_append, runAll_append, runAll_append,
    runAll_singleton, runAll_singleton, runAll_flatMap_blobOps]
  rfl

theorem writeAcl_eq (acl : List String) :
    writeAcl E home fileId acl = runAll IoError (blobDir home fileId) (aclOps E acl) := by
  rw [aclOps, ← List.singleton_append, runAll_append, runAll_singleton, runAll_singleton]
  rfl

theorem named_blobOps {e : EncryptedChunk} {op : DirOp} (h : op ∈ blobOps K E e) :
    op.Named ∧ ∀ c ∈ op.names, c = blobName K E e ++ ".tmp" ∨ c = blobName K E e := by
  have htmp : Plain (blobName K E e ++ ".tmp") := plain_append (by decide)
  simp only [blobOps, List.mem_cons, List.not_mem_nil, or_false] at h
  rcases h with rfl | rfl
  · exact ⟨⟨blobTmpName_no_slash e, htmp⟩, by simp [names]⟩
  · exact ⟨⟨⟨blobTmpName_no_slash e, htmp⟩, blobName_no_slash e, plain_blobName e⟩, by simp [names]⟩

theorem named_fileOps {op : DirOp} (h : op ∈ fileOps K E m es) :
    op.Named ∧ ∀ c ∈ op.names, c ≠ "revocations.json" ∧ c ≠ "acl.json" := by
  simp only [fileOps, List.cons_append, List.mem_cons, List.mem_append, List.mem_flatMap,
    List.not_mem_nil, or_false] at h
  rcases h with rfl | ⟨e, -, he⟩ | rfl
  · exact ⟨trivial, by simp [names]⟩
  · obtain ⟨hnamed, hnames⟩ := named_blobOps he
    refine ⟨hnamed, fun c hc => ?_⟩
    rcases hnames c hc with rfl | rfl
    · exact ⟨ne_of_length (by rw [length_blobTmpName]; decide),
        ne_of_length (by rw [length_blobTmpName]; decide)⟩
    · exact ⟨ne_of_length (by rw [length_blobName]; decide),
        ne_of_length (by rw [length_blobName]; decide)⟩
  · exact ⟨⟨by decide, by decide⟩, by simp [names]⟩

theorem named_aclOps {acl : List String} {op : DirOp} (h : op ∈ aclOps E acl) :
    op.Named ∧ ∀ c ∈ op.names, c = "acl.json" := by
  simp only [aclOps, List.mem_cons, List.not_mem_nil, or_false] at h
  rcases h with rfl | rfl
  · exact ⟨trivial, by simp [names]⟩
  · exact ⟨⟨by decide, by decide⟩, by simp [names]⟩

theorem named_storeOps {op : DirOp} (h : op ∈ storeOps K E x m es f) :
    op.Named ∧ ∀ c ∈ op.names, c ≠ "revocations.json" := by
  rcases List.mem_append.1 h with h | h
  · exact ⟨(named_fileOps h).1, fun c hc => ((named_fileOps h).2 c hc).1⟩
  · refine ⟨(named_aclOps h).1, fun c hc => ?_⟩
    rw [(named_aclOps h).2 c hc]
    decide

theorem readersIn_fileOps : readersIn E (applyAll f (fileOps K E m es)) = readersIn E f := by
  rw [readersIn, readersIn, applyAll_of_not_named fun op hop hacl =>
    ((named_fileOps hop).2 _ hacl).2 rfl]

/-- **A store is a list of operations**, if the list of the readers can be read. -/
theorem storeChunks_eq (hlists : t.Lists (blobDir home fileId) f)
    (hd : t.HasDir (blobDir home fileId)) (haccepts : Accepts K E home m x t)
    (hacl : readersIn E f ≠ none) :
    storeChunks K E home fileId x m es t =
      runAll IoError (blobDir home fileId) (storeOps K E x m es f) t := by
  obtain ⟨acl, hacl⟩ := Option.ne_none_iff_exists'.1 hacl
  rw [storeChunks_accepted haccepts, storeFiles_eq, storeOps, runAll_append, hacl]
  cases hfiles : runAll IoError (blobDir home fileId) (fileOps K E m es) t with
  | mk res t₁ =>
  cases res with
  | error e => rw [bind_of_error hfiles, bind_of_error hfiles]
  | ok =>
  obtain ⟨hlists₁, hd₁⟩ := hlists.runAll hd (fun op hop => (named_fileOps hop).1) hfiles
  have hread := (readAcl_eq (E := E) hlists₁ hd₁).1 acl (readersIn_fileOps.trans hacl)
  rw [bind_of_ok hfiles, bind_of_ok hfiles, addReader, bind_of_ok hread, writeAcl_eq]
  rfl

/-- If the list of the readers cannot be read, no store succeeds. -/
theorem storeChunks_unreadable (hlists : t.Lists (blobDir home fileId) f)
    (hd : t.HasDir (blobDir home fileId)) (hacl : readersIn E f = none) :
    ∃ e, (storeChunks K E home fileId x m es t).1 = .error e := by
  by_cases haccepts : Accepts K E home m x t
  swap
  · obtain ⟨e, he⟩ := storeChunks_rejected fileId es haccepts
    exact ⟨e, by rw [he]⟩
  rw [storeChunks_accepted haccepts, storeFiles_eq]
  cases hfiles : runAll IoError (blobDir home fileId) (fileOps K E m es) t with
  | mk res t₁ =>
  cases res with
  | error e => exact ⟨e, by rw [bind_of_error hfiles]⟩
  | ok =>
  obtain ⟨hlists₁, hd₁⟩ := hlists.runAll hd (fun op hop => (named_fileOps hop).1) hfiles
  obtain ⟨e, hread⟩ := (readAcl_eq (E := E) hlists₁ hd₁).2 (readersIn_fileOps.trans hacl)
  exact ⟨e, by rw [bind_of_ok hfiles, addReader, bind_of_error hread]⟩

theorem readersIn_storeOps :
    readersIn E (applyAll f (storeOps K E x m es f)) =
      some (((readersIn E f).getD []).insert (x.fingerprint K)) := by
  have hacl : applyAll f (storeOps K E x m es f) "acl.json" =
      some (E.names.encode (((readersIn E f).getD []).insert (x.fingerprint K))) := by
    rw [storeOps, applyAll_append]
    simp [aclOps, applyAll, DirOp.apply]
  rw [readersIn, hacl]
  simp [E.names.decode_encode, Except.toOption]

theorem allFit_storeOps {accepts : String → Bool} {g : String → Option Bytes}
    (hblobs : ∀ e ∈ es, accepts (blobName K E e ++ ".tmp") = true ∧
      accepts (blobName K E e) = true)
    (hmanifest : accepts "manifest.json" = true) (hacl : accepts "acl.json" = true) :
    AllFit accepts g (storeOps K E x m es f) := by
  have hfit : ∀ (es : List EncryptedChunk) (g : String → Option Bytes),
      (∀ e ∈ es, accepts (blobName K E e ++ ".tmp") = true ∧ accepts (blobName K E e) = true) →
        AllFit accepts g (es.flatMap (blobOps K E)) := by
    intro es
    induction es with
    | nil => exact fun _ _ => trivial
    | cons e es ih =>
      intro g hes
      obtain ⟨htmp, hname⟩ := hes e List.mem_cons_self
      rw [List.flatMap_cons, allFit_append]
      refine ⟨⟨htmp, ⟨?_, hname⟩, trivial⟩, ih _ fun e he => hes e (List.mem_cons_of_mem _ he)⟩
      rw [DirOp.apply, Function.update_self]
      simp
  rw [storeOps, allFit_append, fileOps, List.cons_append]
  refine ⟨⟨trivial, ?_⟩, trivial, hacl, trivial⟩
  rw [allFit_append]
  exact ⟨hfit es _ hblobs, hmanifest, trivial⟩

/-! ### Pulling -/

/-- A list of chunks begins with one for each hash of the manifest, and a page ends there. -/
structure Complete (E : StorageEnv) (m : FileManifest) (l : List EncryptedChunk) : Prop where
  once : (l.take m.chunks.length).map (fun e => e.index.toNat) = List.range m.chunks.length
  page : IsPageEnd E l m.chunks.length
  nothing : m.chunks = [] → l = []

/-- The peer is a reader, and there is a manifest with its chunks. -/
def Whole (E : StorageEnv) (fingerprint : String) (f : String → Option Bytes) : Prop :=
  (∃ acl, readersIn E f = some acl ∧ fingerprint ∈ acl) ∧
    ∃ m, manifestIn E f = some m ∧ Complete E m (listedChunks E f)

section Recovery

variable (K E home fileId x) (debug : StorageFrame → String)

/-- A pull succeeds, with each chunk of the manifest once. -/
def CanPull (t : Tree) : Prop :=
  ∃ fuel m es, (pullChunks (coreServer K E home x debug) fileId fuel t).1 = some (.ok (m, es)) ∧
    es.map (fun e => e.index.toNat) = List.range m.chunks.length

/-- The file can be pulled, or can after one more push of all its chunks. -/
def Recoverable (m : FileManifest) (all : List EncryptedChunk) (t : Tree) : Prop :=
  CanPull K E home fileId x debug t ∨
    ∃ t', pushChunks E (coreServer K E home x debug) fileId m all t = (.ok (), t') ∧
      CanPull K E home fileId x debug t'

/-- The files are those of a directory that can be pulled from, or the list of the readers can be
read and the files are such after one more push. -/
def Survives (m : FileManifest) (all : List EncryptedChunk) (f : String → Option Bytes) : Prop :=
  Whole E (x.fingerprint K) f ∨ (readersIn E f ≠ none ∧
    Whole E (x.fingerprint K) (pushedFiles K E x m f (batches E all)))

/-- A store of a reader in a directory that it can pull from is cut off by a crash. -/
structure Interrupted (m : FileManifest) (es : List EncryptedChunk) (f : String → Option Bytes)
    (t t' : Tree) : Prop where
  lists : t.Lists (blobDir home fileId) f
  pulls : CanPull K E home fileId x debug t
  accepted : Accepts K E home m x t
  crash : Crash IoError (blobDir home fileId) (storeOps K E x m es f) t t'

end Recovery

variable {debug : StorageFrame → String} {all : List EncryptedChunk}

theorem isReader_iff (hlists : t.Lists (blobDir home fileId) f)
    (hd : t.HasDir (blobDir home fileId)) {fingerprint : String} :
    IsReader E home fileId fingerprint t ↔
      ∃ acl, readersIn E f = some acl ∧ fingerprint ∈ acl := by
  refine exists_congr fun acl => and_congr_left fun _ => ?_
  constructor
  · intro hacl
    cases hread : readersIn E f with
    | none =>
      obtain ⟨e, he⟩ := (readAcl_eq hlists hd).2 hread
      rw [he] at hacl
      cases hacl
    | some acl' =>
      rw [(readAcl_eq hlists hd).1 acl' hread] at hacl
      exact congrArg some (Except.ok.inj hacl)
  · intro hacl
    rw [(readAcl_eq hlists hd).1 acl hacl]

theorem not_canPull (h : ∀ offset, ∃ r, fetchChunks K E home fileId x offset t = (r, t) ∧
      ((∃ e, r = .error e) ∨ r = .ok (none, []))) : ¬ CanPull K E home fileId x debug t := by
  rintro ⟨fuel, m, es, hpull, -⟩
  cases fuel with
  | zero => cases hpull
  | succ fuel =>
    obtain ⟨r, hr, hcases⟩ := h 0
    rw [pullChunks, pullLoop] at hpull
    simp only [coreServer, core_fetch, hr] at hpull
    rcases hcases with ⟨e, rfl⟩ | rfl
    · cases hpull
    · cases hpull

theorem isReader_of_canPull (h : CanPull K E home fileId x debug t) :
    IsReader E home fileId (x.fingerprint K) t := by
  by_contra hnot
  refine not_canPull (fun offset => ?_) h
  obtain ⟨e, he⟩ := fetchChunks_refused hnot offset
  exact ⟨_, Prod.ext he (inert_fetchChunks t), .inl ⟨e, rfl⟩⟩

theorem hasDir_of_canPull (h : CanPull K E home fileId x debug t)
    (hrevoked : nodeIsRevoked K E home x t = (.ok false, t)) :
    t.HasDir (blobDir home fileId) := by
  obtain ⟨acl, hacl, hin⟩ := isReader_of_canPull h
  have hread : readAcl E home fileId t = (.ok acl, t) := Prod.ext hacl (inert_readAcl t)
  by_contra hnot
  have hisDir : (pathIsDir (blobDir home fileId) : FsM IoError Bool) t = (.ok false, t) := by
    unfold pathIsDir
    cases hr : t.resolve (blobDir home fileId) with
    | error e => rfl
    | ok l =>
      obtain rfl := Tree.resolve_norm hr
      dsimp only
      rw [decide_eq_false fun hdir => hnot ⟨hr, hdir⟩]
  refine not_canPull (fun offset => ⟨.ok (none, []), ?_, .inr rfl⟩) h
  rw [fetchChunks, bind_of_ok hrevoked, if_neg (by decide), bind_of_ok hread]
  simp only [if_pos hin]
  rw [fetchPage, bind_of_ok hisDir]
  rfl

theorem pairwise_listedChunks : (listedChunks E f).Pairwise fun a b => a.index ≤ b.index := by
  rw [listedChunks]
  split
  · exact pairwise_sortHeld
  · exact List.Pairwise.nil

theorem length_le_of_indices {es : List EncryptedChunk} {n : ℕ} (hpos : 0 < n)
    (h : es.map (fun e => e.index.toNat) = List.range n) : n ≤ 2 ^ 32 := by
  have hlast : n - 1 ∈ es.map fun e => e.index.toNat := by
    rw [h, List.mem_range]
    omega
  obtain ⟨e, -, he⟩ := List.mem_map.1 hlast
  have := e.index.toNat_lt
  omega

/-- **What a directory must hold** for a peer to pull from it. -/
theorem canPull_iff (hlists : t.Lists (blobDir home fileId) f)
    (hd : t.HasDir (blobDir home fileId))
    (hrevoked : nodeIsRevoked K E home x t = (.ok false, t)) :
    CanPull K E home fileId x debug t ↔ Whole E (x.fingerprint K) f := by
  have hpages (hreader : IsReader E home fileId (x.fingerprint K) t) :
      GivesPages E (coreServer K E home x debug) fileId (manifestIn E f) (listedChunks E f) t := by
    intro offset
    simp only [coreServer, core_fetch, fetchChunks_eq hlists hd hreader hrevoked]
    exact ⟨_, rfl⟩
  constructor
  · intro h
    have hreader := isReader_of_canPull h
    refine ⟨(isReader_iff hlists hd).1 hreader, ?_⟩
    obtain ⟨fuel, m, es, hpull, hindices⟩ := h
    obtain ⟨hmanifest, hcount, hfirst⟩ := pullLoop_ok (hpages hreader) rfl hpull
    rw [hmanifest] at hpages
    refine ⟨m, hmanifest, ?_⟩
    rcases Nat.eq_zero_or_pos m.chunks.length with hzero | hpos
    · -- nothing is asked for, so the first page is empty
      have hnil : listedChunks E f = [] := by
        by_contra hne
        have hpage : 0 < (Pages.page (chunkSize E) maxBatchPayload (listedChunks E f)).length :=
          Pages.length_page_pos hne
        have hfirst' : (pageOf E (listedChunks E f)).length ≤ es.length := by simpa using hfirst
        rw [pageOf] at hfirst'
        omega
      exact ⟨by simp [hzero], hzero ▸ Pages.end_zero, fun _ => hnil⟩
    · have hbound : m.chunks.length ≤ 2 ^ 32 := length_le_of_indices hpos hindices
      have hcalls : min m.chunks.length ((listedChunks E f).length + 1) ≤
          max fuel m.chunks.length + pageEnd E (listedChunks E f) 0 := by omega
      obtain ⟨r, hr, hok, herror⟩ :=
        pullLoop_pages (hpages hreader) hasPages_start hpos hbound hcalls
      rw [pullLoop_mono hpull (le_max_left ..)] at hr
      obtain rfl := Option.some.inj hr
      have hend : IsPageEnd E (listedChunks E f) m.chunks.length := by
        by_contra hnot
        obtain ⟨e, he⟩ := herror hnot
        cases he
      have hes := (Prod.mk.inj (Except.ok.inj (hok hend))).2
      rw [sortHeld_of_pairwise (pairwise_listedChunks.sublist (List.take_sublist ..))] at hes
      exact ⟨hes ▸ hindices, hend, fun hnil => by simp [hnil] at hpos⟩
  · rintro ⟨hreaders, m, hmanifest, hcomplete⟩
    have hS := hpages ((isReader_iff hlists hd).2 hreaders)
    rw [hmanifest] at hS
    rcases Nat.eq_zero_or_pos m.chunks.length with hzero | hpos
    · have hnil : m.chunks = [] := List.length_eq_zero_iff.1 hzero
      rw [hcomplete.nothing hnil] at hS
      exact ⟨1, m, [], pullChunks_nil hS hnil Nat.one_pos, by simp [hzero]⟩
    · have hbound : m.chunks.length ≤ 2 ^ 32 := length_le_of_indices hpos hcomplete.once
      have hcalls : min m.chunks.length ((listedChunks E f).length + 1) ≤
          m.chunks.length + pageEnd E (listedChunks E f) 0 := by omega
      obtain ⟨r, hr, hok, -⟩ := pullLoop_pages hS hasPages_start hpos hbound hcalls
      rw [hok hcomplete.page,
        sortHeld_of_pairwise (pairwise_listedChunks.sublist (List.take_sublist ..))] at hr
      exact ⟨m.chunks.length, m, _, hr, hcomplete.once⟩

/-! ### Pushing once more -/

/-- **A push to a directory whose readers can be read** does to the tree what it does to the
files. -/
theorem pushBatches_lists {bs : List (List EncryptedChunk)}
    (hlists : t.Lists (blobDir home fileId) f) (hd : t.HasDir (blobDir home fileId))
    (haccepts : Accepts K E home m x t) (hacl : readersIn E f ≠ none)
    (hblobs : ∀ e ∈ bs.flatten, t.accepts (blobName K E e ++ ".tmp") = true ∧
      t.accepts (blobName K E e) = true)
    (hmanifest : t.accepts "manifest.json" = true) (haclName : t.accepts "acl.json" = true) :
    ∃ t', pushBatches (coreServer K E home x debug) fileId m bs t = (.ok (), t') ∧
      t'.Lists (blobDir home fileId) (pushedFiles K E x m f bs) ∧
      t'.HasDir (blobDir home fileId) ∧ nodeIsRevoked K E home x t' = (.ok false, t') := by
  induction bs generalizing t f with
  | nil => exact ⟨t, rfl, hlists, hd, haccepts.notRevoked⟩
  | cons batch bs ih =>
    rw [List.flatten_cons] at hblobs
    have hnamed : ∀ op ∈ storeOps K E x m batch f, op.Named := fun op hop => (named_storeOps hop).1
    obtain ⟨t₁, hrun⟩ := hlists.runAll_fits (ε := IoError) hd hnamed
      (allFit_storeOps (fun e he => hblobs e (List.mem_append_left _ he)) hmanifest haclName)
    obtain ⟨hlists₁, hd₁⟩ := hlists.runAll hd hnamed hrun
    have hstore : storeChunks K E home fileId x m batch t =
        runAll IoError (blobDir home fileId) (storeOps K E x m batch f) t :=
      storeChunks_eq hlists hd haccepts hacl
    rw [hrun] at hstore
    have hframe : Frame (storePlaces home fileId) t t₁ := by
      have hstored : Frame (storePlaces home fileId) t
          (storeChunks K E home fileId x m batch t).2 := touches_storeChunks t
      rwa [hstore] at hstored
    have haccepts₁ : Accepts K E home m x t₁ :=
      ⟨haccepts.signed, nodeIsRevoked_of_frame hframe haccepts.notRevoked⟩
    have hsame : t₁.accepts = t.accepts := hframe.grows.accepts
    obtain ⟨t', hpush, hrest⟩ := ih hlists₁ hd₁ haccepts₁ (by rw [readersIn_storeOps]; simp)
      (fun e he => by rw [hsame]; exact hblobs e (List.mem_append_right _ he))
      (by rw [hsame]; exact hmanifest) (by rw [hsame]; exact haclName)
    refine ⟨t', ?_, hrest⟩
    rw [pushBatches]
    simp only [coreServer, core, handleStorage, hstore, storeReply]
    exact hpush

theorem pushBatches_unreadable {bs : List (List EncryptedChunk)}
    (hlists : t.Lists (blobDir home fileId) f) (hd : t.HasDir (blobDir home fileId))
    (hacl : readersIn E f = none) (hne : bs ≠ []) :
    ∃ e, (pushBatches (coreServer K E home x debug) fileId m bs t).1 = .error e := by
  obtain ⟨batch, rest, rfl⟩ := List.exists_cons_of_ne_nil hne
  obtain ⟨e, he⟩ : ∃ e, (storeChunks K E home fileId x m batch t).1 = .error e :=
    storeChunks_unreadable hlists hd hacl
  rw [pushBatches]
  simp only [coreServer, core, handleStorage, he, storeReply]
  exact ⟨_, rfl⟩

/-! ### After the crash -/

theorem Interrupted.hasDir (h : Interrupted K E home fileId x debug m es f t t') :
    t.HasDir (blobDir home fileId) := hasDir_of_canPull h.pulls h.accepted.notRevoked

theorem Interrupted.frame (h : Interrupted K E home fileId x debug m es f t t') :
    Frame (storePlaces home fileId) t t' := by
  refine (h.crash.frame (N := {c | c ≠ "revocations.json"})
    (fun op hop => (named_storeOps hop).1) fun op hop c hc => (named_storeOps hop).2 c hc).mono ?_
  rintro l ⟨c, hc, rfl⟩
  exact ⟨c, hc, rfl⟩

/-- The manifest and the list of the readers stand there, as the file can be pulled. -/
theorem Interrupted.accepts (h : Interrupted K E home fileId x debug m es f t t') :
    t.accepts "manifest.json" = true ∧ t.accepts "acl.json" = true := by
  obtain ⟨⟨acl, hacl, hin⟩, m₀, hmanifest, -⟩ :=
    (canPull_iff h.lists h.hasDir h.accepted.notRevoked).1 h.pulls
  refine ⟨h.lists.accepted _ fun hnone => ?_, h.lists.accepted _ fun hnone => ?_⟩
  · rw [manifestIn, hnone] at hmanifest
    cases hmanifest
  · rw [readersIn, hnone] at hacl
    obtain rfl := Option.some.inj hacl
    cases hin

/-- **Nobody reads the file again** if the list of the readers cannot be read. -/
theorem not_recoverable_of_unreadable (hlists : t.Lists (blobDir home fileId) f)
    (hd : t.HasDir (blobDir home fileId)) (hacl : readersIn E f = none) :
    ¬ Recoverable K E home fileId x debug m all t := by
  have hnow : ¬ CanPull K E home fileId x debug t := by
    intro hpull
    obtain ⟨acl, hacl', -⟩ := (isReader_iff hlists hd).1 (isReader_of_canPull hpull)
    rw [hacl] at hacl'
    cases hacl'
  rintro (hpull | ⟨t', hpush, hpull⟩)
  · exact hnow hpull
  · by_cases hnil : batches E all = []
    · rw [pushChunks, hnil] at hpush
      obtain ⟨-, rfl⟩ := Prod.mk.inj hpush
      exact hnow hpull
    · obtain ⟨e, he⟩ : ∃ e,
          (pushBatches (coreServer K E home x debug) fileId m (batches E all) t).1 = .error e :=
        pushBatches_unreadable hlists hd hacl hnil
      rw [pushChunks] at hpush
      rw [hpush] at he
      cases he

/-- **A file is recoverable after a crash exactly if its directory survives**, whatever was carried
out before the crash. -/
theorem recoverable_iff (h : Interrupted K E home fileId x debug m es f t t')
    (hblobs : ∀ e ∈ all, t.accepts (blobName K E e ++ ".tmp") = true ∧
      t.accepts (blobName K E e) = true) :
    ∃ f', CrashFiles (storeOps K E x m es f) f f' ∧ t'.Lists (blobDir home fileId) f' ∧
      (Recoverable K E home fileId x debug m all t' ↔ Survives K E x m all f') := by
  obtain ⟨f', hfiles, hlists, hd⟩ :=
    h.lists.crash h.hasDir (fun op hop => (named_storeOps hop).1) h.crash
  refine ⟨f', hfiles, hlists, ?_⟩
  have haccepts : Accepts K E home m x t' :=
    ⟨h.accepted.signed, nodeIsRevoked_of_frame h.frame h.accepted.notRevoked⟩
  have hsame : t'.accepts = t.accepts := h.frame.grows.accepts
  have hnow : CanPull K E home fileId x debug t' ↔ Whole E (x.fingerprint K) f' :=
    canPull_iff hlists hd haccepts.notRevoked
  -- Readers that do not read back are refused to the pull, and to every later push as well.
  by_cases hacl : readersIn E f' = none
  · refine iff_of_false (not_recoverable_of_unreadable hlists hd hacl) ?_
    rintro (⟨⟨acl, hacl', -⟩, -⟩ | ⟨hreadable, -⟩)
    · rw [hacl] at hacl'
      cases hacl'
    · exact hreadable hacl
  · obtain ⟨t'', hpush, hlists'', hd'', hrevoked''⟩ : ∃ t'',
        pushBatches (coreServer K E home x debug) fileId m (batches E all) t' = (.ok (), t'') ∧
        t''.Lists (blobDir home fileId) (pushedFiles K E x m f' (batches E all)) ∧
        t''.HasDir (blobDir home fileId) ∧ nodeIsRevoked K E home x t'' = (.ok false, t'') :=
      pushBatches_lists hlists hd haccepts hacl (by rw [flatten_batches, hsame]; exact hblobs)
        (by rw [hsame]; exact h.accepts.1) (by rw [hsame]; exact h.accepts.2)
    have hthen : CanPull K E home fileId x debug t'' ↔
        Whole E (x.fingerprint K) (pushedFiles K E x m f' (batches E all)) :=
      canPull_iff hlists'' hd'' hrevoked''
    rw [Recoverable, Survives, hnow, ← hthen]
    refine or_congr_right ?_
    constructor
    · rintro ⟨t₁, hpush₁, hpull⟩
      rw [pushChunks, hpush] at hpush₁
      obtain ⟨-, rfl⟩ := Prod.mk.inj hpush₁
      exact ⟨hacl, hpull⟩
    · exact fun hsurvives => ⟨t'', hpush, hsurvives.2⟩

/-! ### A note whose readers are cut off -/

namespace Cut

/-- The files of a note of one chunk that its owner can read. -/
def files : List (String × Bytes) :=
  [("manifest.json", StorageEnv.sample.manifest.encode (Cabinet.manifest Cabinet.owner)),
    ("acl.json", StorageEnv.sample.names.encode Stack.readers),
    ("a", StorageEnv.sample.chunk.encode Cabinet.blob)]

/-- The core with these files. -/
def tree : Tree := Stack.shelf.putFiles (blobDir Cabinet.device "f").norm files

/-- The chunk, encrypted again. -/
def resealed : EncryptedChunk := ⟨0, digits 24 2, [9, 9]⟩

/-- The owner stores the chunk again. -/
def ops : List DirOp :=
  storeOps .sample .sample (Cabinet.owner.pub .sample) (Cabinet.manifest Cabinet.owner) [resealed]
    (contents files fun _ => none)

/-- All but the list of the readers is written. -/
def written : Tree := (runAll IoError (blobDir Cabinet.device "f") ops.dropLast tree).2

/-- The crash comes when the list of the readers is emptied to be written. -/
def emptied : Tree :=
  ((write ((blobDir Cabinet.device "f").join "acl.json") [] : FsM IoError Unit) written).2

theorem lists_tree : tree.Lists (blobDir Cabinet.device "f") (contents files fun _ => none) :=
  Stack.lists_shelf.putFiles files (by decide +kernel) fun _ _ => rfl

theorem accepts_tree (c : String) : tree.accepts c = true := by
  simp [tree, Tree.putFiles, files, Stack.shelf, Cabinet.disk, Tree.bare]

theorem ops_eq : ∃ b, ops = ops.dropLast ++ [.write "acl.json" b] :=
  ⟨_, (List.dropLast_append_getLast (by simp [ops, storeOps, aclOps])).symm⟩

theorem interrupted : Interrupted .sample .sample Cabinet.device "f" (Cabinet.owner.pub .sample)
    (fun _ => "reply") (Cabinet.manifest Cabinet.owner) [resealed] (contents files fun _ => none)
    tree emptied where
  lists := lists_tree
  pulls := ⟨1, Cabinet.manifest Cabinet.owner, [Cabinet.blob], by decide +kernel, by decide +kernel⟩
  accepted := by
    refine ⟨by decide +kernel, ?_⟩
    rw [nodeIsRevoked_eq, decide_eq_false (by decide +kernel)]
  crash := by
    obtain ⟨b, hb⟩ := ops_eq
    have hrun : (runAll IoError (blobDir Cabinet.device "f") ops.dropLast tree).1 = .ok () := by
      decide +kernel
    have hwrite : ((write ((blobDir Cabinet.device "f").join "acl.json") [] : FsM IoError Unit)
        written).1 = .ok () := by decide +kernel
    refine ⟨ops.dropLast, [.write "acl.json" b], written, hb, Prod.ext hrun ?_,
      .inr ⟨"acl.json", b, [], [], rfl, List.nil_prefix, Prod.ext hwrite ?_⟩⟩
    · rw [written]
    · rw [emptied]

end Cut

open Cut in
/-- Whether the note is recoverable is said by the files. -/
theorem recoverable_iff_cut :
    ∃ f', CrashFiles ops (contents files fun _ => none) f' ∧
      emptied.Lists (blobDir Cabinet.device "f") f' ∧
      (Recoverable .sample .sample Cabinet.device "f" (Cabinet.owner.pub .sample) (fun _ => "reply")
          (Cabinet.manifest Cabinet.owner) [resealed] emptied ↔
        Survives .sample .sample (Cabinet.owner.pub .sample) (Cabinet.manifest Cabinet.owner)
          [resealed] f') :=
  recoverable_iff interrupted fun _ _ => ⟨accepts_tree _, accepts_tree _⟩

open Cut in
/-- **The note is lost** when the crash comes at the list of the readers. -/
theorem not_recoverable :
    ¬ ∀ (K : Primitives) (E : StorageEnv) (home : Home) (fileId : String) (x : PublicIdentity)
      (debug : StorageFrame → String) (m : FileManifest) (es all : List EncryptedChunk)
      (f : String → Option Bytes) (t t' : Tree),
        Interrupted K E home fileId x debug m es f t t' →
          (∀ e ∈ all, t.accepts (blobName K E e ++ ".tmp") = true ∧
            t.accepts (blobName K E e) = true) →
            Recoverable K E home fileId x debug m all t' := by
  intro h
  have hrecoverable := h _ _ _ _ _ _ _ _ [resealed] _ _ _ interrupted fun _ _ =>
    ⟨accepts_tree _, accepts_tree _⟩
  obtain ⟨f', -, hlists, hd⟩ := lists_tree.crash interrupted.hasDir
    (fun op hop => (named_storeOps hop).1) interrupted.crash
  have hentry := hlists.entry "acl.json"
  have hempty : emptied.entry ("acl.json" :: (blobDir Cabinet.device "f").norm) =
      some (.file []) := by decide +kernel
  rw [hempty] at hentry
  have hacl : f' "acl.json" = some [] := by
    cases hf : f' "acl.json" with
    | none =>
      rw [hf] at hentry
      cases hentry
    | some b =>
      rw [hf, Option.map_some] at hentry
      rw [Entry.file.inj (Option.some.inj hentry)]
  refine not_recoverable_of_unreadable hlists hd ?_ hrecoverable
  rw [readersIn, hacl]
  decide +kernel

end Neonet
