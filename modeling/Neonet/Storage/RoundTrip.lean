import Neonet.Storage.Paging

/-!
# Pushing a file and pulling it back

* `Shelf` : what a core holds under a file id, in the abstract; `Shelved` : the tree holds it.
* `Shelved.store` : **a store that is acknowledged** adds the chunks, replaces the manifest and
  makes the peer a reader.
* `Shelved.holds` : what a reader is sent are its manifest and its chunks.
* `pushBatches_ok`, `pullChunks_ok` : **all batches acknowledged**, and the chunks pulled back.
* `roundTrip_iff` : **a push that reports success can be pulled back exactly when the file is not
  empty**: of an empty file nothing is sent.
-/

namespace Neonet

open FileTree FsM

variable {K : Primitives} {E : StorageEnv} {A : Cipher} {key : ByteArr 32} {home : Home}
  {fileId : String} {t t' : Tree} {x : PublicIdentity} {m : FileManifest}
  {es : List EncryptedChunk} {f : String → Option Bytes}

/-! ### What a core holds -/

/-- What a core holds under a file id. -/
structure Shelf where
  manifest : Option FileManifest
  readers : Option (List String)
  blobs : List EncryptedChunk

namespace Shelf

/-- Nothing. -/
def empty : Shelf := ⟨none, none, []⟩

/-- A store that is acknowledged. -/
def store (s : Shelf) (manifest : FileManifest) (fingerprint : String)
    (chunks : List EncryptedChunk) : Shelf :=
  ⟨some manifest, some ((s.readers.getD []).insert fingerprint), s.blobs ++ chunks⟩

/-- The files of the shelf. -/
structure Files (K : Primitives) (E : StorageEnv) (s : Shelf)
    (f : String → Option Bytes) : Prop where
  manifest : f "manifest.json" = s.manifest.map E.manifest.encode
  acl : f "acl.json" = s.readers.map E.names.encode
  blobs : ∀ c, c ≠ "manifest.json" → c ≠ "acl.json" →
    ∀ b, f c = some b ↔ ∃ e ∈ s.blobs, blobName K E e = c ∧ E.chunk.encode e = b

theorem files_empty : empty.Files K E fun _ => none :=
  ⟨rfl, rfl, fun c _ _ b => by simp [empty]⟩

end Shelf

/-- No two of the chunks have the same hash, as they are stored. -/
def Distinct (K : Primitives) (E : StorageEnv) (es : List EncryptedChunk) : Prop :=
  Set.InjOn K.hash {b | ∃ e ∈ es, E.chunk.encode e = b}

theorem Distinct.mono {es' : List EncryptedChunk} (h : Distinct K E es') (hsub : es ⊆ es') :
    Distinct K E es := by
  intro a ⟨e, he, ha⟩ b ⟨e', he', hb⟩ hab
  exact h ⟨e, hsub he, ha⟩ ⟨e', hsub he', hb⟩ hab

theorem Distinct.eq_of_blobName (h : Distinct K E es) {a b : EncryptedChunk} (ha : a ∈ es)
    (hb : b ∈ es) (hab : blobName K E a = blobName K E b) : a = b :=
  E.chunk.encode_injective (h ⟨a, ha, rfl⟩ ⟨b, hb, rfl⟩ (Primitives.hash_of_hexHash hab))

theorem blobName_ne {s : String} (h : s.toList.length ≠ 64) (e : EncryptedChunk) :
    blobName K E e ≠ s := K.hexHash_ne h

theorem skipped_blobName (e : EncryptedChunk) : skipped (blobName K E e) = false := by
  have htmp : ".tmp".toList.isSuffixOf (blobName K E e).toList = false := by
    rw [Bool.eq_false_iff, ne_eq, List.isSuffixOf_iff_suffix]
    exact fun h => hex_no_dot _ (h.subset (by decide))
  rw [skipped, htmp, decide_eq_false (blobName_ne (by decide) e),
    decide_eq_false (blobName_ne (by decide) e)]
  rfl

theorem Shelf.Files.put {s : Shelf} {e : EncryptedChunk} (h : s.Files K E f)
    (hdistinct : Distinct K E (s.blobs ++ [e])) :
    ({ s with blobs := s.blobs ++ [e] } : Shelf).Files K E
      (Function.update (Function.update f (blobName K E e ++ ".tmp") none) (blobName K E e)
        (some (E.chunk.encode e))) := by
  have hlength := length_blobTmpName (K := K) (E := E) e
  have hold : ∀ c, c ≠ blobName K E e → c ≠ blobName K E e ++ ".tmp" →
      Function.update (Function.update f (blobName K E e ++ ".tmp") none) (blobName K E e)
        (some (E.chunk.encode e)) c = f c := by
    intro c h₁ h₂
    rw [Function.update_of_ne h₁, Function.update_of_ne h₂]
  refine ⟨?_, ?_, fun c hc hc' b => ?_⟩
  · rw [hold _ (blobName_ne (by decide) e).symm
        (ne_of_length (by rw [hlength]; decide)), h.manifest]
  · rw [hold _ (blobName_ne (by decide) e).symm (ne_of_length (by rw [hlength]; decide)), h.acl]
  · by_cases hname : c = blobName K E e
    · subst hname
      rw [Function.update_self]
      constructor
      · intro hb
        exact ⟨e, by simp, rfl, Option.some.inj hb⟩
      · rintro ⟨e', he', hsame, rfl⟩
        rw [hdistinct.eq_of_blobName he' (by simp) hsame]
    · by_cases htmp : c = blobName K E e ++ ".tmp"
      · rw [htmp, Function.update_of_ne (ne_of_length (by rw [hlength, length_blobName]; decide)),
          Function.update_self]
        constructor
        · intro hb; cases hb
        · rintro ⟨e', -, hsame, -⟩
          exact absurd hsame (blobName_ne (by rw [hlength]; decide) e')
      · rw [hold c hname htmp, h.blobs c hc hc']
        constructor
        · rintro ⟨e', he', hrest⟩
          exact ⟨e', List.mem_append_left _ he', hrest⟩
        · rintro ⟨e', he', hsame, hb⟩
          rcases List.mem_append.1 he' with he' | he'
          · exact ⟨e', he', hsame, hb⟩
          · obtain rfl := List.mem_singleton.1 he'
            exact absurd hsame.symm hname

theorem Shelf.Files.setManifest {s : Shelf} (h : s.Files K E f) :
    ({ s with manifest := some m } : Shelf).Files K E
      (Function.update f "manifest.json" (some (E.manifest.encode m))) := by
  refine ⟨Function.update_self .., ?_, fun c hc hc' b => ?_⟩
  · rw [Function.update_of_ne (by decide), h.acl]
  · rw [Function.update_of_ne hc, h.blobs c hc hc']

theorem Shelf.Files.setReaders {s : Shelf} {acl : List String} (h : s.Files K E f) :
    ({ s with readers := some acl } : Shelf).Files K E
      (Function.update f "acl.json" (some (E.names.encode acl))) := by
  refine ⟨?_, Function.update_self .., fun c hc hc' b => ?_⟩
  · rw [Function.update_of_ne (by decide), h.manifest]
  · rw [Function.update_of_ne hc', h.blobs c hc hc']

/-! ### The tree holds a shelf -/

/-- What stands in the directory of the file id are the files of the shelf. -/
def Shelved (K : Primitives) (E : StorageEnv) (home : Home) (fileId : String)
    (s : Shelf) (t : Tree) :
    Prop :=
  ∃ f, t.Lists (blobDir home fileId) f ∧ s.Files K E f

theorem shelved_empty (h : ∀ c, t.entry (c :: (blobDir home fileId).norm) = none) :
    Shelved K E home fileId .empty t :=
  ⟨fun _ => none, ⟨fun c => h c, fun _ hc => absurd rfl hc⟩, Shelf.files_empty⟩

theorem Shelved.putBlobs {s : Shelf} (h : Shelved K E home fileId s t)
    (hdistinct : Distinct K E (s.blobs ++ es))
    (hrun : forEach (putBlob K E home fileId) es t = (.ok (), t')) :
    Shelved K E home fileId { s with blobs := s.blobs ++ es } t' := by
  induction es generalizing s t with
  | nil =>
    obtain ⟨-, rfl⟩ := Prod.mk.inj hrun
    rwa [List.append_nil]
  | cons e es ih =>
    obtain ⟨_, t₁, hput, hrest⟩ := bind_ok.1 hrun
    obtain ⟨f, hlists, hfiles⟩ := h
    have hlists₁ := hlists.replaceFile (blobName_no_slash e) (plain_blobName e)
      (blobTmpName_no_slash e) (plain_append (by decide)) hput
    have hfiles₁ := hfiles.put (e := e) (hdistinct.mono (by simp))
    have hassoc : s.blobs ++ e :: es = (s.blobs ++ [e]) ++ es := by simp
    rw [hassoc] at hdistinct ⊢
    exact ih ⟨_, hlists₁, hfiles₁⟩ hdistinct hrest

theorem Shelved.readAcl {s : Shelf} (h : Shelved K E home fileId s t)
    (hd : t.HasDir (blobDir home fileId)) :
    readAcl E home fileId t = (.ok (s.readers.getD []), t) := by
  obtain ⟨f, hlists, hfiles⟩ := h
  refine (readAcl_eq hlists hd).1 _ ?_
  rw [readersIn, hfiles.acl]
  cases s.readers with
  | none => rfl
  | some acl => simp [E.names.decode_encode, Except.toOption]

/-- **A store that is acknowledged.** -/
theorem Shelved.store {s : Shelf} (h : Shelved K E home fileId s t)
    (hp : (blobDir home fileId).Downward) (hdistinct : Distinct K E (s.blobs ++ es))
    (hrun : storeChunks K E home fileId x m es t = (.ok (), t')) :
    Shelved K E home fileId (s.store m (x.fingerprint K) es) t' ∧
      t'.HasDir (blobDir home fileId) ∧ nodeIsRevoked K E home x t' = (.ok false, t') := by
  have haccepts := accepts_of_storeChunks hrun
  have hrevoked : nodeIsRevoked K E home x t' = (.ok false, t') := by
    have hframe : Frame (storePlaces home fileId) t (storeChunks K E home fileId x m es t).2 :=
      touches_storeChunks t
    rw [hrun] at hframe
    exact nodeIsRevoked_of_frame hframe haccepts.notRevoked
  rw [storeChunks_accepted haccepts] at hrun
  obtain ⟨_, t₄, hfiles, hreader⟩ := bind_ok.1 hrun
  -- the chunks and the manifest
  obtain ⟨_, t₁, hcreate, hrest⟩ := bind_ok.1 hfiles
  obtain ⟨_, t₂, hput, hwrite⟩ := bind_ok.1 hrest
  obtain ⟨f, hlists, hf⟩ := h
  obtain ⟨hlists₁, hd₁⟩ := hlists.createDirAll hp hcreate
  obtain ⟨f₂, hlists₂, hf₂⟩ := Shelved.putBlobs ⟨f, hlists₁, hf⟩ hdistinct hput
  have hlists₄ := hlists₂.write (by decide) (by decide) hwrite
  have hshelf₄ : Shelved K E home fileId ⟨some m, s.readers, s.blobs ++ es⟩ t₄ :=
    ⟨_, hlists₄, hf₂.setManifest⟩
  have hd₄ : t₄.HasDir (blobDir home fileId) := by
    have hgrows : t₁.Grows t₄ := by
      have h₂ : Touches Set.univ (forEach (putBlob K E home fileId) es) :=
        Touches.forEach fun _ _ => touches_replaceFile.mono (Set.subset_univ _)
      have h₃ := (h₂ t₁).grows
      rw [hput] at h₃
      have h₄ := (touches_write (ε := IoError) (p := storedManifestPath home fileId)
        (b := E.manifest.encode m) t₂).grows
      rw [hwrite] at h₄
      exact h₃.trans h₄
    exact hd₁.grows hgrows
  -- the list of the readers
  rw [addReader, bind_of_ok (hshelf₄.readAcl hd₄)] at hreader
  obtain ⟨_, t₅, hcreate', hwrite'⟩ := bind_ok.1 hreader
  rw [createDirAll_of_hasDir hd₄] at hcreate'
  obtain ⟨-, rfl⟩ := Prod.mk.inj hcreate'
  obtain ⟨f₄, hlists₄, hf₄⟩ := hshelf₄
  have hgrows := (touches_write (ε := IoError) (p := aclPath home fileId)
    (b := E.names.encode ((s.readers.getD []).insert (x.fingerprint K))) t₄).grows
  rw [hwrite'] at hgrows
  exact ⟨⟨_, hlists₄.write (by decide) (by decide) hwrite', hf₄.setReaders⟩, hd₄.grows hgrows,
    hrevoked⟩

/-! ### What a reader is sent -/

theorem Shelf.Files.heldIn_eq_some {s : Shelf} (h : s.Files K E f) {c : String}
    {e : EncryptedChunk} : heldIn E f c = some e ↔ e ∈ s.blobs ∧ c = blobName K E e := by
  constructor
  · intro hheld
    rw [heldIn] at hheld
    split at hheld
    · cases hheld
    · rename_i hskip
      have hne : c ≠ "manifest.json" ∧ c ≠ "acl.json" :=
        ⟨by rintro rfl; exact hskip (by decide), by rintro rfl; exact hskip (by decide)⟩
      obtain ⟨b, hb, hdecode⟩ := Option.bind_eq_some_iff.1 hheld
      obtain ⟨e', he', hname, rfl⟩ := (h.blobs c hne.1 hne.2 b).1 hb
      rw [E.chunk.decode_encode] at hdecode
      obtain rfl := Option.some.inj hdecode
      exact ⟨he', hname.symm⟩
  · rintro ⟨he, rfl⟩
    have hb := (h.blobs _ (blobName_ne (by decide) e) (blobName_ne (by decide) e) _).2
      ⟨e, he, rfl, rfl⟩
    rw [heldIn, skipped_blobName, hb]
    simp [E.chunk.decode_encode, Except.toOption]

/-- What a reader is sent are the manifest and the chunks. -/
theorem Shelved.holds {s : Shelf} (h : Shelved K E home fileId s t)
    (hd : t.HasDir (blobDir home fileId)) (hnodup : s.blobs.Nodup) :
    HoldsChunks E home fileId s.manifest s.blobs t := by
  obtain ⟨f, hlists, hfiles⟩ := h
  obtain ⟨names, -, hnames, hmem⟩ := hlists.readDir (ε := IoError) hd E.lists
  refine ⟨f, names, hlists, hd, ?_, hnames, hmem, ?_⟩
  · rw [manifestIn, hfiles.manifest]
    cases s.manifest with
    | none => rfl
    | some m => simp [E.manifest.decode_encode, Except.toOption]
  · have hheld : (names.filterMap (heldIn E f)).Nodup := by
      refine hnames.filterMap fun c c' e he he' => ?_
      rw [(hfiles.heldIn_eq_some.1 he).2, (hfiles.heldIn_eq_some.1 he').2]
    refine (List.perm_ext_iff_of_nodup hheld hnodup).2 fun e => ?_
    rw [List.mem_filterMap]
    constructor
    · rintro ⟨c, -, hc⟩
      exact (hfiles.heldIn_eq_some.1 hc).1
    · intro he
      have hheld := hfiles.heldIn_eq_some.2 ⟨he, rfl⟩
      refine ⟨blobName K E e, (hmem _).2 fun hnone => ?_, hheld⟩
      rw [heldIn, hnone, skipped_blobName] at hheld
      cases hheld

theorem Shelved.isReader {s : Shelf} {fingerprint : String} (h : Shelved K E home fileId s t)
    (hd : t.HasDir (blobDir home fileId)) (hmem : fingerprint ∈ s.readers.getD []) :
    IsReader E home fileId fingerprint t := ⟨_, congrArg Prod.fst (h.readAcl hd), hmem⟩

/-! ### The loops of the client -/

section Loops

variable {debug : StorageFrame → String}

/-- **Pushing.**  If every batch is acknowledged, all chunks are on the shelf, with the manifest,
and the peer is a reader. -/
theorem pushBatches_ok {s : Shelf} {bs : List (List EncryptedChunk)}
    (h : Shelved K E home fileId s t) (hp : (blobDir home fileId).Downward)
    (hdistinct : Distinct K E (s.blobs ++ bs.flatten)) (hne : bs ≠ [])
    (hrun : pushBatches (coreServer K E home x debug) fileId m bs t = (.ok (), t')) :
    ∃ acl, Shelved K E home fileId ⟨some m, some acl, s.blobs ++ bs.flatten⟩ t' ∧
      t'.HasDir (blobDir home fileId) ∧ x.fingerprint K ∈ acl ∧
        nodeIsRevoked K E home x t' = (.ok false, t') := by
  induction bs generalizing s t with
  | nil => exact absurd rfl hne
  | cons batch bs ih =>
    rw [pushBatches] at hrun
    simp only [coreServer, core, handleStorage] at hrun
    cases hstore : storeChunks K E home fileId x m batch t with
    | mk res t₁ =>
    rw [hstore] at hrun
    cases res with
    | error e => cases hrun
    | ok =>
    have hassoc : s.blobs ++ (batch :: bs).flatten = (s.blobs ++ batch) ++ bs.flatten := by simp
    rw [hassoc] at hdistinct ⊢
    obtain ⟨h₁, hd₁, hr₁⟩ := h.store hp (hdistinct.mono (List.subset_append_left _ _)) hstore
    by_cases hbs : bs = []
    · subst hbs
      obtain ⟨-, rfl⟩ := Prod.mk.inj hrun
      rw [List.flatten_nil, List.append_nil]
      exact ⟨_, h₁, hd₁, List.mem_insert_self, hr₁⟩
    · exact ih h₁ hdistinct hbs hrun

end Loops

/-! ### Both commands -/

section Commands

variable (K : Primitives) (E : StorageEnv) (A : Cipher) (key : ByteArr 32) (home : Home)
  (owner : Identity) (debug : StorageFrame → String) (nonces : ℕ → ByteArr 24)
  (path cwd : PathBuf) (output : Option PathBuf)

/-- If the push reports success, the pull returns the same manifest and the same chunks after
finitely many rounds, and writes the content. -/
def RoundTrip (content : Bytes) (client core : Tree) : Prop :=
  ∀ fileId m cs core',
    storePush K E A key (coreServer K E home (owner.pub K) debug) owner nonces path client core =
        (.ok (fileId, m, cs), core') →
      ∃ fuel client', (∀ n, fuel ≤ n →
        storePull K A key (coreServer K E home (owner.pub K) debug) fileId cwd output n
            core' client =
          (some (.ok (m, cs)), client')) ∧
        (read (destination cwd output m) : FsM FileError Bytes) client' = (.ok content, client')

end Commands

variable {owner : Identity} {debug : StorageFrame → String} {nonces : ℕ → ByteArr 24}
  {path cwd : PathBuf} {output : Option PathBuf} {content : Bytes} {client core : Tree}
  {cs : List Chunk}

theorem downward_blobDir (hs : '/' ∉ fileId.toList) (hp : Plain fileId) :
    (blobDir home fileId).Downward := by
  rw [blobDir, blobsDir, PathBuf.join_of_no_slash hs, PathBuf.join_of_no_slash (by decide)]
  intro c hc
  rcases List.mem_append.1 hc with hc | hc
  · rcases List.mem_append.1 hc with hc | hc
    · exact downward_home home c hc
    · rw [List.mem_singleton.1 hc]
      decide
  · rw [List.mem_singleton.1 hc]
    exact hp.2.2

theorem pairwise_of_encryptAll (h : encryptAll A key nonces 0 cs = .ok es)
    (hindex : cs.map (fun c => c.index.toNat) = List.range cs.length) :
    es.Pairwise fun a b => a.index < b.index := by
  have hindices : es.map (fun e => e.index.toNat) = List.range cs.length := by
    rw [← hindex]
    have hmap := congrArg (List.map UInt32.toNat) (map_index_encryptAll h)
    rwa [List.map_map, List.map_map] at hmap
  have hsorted : (es.map fun e => e.index.toNat).Pairwise (· < ·) :=
    hindices ▸ List.pairwise_lt_range
  exact (List.pairwise_map.1 hsorted).imp fun h => UInt32.lt_iff_toNat_lt.2 h

/-- The pull of a file whose chunks are all on the shelf. -/
theorem pullChunks_ok {acl : List String}
    (h : Shelved K E home fileId ⟨some m, some acl, es⟩ t) (hd : t.HasDir (blobDir home fileId))
    (hreader : x.fingerprint K ∈ acl) (hrevoked : nodeIsRevoked K E home x t = (.ok false, t))
    (hinc : es.Pairwise fun a b => a.index < b.index) (hne : es ≠ [])
    (hlen : es.length = m.chunks.length) (hbound : es.length < 2 ^ 32) {fuel : ℕ}
    (hfuel : es.length ≤ fuel) :
    (pullChunks (coreServer K E home x debug) fileId fuel t).1 = some (.ok (m, es)) := by
  have hnodup : es.Nodup := hinc.imp fun hlt heq => absurd (heq ▸ hlt) (UInt32.lt_irrefl _)
  obtain ⟨held, hperm, hpull⟩ := (h.holds hd hnodup).pull (h.isReader hd hreader) hrevoked debug
    (hlen ▸ List.length_pos_of_ne_nil hne) (by omega)
  obtain ⟨r, hr, hok, -⟩ := hpull fuel (by omega)
  -- the last page ends with the last chunk
  rw [sortHeld_eq hperm hinc, ← hlen, List.take_length] at hok
  rw [hr, hok Pages.end_length]

/-- **An empty file is pushed but cannot be pulled back**: nothing is sent, so the core knows
nothing of it. -/
theorem not_roundTrip_nil (hread : (read path : FsM FileError Bytes) client = (.ok [], client))
    (hfresh : ∀ m cs, (buildManifest K E.manifest path owner defaultChunkSize
        client).1 = .ok (m, cs) →
      ∀ c, core.entry (c :: (blobDir home (manifestId K E.manifest m)).norm) = none) :
    ¬ RoundTrip K E A key home owner debug nonces path cwd output [] client core := by
  intro hround
  -- of an empty file nothing is pushed, and nothing can be fetched
  obtain ⟨m, hbuild⟩ : ∃ m, buildManifest K E.manifest path owner defaultChunkSize client =
      (.ok (m, []), client) := by
    refine ⟨(unsignedManifest K path owner defaultChunkSize [] []).signed K E.manifest owner, ?_⟩
    rw [buildManifest, if_neg (by decide), bind_of_ok hread]
    rfl
  have hpush : storePush K E A key (coreServer K E home (owner.pub K) debug) owner nonces path
      client core = (.ok (manifestId K E.manifest m, m, []), core) := by
    simp only [storePush, hbuild]
    rfl
  obtain ⟨fuel, client', hpull, -⟩ := hround _ _ _ _ hpush
  have hpull := hpull (fuel + 1) (Nat.le_succ _)
  have hacl : core.file? (aclPath home (manifestId K E.manifest m)).norm = none := by
    rw [norm_aclPath, Tree.file?_eq_none, hfresh m [] (by rw [hbuild])]
    simp
  have hreader : ¬ IsReader E home (manifestId K E.manifest m) ((owner.pub K).fingerprint K) core :=
    Unlisted.not_isReader fun b acl hb => by
      rw [hacl] at hb
      cases hb
  obtain ⟨e, he⟩ := fetchChunks_refused hreader 0
  simp only [storePull, pullChunks, pullLoop, coreServer, core_fetch, he] at hpull
  cases hpull

theorem ne_nil_of_encryptAll (h : encryptAll A key nonces 0 cs = .ok es) (hcs : cs ≠ []) :
    es ≠ [] := by
  rintro rfl
  have hmap := map_index_encryptAll h
  exact hcs (List.map_eq_nil_iff.1 hmap.symm)

/-- **A file whose chunks are all on the shelf is pulled back**: the client takes them, decrypts
them and writes them out. -/
theorem storePull_of_shelved {acl : List String} (hA : A.Inverts)
    (hbuild : buildManifest K E.manifest path owner defaultChunkSize client =
      (.ok (m, cs), client))
    (hread : (read path : FsM FileError Bytes) client = (.ok content, client)) (hne : content ≠ [])
    (hplace : ∃ l, client.place (output.getD (cwd.join ((fileName path).getD "unnamed"))) = .ok l)
    (hencrypt : encryptAll A key nonces 0 cs = .ok es)
    (hshelf : Shelved K E home fileId ⟨some m, some acl, es⟩ core)
    (hd : core.HasDir (blobDir home fileId)) (hreader : x.fingerprint K ∈ acl)
    (hrevoked : nodeIsRevoked K E home x core = (.ok false, core)) :
    ∃ fuel client', (∀ n, fuel ≤ n →
        storePull K A key (coreServer K E home x debug) fileId cwd output n core client =
          (some (.ok (m, cs)), client')) ∧
      (read (destination cwd output m) : FsM FileError Bytes) client' = (.ok content, client') := by
  obtain ⟨-, content', hread', hm, hchunks, hindex, hbound, hflat, hnil⟩ := buildManifest_ok hbuild
  obtain rfl : content = content' :=
    Except.ok.inj (Prod.mk.inj (hread.symm.trans hread')).1
  have hlen : es.length = cs.length := by
    simpa using congrArg List.length (map_index_encryptAll hencrypt)
  have hmchunks : m.chunks = cs.map Chunk.hash := by rw [hm]; rfl
  have hsize : m.totalSize.toNat = content.length := by
    have hsmall : content.length < 2 ^ 64 := by
      have hle := length_flatten_le fun c hc => (hchunks c hc).2
      rw [hflat, defaultChunkSize] at hle
      omega
    rw [hm]
    exact UInt64.toNat_ofNat_of_lt' hsmall
  -- The node serves the sealed chunks in the order of their indices, so the pull collects `es`.
  have hpull : ∀ n, es.length ≤ n →
      (pullChunks (coreServer K E home x debug) fileId n core).1 = some (.ok (m, es)) := fun n hn =>
    pullChunks_ok hshelf hd hreader hrevoked (pairwise_of_encryptAll hencrypt hindex)
      (ne_nil_of_encryptAll hencrypt fun h => hne (hnil.1 h))
      (by rw [hlen, hmchunks, List.length_map]) (by rw [hlen]; exact hbound) hn
  have hdecrypt := decryptAll_encryptAll hA hencrypt fun c hc => (hchunks c hc).1
  obtain ⟨l, hl⟩ := hplace
  have hdest : destination cwd output m =
      output.getD (cwd.join ((fileName path).getD "unnamed")) := by rw [hm]; rfl
  rw [← hdest] at hl
  -- Decrypting gives back `cs`, which the client's sort leaves as it is.
  have hsorted : sortByIndex cs = cs := sortByIndex_of_perm (.refl _) hindex
  have hdata : (sortByIndex cs).flatMap Chunk.data = content := by
    rw [hsorted, List.flatMap_def, hflat]
  have hwrite : reconstruct K m cs (destination cwd output m) client =
      (.ok (), client.putFile l content) :=
    reconstruct_ok.2 ⟨l, hl, verifyChunk_of_range hmchunks hindex fun c hc => (hchunks c hc).1,
      by rw [hdata, hsize], by rw [hdata]⟩
  refine ⟨es.length, client.putFile l content, fun n hn => ?_, read_of_hasFile (hasFile_putFile hl)⟩
  simp only [storePull, hpull n hn, hdecrypt, hwrite]

theorem downward_blobDir_manifestId :
    (blobDir home (manifestId K E.manifest m)).Downward :=
  downward_blobDir (K.hexHash_no_slash _) (K.plain_hexHash _)

theorem roundTrip_of_ne_nil (hA : A.Inverts)
    (hread : (read path : FsM FileError Bytes) client = (.ok content, client))
    (hplace : ∃ l, client.place (output.getD (cwd.join ((fileName path).getD "unnamed"))) = .ok l)
    (hfresh : ∀ m cs, (buildManifest K E.manifest path owner defaultChunkSize
        client).1 = .ok (m, cs) →
      ∀ c, core.entry (c :: (blobDir home (manifestId K E.manifest m)).norm) = none)
    (hdistinct : ∀ m cs es,
      (buildManifest K E.manifest path owner defaultChunkSize client).1 = .ok (m, cs) →
        encryptAll A key nonces 0 cs = .ok es → Distinct K E es)
    (hne : content ≠ []) :
    RoundTrip K E A key home owner debug nonces path cwd output content client core := by
  intro fileId m cs core' hpush
  obtain ⟨hbuild, rfl, es, hencrypt, hrun⟩ := storePush_ok hpush
  have hcs : cs ≠ [] := by
    obtain ⟨-, content', hread', -, -, -, -, -, hnil⟩ := buildManifest_ok hbuild
    obtain rfl := Except.ok.inj (Prod.mk.inj (hread.symm.trans hread')).1
    exact fun h => hne (hnil.1 h)
  -- the core holds all chunks
  obtain ⟨acl, hshelf, hd, hreader, hrevoked⟩ := pushBatches_ok
    (shelved_empty (hfresh m cs (by rw [hbuild]))) downward_blobDir_manifestId
    (by rw [flatten_batches]; exact hdistinct m cs es (by rw [hbuild]) hencrypt)
    (fun h => ne_nil_of_encryptAll hencrypt hcs (batches_eq_nil.1 h)) hrun
  rw [flatten_batches] at hshelf
  exact storePull_of_shelved hA hbuild hread hne hplace hencrypt hshelf hd hreader hrevoked

/-- **A push that reports success can be pulled back exactly when the file is not empty.** -/
theorem roundTrip_iff (hA : A.Inverts)
    (hread : (read path : FsM FileError Bytes) client = (.ok content, client))
    (hplace : ∃ l, client.place (output.getD (cwd.join ((fileName path).getD "unnamed"))) = .ok l)
    (hfresh : ∀ m cs, (buildManifest K E.manifest path owner defaultChunkSize
        client).1 = .ok (m, cs) →
      ∀ c, core.entry (c :: (blobDir home (manifestId K E.manifest m)).norm) = none)
    (hdistinct : ∀ m cs es,
      (buildManifest K E.manifest path owner defaultChunkSize client).1 = .ok (m, cs) →
        encryptAll A key nonces 0 cs = .ok es → Distinct K E es) :
    RoundTrip K E A key home owner debug nonces path cwd output content client core ↔
      content ≠ [] := by
  constructor
  · rintro hround rfl
    exact not_roundTrip_nil hread hfresh hround
  · exact roundTrip_of_ne_nil hA hread hplace hfresh hdistinct

/-! ### A note -/

namespace Desk

/-- The client's disk, with a note. -/
def disk (content : Bytes) : Tree := (Tree.bare fun _ => true).putFile ["note"] content

/-- The nonces, as they are drawn. -/
def drawn (i : ℕ) : ByteArr 24 := digits 24 i

/-- The storage key. -/
def storageKey : ByteArr 32 := digits 32 9

/-- What is printed of a reply. -/
def printed (_ : StorageFrame) : String := "reply"

theorem read_disk (content : Bytes) :
    (read ["note"] : FsM FileError Bytes) (disk content) = (.ok content, disk content) :=
  read_of_hasFile (hasFile_putFile (by decide +kernel))

theorem distinct_of_length_le (h : es.length ≤ 1) : Distinct K E es := by
  rintro a ⟨e, he, rfl⟩ b ⟨e', he', rfl⟩ -
  match es, h with
  | [x], _ => rw [List.mem_singleton.1 he, List.mem_singleton.1 he']

theorem distinct_note {es : List EncryptedChunk}
    (hshort : (buildManifest .sample StorageEnv.sample.manifest ["note"] Cabinet.owner
      defaultChunkSize (disk content)).1.toOption.all (fun r => r.2.length ≤ 1) = true)
    (hbuild : (buildManifest .sample StorageEnv.sample.manifest ["note"] Cabinet.owner
      defaultChunkSize (disk content)).1 = .ok (m, cs))
    (hencrypt : encryptAll .sample storageKey drawn 0 cs = .ok es) : Distinct K E es := by
  rw [hbuild] at hshort
  have hcs : cs.length ≤ 1 := of_decide_eq_true hshort
  have hmap := congrArg List.length (map_index_encryptAll hencrypt)
  rw [List.length_map, List.length_map] at hmap
  exact distinct_of_length_le (hmap ▸ hcs)

theorem entry_core (fileId c : String) :
    Cabinet.disk.entry (c :: (blobDir Cabinet.device fileId).norm) = none :=
  Tree.entry_bare_cons

end Desk

open Desk in
/-- A note of one byte comes back. -/
theorem roundTrip_iff_note :
    RoundTrip .sample .sample .sample storageKey Cabinet.device Cabinet.owner printed drawn
      ["note"] [] none [5] (disk [5]) Cabinet.disk :=
  (roundTrip_iff Cipher.inverts_sample (read_disk [5]) ⟨["note"], by decide +kernel⟩
    (fun _ _ _ _ => entry_core _ _) fun _ _ _ => distinct_note (by decide +kernel)).2 (by decide)

open Desk in
/-- **An empty note does not**, though the push reports success. -/
theorem not_roundTrip :
    ¬ ∀ (K : Primitives) (E : StorageEnv) (A : Cipher) (key : ByteArr 32) (home : Home)
      (owner : Identity) (debug : StorageFrame → String) (nonces : ℕ → ByteArr 24)
      (path cwd : PathBuf) (output : Option PathBuf) (content : Bytes) (client core : Tree),
        A.Inverts → (read path : FsM FileError Bytes) client = (.ok content, client) →
          (∃ l, client.place (output.getD (cwd.join ((fileName path).getD "unnamed"))) = .ok l) →
            (∀ m cs, (buildManifest K E.manifest path owner defaultChunkSize
                client).1 = .ok (m, cs) →
              ∀ c, core.entry (c :: (blobDir home (manifestId K E.manifest m)).norm) = none) →
              (∀ m cs es,
                (buildManifest K E.manifest path owner defaultChunkSize client).1 = .ok (m, cs) →
                  encryptAll A key nonces 0 cs = .ok es → Distinct K E es) →
                RoundTrip K E A key home owner debug nonces path cwd output content
                    client core := by
  intro h
  exact not_roundTrip_nil (read_disk []) (fun _ _ _ _ => entry_core _ _)
    (h .sample .sample .sample storageKey Cabinet.device Cabinet.owner printed drawn
        ["note"] [] none
      [] (disk []) Cabinet.disk Cipher.inverts_sample (read_disk []) ⟨["note"], by decide +kernel⟩
      (fun _ _ _ _ => entry_core _ _) fun _ _ _ => distinct_note (by decide +kernel))

end Neonet
