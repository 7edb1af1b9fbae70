import Neonet.Storage.RoundTrip

/-!
# Pushing a file again

A core names a blob by the hash of the chunk as it is stored, and a chunk is encrypted with another
nonce each time.  What is pushed again is therefore stored a second time.

* `Attempt`, `pushAttempts` : pushes of a file that stop after some of their batches.
* `Repushed` : after such attempts the file is pushed to the end.
* `StoredOnce` : the core holds one blob for each index, and the file can be pulled back.
* `Shelved.pushAttempts` : **the batches of all attempts stay** with the core.
* `storedOnce_iff` : **the file is stored once exactly if no attempt sent a batch.**
* `not_storedOnce` : a note that is pushed twice.
-/

namespace Neonet

open FileTree

/-- A push of encrypted chunks that sends so many batches. -/
structure Attempt where
  sealed : List EncryptedChunk
  sent : ℕ

section Attempts

variable (K : Primitives) (E : StorageEnv) (A : Cipher) (key : ByteArr 32) (home : Home)
  (owner : Identity) (debug : StorageFrame → String)

/-- What an attempt leaves with the core. -/
def Attempt.stored (a : Attempt) : List EncryptedChunk := ((batches E a.sealed).take a.sent).flatten

/-- Attempts one after the other. -/
def pushAttempts {σ : Type} (S : Server σ) (fileId : String) (manifest : FileManifest) :
    List Attempt → σ → Except IoError Unit × σ
  | [], s => (.ok (), s)
  | a :: rest, s =>
    match pushBatches S fileId manifest ((batches E a.sealed).take a.sent) s with
    | (.error e, s') => (.error e, s')
    | (.ok (), s') => pushAttempts S fileId manifest rest s'

/-- A file with content is pushed to a core that holds nothing under its id, several times, each
time encrypted anew: first by some attempts, then to the end. -/
structure Repushed (path : PathBuf) (content : Bytes) (client core : Tree) (attempts : List Attempt)
    (nonces : ℕ → ByteArr 24) (m : FileManifest) (cs : List Chunk) (es : List EncryptedChunk)
    (core' : Tree) : Prop where
  read : (read path : FsM FileError Bytes) client = (.ok content, client)
  content : content ≠ []
  fresh : ∀ c, core.entry (c :: (blobDir home (manifestId K E.manifest m)).norm) = none
  sealed : ∀ a ∈ attempts, ∃ drawn, encryptAll A key drawn 0 cs = .ok a.sealed
  newlySealed : encryptAll A key nonces 0 cs = .ok es
  pushed : ∃ between,
    pushAttempts E (coreServer K E home (owner.pub K) debug) (manifestId K E.manifest m) m attempts
      core = (.ok (), between) ∧
    storePush K E A key (coreServer K E home (owner.pub K) debug) owner nonces path client between =
      (.ok (manifestId K E.manifest m, m, cs), core')
  /-- No nonce is drawn twice. -/
  nonces : ((attempts.flatMap Attempt.sealed ++ es).map EncryptedChunk.nonce).Nodup
  /-- No two chunks have the same hash. -/
  distinct : Distinct K E (attempts.flatMap Attempt.sealed ++ es)

/-- The core holds one blob for each index, and the file can be pulled back. -/
structure StoredOnce (content : Bytes) (client : Tree) (m : FileManifest) (cs : List Chunk)
    (core' : Tree) : Prop where
  once : ∃ held, HoldsChunks E home (manifestId K E.manifest m) (some m) held core' ∧
    (held.map fun e => e.index.toNat).Perm (List.range m.chunks.length)
  pulled : ∀ cwd output, (∃ l, client.place (destination cwd output m) = .ok l) →
    ∃ fuel client', (∀ n, fuel ≤ n →
        storePull K A key (coreServer K E home (owner.pub K) debug) (manifestId K E.manifest m) cwd
          output n core' client = (some (.ok (m, cs)), client')) ∧
      (FileTree.read (destination cwd output m) : FsM FileError Bytes) client' =
        (.ok content, client')

end Attempts

variable {K : Primitives} {E : StorageEnv} {A : Cipher} {key : ByteArr 32} {home : Home}
  {owner : Identity} {debug : StorageFrame → String} {path : PathBuf} {content : Bytes}
  {client core core' t t' : Tree} {attempts : List Attempt} {nonces : ℕ → ByteArr 24}
  {fileId : String} {x : PublicIdentity} {m : FileManifest} {cs : List Chunk}
  {es : List EncryptedChunk} {s : Shelf}

/-! ### What attempts leave -/

theorem Attempt.stored_prefix (a : Attempt) : a.stored E <+: a.sealed := by
  have hsplit := congrArg List.flatten (List.take_append_drop a.sent (batches E a.sealed))
  rw [List.flatten_append, flatten_batches] at hsplit
  exact ⟨_, hsplit⟩

theorem Attempt.stored_ne_nil {a : Attempt} (hne : a.sealed ≠ []) (hsent : a.sent ≠ 0) :
    a.stored E ≠ [] := by
  have hsome : batches E a.sealed ≠ [] := fun h => hne (batches_eq_nil.1 h)
  obtain ⟨batch, rest, hbatches⟩ := List.exists_cons_of_ne_nil hsome
  obtain ⟨n, hn⟩ := Nat.exists_eq_succ_of_ne_zero hsent
  have hbatch : batch ≠ [] := ne_nil_of_mem_batches (hbatches ▸ List.mem_cons_self)
  rw [stored, hbatches, hn, List.take_succ_cons, List.flatten_cons]
  simp [hbatch]

theorem sublist_flatMap_stored :
    (attempts.flatMap (Attempt.stored E)).Sublist (attempts.flatMap Attempt.sealed) := by
  induction attempts with
  | nil => exact List.Sublist.slnil
  | cons a attempts ih =>
    rw [List.flatMap_cons, List.flatMap_cons]
    exact (List.IsPrefix.sublist a.stored_prefix).append ih

theorem Shelved.pushBatches {bs : List (List EncryptedChunk)} (h : Shelved K E home fileId s t)
    (hp : (blobDir home fileId).Downward) (hdistinct : Distinct K E (s.blobs ++ bs.flatten))
    (hrun : pushBatches (coreServer K E home x debug) fileId m bs t = (.ok (), t')) :
    ∃ s', Shelved K E home fileId s' t' ∧ s'.blobs = s.blobs ++ bs.flatten := by
  by_cases hne : bs = []
  · subst hne
    obtain ⟨-, rfl⟩ := Prod.mk.inj hrun
    exact ⟨s, h, by simp⟩
  · obtain ⟨acl, hshelf, -⟩ := pushBatches_ok h hp hdistinct hne hrun
    exact ⟨_, hshelf, rfl⟩

/-- **The batches of all attempts stay** with the core. -/
theorem Shelved.pushAttempts (h : Shelved K E home fileId s t)
    (hp : (blobDir home fileId).Downward)
    (hdistinct : Distinct K E (s.blobs ++ attempts.flatMap (Attempt.stored E)))
    (hrun : pushAttempts E (coreServer K E home x debug) fileId m attempts t = (.ok (), t')) :
    ∃ s', Shelved K E home fileId s' t' ∧
      s'.blobs = s.blobs ++ attempts.flatMap (Attempt.stored E) := by
  induction attempts generalizing s t with
  | nil =>
    obtain ⟨-, rfl⟩ := Prod.mk.inj hrun
    exact ⟨s, h, by simp⟩
  | cons a attempts ih =>
    rw [Neonet.pushAttempts] at hrun
    cases hbatches : Neonet.pushBatches (coreServer K E home x debug) fileId m
        ((batches E a.sealed).take a.sent) t with
    | mk res t₁ =>
    rw [hbatches] at hrun
    cases res with
    | error e => cases hrun
    | ok =>
    rw [List.flatMap_cons, ← List.append_assoc] at hdistinct ⊢
    obtain ⟨s₁, h₁, hblobs⟩ :=
      h.pushBatches hp (hdistinct.mono (List.subset_append_left _ _)) hbatches
    have hstored : s₁.blobs = s.blobs ++ a.stored E := hblobs
    rw [← hstored] at hdistinct ⊢
    exact ih h₁ hdistinct hrun

/-! ### What the last push leaves -/

theorem HoldsChunks.perm {mo mo' : Option FileManifest} {es' : List EncryptedChunk}
    (h : HoldsChunks E home fileId mo es t) (h' : HoldsChunks E home fileId mo' es' t) :
    es.Perm es' := by
  obtain ⟨f, names, hlists, -, -, hnodup, hmem, hperm⟩ := h
  obtain ⟨f', names', hlists', -, -, hnodup', hmem', hperm'⟩ := h'
  obtain rfl : f = f' := by
    funext c
    have hentry := (hlists.entry c).symm.trans (hlists'.entry c)
    exact Option.map_injective (fun a b hab => by injection hab) hentry
  have hnames : names.Perm names' :=
    (List.perm_ext_iff_of_nodup hnodup hnodup').2 fun c => (hmem c).trans (hmem' c).symm
  exact (hperm.symm.trans (hnames.filterMap _)).trans hperm'

namespace Repushed

theorem chunks_ne_nil (h : Repushed K E A key home owner debug path content client core attempts
    nonces m cs es core') : cs ≠ [] := by
  obtain ⟨between, -, hpush⟩ := h.pushed
  obtain ⟨hbuild, -, -⟩ := storePush_ok hpush
  obtain ⟨-, content', hread', -, -, -, -, -, hnil⟩ := buildManifest_ok hbuild
  obtain rfl := Except.ok.inj (Prod.mk.inj (h.read.symm.trans hread')).1
  exact fun hcs => h.content (hnil.1 hcs)

/-- The chunks on the core are those of the attempts and of the last push. -/
theorem shelved (h : Repushed K E A key home owner debug path content client core attempts nonces m
    cs es core') :
    ∃ acl, Shelved K E home (manifestId K E.manifest m)
        ⟨some m, some acl, attempts.flatMap (Attempt.stored E) ++ es⟩ core' ∧
      core'.HasDir (blobDir home (manifestId K E.manifest m)) ∧
      (owner.pub K).fingerprint K ∈ acl ∧
      nodeIsRevoked K E home (owner.pub K) core' = (.ok false, core') := by
  obtain ⟨between, hpast, hpush⟩ := h.pushed
  obtain ⟨hbuild, -, es', hencrypt, hrun⟩ := storePush_ok hpush
  obtain rfl : es = es' := Except.ok.inj (h.newlySealed.symm.trans hencrypt)
  have hdistinct : Distinct K E (attempts.flatMap (Attempt.stored E) ++ es) :=
    h.distinct.mono (sublist_flatMap_stored.append_right es).subset
  obtain ⟨s, hshelf, hblobs⟩ := (shelved_empty h.fresh).pushAttempts downward_blobDir_manifestId
    (hdistinct.mono (List.subset_append_left _ _)) hpast
  obtain ⟨acl, hshelf', hd, hreader, hrevoked⟩ := pushBatches_ok hshelf downward_blobDir_manifestId
    (by rw [hblobs, flatten_batches]; exact hdistinct)
    (fun hnil => ne_nil_of_encryptAll hencrypt h.chunks_ne_nil (batches_eq_nil.1 hnil)) hrun
  rw [hblobs, flatten_batches] at hshelf'
  exact ⟨acl, hshelf', hd, hreader, hrevoked⟩

theorem storedOnce (h : Repushed K E A key home owner debug path content client core attempts nonces
    m cs es core') (hA : A.Inverts) (hsent : ∀ a ∈ attempts, a.sent = 0) :
    StoredOnce K E A key home owner debug content client m cs core' := by
  obtain ⟨acl, hshelf, hd, hreader, hrevoked⟩ := h.shelved
  obtain ⟨between, -, hpush⟩ := h.pushed
  obtain ⟨hbuild, -, -⟩ := storePush_ok hpush
  obtain ⟨-, content', hread', hm, -, hindex, -, -, -⟩ := buildManifest_ok hbuild
  have hnothing : attempts.flatMap (Attempt.stored E) = [] := by
    rw [List.flatMap_eq_nil_iff]
    intro a ha
    rw [Attempt.stored, hsent a ha]
    rfl
  rw [hnothing, List.nil_append] at hshelf
  have hinc := pairwise_of_encryptAll h.newlySealed hindex
  refine ⟨⟨es, hshelf.holds hd ?_, ?_⟩, fun cwd output hplace => ?_⟩
  · exact hinc.imp fun hlt heq => absurd (heq ▸ hlt) (UInt32.lt_irrefl _)
  · have hindices := congrArg (List.map UInt32.toNat) (map_index_encryptAll h.newlySealed)
    rw [List.map_map, List.map_map] at hindices
    have hcount : m.chunks.length = cs.length := by rw [hm]; exact List.length_map ..
    rw [hcount, ← hindex]
    exact .of_eq hindices
  · have hname : destination cwd output m =
        output.getD (cwd.join ((fileName path).getD "unnamed")) := by rw [hm]; rfl
    exact storePull_of_shelved hA hbuild h.read h.content (hname ▸ hplace) h.newlySealed hshelf hd
      hreader hrevoked

/-- If the file is stored once, no attempt sent a batch: its first chunk would still be there. -/
theorem sent_eq_zero (h : Repushed K E A key home owner debug path content client core attempts
    nonces m cs es core') (honce : StoredOnce K E A key home owner debug content client m cs core')
    {a : Attempt} (ha : a ∈ attempts) : a.sent = 0 := by
  by_contra hsent
  obtain ⟨acl, hshelf, hd, -, -⟩ := h.shelved
  obtain ⟨held, hheld, hindices⟩ := honce.once
  obtain ⟨drawn, hdrawn⟩ := h.sealed a ha
  -- a chunk of the attempt, and the one of the same index in the last push
  have hsub : (attempts.flatMap (Attempt.stored E) ++ es).Sublist
      (attempts.flatMap Attempt.sealed ++ es) := sublist_flatMap_stored.append_right es
  have hnonces := (hsub.map EncryptedChunk.nonce).nodup h.nonces
  have hnodup := List.Nodup.of_map _ hnonces
  have hsome : a.stored E ≠ [] :=
    Attempt.stored_ne_nil (ne_nil_of_encryptAll hdrawn h.chunks_ne_nil) hsent
  obtain ⟨e, rest, he⟩ := List.exists_cons_of_ne_nil hsome
  have hmem : e ∈ a.stored E := he ▸ List.mem_cons_self
  have hindex : e.index ∈ es.map EncryptedChunk.index := by
    rw [map_index_encryptAll h.newlySealed, ← map_index_encryptAll hdrawn]
    exact List.mem_map_of_mem (List.IsPrefix.subset a.stored_prefix hmem)
  obtain ⟨e', he', hsame⟩ := List.mem_map.1 hindex
  have hstored : e ∈ attempts.flatMap (Attempt.stored E) := List.mem_flatMap.2 ⟨a, ha, hmem⟩
  have hne : e ≠ e' := by
    rintro rfl
    exact List.disjoint_of_nodup_append hnodup hstored he'
  -- both are held
  have hperm := hheld.perm (hshelf.holds hd hnodup)
  have hdistinct : (held.map fun e => e.index.toNat).Nodup :=
    hindices.nodup_iff.2 List.nodup_range
  have hin : e ∈ held := hperm.mem_iff.2 (List.mem_append_left _ hstored)
  have hin' : e' ∈ held := hperm.mem_iff.2 (List.mem_append_right _ he')
  exact hne (List.inj_on_of_nodup_map hdistinct hin hin' (by rw [hsame]))

end Repushed

/-- **The file is stored once exactly if no attempt sent a batch.** -/
theorem storedOnce_iff (hA : A.Inverts)
    (h : Repushed K E A key home owner debug path content client core attempts nonces m cs es
      core') :
    StoredOnce K E A key home owner debug content client m cs core' ↔
      ∀ a ∈ attempts, a.sent = 0 :=
  ⟨fun honce _ ha => h.sent_eq_zero honce ha, h.storedOnce hA⟩

/-! ### A note that is pushed twice -/

theorem distinct_iff : Distinct K E es ↔ ∀ e ∈ es, ∀ e' ∈ es,
    K.hash (E.chunk.encode e) = K.hash (E.chunk.encode e') →
      E.chunk.encode e = E.chunk.encode e' := by
  constructor
  · exact fun h e he e' he' => h ⟨e, he, rfl⟩ ⟨e', he', rfl⟩
  · rintro h _ ⟨e, he, rfl⟩ _ ⟨e', he', rfl⟩
    exact h e he e' he'

namespace Desk

/-- The manifest and the chunks of a note of one byte. -/
def built : FileManifest × List Chunk :=
  (buildManifest .sample StorageEnv.sample.manifest ["note"] Cabinet.owner defaultChunkSize
    (disk [5])).1.toOption.getD (Cabinet.manifest Cabinet.owner, [])

/-- The id of the note. -/
abbrev noteId : String := manifestId .sample StorageEnv.sample.manifest built.1

/-- The nonces of another push. -/
def redrawn (i : ℕ) : ByteArr 24 := digits 24 (i + 1)

/-- The chunks of the note, encrypted with such nonces. -/
def sealedWith (nonces : ℕ → ByteArr 24) : List EncryptedChunk :=
  (encryptAll .sample storageKey nonces 0 built.2).toOption.getD []

/-- A push of the note that sends so many batches. -/
def attempt (n : ℕ) : Attempt := ⟨sealedWith redrawn, n⟩

/-- The core as the owner's server. -/
abbrev server : Server Tree :=
  coreServer .sample .sample Cabinet.device (Cabinet.owner.pub .sample) printed

/-- The core after the attempt. -/
def attempted (n : ℕ) : Tree :=
  (pushAttempts .sample server noteId built.1 [attempt n] Cabinet.disk).2

/-- The core after the last push. -/
def completed (n : ℕ) : Tree :=
  (storePush .sample .sample .sample storageKey server Cabinet.owner drawn ["note"] (disk [5])
    (attempted n)).2

theorem sealed_attempt (n : ℕ) :
    [attempt n].flatMap Attempt.sealed ++ sealedWith drawn =
      sealedWith redrawn ++ sealedWith drawn := by
  rw [List.flatMap_singleton, attempt]

theorem repushed_note {n : ℕ} (hn : n ≤ 1) :
    Repushed .sample .sample .sample storageKey Cabinet.device Cabinet.owner printed ["note"] [5]
      (disk [5]) Cabinet.disk [attempt n] drawn built.1 built.2 (sealedWith drawn)
        (completed n) where
  read := read_disk [5]
  content := by decide
  fresh := entry_core _
  sealed a ha := by
    obtain rfl := List.mem_singleton.1 ha
    have hsealed : encryptAll .sample storageKey redrawn 0 built.2 = .ok (sealedWith redrawn) := by
      decide +kernel
    exact ⟨redrawn, hsealed⟩
  newlySealed := by decide +kernel
  pushed := by
    have hcases : n = 0 ∨ n = 1 := by omega
    have hpast : (pushAttempts .sample server noteId built.1 [attempt n] Cabinet.disk).1 =
        .ok () := by
      rcases hcases with rfl | rfl
      · decide +kernel
      · decide +kernel
    have hpush : (storePush .sample .sample .sample storageKey server Cabinet.owner drawn ["note"]
        (disk [5]) (attempted n)).1 = .ok (noteId, built.1, built.2) := by
      rcases hcases with rfl | rfl
      · decide +kernel
      · decide +kernel
    refine ⟨attempted n, Prod.ext hpast ?_, Prod.ext hpush ?_⟩
    · rw [attempted]
    · rw [completed]
  nonces := by
    rw [sealed_attempt]
    decide +kernel
  distinct := by
    rw [sealed_attempt, distinct_iff]
    decide +kernel

end Desk

open Desk in
/-- An attempt that sends nothing does no harm. -/
theorem storedOnce_iff_note :
    StoredOnce .sample .sample .sample storageKey Cabinet.device Cabinet.owner printed [5]
      (disk [5]) built.1 built.2 (completed 0) :=
  (storedOnce_iff Cipher.inverts_sample (repushed_note (n := 0) (by decide))).2 (by decide)

open Desk in
/-- **A note that is pushed twice** is stored twice. -/
theorem not_storedOnce :
    ¬ ∀ (K : Primitives) (E : StorageEnv) (A : Cipher) (key : ByteArr 32) (home : Home)
      (owner : Identity) (debug : StorageFrame → String) (path : PathBuf) (content : Bytes)
      (client core : Tree) (attempts : List Attempt) (nonces : ℕ → ByteArr 24) (m : FileManifest)
      (cs : List Chunk) (es : List EncryptedChunk) (core' : Tree), A.Inverts →
        Repushed K E A key home owner debug path content client core attempts nonces m cs es
            core' →
          StoredOnce K E A key home owner debug content client m cs core' := by
  intro h
  have honce := h _ _ _ _ _ _ _ _ _ _ _ _ _ _ _ _ _ Cipher.inverts_sample
    (repushed_note (n := 1) le_rfl)
  have hsent := (repushed_note (n := 1) le_rfl).sent_eq_zero honce List.mem_cons_self
  exact absurd hsent (by decide)

end Neonet
