import Neonet.Storage.Client
import Neonet.Storage.Access

/-!
# What a core can make of a file

A client that pulls takes the first manifest it is sent for the manifest of the file.  It verifies
each chunk against that manifest, but it does not compare the manifest with the file id, and it
does not look whether an index occurs twice.

* `Push` : a push of the client, with whatever it was replied.
* `Restores` : a pull that succeeds writes the content of the file that was pushed under the id.
* `pullLoop_served` : what a pull collects is a beginning of what is served.
* `map_data_eq` : **the manifest fixes the data**: chunks that verify against it and count up
  are those it was made of, unless hashes collide.
* `restores` : **a core whose manifest belongs to the file id, and that repeats no index, cannot
  show the content**, whatever else it replies.
* `not_restores` : the core sends the manifest and the chunk of another file.
-/

namespace Neonet

open FileTree

/-- A push: what is read, which nonces are drawn, and what is replied. -/
structure Push where
  path : PathBuf
  disk : Tree
  nonces : ℕ → ByteArr 24
  replies : List (Except IoError Reply)

/-- No two of the inputs have the same hash. -/
def NoCollision (K : Primitives) (inputs : List Bytes) : Prop :=
  ∀ a ∈ inputs, ∀ b ∈ inputs, K.hash a = K.hash b → a = b

instance (K : Primitives) (inputs : List Bytes) : Decidable (NoCollision K inputs) :=
  inferInstanceAs (Decidable (∀ a ∈ inputs, ∀ b ∈ inputs, K.hash a = K.hash b → a = b))

/-- Identities whose keys do not collide are known by their fingerprints. -/
theorem NoCollision.eq_of_fingerprint {K : Primitives} {xs : List PublicIdentity}
    {x y : PublicIdentity} (h : NoCollision K (xs.map (·.publicKey.toList))) (hx : x ∈ xs)
    (hy : y ∈ xs) (heq : x.fingerprint K = y.fingerprint K) : x = y := by
  have hkey : x.publicKey.toList = y.publicKey.toList :=
    h _ (List.mem_map_of_mem hx) _ (List.mem_map_of_mem hy) (Primitives.hash_of_hexHash heq)
  cases x
  cases y
  exact congrArg _ (Subtype.ext hkey)

/-- The manifest in a reply. -/
def Reply.manifest (r : Reply) : Option FileManifest :=
  match r.frame with
  | some (.storedChunks _ manifest _) => manifest
  | _ => none

/-- The chunks in a reply. -/
def Reply.chunks (r : Reply) : List EncryptedChunk :=
  match r.frame with
  | some (.storedChunks _ _ page) => page
  | _ => []

/-- The manifests in some replies. -/
def servedManifests (replies : List (Except IoError Reply)) : List FileManifest :=
  replies.filterMap fun r => r.toOption.bind Reply.manifest

/-- The chunks in some replies. -/
def servedChunks (replies : List (Except IoError Reply)) : List EncryptedChunk :=
  replies.flatMap fun r => (r.toOption.map Reply.chunks).getD []

section Commands

variable (K : Primitives) (E : StorageEnv) (A : Cipher) (key : ByteArr 32) (owner : Identity)

/-- What a push comes to. -/
def Push.result (p : Push) : Except CommandError (String × FileManifest × List Chunk) :=
  (storePush K E A key script owner p.nonces p.path p.disk p.replies).1

/-- The manifest that was pushed. -/
def Push.manifests (p : Push) : List FileManifest :=
  match p.result K E A key owner with
  | .ok (_, manifest, _) => [manifest]
  | .error _ => []

/-- The chunks, as they were pushed. -/
def Push.sealed (p : Push) : List EncryptedChunk :=
  match p.result K E A key owner with
  | .ok (_, _, chunks) => (encryptAll A key p.nonces 0 chunks).toOption.getD []
  | .error _ => []

/-- What was hashed for a push. -/
def Push.hashed (p : Push) : List Bytes :=
  match p.result K E A key owner with
  | .ok (_, manifest, chunks) => manifest.unsignedBytes E.manifest :: chunks.map Chunk.data
  | .error _ => []

/-- What may be hashed of some replies. -/
def hashedServed (replies : List (Except IoError Reply)) : List Bytes :=
  (servedManifests replies).map (fun m => m.unsignedBytes E.manifest) ++
    (servedChunks replies).filterMap fun e => (decryptChunk K A key e).toOption.map Chunk.data

/-- A core that was pushed nothing else replies with manifests and chunks that it has seen. -/
def Seen (pushes : List Push) (replies : List (Except IoError Reply)) : Prop :=
  servedManifests replies ⊆ pushes.flatMap (Push.manifests K E A key owner) ∧
    servedChunks replies ⊆ pushes.flatMap (Push.sealed K E A key owner)

/-- A pull that succeeds writes the content of the file whose push printed the file id. -/
def Restores (pushes : List Push) (fileId : String) (replies : List (Except IoError Reply))
    (cwd : PathBuf) (output : Option PathBuf) (client : Tree) : Prop :=
  ∀ p ∈ pushes, ∀ m cs content, p.result K E A key owner = .ok (fileId, m, cs) →
    (read p.path : FsM FileError Bytes) p.disk = (.ok content, p.disk) →
      ∀ fuel m' cs' client',
        storePull K A key script fileId cwd output fuel replies client =
            (some (.ok (m', cs')), client') →
          (read (destination cwd output m') : FsM FileError Bytes) client' = (.ok content, client')

end Commands

variable {K : Primitives} {E : StorageEnv} {A : Cipher} {key : ByteArr 32} {owner : Identity}
  {pushes : List Push} {fileId : String} {replies : List (Except IoError Reply)}
  {cwd : PathBuf} {output : Option PathBuf} {client : Tree} {m m' : FileManifest}
  {cs cs' : List Chunk} {es : List EncryptedChunk}

/-! ### What a pull collects -/

theorem servedManifests_cons {r : Reply} :
    servedManifests (.ok r :: replies) = r.manifest.toList ++ servedManifests replies := by
  rw [servedManifests, List.filterMap_cons]
  cases h : r.manifest <;> simp [Except.toOption, h, servedManifests]

theorem servedChunks_cons {r : Reply} :
    servedChunks (.ok r :: replies) = r.chunks ++ servedChunks replies := rfl

theorem finish_ok {p : Pulled} (h : p.finish fileId = .ok (m, es)) :
    p.manifest = some m ∧ p.collected.length = m.chunks.length ∧ es = sortHeld p.collected := by
  rw [Pulled.finish] at h
  cases hm : p.manifest with
  | none => rw [hm] at h; cases h
  | some manifest =>
    rw [hm] at h
    dsimp only at h
    split at h
    · cases h
    · rename_i hlen
      obtain ⟨rfl, rfl⟩ := Prod.mk.inj (Except.ok.inj h)
      exact ⟨rfl, not_not.1 hlen, rfl⟩

/-- **What a pull collects** is a beginning of what is served, and its manifest is the first. -/
theorem pullLoop_served {fuel : ℕ} {p : Pulled} {rest : List (Except IoError Reply)}
    (h : pullLoop script fileId fuel p replies = (some (.ok (m, es)), rest)) :
    p.manifest.or (servedManifests replies).head? = some m ∧ ∃ collected,
      collected <+: p.collected ++ servedChunks replies ∧ collected.length = m.chunks.length ∧
        es = sortHeld collected := by
  induction fuel generalizing p replies with
  | zero => cases h
  | succ fuel ih =>
    cases replies with
    | nil => cases h
    | cons reply replies =>
    cases reply with
    | error e => cases h
    | ok r =>
    rw [pullLoop] at h
    dsimp only [script] at h
    cases hframe : r.frame with
    | none => rw [hframe] at h; cases h
    | some frame =>
    rw [hframe] at h
    cases frame with
    | storeChunks | storeAck | fetchChunks | error => cases h
    | storedChunks id manifest page =>
    have hmanifest : r.manifest = manifest := by rw [Reply.manifest, hframe]
    have hchunks : r.chunks = page := by rw [Reply.chunks, hframe]
    rw [servedManifests_cons, servedChunks_cons, hmanifest, hchunks]
    have hhead : p.manifest.or (manifest.toList ++ servedManifests replies).head? =
        (p.add manifest page).manifest.or (servedManifests replies).head? := by
      cases hp : p.manifest <;> cases manifest <;> simp [Pulled.add, hp]
    dsimp only at h
    split at h
    · -- the last page
      obtain ⟨hm, hlen, rfl⟩ := finish_ok (Option.some.inj (Prod.mk.inj h).1)
      rw [hhead, hm]
      exact ⟨rfl, _, by simp [Pulled.add], hlen, rfl⟩
    · obtain ⟨hm, collected, hprefix, hrest⟩ := ih h
      rw [hhead]
      exact ⟨hm, collected, by simpa [Pulled.add] using hprefix, hrest⟩

/-! ### What a manifest fixes -/

/-- **The manifest fixes the data.**  Chunks that verify against a manifest and count up are those
it was made of, unless hashes collide. -/
theorem map_data_eq {cs₀ : List Chunk} (hchunks : m.chunks = cs₀.map Chunk.hash)
    (hhash : ∀ c ∈ cs₀, K.hash c.data = c.hash)
    (hindex : cs.map (fun c => c.index.toNat) = List.range cs₀.length)
    (hverify : ∀ c ∈ cs, verifyChunk K m c = .ok ())
    (hinj : ∀ c ∈ cs, ∀ c₀ ∈ cs₀, K.hash c.data = K.hash c₀.data → c.data = c₀.data) :
    cs.map Chunk.data = cs₀.map Chunk.data := by
  have hlen : cs.length = cs₀.length := by simpa using congrArg List.length hindex
  refine List.ext_getElem (by simpa using hlen) fun k hk hk₀ => ?_
  rw [List.length_map] at hk hk₀
  rw [List.getElem_map, List.getElem_map]
  have hik : cs[k].index.toNat = k := by
    have h := congrArg (fun l => l[k]?) hindex
    simpa [hk, hk₀] using h
  obtain ⟨hat, hdata⟩ := verifyChunk_ok.1 (hverify _ (List.getElem_mem hk))
  have hsame : cs₀[k].hash = cs[k].hash := by
    rw [hik, hchunks, List.getElem?_map, List.getElem?_eq_getElem hk₀] at hat
    exact Option.some.inj hat
  refine hinj _ (List.getElem_mem hk) _ (List.getElem_mem hk₀) ?_
  rw [hdata, hhash _ (List.getElem_mem hk₀), hsame]

theorem Push.built {p : Push} (h : p.result K E A key owner = .ok (fileId, m, cs)) :
    buildManifest K E.manifest p.path owner defaultChunkSize p.disk = (.ok (m, cs), p.disk) ∧
      fileId = manifestId K E.manifest m := by
  have hpush : storePush K E A key script owner p.nonces p.path p.disk p.replies =
      (.ok (fileId, m, cs), (storePush K E A key script owner p.nonces p.path p.disk
          p.replies).2) :=
    Prod.ext h rfl
  obtain ⟨hbuild, hid, -⟩ := storePush_ok hpush
  exact ⟨hbuild, hid⟩

/-- **A core whose manifest belongs to the file id, and that repeats no index, cannot change the
content.** -/
theorem restores
    (hbinds : ∀ m, (servedManifests replies).head? = some m → manifestId K E.manifest m = fileId)
    (hnodup : ((servedChunks replies).map EncryptedChunk.index).Nodup)
    (hcollision : NoCollision K
      (pushes.flatMap (Push.hashed K E A key owner) ++ hashedServed K E A key replies)) :
    Restores K E A key owner pushes fileId replies cwd output client := by
  intro p hp m cs content hpush hread fuel m' cs' client' hpull
  obtain ⟨hbuild, hid⟩ := Push.built hpush
  obtain ⟨-, content', hread', hm, hchunks, -, -, hflat, -⟩ := buildManifest_ok hbuild
  obtain rfl : content = content' := Except.ok.inj (Prod.mk.inj (hread.symm.trans hread')).1
  obtain ⟨es, hloop, hdecrypt, hwrite⟩ := storePull_ok hpull
  obtain ⟨hfirst, collected, hprefix, hlen, rfl⟩ := pullLoop_served (Prod.ext hloop rfl)
  rw [Option.none_or] at hfirst
  rw [List.nil_append] at hprefix
  obtain ⟨hindices, hopened⟩ := decryptAll_ok hdecrypt
  obtain ⟨l, hl, hverify, -, rfl⟩ := reconstruct_ok.1 hwrite
  have hpushed : ∀ b ∈ p.hashed K E A key owner, b ∈
      pushes.flatMap (Push.hashed K E A key owner) ++ hashedServed K E A key replies := fun b hb =>
    List.mem_append_left _ (List.mem_flatMap.2 ⟨p, hp, hb⟩)
  have hhashed : p.hashed K E A key owner = m.unsignedBytes E.manifest :: cs.map Chunk.data := by
    rw [Push.hashed, hpush]
  rw [hhashed] at hpushed
  -- the manifest that was sent lists the chunks of the one that was pushed
  have hunsigned : m'.unsignedBytes E.manifest = m.unsignedBytes E.manifest := by
    refine hcollision _ ?_ _ (hpushed _ List.mem_cons_self)
      (Primitives.hash_of_hexHash ((hbinds m' hfirst).trans hid))
    exact List.mem_append_right _ (List.mem_append_left _
      (List.mem_map_of_mem (List.mem_of_mem_head? hfirst)))
  have hmchunks : m'.chunks = cs.map Chunk.hash := by
    have h := congrArg FileManifest.chunks (E.manifest.encode_injective hunsigned)
    exact h.trans (by rw [hm]; rfl)
  -- as many chunks as it lists, with different indices
  have hperm : (sortHeld collected).Perm collected := List.perm_insertionSort ..
  have hsub : collected.Sublist (servedChunks replies) := hprefix.sublist
  have hdistinct : (cs'.map Chunk.index).Nodup := by
    rw [hindices]
    exact ((hperm.map _).nodup_iff).2 ((hsub.map _).nodup hnodup)
  have hcount : cs'.length = cs.length := by
    have h₁ : cs'.length = collected.length := by
      have h := congrArg List.length hindices
      rw [List.length_map, List.length_map] at h
      rw [h, hperm.length_eq]
    rw [h₁, hlen, hmchunks, List.length_map]
  have hrange : (sortByIndex cs').map (fun c => c.index.toNat) = List.range cs.length := by
    refine sortByIndex_eq_range hdistinct (fun c hc => ?_) hcount
    obtain ⟨hat, -⟩ := verifyChunk_ok.1 (hverify c hc)
    obtain ⟨hlt, -⟩ := List.getElem?_eq_some_iff.1 hat
    rwa [hmchunks, List.length_map] at hlt
  -- so they hold what was pushed
  have hdata : (sortByIndex cs').map Chunk.data = cs.map Chunk.data := by
    refine map_data_eq hmchunks (fun c hc => (hchunks c hc).1) hrange
      (fun c hc => hverify c ((perm_sortByIndex cs').mem_iff.1 hc)) fun c hc c₀ hc₀ => ?_
    refine hcollision _ ?_ _ (hpushed _ (List.mem_cons_of_mem _ (List.mem_map_of_mem hc₀)))
    obtain ⟨e, he, hopen⟩ := hopened c ((perm_sortByIndex cs').mem_iff.1 hc)
    refine List.mem_append_right _ (List.mem_append_right _ (List.mem_filterMap.2
      ⟨e, hsub.subset (hperm.mem_iff.1 he), ?_⟩))
    rw [hopen]
    rfl
  rw [List.flatMap_def, hdata, hflat]
  exact read_of_hasFile (hasFile_putFile hl)

/-! ### Two notes -/

namespace Exchange

/-- A note of one byte in a file, pushed to a core that acknowledges the one batch. -/
def pushed (name : String) (content : UInt8) : Push where
  path := [name]
  disk := (Tree.bare fun _ => true).putFile [name] [content]
  nonces _ := digits 24 content.toNat
  replies := [.ok ⟨some (.storeAck ""), ""⟩]

/-- The storage key. -/
def storageKey : ByteArr 32 := digits 32 9

/-- The file id that is printed for a push. -/
def printedId (p : Push) : String :=
  ((p.result .sample .sample .sample storageKey Cabinet.owner).toOption.map Prod.fst).getD ""

/-- A core that is pushed something replies with the manifest and the chunks. -/
def answer (fileId : String) (p : Push) : Except IoError Reply :=
  .ok ⟨some (.storedChunks fileId
    (p.manifests .sample .sample .sample storageKey Cabinet.owner).head?
    (p.sealed .sample .sample .sample storageKey Cabinet.owner)), ""⟩

/-- The file that is asked for. -/
def wanted : Push := pushed "wanted" 5

/-- Another file. -/
def other : Push := pushed "other" 6

/-- What a pull of the wanted file comes to, and the client's disk afterwards. -/
def pulled (p : Push) : Option (Except CommandError (FileManifest × List Chunk)) × Tree :=
  storePull .sample .sample storageKey script (printedId wanted) [] (some ["out"]) 1
    [answer (printedId wanted) p] Cabinet.disk

theorem result_wanted : ∃ m cs, wanted.result .sample .sample .sample storageKey Cabinet.owner =
    .ok (printedId wanted, m, cs) := by
  have hsome : (wanted.result .sample .sample .sample storageKey
      Cabinet.owner).toOption.isSome := by
    decide +kernel
  rw [printedId]
  cases h : wanted.result .sample .sample .sample storageKey Cabinet.owner with
  | error e => rw [h] at hsome; cases hsome
  | ok r => exact ⟨r.2.1, r.2.2, rfl⟩

theorem read_pulled {p : Push} (hok : ((pulled p).1.bind Except.toOption).isSome)
    (h : Restores .sample .sample .sample storageKey Cabinet.owner [wanted, other]
      (printedId wanted) [answer (printedId wanted) p] [] (some ["out"]) Cabinet.disk) :
    (read ["out"] : FsM FileError Bytes) (pulled p).2 = (.ok [5], (pulled p).2) := by
  obtain ⟨m, cs, hresult⟩ := result_wanted
  cases hpull : pulled p with
  | mk res client =>
  rw [hpull] at hok
  match res, hok with
  | some (.ok (m', cs')), _ =>
    exact h wanted List.mem_cons_self m cs [5] hresult
        (read_of_hasFile ⟨by decide +kernel, by decide +kernel⟩)
      1 m' cs' client hpull

end Exchange

open Exchange in
/-- What is served as it was pushed comes back. -/
theorem restores_wanted :
    ((pulled wanted).1.bind Except.toOption).isSome ∧
      Restores .sample .sample .sample storageKey Cabinet.owner [wanted, other] (printedId wanted)
        [answer (printedId wanted) wanted] [] (some ["out"]) Cabinet.disk := by
  have hid : (servedManifests [answer (printedId wanted) wanted]).head?.map
      (manifestId .sample StorageEnv.sample.manifest) = some (printedId wanted) := by decide +kernel
  refine ⟨by decide +kernel, restores (fun m hm => ?_) (by decide +kernel) (by decide +kernel)⟩
  rw [hm] at hid
  exact Option.some.inj hid

open Exchange in
/-- **The core sends the manifest and the chunk of another file**, and the client writes it. -/
theorem not_restores :
    ¬ ∀ (K : Primitives) (E : StorageEnv) (A : Cipher) (key : ByteArr 32) (owner : Identity)
      (pushes : List Push) (fileId : String) (replies : List (Except IoError Reply))
      (cwd : PathBuf) (output : Option PathBuf) (client : Tree),
        A.Inverts → Seen K E A key owner pushes replies →
          NoCollision K
            (pushes.flatMap (Push.hashed K E A key owner) ++ hashedServed K E A key replies) →
            Restores K E A key owner pushes fileId replies cwd output client := by
  intro h
  have hrestores := h .sample .sample .sample storageKey Cabinet.owner [wanted, other]
    (printedId wanted) [answer (printedId wanted) other] [] (some ["out"]) Cabinet.disk
    Cipher.inverts_sample ⟨by decide +kernel, by decide +kernel⟩ (by decide +kernel)
  have hread := read_pulled (by decide +kernel) hrestores
  have hother : ((read ["out"] : FsM FileError Bytes) (pulled other).2).1.toOption = some [6] := by
    decide +kernel
  rw [hread] at hother
  cases hother

end Neonet
