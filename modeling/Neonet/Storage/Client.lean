import Neonet.Storage.Core

/-!
# The storing client

A client encrypts the chunks of a file, pushes them to a core in batches, and pulls them back page
by page.

* `storePush`, `storePull` : the two commands, against any server.
* `coreServer` : the core as the server of one client; `script` : a server that gives a list of
  replies, whatever it is asked.
* `flatten_batches`, `batches_eq_nil` : the batches hold the chunks in order, and **there is none
  for no chunk.**
* `ne_nil_of_mem_batches`, `fits_batches` : a batch is not empty, and is **a single chunk or within
  the budget.**
* `decryptAll_encryptAll` : decryption gives back what was encrypted.
-/

namespace Neonet

open FileTree

/-- An authenticated cipher: key, nonce, associated data and text. -/
structure Cipher where
  /-- `XChaCha20Poly1305::encrypt`. -/
  encrypt : ByteArr 32 → ByteArr 24 → Bytes → Bytes → Option Bytes
  /-- `XChaCha20Poly1305::decrypt`. -/
  decrypt : ByteArr 32 → ByteArr 24 → Bytes → Bytes → Option Bytes

/-- Decryption inverts encryption. -/
def Cipher.Inverts (A : Cipher) : Prop :=
  ∀ key nonce aad text sealed, A.encrypt key nonce aad text = some sealed →
    A.decrypt key nonce aad sealed = some text

/-- A cipher to compute with: the text behind a tag. -/
def Cipher.sample : Cipher where
  encrypt key nonce aad text :=
    some ((polyHash (key.toList ++ nonce.toList ++ aad ++ text)).toList ++ text)
  decrypt key nonce aad sealed :=
    if (polyHash (key.toList ++ nonce.toList ++ aad ++ sealed.drop 32)).toList = sealed.take 32
    then some (sealed.drop 32) else none

theorem Cipher.inverts_sample : Cipher.sample.Inverts := by
  intro key nonce aad text sealed h
  obtain rfl := Option.some.inj h
  have hlength : ∀ d : Digest, d.toList.length = 32 := fun d => d.toList_length
  simp only [sample]
  rw [List.drop_left' (hlength _), List.take_left' (hlength _), if_pos rfl]

/-- `StorageError`. -/
inductive StorageError
  | crypto
  | io (e : IoError)
  | codec (message : String)
  deriving DecidableEq

/-- Why a command fails. -/
inductive CommandError
  | file (e : FileError)
  | storage (e : StorageError)
  | io (e : IoError)
  deriving DecidableEq

/-- A reply, as a frame of the store if it is one, with its `Debug` text. -/
structure Reply where
  frame : Option StorageFrame
  debug : String
  deriving DecidableEq

/-- What `Client::call` says to a frame. -/
abbrev Server (σ : Type) := Machine σ StorageFrame (Except IoError Reply)

/-- The error of `Client::call` when no reply comes. -/
def channelClosed : IoError := .custom .brokenPipe "peer closed the response channel"

/-- The core, as it serves one client. -/
def coreServer (K : Primitives) (E : StorageEnv) (home : Home) (client : PublicIdentity)
    (debug : StorageFrame → String) : Server Tree where
  step t frame :=
    match (core K E home).step t (client, frame) with
    | (some reply, t') => (.ok ⟨some reply, debug reply⟩, t')
    | (none, t') => (.error channelClosed, t')

/-- A server that gives these replies one after the other. -/
def script : Server (List (Except IoError Reply)) where
  step
    | [], _ => (.error channelClosed, [])
    | reply :: rest, _ => (reply, rest)

section Operations

variable (K : Primitives) (E : StorageEnv) (A : Cipher) (key : ByteArr 32)

/-- `to_le_bytes`. -/
def leBytes (n : UInt32) : Bytes := (digits 4 n.toNat).toList

/-- `encrypt_chunk`, with the nonce it draws. -/
def encryptChunk (nonce : ByteArr 24) (chunk : Chunk) : Except StorageError EncryptedChunk :=
  match A.encrypt key nonce (leBytes chunk.index) chunk.data with
  | some ciphertext => .ok ⟨chunk.index, nonce, ciphertext⟩
  | none => .error .crypto

/-- `decrypt_chunk`. -/
def decryptChunk (chunk : EncryptedChunk) : Except StorageError Chunk :=
  match A.decrypt key chunk.nonce (leBytes chunk.index) chunk.ciphertext with
  | some data => .ok ⟨chunk.index, K.hash data, data⟩
  | none => .error .crypto

/-- Encrypt chunks with the nonces that are drawn from the `i`-th on. -/
def encryptAll (nonces : ℕ → ByteArr 24) (i : ℕ) :
    List Chunk → Except StorageError (List EncryptedChunk)
  | [] => .ok []
  | chunk :: chunks => do
    let sealed ← encryptChunk A key (nonces i) chunk
    let rest ← encryptAll nonces (i + 1) chunks
    return sealed :: rest

/-- Decrypt chunks. -/
def decryptAll : List EncryptedChunk → Except StorageError (List Chunk)
  | [] => .ok []
  | sealed :: rest => do
    let chunk ← decryptChunk K A key sealed
    let chunks ← decryptAll rest
    return chunk :: chunks

/-- The batches after the one that is filled. -/
def batchesFrom (current : List EncryptedChunk) (carried : ℕ) :
    List EncryptedChunk → List (List EncryptedChunk)
  | [] => [current]
  | chunk :: rest =>
    -- a chunk that does not fit begins the next batch, however large it is
    if maxBatchPayload < carried + (E.chunk.encode chunk).length then
      current :: batchesFrom [chunk] (E.chunk.encode chunk).length rest
    else batchesFrom (current ++ [chunk]) (carried + (E.chunk.encode chunk).length) rest

/-- The batches of `push_chunks`. -/
def batches : List EncryptedChunk → List (List EncryptedChunk)
  | [] => []
  | chunk :: rest => batchesFrom E [chunk] (E.chunk.encode chunk).length rest

section Server

variable {σ : Type} (S : Server σ) (fileId : String)

/-- Send batches one after the other, each acknowledged before the next. -/
def pushBatches (manifest : FileManifest) :
    List (List EncryptedChunk) → σ → Except IoError Unit × σ
  | [], s => (.ok (), s)
  | batch :: rest, s =>
    match S.step s (.storeChunks fileId manifest batch) with
    | (.error e, s') => (.error e, s')
    | (.ok reply, s') =>
      match reply.frame with
      | some (.storeAck _) => pushBatches manifest rest s'
      | some (.error message) => (.error (.custom .other message), s')
      | _ => (.error (.custom .invalidData ("unexpected store reply: " ++ reply.debug)), s')

/-- `push_chunks`. -/
def pushChunks (manifest : FileManifest) (encrypted : List EncryptedChunk) (s : σ) :
    Except IoError Unit × σ :=
  pushBatches S fileId manifest (batches E encrypted) s

/-- `u32::saturating_add`. -/
def saturatingAdd (a b : UInt32) : UInt32 :=
  if a.toNat + b.toNat < 2 ^ 32 then a + b else UInt32.ofNat (2 ^ 32 - 1)

/-- What `pull_chunks` has so far. -/
structure Pulled where
  manifest : Option FileManifest
  collected : List EncryptedChunk
  offset : UInt32

/-- A page is added to what there is. -/
def Pulled.add (p : Pulled) (manifest : Option FileManifest) (page : List EncryptedChunk) :
    Pulled where
  manifest := p.manifest.or manifest
  collected := p.collected ++ page
  offset := saturatingAdd p.offset (UInt32.ofNat page.length)

/-- The loop stops after a page when all chunks are there, or the page was empty. -/
def Pulled.stops (p : Pulled) (page : List EncryptedChunk) : Bool :=
  let expected := (p.manifest.map fun m => m.chunks.length).getD 0
  decide (0 < expected ∧ expected ≤ p.collected.length) || page.isEmpty

/-- What `pull_chunks` returns after its loop. -/
def Pulled.finish (p : Pulled) : Except IoError (FileManifest × List EncryptedChunk) :=
  match p.manifest with
  | none => .error (.custom .notFound (fileId ++ " not stored at this core"))
  | some manifest =>
    if p.collected.length ≠ manifest.chunks.length then
      .error (.custom .invalidData ("core returned " ++ toString p.collected.length ++ " of " ++
        toString manifest.chunks.length ++ " chunks for " ++ fileId))
    else .ok (manifest, sortHeld p.collected)

/-- The loop of `pull_chunks`, for so many rounds. -/
def pullLoop : ℕ → Pulled → σ → Option (Except IoError (FileManifest × List EncryptedChunk)) × σ
  | 0, _, s => (none, s)
  | fuel + 1, p, s =>
    match S.step s (.fetchChunks fileId p.offset) with
    | (.error e, s') => (some (.error e), s')
    | (.ok reply, s') =>
      match reply.frame with
      | some (.storedChunks _ manifest page) =>
        if (p.add manifest page).stops page then (some ((p.add manifest page).finish fileId), s')
        else pullLoop fuel (p.add manifest page) s'
      | some (.error message) => (some (.error (.custom .permissionDenied message)), s')
      | _ =>
        (some (.error (.custom .invalidData ("unexpected fetch reply: " ++ reply.debug))), s')

/-- `pull_chunks`. -/
def pullChunks (fuel : ℕ) (s : σ) :
    Option (Except IoError (FileManifest × List EncryptedChunk)) × σ :=
  pullLoop S fileId fuel ⟨none, [], 0⟩ s

/-- `store push`: the file id it prints, with the manifest and the chunks. -/
def storePush (owner : Identity) (nonces : ℕ → ByteArr 24) (path : PathBuf) (t : Tree) (s : σ) :
    Except CommandError (String × FileManifest × List Chunk) × σ :=
  match (buildManifest K E.manifest path owner defaultChunkSize t).1 with
  | .error e => (.error (.file e), s)
  | .ok (manifest, chunks) =>
    match encryptAll A key nonces 0 chunks with
    | .error e => (.error (.storage e), s)
    | .ok encrypted =>
      match pushChunks E S (manifestId K E.manifest manifest) manifest encrypted s with
      | (.error e, s') => (.error (.io e), s')
      | (.ok (), s') => (.ok (manifestId K E.manifest manifest, manifest, chunks), s')

/-- Where `store pull` writes: the output that was asked for, or the manifest's name in the current
directory. -/
def destination (cwd : PathBuf) (output : Option PathBuf) (manifest : FileManifest) : PathBuf :=
  output.getD (cwd.join manifest.name)

/-- `store pull`: the manifest and the chunks, and the tree with the file. -/
def storePull (cwd : PathBuf) (output : Option PathBuf) (fuel : ℕ) (s : σ) (t : Tree) :
    Option (Except CommandError (FileManifest × List Chunk)) × Tree :=
  match (pullChunks S fileId fuel s).1 with
  | none => (none, t)
  | some (.error e) => (some (.error (.io e)), t)
  | some (.ok (manifest, encrypted)) =>
    match decryptAll K A key encrypted with
    | .error e => (some (.error (.storage e)), t)
    | .ok chunks =>
      match reconstruct K manifest chunks (destination cwd output manifest) t with
      | (.error e, t') => (some (.error (.file e)), t')
      | (.ok (), t') => (some (.ok (manifest, chunks)), t')

end Server

end Operations

variable {K : Primitives} {E : StorageEnv} {A : Cipher} {key : ByteArr 32}
  {nonces : ℕ → ByteArr 24} {cs : List Chunk} {es : List EncryptedChunk}

/-! ### Batches and pages -/

theorem flatten_batchesFrom {current : List EncryptedChunk} {carried : ℕ} :
    (batchesFrom E current carried es).flatten = current ++ es := by
  induction es generalizing current carried with
  | nil => simp [batchesFrom]
  | cons e es ih =>
    rw [batchesFrom]
    split
    · rw [List.flatten_cons, ih, List.singleton_append]
    · rw [ih, List.append_assoc, List.singleton_append]

/-- The batches hold the chunks in order. -/
theorem flatten_batches : (batches E es).flatten = es := by
  cases es with
  | nil => rfl
  | cons e es => exact flatten_batchesFrom

/-- There is a batch if there is a chunk. -/
theorem batches_eq_nil : batches E es = [] ↔ es = [] := by
  constructor
  · intro h
    have hflat : (batches E es).flatten = es := flatten_batches
    rw [h] at hflat
    exact hflat.symm
  · rintro rfl
    rfl

theorem ne_nil_of_mem_batchesFrom {current batch : List EncryptedChunk} {carried : ℕ}
    (hne : current ≠ []) (h : batch ∈ batchesFrom E current carried es) : batch ≠ [] := by
  induction es generalizing current carried with
  | nil =>
    rw [batchesFrom, List.mem_singleton] at h
    exact h ▸ hne
  | cons e es ih =>
    rw [batchesFrom] at h
    split at h
    · rcases List.mem_cons.1 h with rfl | h
      · exact hne
      · exact ih (by simp) h
    · exact ih (by simp) h

/-- A batch is not empty. -/
theorem ne_nil_of_mem_batches {batch : List EncryptedChunk} (h : batch ∈ batches E es) :
    batch ≠ [] := by
  cases es with
  | nil => exact absurd h List.not_mem_nil
  | cons e es => exact ne_nil_of_mem_batchesFrom (by simp) h

/-- Each batch is a single chunk or within the budget: what is carried is the size of the batch that
is filled. -/
theorem fits_batchesFrom {current batch : List EncryptedChunk} {carried : ℕ}
    (hcarried : (current.map fun e => (E.chunk.encode e).length).sum = carried)
    (hcurrent : current.length = 1 ∨ carried ≤ maxBatchPayload)
    (h : batch ∈ batchesFrom E current carried es) :
    batch.length = 1 ∨
      (batch.map fun e => (E.chunk.encode e).length).sum ≤ maxBatchPayload := by
  induction es generalizing current carried with
  | nil =>
    rw [batchesFrom, List.mem_singleton] at h
    rw [h, hcarried]
    exact hcurrent
  | cons e es ih =>
    rw [batchesFrom] at h
    split at h
    · rcases List.mem_cons.1 h with rfl | h
      · rw [hcarried]
        exact hcurrent
      · -- the chunk that does not fit begins a batch
        exact ih (by simp) (.inl rfl) h
    · rename_i hfits
      refine ih ?_ (.inr (Nat.le_of_not_lt hfits)) h
      rw [List.map_append, List.sum_append, hcarried, List.map_singleton, List.sum_singleton]

/-- **A batch is a single chunk or within the budget.** -/
theorem fits_batches {batch : List EncryptedChunk} (h : batch ∈ batches E es) :
    batch.length = 1 ∨
      (batch.map fun e => (E.chunk.encode e).length).sum ≤ maxBatchPayload := by
  cases es with
  | nil => exact absurd h List.not_mem_nil
  | cons e es => exact fits_batchesFrom (by simp) (.inl rfl) h

/-! ### Encryption -/

theorem encryptAll_cons {i : ℕ} {c : Chunk} (h : encryptAll A key nonces i (c :: cs) = .ok es) :
    ∃ sealed rest, A.encrypt key (nonces i) (leBytes c.index) c.data = some sealed ∧
      encryptAll A key nonces (i + 1) cs = .ok rest ∧ es = ⟨c.index, nonces i, sealed⟩ :: rest := by
  rw [encryptAll, encryptChunk] at h
  cases hseal : A.encrypt key (nonces i) (leBytes c.index) c.data with
  | none => rw [hseal] at h; cases h
  | some sealed =>
    rw [hseal] at h
    cases hrest : encryptAll A key nonces (i + 1) cs with
    | error e => rw [hrest] at h; cases h
    | ok rest =>
      rw [hrest] at h
      exact ⟨sealed, rest, rfl, rfl, (Except.ok.inj h).symm⟩

theorem map_index_encryptAll {i : ℕ} (h : encryptAll A key nonces i cs = .ok es) :
    es.map EncryptedChunk.index = cs.map Chunk.index := by
  induction cs generalizing i es with
  | nil =>
    obtain rfl := Except.ok.inj h
    rfl
  | cons c cs ih =>
    obtain ⟨sealed, rest, -, hrest, rfl⟩ := encryptAll_cons h
    rw [List.map_cons, List.map_cons, ih hrest]

/-- **Decryption gives back what was encrypted**, hashes included. -/
theorem decryptAll_encryptAll {i : ℕ} (hA : A.Inverts) (h : encryptAll A key nonces i cs = .ok es)
    (hhash : ∀ c ∈ cs, K.hash c.data = c.hash) : decryptAll K A key es = .ok cs := by
  induction cs generalizing i es with
  | nil =>
    obtain rfl := Except.ok.inj h
    rfl
  | cons c cs ih =>
    obtain ⟨sealed, rest, hseal, hrest, rfl⟩ := encryptAll_cons h
    have hopen := hA _ _ _ _ _ hseal
    have hchunk : decryptChunk K A key ⟨c.index, nonces i, sealed⟩ = .ok c := by
      rw [decryptChunk, hopen]
      dsimp only
      rw [hhash c List.mem_cons_self]
    rw [decryptAll, hchunk, ih hrest fun x hx => hhash x (List.mem_cons_of_mem _ hx)]
    rfl

theorem index_decryptChunk {e : EncryptedChunk} {c : Chunk} (h : decryptChunk K A key e = .ok c) :
    c.index = e.index := by
  rw [decryptChunk] at h
  split at h
  · obtain rfl := Except.ok.inj h
    rfl
  · cases h

theorem decryptAll_ok (h : decryptAll K A key es = .ok cs) :
    cs.map Chunk.index = es.map EncryptedChunk.index ∧
      ∀ c ∈ cs, ∃ e ∈ es, decryptChunk K A key e = .ok c := by
  induction es generalizing cs with
  | nil =>
    obtain rfl := Except.ok.inj h
    exact ⟨rfl, by simp⟩
  | cons e es ih =>
    rw [decryptAll] at h
    cases hopen : decryptChunk K A key e with
    | error e => rw [hopen] at h; cases h
    | ok c =>
      rw [hopen] at h
      cases hrest : decryptAll K A key es with
      | error e => rw [hrest] at h; cases h
      | ok rest =>
        rw [hrest] at h
        obtain rfl := Except.ok.inj h
        obtain ⟨hindex, hmem⟩ := ih hrest
        refine ⟨by rw [List.map_cons, List.map_cons, hindex, index_decryptChunk hopen],
          fun x hx => ?_⟩
        rcases List.mem_cons.1 hx with rfl | hx
        · exact ⟨e, List.mem_cons_self, hopen⟩
        · obtain ⟨e', he', hx⟩ := hmem x hx
          exact ⟨e', List.mem_cons_of_mem _ he', hx⟩

/-! ### Commands -/

/-- **What a push that reports success has done.** -/
theorem storePush_ok {σ : Type} {S : Server σ} {owner : Identity} {path : PathBuf} {t : Tree}
    {s s' : σ} {fileId : String} {m : FileManifest}
    (h : storePush K E A key S owner nonces path t s = (.ok (fileId, m, cs), s')) :
    buildManifest K E.manifest path owner defaultChunkSize t = (.ok (m, cs), t) ∧
      fileId = manifestId K E.manifest m ∧ ∃ es, encryptAll A key nonces 0 cs = .ok es ∧
        pushChunks E S fileId m es s = (.ok (), s') := by
  rw [storePush] at h
  cases hbuild : buildManifest K E.manifest path owner defaultChunkSize t with
  | mk res t₁ =>
  rw [hbuild] at h
  cases res with
  | error e => cases h
  | ok mcs =>
  obtain ⟨rfl, -⟩ := buildManifest_ok hbuild
  dsimp only at h
  cases hencrypt : encryptAll A key nonces 0 mcs.2 with
  | error e => rw [hencrypt] at h; cases h
  | ok es =>
  rw [hencrypt] at h
  dsimp only at h
  cases hrun : pushChunks E S (manifestId K E.manifest mcs.1) mcs.1 es s with
  | mk res s₁ =>
  rw [hrun] at h
  cases res with
  | error e => cases h
  | ok =>
  obtain ⟨hres, rfl⟩ := Prod.mk.inj h
  obtain ⟨rfl, hmcs⟩ := Prod.mk.inj (Except.ok.inj hres)
  obtain rfl : mcs = (m, cs) := hmcs
  exact ⟨rfl, rfl, es, hencrypt, hrun⟩

/-- **What a pull that succeeds has verified and written.** -/
theorem storePull_ok {σ : Type} {S : Server σ} {fileId : String} {cwd : PathBuf}
    {output : Option PathBuf} {fuel : ℕ} {s : σ} {t t' : Tree} {m : FileManifest}
    (h : storePull K A key S fileId cwd output fuel s t = (some (.ok (m, cs)), t')) :
    ∃ es, (pullChunks S fileId fuel s).1 = some (.ok (m, es)) ∧ decryptAll K A key es = .ok cs ∧
      reconstruct K m cs (destination cwd output m) t = (.ok (), t') := by
  rw [storePull] at h
  cases hpull : (pullChunks S fileId fuel s).1 with
  | none => rw [hpull] at h; cases h
  | some res =>
  rw [hpull] at h
  cases res with
  | error e => cases h
  | ok mes =>
  dsimp only at h
  cases hdecrypt : decryptAll K A key mes.2 with
  | error e => rw [hdecrypt] at h; cases h
  | ok cs₁ =>
  rw [hdecrypt] at h
  dsimp only at h
  cases hwrite : reconstruct K mes.1 cs₁ (destination cwd output mes.1) t with
  | mk res t₁ =>
  rw [hwrite] at h
  cases res with
  | error e => cases h
  | ok =>
  obtain ⟨hres, rfl⟩ := Prod.mk.inj h
  obtain ⟨rfl, rfl⟩ := Prod.mk.inj (Except.ok.inj (Option.some.inj hres))
  exact ⟨mes.2, rfl, hdecrypt, hwrite⟩

/-! ### Servers -/

end Neonet
