import Neonet.App.Sizes
import Neonet.Files.Progress

/-!
# Sending a file

The sender announces a manifest, is told what is missing, streams that, and then asks for the
state until the transfer is complete.

* `Peer` : the other end of a client's connection; `nodePeer` : a node there.
* `sendFile`, `sendFileAndWait` : the commands, against any peer.
* `call_announce` : **what a node answers to an announcement**; `send_chunk` : a chunk is never too
  large for a message.
* `SendsMissing` : what is streamed is what the receiver misses.
* `sendsMissing_iff` : it is exactly if the receiver misses something.
* `Obtainable` : the states that a program can get hold of; `Orderly` : those that it gets hold of
  by marks of indices of the manifest, and from replies that list each such index once at most.
* `agrees_obtainable` : **an orderly state is complete iff nothing is missing**, and so is what
  `send_file_and_wait` reports of an orderly reply.
-/

namespace Neonet

open FileTree FsM

/-- A reply, as a frame of the file transfer if it is one, with its `Debug` text. -/
structure FilesReply where
  frame : Option FilesFrame
  debug : String
  deriving DecidableEq

/-- What is at the other end of a client's connection. -/
structure Peer (σ : Type) where
  /-- `Client::call`. -/
  call : FilesFrame → σ → Except IoError FilesReply × σ
  /-- `AppFrame::encode`, `Message::new` and `Node::send_raw`. -/
  send : FilesFrame → σ → Except IoError Unit × σ

section Sender

variable {σ : Type} (P : Peer σ)

/-- Chunks are sent one after the other, until one cannot be: the indices of those that were. -/
def streamChunks (manifestId : String) : List Chunk → σ → Except IoError Unit × List UInt32 × σ
  | [], w => (.ok (), [], w)
  | c :: cs, w =>
    match P.send (.chunk manifestId c) w with
    | (.error e, w) => (.error e, [], w)
    | (.ok (), w) =>
      let r := streamChunks manifestId cs w
      (r.1, c.index :: r.2.1, r.2.2)

variable (K : Primitives) (C : Codec FileManifest)

/-- `send_file` of a file that was read: what it returns, and the indices that it streamed. -/
def sendBuilt (m : FileManifest) (cs : List Chunk) (senderName : String) (w : σ) :
    Except IoError TransferState × List UInt32 × σ :=
  match P.call (.announce (manifestId K C m) m senderName) w with
  | (.error e, w) => (.error e, [], w)
  | (.ok reply, w) =>
    match reply.frame with
    | some (.accept _ missing) =>
      -- an empty list asks for every chunk
      let r := streamChunks P (manifestId K C m)
        (cs.filter fun c => missing.isEmpty || decide (c.index ∈ missing)) w
      (r.1.map fun _ => (cs.map Chunk.index).foldl TransferState.markVerified (.new m), r.2)
    | _ => (.error (.custom .invalidData ("expected Accept reply, got " ++ reply.debug)), [], w)

/-- `send_file`. -/
def sendFile (source : PathBuf) (identity : Identity) (t : Tree) (w : σ) :
    Except IoError TransferState × List UInt32 × σ :=
  match (buildManifest K C source identity defaultChunkSize t).1 with
  | .error e => (.error (.custom .invalidData e.text), [], w)
  | .ok (m, cs) => sendBuilt P K C m cs ((identity.pub K).fingerprint K) w

/-- The state of a transfer is asked for. -/
def askStatus (manifestId : String) (w : σ) : Except IoError TransferState × σ :=
  match P.call (.statusRequest manifestId) w with
  | (.error e, w) => (.error e, w)
  | (.ok reply, w) =>
    match reply.frame with
    | some (.status _ state) => (.ok state, w)
    | _ => (.error (.custom .invalidData ("expected Status reply, got " ++ reply.debug)), w)

/-- The state is asked for until the transfer is complete or the time is up, which it is after so
many replies, and what is missing is sent again. -/
def pollTransfer (manifestId : String) (cs : List Chunk) :
    ℕ → σ → Except IoError TransferState × σ
  | 0, w => askStatus P manifestId w
  | rounds + 1, w =>
    match askStatus P manifestId w with
    | (.error e, w) => (.error e, w)
    | (.ok state, w) =>
      if state.complete = true then (.ok state, w)
      else
        match streamChunks P manifestId (cs.filter fun c => c.index ∈ state.missing) w with
        | (.error e, _, w) => (.error e, w)
        | (.ok (), _, w) => pollTransfer manifestId cs rounds w

/-- `send_file_and_wait`. -/
def sendFileAndWait (source : PathBuf) (identity : Identity) (rounds : ℕ) (t : Tree) (w : σ) :
    Except IoError TransferState × σ :=
  match (buildManifest K C source identity defaultChunkSize t).1 with
  | .error e => (.error (.custom .invalidData e.text), w)
  | .ok (m, cs) =>
    match sendFile P K C source identity t w with
    | (.error e, _, w) => (.error e, w)
    | (.ok _, _, w) => pollTransfer P (manifestId K C m) cs rounds w

end Sender

section Receiver

variable (V : AppEnv) (client : Identity) (d : Draws) (debug : AppFrame → String)

/-- The message that a client makes of a frame for the node. -/
def clientMessage (frame : FilesFrame) : Except IoError Message := do
  let payload ← (AppFrame.files frame).encode V.frames
  Message.new V.messages (d.ids 0) (client.pub V.primitives) V.identity payload

/-- A node at the other end. -/
def nodePeer : Peer AppState where
  call frame s :=
    match clientMessage V client d frame with
    | .error e => (.error e, s)
    | .ok request =>
      let s' := (V.handle d request s).2
      match (s'.sent.drop s.sent.length).head? with
      | none => (.error channelClosed, s')
      | some answer =>
        let frame := AppFrame.decode V.frames answer.payload
        (.ok ⟨match frame with | .files f => some f | _ => none, debug frame⟩, s')
  send frame s :=
    match clientMessage V client d frame with
    | .error e => (.error e, s)
    | .ok request => (.ok (), (V.handle d request s).2)

variable (source : PathBuf) (t : Tree) (m : FileManifest) (cs : List Chunk) (s : AppState)
  (st : TransferState)

/-- The file was announced to a node, which resumes its transfer from `st`, and accepted. -/
structure Exchanged : Prop where
  built : (buildManifest V.primitives V.files.manifest source client defaultChunkSize t).1 =
    .ok (m, cs)
  resumed : (announce V.primitives V.files V.home (manifestId V.primitives V.files.manifest m) m
    s.disk).1 = .ok st
  /-- The state is one of this file. -/
  about : st.manifest = m
  accepted : ∃ reply, ((nodePeer V client d debug).call
    (.announce (manifestId V.primitives V.files.manifest m) m
      ((client.pub V.primitives).fingerprint V.primitives)) s).1 = .ok reply

/-- What is streamed is what the receiver misses. -/
def SendsMissing : Prop :=
  ∃ sent is s', sendFile (nodePeer V client d debug) V.primitives V.files.manifest source client t
    s = (.ok sent, is, s') ∧ ∀ i, i ∈ is ↔ i ∈ st.missing

end Receiver

variable {V : AppEnv} {client : Identity} {d : Draws} {debug : AppFrame → String}
  {source : PathBuf} {t : Tree} {m : FileManifest} {cs : List Chunk} {s : AppState}
  {st : TransferState} {id : String} {c : Chunk} {σ : Type} {P : Peer σ}

/-! ### Streaming -/

theorem streamChunks_ok (h : ∀ c ∈ cs, ∀ w, (P.send (.chunk id c) w).1 = .ok ()) (w : σ) :
    ∃ w', streamChunks P id cs w = (.ok (), cs.map Chunk.index, w') := by
  induction cs generalizing w with
  | nil => exact ⟨w, rfl⟩
  | cons c cs ih =>
    obtain ⟨w', hrest⟩ := ih (fun x hx => h x (List.mem_cons_of_mem _ hx))
      (P.send (.chunk id c) w).2
    refine ⟨w', ?_⟩
    have hsend : P.send (.chunk id c) w = (.ok (), (P.send (.chunk id c) w).2) :=
      Prod.ext (h c List.mem_cons_self w) rfl
    rw [streamChunks, hsend]
    dsimp only
    rw [hrest]
    rfl

/-- **A chunk of a file fits into a message.** -/
theorem send_chunk (hV : V.Postcard) (hid : id.utf8ByteSize = 64)
    (hc : c.data.length ≤ defaultChunkSize) (s : AppState) :
    ((nodePeer V client d debug).send (.chunk id c) s).1 = .ok () := by
  have hsize : defaultChunkSize = 786432 := rfl
  have hmax : maxMessageSize = 1048576 := rfl
  have htag := Wire.length_tag_le (n := 1) (by omega)
  have hcase := Wire.length_tag_le (n := 2) (by omega)
  have hname : (Wire.string.write id).length ≤ 128 := Wire.length_string_le (by omega)
  have hindex : (Wire.u32.write c.index).length ≤ 5 :=
    Wire.length_nat_le (Nat.lt_of_lt_of_le c.index.toNat_lt (by decide))
  have hdata : (Wire.nat.write c.data.length).length ≤ 3 := Wire.length_nat_le (by omega)
  have hhash : c.hash.toList.length = 32 := c.hash.toList_length
  have hframe : (AppFrame.wire.write (.files (.chunk id c))).length ≤ 786700 := by
    rw [AppFrame.wire, Wire.length_enum, FilesFrame.wire, Wire.length_enum]
    dsimp only [Wire.pair, Chunk.wire, Wire.comap, Wire.array]
    simp only [List.length_append, Wire.length_bytes]
    omega
  have hencode : (AppFrame.files (.chunk id c)).encode V.frames =
      .ok (V.frames.encode (.files (.chunk id c))) := by
    refine AppFrame.encode_ok.2 ⟨?_, rfl⟩
    rw [hV.encode_frame]
    omega
  have hlength : (Wire.nat.write (AppFrame.wire.write (.files (.chunk id c))).length).length ≤ 3 :=
    Wire.length_nat_le (by omega)
  have hvalid : ∀ m : Message, m.payload = V.frames.encode (.files (.chunk id c)) →
      m.validateSize V.messages = .ok () := by
    intro m hm
    rw [validateSize_ok, hV.length_encode, hm, hV.encode_frame, Wire.length_bytes]
    omega
  simp only [nodePeer, clientMessage, hencode, Message.new, bind, Except.bind]
  rw [hvalid _ rfl]
  rfl

/-! ### The announcement -/

theorem verifyManifest_of_announce {K : Primitives} {C : FileCodecs} {home : Home}
    (h : (announce K C home id m t).1 = .ok st) : verifyManifest K C.manifest m = .ok () := by
  obtain ⟨u, t', hverify, -⟩ := bind_ok.1 (Prod.ext h rfl : announce K C home id m t = (.ok st, _))
  exact (Prod.mk.inj hverify).1

theorem decode_clientMessage {frame : FilesFrame} {request : Message}
    (h : clientMessage V client d frame = .ok request) :
    AppFrame.decode V.frames request.payload = .files frame := by
  simp only [clientMessage, Message.new, bind, Except.bind, pure, Except.pure] at h
  cases hencode : (AppFrame.files frame).encode V.frames with
  | error e =>
    rw [hencode] at h
    cases h
  | ok payload =>
    rw [hencode] at h
    dsimp only at h
    split at h
    · cases h
    · obtain rfl := Except.ok.inj h
      exact AppFrame.decode_of_encode hencode

/-- **What a node answers to an announcement**, if its reply can be sent: what it misses. -/
theorem call_announce (h : Exchanged V client d debug source t m cs s st) :
    ∃ reply s', (nodePeer V client d debug).call
        (.announce (manifestId V.primitives V.files.manifest m) m
          ((client.pub V.primitives).fingerprint V.primitives)) s = (.ok reply, s') ∧
      reply.frame =
        some (.accept (manifestId V.primitives V.files.manifest m) st.missing) := by
  obtain ⟨reply, haccepted⟩ := h.accepted
  refine ⟨reply, _, Prod.ext haccepted rfl, ?_⟩
  simp only [nodePeer] at haccepted
  cases hmessage : clientMessage V client d (.announce
      (manifestId V.primitives V.files.manifest m) m
      ((client.pub V.primitives).fingerprint V.primitives)) with
  | error e => rw [hmessage] at haccepted; cases haccepted
  | ok request =>
    have hdecode : AppFrame.decode V.frames request.payload = .files (.announce
        (manifestId V.primitives V.files.manifest m) m
        ((client.pub V.primitives).fingerprint V.primitives)) :=
      decode_clientMessage hmessage
    have hrun : announce V.primitives V.files V.home (manifestId V.primitives V.files.manifest m)
        m s.disk = (.ok st, (announce V.primitives V.files V.home
          (manifestId V.primitives V.files.manifest m) m s.disk).2) := Prod.ext h.resumed rfl
    have hsent : (V.handle d request s).2.sent = s.sent ++ delivered V request
        (some (.files (.accept (manifestId V.primitives V.files.manifest m) st.missing))) := by
      rw [AppEnv.handle, hdecode, AppEnv.dispatch, AppEnv.handleFiles, hrun]
      exact AppState.replied_sent _
    rw [hmessage] at haccepted
    dsimp only at haccepted
    rw [hsent, List.drop_left, delivered] at haccepted
    by_cases hfits : Fits V request
        (.files (.accept (manifestId V.primitives V.files.manifest m) st.missing))
    · rw [if_pos hfits, List.head?_cons] at haccepted
      dsimp only [replyMessage] at haccepted
      rw [AppFrame.decode_encode] at haccepted
      rw [← Except.ok.inj haccepted]
    · rw [if_neg hfits] at haccepted
      cases haccepted

/-- Missing is what the file has and the receiver has not. -/
theorem Exchanged.mem_missing (h : Exchanged V client d debug source t m cs s st) {i : UInt32} :
    i ∈ st.missing ↔ i.toNat < m.chunks.length ∧ i ∉ st.verifiedChunks := by
  have hbuilt : buildManifest V.primitives V.files.manifest source client defaultChunkSize t =
      (.ok (m, cs), (buildManifest V.primitives V.files.manifest source client defaultChunkSize
        t).2) := Prod.ext h.built rfl
  obtain ⟨-, content, -, hm, -, -, hshort, -, -⟩ := buildManifest_ok hbuilt
  have hlen : m.chunks.length = cs.length := by
    rw [hm]
    exact List.length_map _
  rw [TransferState.mem_missing (by rw [h.about]; omega), h.about]

/-- **What is streamed is what is missing, unless nothing is.**  A receiver that has every chunk is
sent the whole file again. -/
theorem sendsMissing_of_exchanged (hV : V.Postcard)
    (h : Exchanged V client d debug source t m cs s st) :
    SendsMissing V client d debug source t s st ↔ st.missing ≠ [] := by
  have hbuilt : buildManifest V.primitives V.files.manifest source client defaultChunkSize t =
      (.ok (m, cs), (buildManifest V.primitives V.files.manifest source client defaultChunkSize
        t).2) := Prod.ext h.built rfl
  obtain ⟨-, content, -, hm, hdata, hindex, hshort, -, -⟩ := buildManifest_ok hbuilt
  have hlen : m.chunks.length = cs.length := by
    rw [hm]
    exact List.length_map _
  -- the indices of the chunks are those of the manifest
  have hall : ∀ i : UInt32, i ∈ cs.map Chunk.index ↔ i.toNat < m.chunks.length := by
    intro i
    have hnat : i.toNat ∈ cs.map (fun c => c.index.toNat) ↔ i ∈ cs.map Chunk.index := by
      simp [UInt32.toNat_inj]
    rw [← hnat, hindex, List.mem_range, hlen]
  have hnonempty : m.chunks ≠ [] :=
    (verifyManifest_ok.1 (verifyManifest_of_announce h.resumed)).2
  obtain ⟨reply, s', hcall, hframe⟩ := call_announce h
  obtain ⟨s'', hstream⟩ : ∃ s'', streamChunks (nodePeer V client d debug)
      (manifestId V.primitives V.files.manifest m)
      (cs.filter fun c => st.missing.isEmpty || decide (c.index ∈ st.missing)) s' =
        (.ok (), (cs.filter fun c => st.missing.isEmpty ||
          decide (c.index ∈ st.missing)).map Chunk.index, s'') :=
    streamChunks_ok (fun c hc w =>
      send_chunk hV utf8ByteSize_manifestId (hdata c (List.mem_filter.1 hc).1).2 w) s'
  have hsend : sendFile (nodePeer V client d debug) V.primitives V.files.manifest source client
      t s =
      (.ok ((cs.map Chunk.index).foldl TransferState.markVerified (.new m)),
        (cs.filter fun c => st.missing.isEmpty || decide (c.index ∈ st.missing)).map Chunk.index,
        s'') := by
    rw [sendFile, h.built]
    dsimp only
    rw [sendBuilt, hcall]
    dsimp only
    rw [hframe]
    dsimp only
    rw [hstream]
    rfl
  constructor
  · rintro ⟨sent, is, w, hrun, his⟩ hnil
    obtain ⟨-, hrest⟩ := Prod.mk.inj (hsend.symm.trans hrun)
    obtain ⟨rfl, -⟩ := Prod.mk.inj hrest
    -- the first index is streamed, and is not missing
    have hzero : (0 : UInt32) ∈ cs.map Chunk.index :=
      (hall 0).2 (List.length_pos_of_ne_nil hnonempty)
    have hstreamed := (his 0).1 (by rw [hnil]; simpa using hzero)
    rw [hnil] at hstreamed
    cases hstreamed
  · intro hne
    have hmem : ∀ c, (st.missing.isEmpty || decide (c ∈ st.missing)) = decide (c ∈ st.missing) := by
      intro c
      rw [List.isEmpty_eq_false_iff.2 hne, Bool.false_or]
    refine ⟨_, _, _, hsend, fun j => ?_⟩
    simp only [hmem, List.mem_map, List.mem_filter, decide_eq_true_eq]
    constructor
    · rintro ⟨c, ⟨-, hc⟩, rfl⟩
      exact hc
    · intro hj
      obtain ⟨c, hc, rfl⟩ := List.mem_map.1 ((hall j).2 (h.mem_missing.1 hj).1)
      exact ⟨c, ⟨hc, hj⟩, rfl⟩

/-- **What is streamed is what is missing exactly if something is missing**: an index of the file
that is not verified. -/
theorem sendsMissing_iff (hV : V.Postcard) (h : Exchanged V client d debug source t m cs s st) :
    SendsMissing V client d debug source t s st ↔
      ∃ i : UInt32, i.toNat < m.chunks.length ∧ i ∉ st.verifiedChunks := by
  rw [sendsMissing_of_exchanged hV h]
  constructor
  · intro hne
    obtain ⟨i, hi⟩ := List.exists_mem_of_ne_nil _ hne
    exact ⟨i, h.mem_missing.1 hi⟩
  · rintro ⟨i, hi⟩ hnil
    have hmem := h.mem_missing.2 hi
    rw [hnil] at hmem
    cases hmem

namespace Memo

open Photo

/-- A disk with a file of three bytes. -/
def tree : Tree := disk.putFile ["memo"] [1, 2, 3]

/-- Its manifest. -/
def manifest : FileManifest :=
  (unsignedManifest .sample ["memo"] visitor defaultChunkSize [1, 2, 3]
    [⟨0, polyHash [1, 2, 3], [1, 2, 3]⟩]).signed .sample FileCodecs.postcard.manifest visitor

/-- Its only chunk. -/
def chunk : Chunk := ⟨0, polyHash [1, 2, 3], [1, 2, 3]⟩

/-- A node that has all of it. -/
def finished : AppState :=
  { start with
    disk := (saveTransferState .postcard device (manifestId .sample FileCodecs.postcard.manifest
      manifest) ⟨manifest, [0], []⟩ disk).2 }

/-- It is announced to a node that has nothing of it. -/
theorem exchanged_start : Exchanged env visitor drawn (fun _ => "") ["memo"] tree manifest [chunk]
    start (.new manifest) where
  built := by decide +kernel
  resumed := by decide +kernel
  about := rfl
  accepted := by
    refine ⟨⟨some (.accept (manifestId .sample FileCodecs.postcard.manifest manifest) [0]), ""⟩, ?_⟩
    decide +kernel

/-- It is announced to a node that has all of it. -/
theorem exchanged_finished : Exchanged env visitor drawn (fun _ => "") ["memo"] tree manifest
    [chunk] finished ⟨manifest, [0], []⟩ where
  built := by decide +kernel
  resumed := by decide +kernel
  about := rfl
  accepted := by
    refine ⟨⟨some (.accept (manifestId .sample FileCodecs.postcard.manifest manifest) []), ""⟩, ?_⟩
    decide +kernel

end Memo

namespace Film

open Photo

/-- Every byte 255 multiplies the successor of the hash by 257. -/
theorem polyHash_replicate (k : ℕ) :
    polyHash (List.replicate k 255) = digits 32 ((257 ^ k + (2 ^ 256 - 1)) % 2 ^ 256) := by
  have hfold : ∀ n, (List.replicate k (255 : UInt8)).foldl
      (fun n x => (n * 257 + x.toNat + 1) % 2 ^ 256) (n % 2 ^ 256) =
        (257 ^ k * (n + 1) + (2 ^ 256 - 1)) % 2 ^ 256 := by
    induction k with
    | zero => intro n; simp only [List.replicate_zero, List.foldl_nil, pow_zero]; omega
    | succ k ih =>
      intro n
      have h255 : (255 : UInt8).toNat = 255 := rfl
      have hbyte : (n % 2 ^ 256 * 257 + 255 + 1) % 2 ^ 256 = (n * 257 + 256) % 2 ^ 256 := by omega
      rw [List.replicate_succ, List.foldl_cons, h255, hbyte, ih, pow_succ 257 k]
      congr 2
      ring
  have hzero := hfold 0
  rw [Nat.zero_mod, Nat.zero_add, Nat.mul_one] at hzero
  rw [polyHash, hzero]

/-- A file of two blocks, the first of them full. -/
def film : Bytes := List.replicate defaultChunkSize 255 ++ [3]

def tree : Tree := disk.putFile ["film"] film

/-- The hash of a full block. -/
def fullHash : Digest := digits 32 ((257 ^ defaultChunkSize + (2 ^ 256 - 1)) % 2 ^ 256)

/-- The two chunks of the film. -/
def chunks : List Chunk :=
  [⟨0, fullHash, List.replicate defaultChunkSize 255⟩, ⟨1, polyHash [3], [3]⟩]

/-- The manifest of the film. -/
def manifest : FileManifest :=
  FileManifest.signed .sample FileCodecs.postcard.manifest visitor
    { version := 1
      name := "film"
      totalSize := 786433
      chunkSize := 786432
      chunks := [fullHash, polyHash [3]]
      signer := visitor.pub .sample
      signature := zeroSignature }

/-- A full block and a byte are read one after the other. -/
theorem readBlocks_film : readBlocks defaultChunkSize film.length film =
    [List.replicate defaultChunkSize 255, [3]] := by
  have hlen : film.length = defaultChunkSize + 1 := by
    rw [film, List.length_append, List.length_replicate, List.length_singleton]
  have hne : film ≠ [] := by
    rw [film]
    exact List.append_ne_nil_of_right_ne_nil _ (List.cons_ne_nil _ _)
  have htake : film.take defaultChunkSize = List.replicate defaultChunkSize 255 :=
    List.take_left' List.length_replicate
  have hdrop : film.drop defaultChunkSize = [3] := List.drop_left' List.length_replicate
  have hlast : readBlocks defaultChunkSize defaultChunkSize [3] = [[3]] := by
    have hsize : defaultChunkSize = 786431 + 1 := rfl
    have hrest : readBlocks defaultChunkSize 786431 [] = [] :=
      (readBlocks_eq_nil (Nat.zero_le _)).2 rfl
    rw [hsize, readBlocks, if_neg (List.cons_ne_nil _ _), List.take_succ_cons, List.take_nil,
      List.drop_succ_cons, List.drop_nil, ← hsize, hrest]
  rw [hlen, readBlocks, if_neg hne, htake, hdrop, hlast]

theorem buildManifest_film :
    (buildManifest .sample FileCodecs.postcard.manifest ["film"] visitor defaultChunkSize
      tree).1 = .ok (manifest, chunks) := by
  have hread : (read ["film"] : FsM FileError Bytes) tree = (.ok film, tree) :=
    read_of_hasFile (hasFile_putFile (by decide +kernel))
  have hhash : Primitives.sample.hash (List.replicate defaultChunkSize 255) = fullHash :=
    polyHash_replicate _
  have hlen : film.length = 786433 := by
    rw [film, List.length_append, List.length_replicate, List.length_singleton]
    rfl
  have hchunks : chunksFrom .sample 0 (readBlocks defaultChunkSize film.length film) =
      .ok chunks := by
    rw [readBlocks_film, chunks, ← hhash]
    rfl
  have hname : (fileName ["film"]).getD "unnamed" = "film" := by decide +kernel
  rw [buildManifest_eq hread (by decide), hchunks, Except.map, manifest, unsignedManifest, hlen,
    hname]
  rfl

/-- A node that has the first block. -/
def half : AppState :=
  { start with
    disk := (saveTransferState .postcard device (manifestId .sample FileCodecs.postcard.manifest
      manifest) ⟨manifest, [0], []⟩ disk).2 }

theorem exchanged_half : Exchanged env visitor drawn (fun _ => "") ["film"] tree manifest
    chunks half ⟨manifest, [0], []⟩ where
  built := buildManifest_film
  resumed := by decide +kernel
  about := rfl
  accepted := by
    refine ⟨⟨some (.accept (manifestId .sample FileCodecs.postcard.manifest manifest) [1]), ""⟩,
      ?_⟩
    decide +kernel

end Film

open Photo in
/-- A node that has nothing of the memo is sent it, and one that has the first block of the film is
sent the second. -/
theorem sendsMissing_iff_start :
    SendsMissing env visitor drawn (fun _ => "") ["memo"] Memo.tree start (.new Memo.manifest) ∧
    SendsMissing env visitor drawn (fun _ => "") ["film"] Film.tree Film.half
      ⟨Film.manifest, [0], []⟩ ∧
    (⟨Film.manifest, [0], []⟩ : TransferState).missing = [1] :=
  ⟨(sendsMissing_iff ⟨rfl, rfl⟩ Memo.exchanged_start).2 ⟨0, by decide, by decide⟩,
    (sendsMissing_iff ⟨rfl, rfl⟩ Film.exchanged_half).2 ⟨1, by decide, by decide⟩, by decide⟩

open Photo Memo in
/-- A node that has all of the file is sent all of it again. -/
theorem not_sendsMissing : ¬ ∀ (s : AppState) (st : TransferState),
    Exchanged env visitor drawn (fun _ => "") ["memo"] tree Memo.manifest [chunk] s st →
      SendsMissing env visitor drawn (fun _ => "") ["memo"] tree s st := by
  intro h
  have hsends := h _ _ exchanged_finished
  rw [sendsMissing_of_exchanged ⟨rfl, rfl⟩ exchanged_finished] at hsends
  exact hsends (by decide)

/-! ### Asking whether it has arrived -/

/-- A state that a program can get hold of: a new one, one after a mark, and what a peer says. -/
inductive Obtainable (F : Codec AppFrame) : TransferState → Prop
  | new (m : FileManifest) : Obtainable F (.new m)
  | mark {s : TransferState} (a : Mark) : Obtainable F s → Obtainable F (s.mark a)
  | decoded {s : TransferState} (payload : Bytes) (manifestId : String) :
      AppFrame.decode F payload = .files (.status manifestId s) → Obtainable F s

/-- The same, if the marks are of indices of the manifest, a reply lists only such indices, each of
them once, and there are no more chunks than numbers for them. -/
inductive Orderly (F : Codec AppFrame) : TransferState → Prop
  | new (m : FileManifest) : m.chunks.length ≤ 2 ^ 32 → Orderly F (.new m)
  | mark {s : TransferState} (a : Mark) : a.InRange s.manifest → Orderly F s → Orderly F (s.mark a)
  | decoded {s : TransferState} (payload : Bytes) (manifestId : String) :
      AppFrame.decode F payload = .files (.status manifestId s) → s.InRange →
        s.manifest.chunks.length ≤ 2 ^ 32 → Orderly F s

/-- What a reply of the peer holds is what its payload is decoded to. -/
def Peer.Decodes (F : Codec AppFrame) (P : Peer σ) : Prop :=
  ∀ frame w reply w' f, P.call frame w = (.ok reply, w') → reply.frame = some f →
    ∃ payload, AppFrame.decode F payload = .files f

/-- The peer says in a reply that this is the state of the transfer. -/
def Peer.Tells (P : Peer σ) (st : TransferState) : Prop :=
  ∃ id w reply w' id', P.call (.statusRequest id) w = (.ok reply, w') ∧
    reply.frame = some (.status id' st)

theorem decodes_nodePeer : (nodePeer V client d debug).Decodes V.frames := by
  intro frame w reply w' f hcall hframe
  simp only [nodePeer] at hcall
  split at hcall
  · cases hcall
  · split at hcall
    · cases hcall
    · rename_i answer _
      obtain ⟨hreply, -⟩ := Prod.mk.inj hcall
      rw [← Except.ok.inj hreply] at hframe
      dsimp only at hframe
      split at hframe
      · rename_i g hdecode
        exact ⟨_, Option.some.inj hframe ▸ hdecode⟩
      · cases hframe

theorem Peer.Tells.obtainable {F : Codec AppFrame} (hP : P.Decodes F) (h : P.Tells st) :
    Obtainable F st := by
  obtain ⟨id, w, reply, w', id', hcall, hframe⟩ := h
  obtain ⟨payload, hdecode⟩ := hP _ _ _ _ _ hcall hframe
  exact .decoded payload id' hdecode

theorem tells_askStatus {w w' : σ} (h : askStatus P id w = (.ok st, w')) : P.Tells st := by
  rw [askStatus] at h
  cases hcall : P.call (.statusRequest id) w with
  | mk r w₁ =>
  rw [hcall] at h
  cases r with
  | error e => cases h
  | ok reply =>
    dsimp only at h
    split at h
    · rename_i id' state hframe
      obtain ⟨hstate, -⟩ := Prod.mk.inj h
      obtain rfl := Except.ok.inj hstate
      exact ⟨id, w, reply, w₁, id', hcall, hframe⟩
    · cases h

theorem tells_pollTransfer {rounds : ℕ} {w w' : σ}
    (h : pollTransfer P id cs rounds w = (.ok st, w')) : P.Tells st := by
  induction rounds generalizing w with
  | zero => exact tells_askStatus h
  | succ rounds ih =>
    rw [pollTransfer] at h
    split at h
    · cases h
    · rename_i state w₁ hask
      split at h
      · obtain ⟨hstate, -⟩ := Prod.mk.inj h
        obtain rfl := Except.ok.inj hstate
        exact tells_askStatus hask
      · split at h
        · cases h
        · exact ih h

/-- **What `send_file_and_wait` returns is what a reply said**, not the state that `send_file` makes
up. -/
theorem tells_sendFileAndWait {K : Primitives} {C : Codec FileManifest} {rounds : ℕ} {w w' : σ}
    (h : sendFileAndWait P K C source client rounds t w = (.ok st, w')) : P.Tells st := by
  rw [sendFileAndWait] at h
  split at h
  · cases h
  · split at h
    · cases h
    · exact tells_pollTransfer h

theorem Orderly.inRange {F : Codec AppFrame} (h : Orderly F st) :
    st.InRange ∧ st.manifest.chunks.length ≤ 2 ^ 32 := by
  induction h with
  | new m hm => exact ⟨TransferState.inRange_new, hm⟩
  | mark a ha _ ih => exact ⟨ih.1.mark ha, by rw [TransferState.manifest_mark]; exact ih.2⟩
  | decoded payload id _ hrange hm => exact ⟨hrange, hm⟩

/-- **When a transfer is complete iff nothing is missing.**  In every orderly state; and a state
of as many chunks as can be numbered has only the indices of chunks among its verified entries,
each of them once, exactly if it agrees and goes on agreeing while such indices are marked.  What
`send_file_and_wait` returns is what the peer said in a reply, so if that lists indices of chunks,
each of them once, the transfer is reported finished iff the peer misses no chunk. -/
theorem agrees_obtainable (F : Codec AppFrame) :
    (∀ s, Orderly F s → s.Agrees) ∧
    (∀ s, Obtainable F s → s.manifest.chunks.length ≤ 2 ^ 32 →
      ((∀ marks : List Mark, (∀ a ∈ marks, a.InRange s.manifest) → (s.after marks).Agrees) ↔
        s.InRange)) ∧
    ∀ (σ : Type) (P : Peer σ), P.Decodes F → ∀ (K : Primitives) (C : Codec FileManifest)
      (source : PathBuf) (identity : Identity) (rounds : ℕ) (t : Tree) (w : σ) (st : TransferState),
        (sendFileAndWait P K C source identity rounds t w).1 = .ok st →
          P.Tells st ∧ Obtainable F st ∧
            (st.InRange → st.manifest.chunks.length ≤ 2 ^ 32 → st.Agrees) := by
  refine ⟨fun s hs => ?_, fun s _ hm => TransferState.inRange_iff hm, ?_⟩
  · obtain ⟨hrange, hm⟩ := hs.inRange
    exact TransferState.agrees_of_inRange hrange hm
  · intro σ P hP K C source identity rounds t w st hrun
    have htells := tells_sendFileAndWait (Prod.ext hrun rfl)
    exact ⟨htells, htells.obtainable hP, TransferState.agrees_of_inRange⟩

open Photo Memo in
/-- The memo is sent to a node that has nothing: the node says that it has the only chunk, and that
it misses none. -/
theorem agrees_obtainable_memo :
    (sendFileAndWait (nodePeer env visitor drawn fun _ => "") .sample FileCodecs.postcard.manifest
        ["memo"] visitor 1 tree start).1 = .ok ⟨Memo.manifest, [0], []⟩ ∧
      (⟨Memo.manifest, [0], []⟩ : TransferState).Agrees := by
  have hrun : (sendFileAndWait (nodePeer env visitor drawn fun _ => "") .sample
      FileCodecs.postcard.manifest ["memo"] visitor 1 tree start).1 =
        .ok ⟨Memo.manifest, [0], []⟩ := by decide +kernel
  obtain ⟨-, -, hagrees⟩ := (agrees_obtainable AppFrame.wire.toCodec).2.2 _ _ decodes_nodePeer _ _ _
    _ _ _ _ _ hrun
  have hrange : (⟨Memo.manifest, [0], []⟩ : TransferState).InRange :=
    ⟨List.nodup_singleton _, List.forall_mem_singleton.2 Nat.one_pos⟩
  exact ⟨hrun, hagrees hrange (by decide)⟩

open Memo in
/-- The only chunk of the memo is missing, and another index completes the transfer. -/
theorem not_agrees_obtainable :
    ¬ ∀ s : TransferState, Obtainable AppFrame.wire.toCodec s → s.Agrees := by
  intro h
  have hagrees := h _ (.mark (.verified 1) (.new Memo.manifest))
  have hcomplete : ((TransferState.new Memo.manifest).mark (.verified 1)).complete = true := by
    decide +kernel
  exact absurd (hagrees.1 hcomplete) (by decide +kernel)

end Neonet
