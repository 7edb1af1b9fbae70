import Neonet.Messaging.Router
import Neonet.Storage.Core

/-!
# The frames of the application

What the payload of a message says.

* `AppFrame` : a frame of one of the subsystems, or a plain text.
* `AppFrame.encode`, `AppFrame.decode` : a payload that is no frame is a plain text.
* `AppFrame.wire` : the frames, as they are written.
-/

namespace Neonet

/-- A chunk, as it is written. -/
def Chunk.wire : Wire Chunk :=
  (Wire.u32.pair ((Wire.array 32).pair Wire.bytes)).comap
    (fun c => (c.index, c.hash, c.data)) (fun x => .ok ⟨x.1, x.2.1, x.2.2⟩) fun _ => rfl

/-! ### Files -/

/-- `FilesFrame`. -/
inductive FilesFrame
  | announce (manifestId : String) (manifest : FileManifest) (senderName : String)
  | accept (manifestId : String) (missing : List UInt32)
  | chunk (manifestId : String) (chunk : Chunk)
  | reject (manifestId : String) (index : UInt32) (reason : String)
  | complete (manifestId : String)
  | statusRequest (manifestId : String)
  | status (manifestId : String) (state : TransferState)
  | error (manifestId : Option String) (message : String)
  deriving DecidableEq

/-- A frame of the file transfer, as it is written. -/
def FilesFrame.wire : Wire FilesFrame :=
  .enum
    (fun
      | .announce i m s => (0, (Wire.string.pair
          (FileManifest.wire.pair Wire.string)).write (i, m, s))
      | .accept i ms => (1, (Wire.string.pair (Wire.seq Wire.u32)).write (i, ms))
      | .chunk i c => (2, (Wire.string.pair Chunk.wire).write (i, c))
      | .reject i n r => (3, (Wire.string.pair (Wire.u32.pair Wire.string)).write (i, n, r))
      | .complete i => (4, Wire.string.write i)
      | .statusRequest i => (5, Wire.string.write i)
      | .status i s => (6, (Wire.string.pair TransferState.wire).write (i, s))
      | .error i m => (7, ((Wire.option Wire.string).pair Wire.string).write (i, m)))
    (fun n b =>
      match n with
      | 0 => (Wire.string.pair (FileManifest.wire.pair Wire.string)).case
          (fun x => .announce x.1 x.2.1 x.2.2) b
      | 1 => (Wire.string.pair (Wire.seq Wire.u32)).case (fun x => .accept x.1 x.2) b
      | 2 => (Wire.string.pair Chunk.wire).case (fun x => .chunk x.1 x.2) b
      | 3 => (Wire.string.pair (Wire.u32.pair Wire.string)).case
          (fun x => .reject x.1 x.2.1 x.2.2) b
      | 4 => Wire.string.case .complete b
      | 5 => Wire.string.case .statusRequest b
      | 6 => (Wire.string.pair TransferState.wire).case (fun x => .status x.1 x.2) b
      | 7 => ((Wire.option Wire.string).pair Wire.string).case (fun x => .error x.1 x.2) b
      | _ => Wire.noCase)
    fun a rest => by cases a <;> exact Wire.case_write ..

/-! ### Shared directories -/

/-- What an entry of a shared directory is. -/
inductive EntryKind
  | file
  | directory
  | symlink
  deriving DecidableEq

/-- An entry of a shared directory. -/
structure ShareEntry where
  name : String
  kind : EntryKind
  size : UInt64
  deriving DecidableEq

/-- The kind of an entry, as it is written. -/
def EntryKind.wire : Wire EntryKind :=
  .enum (fun | .file => (0, []) | .directory => (1, []) | .symlink => (2, []))
    (fun n b =>
      match n with
      | 0 => Wire.unit.case (fun _ => .file) b
      | 1 => Wire.unit.case (fun _ => .directory) b
      | 2 => Wire.unit.case (fun _ => .symlink) b
      | _ => Wire.noCase)
    fun a rest => by cases a <;> rfl

/-- An entry, as it is written. -/
def ShareEntry.wire : Wire ShareEntry :=
  (Wire.string.pair (EntryKind.wire.pair Wire.u64)).comap
    (fun e => (e.name, e.kind, e.size)) (fun x => .ok ⟨x.1, x.2.1, x.2.2⟩) fun _ => rfl

/-- `BurrowFrame`. -/
inductive BurrowFrame
  | list (path : String)
  | listing (path : String) (entries : List ShareEntry)
  | read (path : String)
  | content (path : String) (bytes : Bytes)
  | fork (path : String)
  | forkResult (path : String) (ok : Bool) (error : Option String)
  | error (path : Option String) (message : String)
  deriving DecidableEq

/-- A frame of the shared directories, as it is written. -/
def BurrowFrame.wire : Wire BurrowFrame :=
  .enum
    (fun
      | .list p => (0, Wire.string.write p)
      | .listing p es => (1, (Wire.string.pair (Wire.seq ShareEntry.wire)).write (p, es))
      | .read p => (2, Wire.string.write p)
      | .content p b => (3, (Wire.string.pair Wire.bytes).write (p, b))
      | .fork p => (4, Wire.string.write p)
      | .forkResult p o e =>
        (5, (Wire.string.pair (Wire.bool.pair (Wire.option Wire.string))).write (p, o, e))
      | .error p m => (6, ((Wire.option Wire.string).pair Wire.string).write (p, m)))
    (fun n b =>
      match n with
      | 0 => Wire.string.case .list b
      | 1 => (Wire.string.pair (Wire.seq ShareEntry.wire)).case (fun x => .listing x.1 x.2) b
      | 2 => Wire.string.case .read b
      | 3 => (Wire.string.pair Wire.bytes).case (fun x => .content x.1 x.2) b
      | 4 => Wire.string.case .fork b
      | 5 => (Wire.string.pair (Wire.bool.pair (Wire.option Wire.string))).case
          (fun x => .forkResult x.1 x.2.1 x.2.2) b
      | 6 => ((Wire.option Wire.string).pair Wire.string).case (fun x => .error x.1 x.2) b
      | _ => Wire.noCase)
    fun a rest => by cases a <;> exact Wire.case_write ..

/-! ### The store and the cores -/

/-- A frame of the store, as it is written. -/
def StorageFrame.wire : Wire StorageFrame :=
  .enum
    (fun
      | .storeChunks f m cs =>
        (0, (Wire.string.pair (FileManifest.wire.pair
            (Wire.seq EncryptedChunk.wire))).write (f, m, cs))
      | .storeAck f => (1, Wire.string.write f)
      | .fetchChunks f o => (2, (Wire.string.pair Wire.u32).write (f, o))
      | .storedChunks f m cs =>
        (3, (Wire.string.pair ((Wire.option FileManifest.wire).pair
          (Wire.seq EncryptedChunk.wire))).write (f, m, cs))
      | .error m => (4, Wire.string.write m))
    (fun n b =>
      match n with
      | 0 => (Wire.string.pair (FileManifest.wire.pair (Wire.seq EncryptedChunk.wire))).case
          (fun x => .storeChunks x.1 x.2.1 x.2.2) b
      | 1 => Wire.string.case .storeAck b
      | 2 => (Wire.string.pair Wire.u32).case (fun x => .fetchChunks x.1 x.2) b
      | 3 => (Wire.string.pair ((Wire.option FileManifest.wire).pair
          (Wire.seq EncryptedChunk.wire))).case (fun x => .storedChunks x.1 x.2.1 x.2.2) b
      | 4 => Wire.string.case .error b
      | _ => Wire.noCase)
    fun a rest => by cases a <;> exact Wire.case_write ..

/-- `CoreFrame`. -/
inductive CoreFrame
  | reconcileRequest (hashes : List Digest)
  | reconcileMissing (missing : List Digest)
  | chunkData (hash : Digest) (data : Option Bytes)
  | revokeBroadcast (revoked : PublicIdentity) (epoch : UInt64) (signature : Signature)
  | revokeAck (epoch : UInt64)
  | revokeRefuse (epoch : UInt64) (reason : String)
  | error (message : String)
  deriving DecidableEq

/-- A frame of the cores, as it is written. -/
def CoreFrame.wire : Wire CoreFrame :=
  .enum
    (fun
      | .reconcileRequest hs => (0, (Wire.seq (Wire.array 32)).write hs)
      | .reconcileMissing hs => (1, (Wire.seq (Wire.array 32)).write hs)
      | .chunkData h d => (2, ((Wire.array 32).pair (Wire.option Wire.bytes)).write (h, d))
      | .revokeBroadcast x e s =>
        (3, (PublicIdentity.wire.pair (Wire.u64.pair (Wire.array 64))).write (x, e, s))
      | .revokeAck e => (4, Wire.u64.write e)
      | .revokeRefuse e r => (5, (Wire.u64.pair Wire.string).write (e, r))
      | .error m => (6, Wire.string.write m))
    (fun n b =>
      match n with
      | 0 => (Wire.seq (Wire.array 32)).case .reconcileRequest b
      | 1 => (Wire.seq (Wire.array 32)).case .reconcileMissing b
      | 2 => ((Wire.array 32).pair (Wire.option Wire.bytes)).case (fun x => .chunkData x.1 x.2) b
      | 3 => (PublicIdentity.wire.pair (Wire.u64.pair (Wire.array 64))).case
          (fun x => .revokeBroadcast x.1 x.2.1 x.2.2) b
      | 4 => Wire.u64.case .revokeAck b
      | 5 => (Wire.u64.pair Wire.string).case (fun x => .revokeRefuse x.1 x.2) b
      | 6 => Wire.string.case .error b
      | _ => Wire.noCase)
    fun a rest => by cases a <;> exact Wire.case_write ..

/-! ### Addresses, pairing and lobbies -/

/-- Where a device was seen. -/
structure EndpointRecord where
  identity : PublicIdentity
  address : String
  lastSeen : UInt64
  expiresAt : UInt64
  deriving DecidableEq

/-- A record, as it is written. -/
def EndpointRecord.wire : Wire EndpointRecord :=
  (PublicIdentity.wire.pair (Wire.string.pair (Wire.u64.pair Wire.u64))).comap
    (fun r => (r.identity, r.address, r.lastSeen, r.expiresAt))
    (fun x => .ok ⟨x.1, x.2.1, x.2.2.1, x.2.2.2⟩) fun _ => rfl

/-- `RendezvousFrame`. -/
inductive RendezvousFrame
  | register (address : String) (ttlSecs : UInt32) (signature : Signature)
  | registered
  | lookup (fingerprint : String)
  | lookupResult (fingerprint : String) (candidates : List EndpointRecord)
  | list
  | listResult (records : List EndpointRecord)
  | probe (fingerprint : String)
  | probeResult (fingerprint : String) (alive : Bool)
  | error (message : String)
  deriving DecidableEq

/-- A frame of the rendezvous service, as it is written. -/
def RendezvousFrame.wire : Wire RendezvousFrame :=
  .enum
    (fun
      | .register a t s => (0, (Wire.string.pair (Wire.u32.pair (Wire.array 64))).write (a, t, s))
      | .registered => (1, [])
      | .lookup f => (2, Wire.string.write f)
      | .lookupResult f rs => (3, (Wire.string.pair (Wire.seq EndpointRecord.wire)).write (f, rs))
      | .list => (4, [])
      | .listResult rs => (5, (Wire.seq EndpointRecord.wire).write rs)
      | .probe f => (6, Wire.string.write f)
      | .probeResult f a => (7, (Wire.string.pair Wire.bool).write (f, a))
      | .error m => (8, Wire.string.write m))
    (fun n b =>
      match n with
      | 0 => (Wire.string.pair (Wire.u32.pair (Wire.array 64))).case
          (fun x => .register x.1 x.2.1 x.2.2) b
      | 1 => Wire.unit.case (fun _ => .registered) b
      | 2 => Wire.string.case .lookup b
      | 3 => (Wire.string.pair (Wire.seq EndpointRecord.wire)).case (fun x =>
          .lookupResult x.1 x.2) b
      | 4 => Wire.unit.case (fun _ => .list) b
      | 5 => (Wire.seq EndpointRecord.wire).case .listResult b
      | 6 => Wire.string.case .probe b
      | 7 => (Wire.string.pair Wire.bool).case (fun x => .probeResult x.1 x.2) b
      | 8 => Wire.string.case .error b
      | _ => Wire.noCase)
    fun a rest => by cases a <;> first | rfl | exact Wire.case_write ..

/-- `PairFrame`. -/
inductive PairFrame
  | redeem (token : String)
  | redeemed (fingerprint : String)
  | error (message : String)
  deriving DecidableEq

/-- A frame of the pairing, as it is written. -/
def PairFrame.wire : Wire PairFrame :=
  .enum
    (fun
      | .redeem t => (0, Wire.string.write t)
      | .redeemed f => (1, Wire.string.write f)
      | .error m => (2, Wire.string.write m))
    (fun n b =>
      match n with
      | 0 => Wire.string.case .redeem b
      | 1 => Wire.string.case .redeemed b
      | 2 => Wire.string.case .error b
      | _ => Wire.noCase)
    fun a rest => by cases a <;> exact Wire.case_write ..

/-- `LobbyFrame`. -/
inductive LobbyFrame
  | join (lobbyName key : String)
  | joined (lobbyName title welcome : String)
  | posted (lobbyName : String) (relayed : ℕ)
  | refuse (message : String)
  | post (lobbyName key : String) (nonce ciphertext : Bytes)
  | relay (lobbyName : String) (nonce ciphertext : Bytes)
  | leave (lobbyName : String)
  | left (lobbyName : String)
  | members (lobbyName : String)
  | memberList (fingerprints : List String)
  deriving DecidableEq

/-- A frame of the lobbies, as it is written. -/
def LobbyFrame.wire : Wire LobbyFrame :=
  .enum
    (fun
      | .join l k => (0, (Wire.string.pair Wire.string).write (l, k))
      | .joined l t w => (1, (Wire.string.pair (Wire.string.pair Wire.string)).write (l, t, w))
      | .posted l n => (2, (Wire.string.pair Wire.nat).write (l, n))
      | .refuse m => (3, Wire.string.write m)
      | .post l k n c =>
        (4, (Wire.string.pair (Wire.string.pair (Wire.bytes.pair Wire.bytes))).write (l, k, n, c))
      | .relay l n c => (5, (Wire.string.pair (Wire.bytes.pair Wire.bytes)).write (l, n, c))
      | .leave l => (6, Wire.string.write l)
      | .left l => (7, Wire.string.write l)
      | .members l => (8, Wire.string.write l)
      | .memberList fs => (9, (Wire.seq Wire.string).write fs))
    (fun n b =>
      match n with
      | 0 => (Wire.string.pair Wire.string).case (fun x => .join x.1 x.2) b
      | 1 => (Wire.string.pair (Wire.string.pair Wire.string)).case
          (fun x => .joined x.1 x.2.1 x.2.2) b
      | 2 => (Wire.string.pair Wire.nat).case (fun x => .posted x.1 x.2) b
      | 3 => Wire.string.case .refuse b
      | 4 => (Wire.string.pair (Wire.string.pair (Wire.bytes.pair Wire.bytes))).case
          (fun x => .post x.1 x.2.1 x.2.2.1 x.2.2.2) b
      | 5 => (Wire.string.pair (Wire.bytes.pair Wire.bytes)).case (fun x =>
          .relay x.1 x.2.1 x.2.2) b
      | 6 => Wire.string.case .leave b
      | 7 => Wire.string.case .left b
      | 8 => Wire.string.case .members b
      | 9 => (Wire.seq Wire.string).case .memberList b
      | _ => Wire.noCase)
    fun a rest => by cases a <;> exact Wire.case_write ..

/-- `ChannelFrame`. -/
inductive ChannelFrame
  | send (text : String)
  | ack (at_ : UInt64)
  deriving DecidableEq

/-- A frame of the channels, as it is written. -/
def ChannelFrame.wire : Wire ChannelFrame :=
  .enum (fun | .send t => (0, Wire.string.write t) | .ack a => (1, Wire.u64.write a))
    (fun n b =>
      match n with
      | 0 => Wire.string.case .send b
      | 1 => Wire.u64.case .ack b
      | _ => Wire.noCase)
    fun a rest => by cases a <;> exact Wire.case_write ..

/-! ### The envelope -/

/-- `AppFrame`. -/
inductive AppFrame
  | raw (payload : Bytes)
  | files (frame : FilesFrame)
  | burrow (frame : BurrowFrame)
  | storage (frame : StorageFrame)
  | core (frame : CoreFrame)
  | rendezvous (frame : RendezvousFrame)
  | pair (frame : PairFrame)
  | lobby (frame : LobbyFrame)
  | channel (frame : ChannelFrame)
  deriving DecidableEq

/-- A frame of the application, as it is written. -/
def AppFrame.wire : Wire AppFrame :=
  .enum
    (fun
      | .raw b => (0, Wire.bytes.write b)
      | .files f => (1, FilesFrame.wire.write f)
      | .burrow f => (2, BurrowFrame.wire.write f)
      | .storage f => (3, StorageFrame.wire.write f)
      | .core f => (4, CoreFrame.wire.write f)
      | .rendezvous f => (5, RendezvousFrame.wire.write f)
      | .pair f => (6, PairFrame.wire.write f)
      | .lobby f => (7, LobbyFrame.wire.write f)
      | .channel f => (8, ChannelFrame.wire.write f))
    (fun n b =>
      match n with
      | 0 => Wire.bytes.case .raw b
      | 1 => FilesFrame.wire.case .files b
      | 2 => BurrowFrame.wire.case .burrow b
      | 3 => StorageFrame.wire.case .storage b
      | 4 => CoreFrame.wire.case .core b
      | 5 => RendezvousFrame.wire.case .rendezvous b
      | 6 => PairFrame.wire.case .pair b
      | 7 => LobbyFrame.wire.case .lobby b
      | 8 => ChannelFrame.wire.case .channel b
      | _ => Wire.noCase)
    fun a rest => by cases a <;> exact Wire.case_write ..

section Envelope

variable (F : Codec AppFrame)

/-- `AppFrame::encode`. -/
def AppFrame.encode (f : AppFrame) : Except IoError Bytes :=
  if maxMessageSize < (F.encode f).length then
    .error (.custom .invalidInput "application frame too large")
  else .ok (F.encode f)

/-- `AppFrame::decode`: what is no frame is a plain text. -/
def AppFrame.decode (b : Bytes) : AppFrame :=
  match F.decode b with
  | .ok f => f
  | .error _ => .raw b

variable {F}

theorem AppFrame.encode_ok {f : AppFrame} {b : Bytes} :
    f.encode F = .ok b ↔ (F.encode f).length ≤ maxMessageSize ∧ F.encode f = b := by
  unfold AppFrame.encode
  split
  · rename_i h
    simp only [reduceCtorEq, false_iff, not_and]
    intro hle
    omega
  · rename_i h
    simp only [Except.ok.injEq, iff_and_self]
    omega

theorem AppFrame.decode_encode (f : AppFrame) : AppFrame.decode F (F.encode f) = f := by
  rw [AppFrame.decode, F.decode_encode]

theorem AppFrame.decode_of_encode {f : AppFrame} {b : Bytes} (h : f.encode F = .ok b) :
    AppFrame.decode F b = f := by
  obtain ⟨-, rfl⟩ := AppFrame.encode_ok.1 h
  exact AppFrame.decode_encode f

end Envelope

end Neonet
