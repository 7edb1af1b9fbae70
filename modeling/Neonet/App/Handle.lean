import Neonet.App.Burrow
import Neonet.App.Core
import Neonet.App.Lobby
import Neonet.App.Pair
import Neonet.App.Rendezvous
import Neonet.Files.Footprint

/-!
# Handing a message to its subsystem

* `AppEnv.handleFiles`, `AppEnv.handleStore` : the frames of the file transfer and of the store.
* `AppEnv.handle` : `app::handle`.
* `framePlaces`, `frame_handle` : **the files that handling a message may write.**
* `app` : the messages that a node handles, one after the other.
-/

namespace Neonet

open FileTree FsM

/-- The format `{:?}` of a list of numbers. -/
def debugIndices (is : List UInt32) : String :=
  "[" ++ String.intercalate ", " (is.map fun i => toString i.toNat) ++ "]"

section Handlers

variable (V : AppEnv) (d : Draws) (request : Message)

/-- What a chunk is answered. -/
def AppEnv.answerChunk (manifestId : String) : ReceiveStatus → AppState → Outcome × AppState
  | .verified true, s =>
    (.handled (.text ("file transfer complete: " ++ manifestId)),
      s.replied V request (.files (.complete manifestId)))
  | .verified false, s => (.handled .silent, s)
  | .needsResend index reason, s =>
    (.handled .silent, s.replied V request (.files (.reject manifestId index reason)))

/-- `files::handle`. -/
def AppEnv.handleFiles : FilesFrame → AppState → Outcome × AppState
  | .announce manifestId manifest senderName, s =>
    match announce V.primitives V.files V.home manifestId manifest s.disk with
    | (.ok state, disk) =>
      (.handled (.text ("file transfer from " ++ senderName ++ ": " ++ manifest.name ++ " (" ++
          toString manifest.totalSize.toNat ++ " bytes, " ++ toString manifest.chunks.length ++
          " chunks; " ++ toString state.missing.length ++ " to fetch)")),
        ({ s with disk } : AppState).replied V request (.files (.accept manifestId state.missing)))
    -- nobody is answered after a panic
    | (.error .panicked, disk) => (.panicked, { s with disk })
    | (.error e, disk) =>
      (.handled .silent,
        ({ s with disk } : AppState).replied V request (.files (.error (some manifestId) e.text)))
  | .accept manifestId missing, s =>
    let pending := if missing = [] then "all chunks"
      else toString missing.length ++ " chunk(s): " ++ debugIndices missing
    (.handled (.text ("receiving file " ++ manifestId ++ "; " ++ pending ++ " requested")), s)
  | .chunk manifestId chunk, s =>
    match receiveChunk V.primitives V.files V.home manifestId chunk s.disk with
    | (.ok status, disk) => V.answerChunk request manifestId status { s with disk }
    | (.error .panicked, disk) => (.panicked, { s with disk })
    | (.error e, disk) =>
      (.handled .silent,
        ({ s with disk } : AppState).replied V request (.files (.error (some manifestId) e.text)))
  | .reject _ _ _, s => (.handled .silent, s)
  | .complete manifestId, s =>
    (.handled (.text ("file transfer complete (confirmed by peer): " ++ manifestId)), s)
  | .statusRequest manifestId, s =>
    match loadTransferState V.files V.home manifestId s.disk with
    | (.ok state, disk) =>
      (.handled .silent,
        ({ s with disk } : AppState).replied V request (.files (.status manifestId state)))
    | (.error e, disk) =>
      (.handled .silent,
        ({ s with disk } : AppState).replied V request (.files (.error (some manifestId) e.text)))
  | .status manifestId state, s =>
    (.handled (.text (manifestId ++ ": " ++ toString state.verifiedChunks.length ++ "/" ++
      toString state.manifest.chunks.length ++ " chunks verified, " ++
      toString state.lostChunks.length ++ " lost")), s)
  | .error _ message, s => (.handled (.text ("file transfer error: " ++ message)), s)

/-- What the operator is told of a frame of the store. -/
def storageNotice : StorageFrame → Handling
  | .storeAck fileId => .text ("storage acknowledged: " ++ fileId)
  | .storedChunks fileId _ chunks =>
    .text ("core holds " ++ toString chunks.length ++ " encrypted chunk(s) for " ++ fileId)
  | .error message => .text ("storage error: " ++ message)
  | .storeChunks _ _ _ | .fetchChunks _ _ => .silent

/-- `storage::handle`: what `handleStorage` replies is sent. -/
def AppEnv.handleStore (frame : StorageFrame) (s : AppState) : Outcome × AppState :=
  match handleStorage V.primitives V.storage V.home request.sender frame s.disk with
  | (some answer, disk) =>
    (.handled (storageNotice frame),
        ({ s with disk } : AppState).replied V request (.storage answer))
  | (none, disk) => (.handled (storageNotice frame), { s with disk })

/-- What the operator is told of a plain text. -/
def AppEnv.rawNotice (payload : Bytes) : String :=
  let head := "message " ++ hex request.id.toList ++ " from " ++
    request.sender.fingerprint V.primitives ++ ": "
  match String.fromUTF8? ⟨⟨payload⟩⟩ with
  | some text => head ++ text
  | none => head ++ "non-utf8 payload (" ++ toString request.payload.length ++ " bytes)"

/-- A frame goes to its subsystem. -/
def AppEnv.dispatch (s : AppState) : AppFrame → Outcome × AppState
  | .raw payload => (.handled (.text (V.rawNotice request payload)), s)
  | .files f => V.handleFiles request f s
  | .burrow f => V.handleBurrow request f s
  | .storage f => V.handleStore request f s
  | .core f => V.handleCore request f s
  | .rendezvous f => V.handleRendezvous d request f s
  | .pair f => V.handlePair d request f s
  | .lobby f => V.handleLobby d request f s
  | .channel f => V.handleChannel d request f s

/-- `app::handle`. -/
def AppEnv.handle (s : AppState) : Outcome × AppState :=
  V.dispatch d request s (AppFrame.decode V.frames request.payload)

end Handlers

/-- The messages that a node handles, one after the other. -/
def app (V : AppEnv) : Machine AppState (Draws × Message) Outcome where
  step s a := V.handle a.1 a.2 s

/-! ### What handling a message writes -/

/-- The files that a frame of a peer may write. -/
def framePlaces (V : AppEnv) (sender : PublicIdentity) (t : Tree) : AppFrame → Set Loc
  | .files (.announce manifestId m _) =>
    {l | verifyManifest V.primitives V.files.manifest m = .ok () ∧
        l ∈ manifestPlaces V.home manifestId}
  | .files (.chunk manifestId c) => receivedPlaces V.primitives V.files V.home manifestId c t
  | .storage (.storeChunks fileId m _) =>
    {l | Accepts V.primitives V.storage V.home m sender t ∧ l ∈ storePlaces V.home fileId}
  | .burrow _ => forkPlaces V.home
  | .core _ => revocationPlaces V.home ∪ dataPlaces V.home
  | .rendezvous _ => recordPlaces V.home
  | .pair _ => pairPlaces V.home
  | .lobby _ | .channel _ => logPlaces V.home
  | _ => ∅

variable {V : AppEnv} {d : Draws} {request : Message} {s : AppState}

theorem frame_handleFiles {f : FilesFrame} :
    Frame (framePlaces V request.sender s.disk (.files f)) s.disk
        (V.handleFiles request f s).2.disk := by
  cases f with
  | announce manifestId manifest senderName =>
    have h : Frame {l | verifyManifest V.primitives V.files.manifest manifest = .ok () ∧
        l ∈ manifestPlaces V.home manifestId} s.disk
          (announce V.primitives V.files V.home manifestId manifest s.disk).2 := frame_announce
    rw [AppEnv.handleFiles]
    split <;> rename_i heq <;> rw [heq] at h
    · rw [AppState.replied_disk]; exact h
    · exact h
    · rw [AppState.replied_disk]; exact h
  | chunk manifestId c =>
    have h : Frame (receivedPlaces V.primitives V.files V.home manifestId c s.disk) s.disk
        (receiveChunk V.primitives V.files V.home manifestId c s.disk).2 := frame_receiveChunk
    rw [AppEnv.handleFiles]
    split <;> rename_i heq <;> rw [heq] at h
    · rename_i status _
      match status with
      | .verified true => rw [AppEnv.answerChunk, AppState.replied_disk]; exact h
      | .verified false => exact h
      | .needsResend _ _ => rw [AppEnv.answerChunk, AppState.replied_disk]; exact h
    · exact h
    · rw [AppState.replied_disk]; exact h
  | statusRequest manifestId =>
    have h : (loadTransferState V.files V.home manifestId s.disk).2 = s.disk :=
      inert_loadTransferState s.disk
    rw [AppEnv.handleFiles]
    split <;> rename_i heq <;> rw [heq] at h <;> obtain rfl := h <;> rw [AppState.replied_disk]
  | accept | reject | complete | status | error => exact .refl _

theorem frame_handleStore {f : StorageFrame} :
    Frame (framePlaces V request.sender s.disk (.storage f)) s.disk
        (V.handleStore request f s).2.disk := by
  cases f with
  | storeChunks fileId m cs =>
    have h : Frame (framePlaces V request.sender s.disk
        (.storage (.storeChunks fileId m cs))) s.disk
        (storeChunks V.primitives V.storage V.home fileId request.sender m cs s.disk).2 := by
      by_cases ha : Accepts V.primitives V.storage V.home m request.sender s.disk
      · exact (touches_storeChunks s.disk).mono fun l hl => ⟨ha, hl⟩
      · obtain ⟨e, he⟩ := storeChunks_rejected fileId cs ha
        rw [he]
    rw [AppEnv.handleStore, handleStorage]
    dsimp only
    rw [AppState.replied_disk]
    exact h
  | fetchChunks fileId offset =>
    have h : (fetchChunks V.primitives V.storage V.home fileId request.sender offset s.disk).2 =
        s.disk := inert_fetchChunks s.disk
    rw [AppEnv.handleStore, handleStorage]
    dsimp only
    rw [AppState.replied_disk, h]
  | storeAck | storedChunks | error => exact .refl _

theorem frame_dispatch {f : AppFrame} :
    Frame (framePlaces V request.sender s.disk f) s.disk (V.dispatch d request s f).2.disk := by
  cases f with
  | raw payload => exact .refl _
  | files f => exact frame_handleFiles
  | burrow f => exact frame_handleBurrow
  | storage f => exact frame_handleStore
  | core f => exact frame_handleCore
  | rendezvous f => exact frame_handleRendezvous
  | pair f => exact frame_handlePair
  | lobby f => exact frame_handleLobby
  | channel f => exact frame_handleChannel

/-- **Handling a message writes only the files of its frame.** -/
theorem frame_handle :
    Frame (framePlaces V request.sender s.disk (AppFrame.decode V.frames request.payload)) s.disk
      (V.handle d request s).2.disk := frame_dispatch

/-! ### The node of the photo -/

namespace Photo

/-- A node that has received nothing. -/
def env : AppEnv := .sample owner device

/-- It before the first frame. -/
def start : AppState := ⟨disk, fun _ => none, []⟩

/-- A message of the owner to the node. -/
def note : Message := ⟨List.Vector.replicate 16 0, owner.pub .sample, owner.pub .sample, []⟩

/-- A frame, as a message to the node. -/
def sentBy (who : Identity) (f : AppFrame) : Message :=
  { note with sender := who.pub .sample, payload := env.frames.encode f }

theorem decode_sentBy (who : Identity) (f : AppFrame) :
    AppFrame.decode env.frames (sentBy who f).payload = f := by
  rw [AppFrame.decode, sentBy, env.frames.decode_encode]

/-- A node whose directory is there and empty. -/
def settled : AppState :=
  { start with disk := ((createDirAll device.path : FsM IoError Unit) disk).2 }

/-- Another device. -/
def visitor : Identity := ⟨digits 32 9⟩

/-- A clock that stands still, and ids that are not that of the note. -/
def drawn : Draws := ⟨fun _ => 0, fun _ => List.Vector.replicate 16 1⟩

end Photo

end Neonet
