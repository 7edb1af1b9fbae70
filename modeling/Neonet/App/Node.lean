import Neonet.Burrow.Share
import Neonet.Lib.Agree
import Neonet.Storage.Client

/-!
# A node that handles messages

* `AppEnv` : what a node handles messages with: the crates, the serialisations, who it is and where
  it keeps things.
* `AppState` : what it changes: its disk, the lobbies it hosts, and the messages that its router
  accepts.
* `Outcome` : what handling one message comes to.
* `reply` : the reply to a request, and `AppState.replied` for `let _ = reply(..)`.
* `AppState.replied_of_fits`, `AppState.replied_of_not_fits` : **a reply is accepted by the router
  iff it is not too large**, and otherwise nothing is sent.
-/

namespace Neonet

open FileTree

/-- The UTF-8 bytes of a text. -/
def utf8 (s : String) : Bytes := s.toByteArray.data.toList

/-- `Handling`: what the operator is told, if anything. -/
structure Handling where
  notify : Option String
  deriving DecidableEq

/-- Nothing is told. -/
def Handling.silent : Handling := ⟨none⟩

/-- Something is told. -/
def Handling.text (s : String) : Handling := ⟨some s⟩

/-- What handling a message comes to. -/
inductive Outcome
  | handled (h : Handling)
  | failed (e : IoError)
  /-- The program stops. -/
  | panicked
  deriving DecidableEq

/-- The records of the rendezvous service: each fingerprint has one. -/
structure Records where
  entries : List (String × EndpointRecord)
  nodup : (entries.map Prod.fst).Nodup

/-- A token that was issued. -/
structure PendingToken where
  token : String
  expiresAt : UInt64
  used : Bool
  deriving DecidableEq

/-- A device that was paired. -/
structure PairedDevice where
  fingerprint : String
  publicKey : ByteArr 32
  pairedAt : UInt64
  deriving DecidableEq

/-- A lobby that was joined. -/
structure MemberLobby where
  name : String
  hostAlias : String
  hostFingerprint : String
  keyHex : String
  title : String
  welcome : String
  deriving DecidableEq

/-- A lobby that is hosted. -/
structure HostState where
  key : String
  members : Finset PublicIdentity
  title : String
  welcome : String
  maxMembers : Option ℕ

/-- What a node handles messages with. -/
structure AppEnv where
  primitives : Primitives
  /-- `VerifyingKey::from_bytes` succeeds. -/
  parsesKey : ByteArr 32 → Bool
  cipher : Cipher
  messages : MessageCodecs
  frames : Codec AppFrame
  files : FileCodecs
  storage : StorageEnv
  records : Codec Records
  token : Codec PendingToken
  ledger : Codec (List PairedDevice)
  roster : Codec (List MemberLobby)
  share : ShareEnv
  /-- `String::from_utf8_lossy`. -/
  lossy : Bytes → String
  /-- The format `{:?}` of a text. -/
  debug : String → String
  /-- The order in which a set of members is iterated. -/
  memberOrder : Finset PublicIdentity → List PublicIdentity
  self : Identity
  home : Home

/-- Who the node is. -/
def AppEnv.identity (V : AppEnv) : PublicIdentity := V.self.pub V.primitives

/-- Records, as they may be written. -/
def Records.wire : Wire Records :=
  (Wire.seq (Wire.string.pair EndpointRecord.wire)).comap (·.entries)
    (fun l => if h : (l.map Prod.fst).Nodup then .ok ⟨l, h⟩ else .error "duplicate key")
    fun r => by rw [dif_pos r.nodup]

/-- A token, as it may be written. -/
def PendingToken.wire : Wire PendingToken :=
  (Wire.string.pair (Wire.u64.pair Wire.bool)).comap (fun p => (p.token, p.expiresAt, p.used))
    (fun x => .ok ⟨x.1, x.2.1, x.2.2⟩) fun _ => rfl

/-- A device, as it may be written. -/
def PairedDevice.wire : Wire PairedDevice :=
  (Wire.string.pair ((Wire.array 32).pair Wire.u64)).comap
    (fun p => (p.fingerprint, p.publicKey, p.pairedAt)) (fun x => .ok ⟨x.1, x.2.1, x.2.2⟩)
    fun _ => rfl

/-- A lobby, as it may be written. -/
def MemberLobby.wire : Wire MemberLobby :=
  (Wire.string.pair (Wire.string.pair (Wire.string.pair (Wire.string.pair
    (Wire.string.pair Wire.string))))).comap
    (fun l => (l.name, l.hostAlias, l.hostFingerprint, l.keyHex, l.title, l.welcome))
    (fun x => .ok ⟨x.1, x.2.1, x.2.2.1, x.2.2.2.1, x.2.2.2.2.1, x.2.2.2.2.2⟩) fun _ => rfl

/-- The members in the order of their keys. -/
def byKey (members : Finset PublicIdentity) : List PublicIdentity :=
  Quot.liftOn members.val (List.insertionSort fun a b =>
      hex a.publicKey.toList ≤ hex b.publicKey.toList)
    fun _ _ h => by
      refine List.Perm.eq_of_pairwise (fun a b _ _ hab hba => ?_) (List.pairwise_insertionSort ..)
        (List.pairwise_insertionSort ..)
        (((List.perm_insertionSort ..).trans h).trans (List.perm_insertionSort ..).symm)
      have hkey := hex_injective (le_antisymm hab hba)
      cases a; cases b
      exact congrArg _ (Subtype.ext hkey)

/-- A node to compute with. -/
def AppEnv.sample (self : Identity) (home : Home) : AppEnv where
  primitives := .sample
  parsesKey _ := true
  cipher := .sample
  messages := .postcard
  frames := AppFrame.wire.toCodec
  files := .postcard
  storage := .sample
  records := Records.wire.toCodec
  token := PendingToken.wire.toCodec
  ledger := (Wire.seq PairedDevice.wire).toCodec
  roster := (Wire.seq MemberLobby.wire).toCodec
  share := ⟨alphabetical, fun _ => 4096, 64⟩
  lossy b := (String.fromUTF8? ⟨⟨b⟩⟩).getD "\uFFFD"
  debug s := "\"" ++ s ++ "\""
  memberOrder := byKey
  self := self
  home := home

/-- What changes when messages are handled. -/
structure AppState where
  disk : Tree
  /-- The lobbies this process hosts. -/
  hosts : String → Option HostState
  /-- The messages that the router accepted from the handlers, oldest first. -/
  sent : List Message

/-- What the handling of one message draws: readings of the clock and message ids. -/
structure Draws where
  clock : ℕ → UInt64
  ids : ℕ → ByteArr 16

/-- A program on the disk whose failure ends the handling, as `?` does. -/
def AppState.onDisk {α : Type} (s : AppState) (m : FsM IoError α)
    (next : α → AppState → Outcome × AppState) : Outcome × AppState :=
  match m s.disk with
  | (.error e, disk) => (.failed e, { s with disk })
  | (.ok a, disk) => next a { s with disk }

theorem AppState.onDisk_of_ok {α : Type} {s : AppState} {m : FsM IoError α} {a : α}
    {next : α → AppState → Outcome × AppState} (h : (m s.disk).1 = .ok a) :
    s.onDisk m next = next a { s with disk := (m s.disk).2 } := by
  rw [AppState.onDisk]
  split <;> rename_i heq <;> rw [heq] at h ⊢ <;> cases h
  rfl

theorem AppState.onDisk_of_error {α : Type} {s : AppState} {m : FsM IoError α} {e : IoError}
    {next : α → AppState → Outcome × AppState} (h : (m s.disk).1 = .error e) :
    s.onDisk m next = (.failed e, { s with disk := (m s.disk).2 }) := by
  rw [AppState.onDisk]
  split <;> rename_i heq <;> rw [heq] at h ⊢ <;> cases h
  rfl

theorem AppState.frame_onDisk {α : Type} {s : AppState} {m : FsM IoError α} {S : Set Loc}
    {next : α → AppState → Outcome × AppState} (hm : FsM.Touches S m)
    (hnext : ∀ a s', Frame S s'.disk (next a s').2.disk) :
    Frame S s.disk (s.onDisk m next).2.disk := by
  have h := hm s.disk
  rw [onDisk]
  cases hrun : m s.disk with
  | mk res disk =>
  rw [hrun] at h
  cases res with
  | error e => exact h
  | ok a => exact h.trans (hnext a { s with disk })

theorem AppState.entry_onDisk {α : Type} {s : AppState} {m : FsM IoError α} {S : Set Loc} {l : Loc}
    {next : α → AppState → Outcome × AppState} (hm : FsM.Within S m) (hl : l ∉ S)
    (hnext : ∀ a s', (next a s').2.disk = s'.disk) :
    (s.onDisk m next).2.disk.entry l = s.disk.entry l := by
  have h := hm s.disk l hl
  rw [onDisk]
  cases hrun : m s.disk with
  | mk res disk =>
  rw [hrun] at h
  cases res with
  | error e => exact h
  | ok a =>
    dsimp only
    rw [hnext]
    exact h

/-- A program that returns the same on two disks is followed by the same messages. -/
theorem AppState.sent_onDisk {α : Type} {s : AppState} {m : FsM IoError α} {u : Tree}
    {next : α → AppState → Outcome × AppState} (hm : (m u).1 = (m s.disk).1)
    (hnext : ∀ a t t', (next a { s with disk := t }).2.sent =
        (next a { s with disk := t' }).2.sent) :
    (({ s with disk := u } : AppState).onDisk m next).2.sent = (s.onDisk m next).2.sent := by
  rw [onDisk, onDisk]
  cases hs : m s.disk with
  | mk res disk =>
  cases hu : m u with
  | mk res' disk' =>
  rw [hs, hu] at hm
  obtain rfl : res' = res := hm
  cases res' with
  | error e => rfl
  | ok a => exact hnext a disk' disk

section Replies

variable (V : AppEnv) (request : Message)

/-- `Node::send_raw`, as far as the router may refuse the message. -/
def sendRaw (m : Message) (s : AppState) : Except IoError Unit × AppState :=
  match m.validateSize V.messages with
  | .error e => (.error e, s)
  | .ok () => (.ok (), { s with sent := s.sent ++ [m] })

/-- The message of a reply. -/
def replyMessage (payload : Bytes) : Message where
  id := request.id
  sender := V.identity
  recipient := request.sender
  payload := payload

/-- `reply`. -/
def reply (frame : AppFrame) (s : AppState) : Except IoError Unit × AppState :=
  match frame.encode V.frames with
  | .error e => (.error e, s)
  | .ok payload => sendRaw V (replyMessage V request payload) s

/-- A reply whose failure is passed over. -/
def AppState.replied (s : AppState) (frame : AppFrame) : AppState := (reply V request frame s).2

/-- The reply is small enough for each of the size checks. -/
def Fits (frame : AppFrame) : Prop :=
  (V.frames.encode frame).length ≤ maxMessageSize ∧
    (V.messages.message.encode (replyMessage V request (V.frames.encode frame))).length ≤
      maxMessageSize

instance (frame : AppFrame) : Decidable (Fits V request frame) :=
  inferInstanceAs (Decidable (_ ∧ _))

/-- The messages that a reply adds: itself if it fits, and nothing otherwise. -/
def delivered (answer : Option AppFrame) : List Message :=
  match answer with
  | none => []
  | some frame =>
    if Fits V request frame then [replyMessage V request (V.frames.encode frame)] else []

variable {V request} {s : AppState} {frame : AppFrame}

/-- **A reply that fits is sent.** -/
theorem AppState.replied_of_fits (h : Fits V request frame) :
    s.replied V request frame =
      { s with sent := s.sent ++ [replyMessage V request (V.frames.encode frame)] } := by
  have hpayload : frame.encode V.frames = .ok (V.frames.encode frame) :=
    AppFrame.encode_ok.2 ⟨h.1, rfl⟩
  rw [AppState.replied, reply, hpayload]
  dsimp only
  rw [sendRaw, validateSize_ok.2 h.2]

/-- **A reply that does not fit is not.** -/
theorem AppState.replied_of_not_fits (h : ¬ Fits V request frame) :
    s.replied V request frame = s := by
  rw [AppState.replied, reply]
  cases hpayload : frame.encode V.frames with
  | error e => rfl
  | ok payload =>
    obtain ⟨hle, rfl⟩ := AppFrame.encode_ok.1 hpayload
    dsimp only
    rw [sendRaw]
    cases hsize : (replyMessage V request (V.frames.encode frame)).validateSize V.messages with
    | error e => rfl
    | ok => exact absurd ⟨hle, validateSize_ok.1 hsize⟩ h

theorem AppState.replied_sent (frame : AppFrame) :
    (s.replied V request frame).sent = s.sent ++ delivered V request (some frame) := by
  rw [delivered]
  split
  · rename_i h
    rw [AppState.replied_of_fits h]
  · rename_i h
    rw [AppState.replied_of_not_fits h, List.append_nil]

theorem drop_sent_replied {s' : AppState} (hs : s'.sent = s.sent) (h : Fits V request frame) :
    (s'.replied V request frame).sent.drop s.sent.length =
      [replyMessage V request (V.frames.encode frame)] := by
  rw [AppState.replied_of_fits h]
  dsimp only
  rw [hs, List.drop_left]

theorem replyMessage_injective {a b : AppFrame}
    (h : replyMessage V request (V.frames.encode a) = replyMessage V request (V.frames.encode b)) :
    a = b :=
  V.frames.encode_injective (congrArg Message.payload h)

theorem filter_delivered {answer : Option AppFrame} :
    (delivered V request answer).filter (fun m => m.id = request.id) =
      delivered V request answer := by
  rw [List.filter_eq_self]
  intro m hm
  cases answer with
  | none => cases hm
  | some frame =>
    rw [delivered] at hm
    split at hm
    · rw [List.mem_singleton.1 hm]
      exact decide_eq_true rfl
    · cases hm

theorem delivered_eq_singleton {answer : Option AppFrame} {m : Message} :
    delivered V request answer = [m] ↔ ∃ frame, answer = some frame ∧ Fits V request frame ∧
      replyMessage V request (V.frames.encode frame) = m := by
  cases answer with
  | none => simp [delivered]
  | some frame =>
    rw [delivered]
    split <;> rename_i h <;> simp [h]

@[simp] theorem AppState.replied_disk : (s.replied V request frame).disk = s.disk := by
  by_cases h : Fits V request frame
  · rw [AppState.replied_of_fits h]
  · rw [AppState.replied_of_not_fits h]

@[simp] theorem AppState.replied_hosts : (s.replied V request frame).hosts = s.hosts := by
  by_cases h : Fits V request frame
  · rw [AppState.replied_of_fits h]
  · rw [AppState.replied_of_not_fits h]

end Replies

end Neonet
