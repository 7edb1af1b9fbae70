import Neonet.App.Handle
import Neonet.Files.Consistent

/-!
# Whether a request is answered

A client waits for one message with the id of its request.  Every handler composes one reply, but
whether the router accepts the reply depends on its size, and no handler looks at what becomes of
it.

* `AppEnv.answer` : the reply that a request gets, from the state before it is handled.
* `sent_handle` : **handling a request sends its relays, and its answer if that fits.**
* `answeredOnce_iff` : **a request gets exactly one reply iff its answer fits.**
* `not_answeredOnce` : a request to join a lobby with a long name is refused, and the refusal, which
  repeats the name, is too large.
-/

namespace Neonet

open FileTree FsM

/-- The requests that are made with `Client::call`. -/
def AppFrame.Awaited : AppFrame → Prop
  | .files (.announce _ _ _) | .files (.statusRequest _) => True
  | .burrow (.list _) | .burrow (.read _) | .burrow (.fork _) => True
  | .storage (.storeChunks _ _ _) | .storage (.fetchChunks _ _) => True
  | .core (.revokeBroadcast _ _ _) => True
  | .rendezvous (.register _ _ _) | .rendezvous (.lookup _) | .rendezvous .list
  | .rendezvous (.probe _) => True
  | .pair (.redeem _) => True
  | .lobby (.join _ _) | .lobby (.post _ _ _ _) | .lobby (.leave _) | .lobby (.members _) => True
  | .channel (.send _) => True
  | _ => False

section Answers

variable (V : AppEnv) (d : Draws) (request : Message) (s : AppState)

/-- The answer to a frame of the file transfer. -/
def AppEnv.answerFiles : FilesFrame → Option FilesFrame
  | .announce manifestId manifest _ =>
    match (announce V.primitives V.files V.home manifestId manifest s.disk).1 with
    | .ok state => some (.accept manifestId state.missing)
    | .error e => some (.error (some manifestId) e.text)
  | .statusRequest manifestId =>
    match (loadTransferState V.files V.home manifestId s.disk).1 with
    | .ok state => some (.status manifestId state)
    | .error e => some (.error (some manifestId) e.text)
  | _ => none

/-- The answer to a request for a shared directory. -/
def AppEnv.answerBurrow : BurrowFrame → Option BurrowFrame
  | .list path =>
    match (V.browse path s.disk).1 with
    | .ok entries => some (.listing path entries)
    | .error e => some (.error (some path) e.text)
  | .read path =>
    match (V.readShared path s.disk).1 with
    | .ok bytes => some (.content path bytes)
    | .error e => some (.error (some path) e.text)
  | .fork path =>
    match (V.forkShared path s.disk).1 with
    | .ok () => some (.forkResult path true none)
    | .error e => some (.forkResult path false (some e.text))
  | _ => none

/-- The answer to a revocation. -/
def AppEnv.answerCore : CoreFrame → Option CoreFrame
  | .revokeBroadcast revoked epoch signature =>
    if request.sender.fingerprint V.primitives ∉
        ((operators V.storage V.home s.disk).1.toOption.getD []) then
      some (.revokeRefuse epoch "caller is not an operator of this core")
    else if V.parsesKey request.sender.publicKey = false then
      some (.revokeRefuse epoch "bad caller key")
    else if V.primitives.verify request.sender.publicKey (revokePayload epoch revoked) signature =
        false then
      some (.revokeRefuse epoch "invalid revocation signature")
    else some (.revokeAck epoch)
  | _ => none

/-- The answer of the rendezvous service. -/
def AppEnv.answerRendezvous : RendezvousFrame → Option RendezvousFrame
  | .register address _ signature =>
    if V.parsesKey request.sender.publicKey = false then some (.error "bad caller key")
    else if V.primitives.verify request.sender.publicKey (utf8 address) signature = false then
      some (.error "registration signature invalid")
    else some .registered
  | .lookup fingerprint =>
    some (.lookupResult fingerprint (Neonet.lookup V.records V.home (d.clock 0) fingerprint s.disk))
  | .list => some (.listResult (listRecords V.records V.home (d.clock 0) s.disk))
  | .probe fingerprint =>
    some (.probeResult fingerprint
      (!(Neonet.lookup V.records V.home (d.clock 0) fingerprint s.disk).isEmpty))
  | _ => none

/-- The answer to a redemption. -/
def AppEnv.answerPair : PairFrame → Option PairFrame
  | .redeem token =>
    match (consumeToken V.token V.home (d.clock 0) token s.disk).1 with
    | .ok true => some (.redeemed (request.sender.fingerprint V.primitives))
    | .ok false => some (.error "token is invalid, expired, or already used")
    | .error e => some (.error ("could not consume token: " ++ e.text))
  | _ => none

/-- The members of a lobby that this process hosts. -/
def AppState.membersOf (lobbyName : String) : Finset PublicIdentity :=
  ((s.hosts lobbyName).map HostState.members).getD ∅

/-- The answer to a post that was decrypted: none if the frame for the members is too large. -/
def AppEnv.answerPost (lobbyName : String) (nonce ciphertext : Bytes) : Option LobbyFrame :=
  match (AppFrame.lobby (.relay lobbyName nonce ciphertext)).encode V.frames with
  | .error _ => none
  | .ok payload =>
    some (.posted lobbyName (V.relayAll d payload 0 (V.memberOrder (s.membersOf lobbyName)) s).1)

/-- The answer to a frame of the lobbies. -/
def AppEnv.answerLobby : LobbyFrame → Option LobbyFrame
  | .join lobbyName key =>
    match s.hosts lobbyName with
    | none => some (.refuse ("no lobby named " ++ V.debug lobbyName ++ " is hosted here"))
    | some state =>
      if state.key ≠ key then some (.refuse "wrong lobby key")
      else if state.atCap then some (.refuse "lobby is at its member cap")
      else some (.joined lobbyName state.title state.welcome)
  | .post lobbyName key nonce ciphertext =>
    if ((s.hosts lobbyName).map fun state => decide (state.key = key)).getD false = false then
      some (.refuse "wrong lobby key or no such lobby")
    else
      match keyBytes key with
      | none => some (.refuse "malformed lobby key")
      | some key =>
        match decryptPost V.cipher key nonce ciphertext with
        | none => some (.refuse "could not decrypt post")
        | some _ => V.answerPost d s lobbyName nonce ciphertext
  | .leave lobbyName => some (.left lobbyName)
  | .members lobbyName =>
    some (.memberList (((V.memberOrder (s.membersOf lobbyName)).map fun m =>
      m.fingerprint V.primitives).insertionSort (· ≤ ·)))
  | _ => none

/-- The answer to a frame. -/
def AppEnv.answer : AppFrame → Option AppFrame
  | .files f => (V.answerFiles s f).map .files
  | .burrow f => (V.answerBurrow s f).map .burrow
  | .storage f => (handleStorage V.primitives V.storage V.home request.sender f
      s.disk).1.map .storage
  | .core f => (V.answerCore request s f).map .core
  | .rendezvous f => (V.answerRendezvous d request s f).map .rendezvous
  | .pair f => (V.answerPair d request s f).map .pair
  | .lobby f => (V.answerLobby d s f).map .lobby
  | .channel (.send _) => some (.channel (.ack (d.clock 0)))
  | _ => none

/-- The files that have to be written for a request can be written. -/
def AppEnv.Saves : AppFrame → Prop
  | .core (.revokeBroadcast revoked _ _) =>
    (revokeIdentity V.primitives V.storage V.home revoked s.disk).1 = .ok ()
  | .rendezvous (.register address ttlSecs _) =>
    (Neonet.register V.records V.home (d.clock 0) V.primitives request.sender address ttlSecs
      s.disk).1 = .ok ()
  | .pair (.redeem token) => ∀ disk,
    consumeToken V.token V.home (d.clock 0) token s.disk = (.ok true, disk) →
      (recordPairing V.ledger V.home (d.clock 1) V.primitives request.sender disk).1 = .ok ()
  | .lobby (.post lobbyName _ _ _) => ∀ text,
    (appendLobby V.home (d.clock 0) lobbyName (request.sender.fingerprint V.primitives) text
      s.disk).1 = .ok ()
  | .channel (.send text) =>
    (appendChannel V.home (d.clock 1) (request.sender.fingerprint V.primitives) text s.disk).1 =
      .ok ()
  | _ => True

/-- Handling the request sends exactly one message with its id, to the requester, which the router
accepts. -/
def AnsweredOnce : Prop :=
  ∃ later answer, (V.handle d request s).2.sent = s.sent ++ later ∧
    later.filter (fun m => m.id = request.id) = [answer] ∧ answer.recipient = request.sender

end Answers

variable {V : AppEnv} {d : Draws} {request : Message} {s s' : AppState}

/-! ### What each handler sends -/

theorem sent_handleFiles {f : FilesFrame} (hf : (AppFrame.files f).Awaited) :
    (V.handleFiles request f s).2.sent =
      s.sent ++ delivered V request ((V.answerFiles s f).map .files) := by
  cases f with
  | announce manifestId manifest senderName =>
    have hno : (announce V.primitives V.files V.home manifestId manifest s.disk).1 ≠
        .error .panicked := avoids_announce s.disk
    simp only [AppEnv.handleFiles, AppEnv.answerFiles]
    split <;> rename_i heq <;> rw [heq] at hno ⊢
    · exact AppState.replied_sent _
    · exact absurd rfl hno
    · exact AppState.replied_sent _
  | statusRequest manifestId =>
    simp only [AppEnv.handleFiles, AppEnv.answerFiles]
    split <;> rename_i heq <;> rw [heq] <;> exact AppState.replied_sent _
  | _ => exact hf.elim

theorem sent_handleBurrow {f : BurrowFrame} (hf : (AppFrame.burrow f).Awaited) :
    (V.handleBurrow request f s).2.sent =
      s.sent ++ delivered V request ((V.answerBurrow s f).map .burrow) := by
  cases f with
  | list path =>
    simp only [AppEnv.handleBurrow, AppEnv.answerBurrow]
    split <;> rename_i heq <;> rw [heq] <;> exact AppState.replied_sent _
  | read path =>
    simp only [AppEnv.handleBurrow, AppEnv.answerBurrow]
    split <;> rename_i heq <;> rw [heq] <;> exact AppState.replied_sent _
  | fork path =>
    simp only [AppEnv.handleBurrow, AppEnv.answerBurrow]
    split <;> rename_i heq <;> rw [heq] <;> exact AppState.replied_sent _
  | _ => exact hf.elim

theorem sent_handleStore {f : StorageFrame} :
    (V.handleStore request f s).2.sent = s.sent ++ delivered V request
      ((handleStorage V.primitives V.storage V.home request.sender f s.disk).1.map .storage) := by
  rw [AppEnv.handleStore]
  split <;> rename_i heq <;> rw [heq]
  · exact AppState.replied_sent _
  · exact (List.append_nil _).symm

theorem sent_handleCore {f : CoreFrame} (hf : (AppFrame.core f).Awaited)
    (hs : V.Saves d request s (.core f)) :
    (V.handleCore request f s).2.sent =
      s.sent ++ delivered V request ((V.answerCore request s f).map .core) := by
  cases f with
  | revokeBroadcast revoked epoch signature =>
    rw [AppEnv.handleCore, AppEnv.answerCore]
    split_ifs
    · exact AppState.replied_sent _
    · exact AppState.replied_sent _
    · rw [AppState.onDisk_of_ok hs]
      exact AppState.replied_sent _
    -- the sender is no operator
    · exact AppState.replied_sent _
  | _ => exact hf.elim

theorem sent_handleRendezvous {f : RendezvousFrame} (hf : (AppFrame.rendezvous f).Awaited)
    (hs : V.Saves d request s (.rendezvous f)) :
    (V.handleRendezvous d request f s).2.sent =
      s.sent ++ delivered V request ((V.answerRendezvous d request s f).map .rendezvous) := by
  cases f with
  | register address ttlSecs signature =>
    rw [AppEnv.handleRendezvous, AppEnv.answerRendezvous]
    split_ifs
    · exact AppState.replied_sent _
    · exact AppState.replied_sent _
    · rw [AppState.onDisk_of_ok hs]
      exact AppState.replied_sent _
  | lookup fingerprint => exact AppState.replied_sent _
  | list => exact AppState.replied_sent _
  | probe fingerprint => exact AppState.replied_sent _
  | _ => exact hf.elim

theorem sent_handlePair {f : PairFrame} (hf : (AppFrame.pair f).Awaited)
    (hs : V.Saves d request s (.pair f)) :
    (V.handlePair d request f s).2.sent =
      s.sent ++ delivered V request ((V.answerPair d request s f).map .pair) := by
  cases f with
  | redeem token =>
    rw [AppEnv.handlePair, AppEnv.answerPair]
    cases hrun : consumeToken V.token V.home (d.clock 0) token s.disk with
    | mk res disk =>
    rcases res with e | _ | _
    · exact AppState.replied_sent _
    · exact AppState.replied_sent _
    · dsimp only
      rw [AppState.onDisk_of_ok (s := { s with disk }) (hs disk hrun)]
      exact AppState.replied_sent _
  | _ => exact hf.elim

theorem sent_relayAll {payload : Bytes} {i : ℕ} {members : List PublicIdentity} :
    ∃ relays, (V.relayAll d payload i members s).2.sent = s.sent ++ relays ∧
      ∀ m ∈ relays, m.payload = payload ∧ ∃ j, m.id = d.ids j := by
  induction members generalizing i s with
  | nil => exact ⟨[], (List.append_nil _).symm, by simp⟩
  | cons member members ih =>
    rw [AppEnv.relayAll]
    dsimp only [sendRaw]
    cases hsize : Message.validateSize V.messages ⟨d.ids i, V.identity, member, payload⟩ with
    | error e => exact ih
    | ok u =>
      obtain ⟨relays, hsent, hids⟩ := ih (i := i + 1)
        (s := { s with sent := s.sent ++ [⟨d.ids i, V.identity, member, payload⟩] })
      refine ⟨⟨d.ids i, V.identity, member, payload⟩ :: relays, ?_, ?_⟩
      · dsimp only
        rw [hsent, List.append_assoc, List.singleton_append]
      · rintro m hm
        rcases List.mem_cons.1 hm with rfl | hm
        · exact ⟨rfl, i, rfl⟩
        · exact hids m hm

/-- How many members a post is relayed to does not depend on what was sent before. -/
theorem fst_relayAll {payload : Bytes} {i : ℕ} {members : List PublicIdentity} :
    (V.relayAll d payload i members s).1 = (V.relayAll d payload i members s').1 := by
  induction members generalizing i s s' with
  | nil => rfl
  | cons member members ih =>
    rw [AppEnv.relayAll, AppEnv.relayAll]
    dsimp only [sendRaw]
    cases hsize : Message.validateSize V.messages ⟨d.ids i, V.identity, member, payload⟩ with
    | error e => exact ih
    | ok u => exact congrArg (· + 1) ih

theorem sent_acceptPost {lobbyName text : String} {nonce ciphertext : Bytes}
    (hs : (appendLobby V.home (d.clock 0) lobbyName (request.sender.fingerprint V.primitives) text
      s.disk).1 = .ok ()) :
    ∃ relays, (V.acceptPost d request lobbyName nonce ciphertext text s).2.sent =
        s.sent ++ relays ++
        delivered V request ((V.answerPost d s lobbyName nonce ciphertext).map .lobby) ∧
      ∀ m ∈ relays, m.payload = V.frames.encode (.lobby (.relay lobbyName nonce ciphertext)) ∧
        ∃ j, m.id = d.ids j := by
  rw [AppEnv.acceptPost, AppState.onDisk_of_ok hs, AppEnv.answerPost]
  cases hframe : (AppFrame.lobby (.relay lobbyName nonce ciphertext)).encode V.frames with
  | error e => exact ⟨[], by simp [delivered], by simp⟩
  | ok payload =>
    obtain ⟨-, hpayload⟩ := AppFrame.encode_ok.1 hframe
    let kept : AppState := { s with disk := (appendLobby V.home (d.clock 0) lobbyName
      (request.sender.fingerprint V.primitives) text s.disk).2 }
    have hcount : (V.relayAll d payload 0 (V.memberOrder (s.membersOf lobbyName)) kept).1 =
        (V.relayAll d payload 0 (V.memberOrder (s.membersOf lobbyName)) s).1 := fst_relayAll
    obtain ⟨relays, hsent, hids⟩ : ∃ relays,
        (V.relayAll d payload 0 (V.memberOrder (s.membersOf lobbyName)) kept).2.sent =
            s.sent ++ relays ∧
          ∀ m ∈ relays, m.payload = payload ∧ ∃ j, m.id = d.ids j := sent_relayAll
    refine ⟨relays, ?_, hpayload ▸ hids⟩
    dsimp only [Option.map_some]
    rw [AppState.replied_sent, ← AppState.membersOf, hsent, hcount]

theorem sent_handleLobby {f : LobbyFrame} (hf : (AppFrame.lobby f).Awaited)
    (hs : V.Saves d request s (.lobby f)) :
    ∃ relays, (V.handleLobby d request f s).2.sent = s.sent ++ relays ++
        delivered V request ((V.answerLobby d s f).map .lobby) ∧
      ∀ m ∈ relays, ∃ j, m.id = d.ids j := by
  have hnone : ∀ {s' : AppState} {frame : AppFrame}, s'.sent = s.sent →
      ∃ relays, (s'.replied V request frame).sent =
          s.sent ++ relays ++ delivered V request (some frame) ∧
        ∀ m ∈ relays, ∃ j, m.id = d.ids j := by
    intro s' frame h
    exact ⟨[], by rw [AppState.replied_sent, h, List.append_nil], by simp⟩
  cases f with
  | join lobbyName key =>
    simp only [AppEnv.handleLobby, AppEnv.answerLobby]
    cases s.hosts lobbyName with
    | none => exact hnone rfl
    | some state =>
      dsimp only
      split_ifs <;> exact hnone rfl
  | post lobbyName key nonce ciphertext =>
    simp only [AppEnv.handleLobby, AppEnv.answerLobby]
    split_ifs
    · exact hnone rfl
    · cases keyBytes key with
      | none => exact hnone rfl
      | some key =>
        dsimp only
        cases decryptPost V.cipher key nonce ciphertext with
        | none => exact hnone rfl
        | some text =>
          obtain ⟨relays, hsent, hrelays⟩ := sent_acceptPost (hs _)
          exact ⟨relays, hsent, fun m hm => (hrelays m hm).2⟩
  | leave lobbyName =>
    refine hnone ?_
    cases s.hosts lobbyName <;> rfl
  | members lobbyName => exact hnone rfl
  | _ => exact hf.elim

theorem sent_dispatch {f : AppFrame} (hf : f.Awaited) (hs : V.Saves d request s f) :
    ∃ relays, (V.dispatch d request s f).2.sent = s.sent ++ relays ++
        delivered V request (V.answer d request s f) ∧
      ∀ m ∈ relays, ∃ j, m.id = d.ids j := by
  have hnone : ∀ {s' : AppState} {answer : Option AppFrame},
      s'.sent = s.sent ++ delivered V request answer →
      ∃ relays, s'.sent = s.sent ++ relays ++ delivered V request answer ∧
        ∀ m ∈ relays, ∃ j, m.id = d.ids j := by
    intro s' answer h
    exact ⟨[], by rw [h, List.append_nil], by simp⟩
  cases f with
  | raw payload => exact hf.elim
  | files f => exact hnone (sent_handleFiles hf)
  | burrow f => exact hnone (sent_handleBurrow hf)
  | storage f => exact hnone sent_handleStore
  | core f => exact hnone (sent_handleCore hf hs)
  | rendezvous f => exact hnone (sent_handleRendezvous hf hs)
  | pair f => exact hnone (sent_handlePair hf hs)
  | lobby f => exact sent_handleLobby hf hs
  | channel f =>
    cases f with
    | send text =>
      refine hnone ?_
      rw [AppEnv.dispatch, AppEnv.handleChannel, AppState.onDisk_of_ok hs]
      exact AppState.replied_sent _
    | ack at_ => exact hf.elim

/-- **Handling a request sends its relays, and its answer if that fits.**  The relays have new
ids. -/
theorem sent_handle (hf : (AppFrame.decode V.frames request.payload).Awaited)
    (hs : V.Saves d request s (AppFrame.decode V.frames request.payload)) :
    ∃ relays, (V.handle d request s).2.sent = s.sent ++ relays ++
        delivered V request (V.answer d request s (AppFrame.decode V.frames request.payload)) ∧
      ∀ m ∈ relays, ∃ j, m.id = d.ids j := sent_dispatch hf hs

/-! ### One answer -/

/-- **A request gets exactly one reply iff its answer fits.** -/
theorem answeredOnce_iff (hf : (AppFrame.decode V.frames request.payload).Awaited)
    (hs : V.Saves d request s (AppFrame.decode V.frames request.payload))
    (hids : ∀ i, d.ids i ≠ request.id) :
    AnsweredOnce V d request s ↔ ∃ frame,
      V.answer d request s (AppFrame.decode V.frames request.payload) = some frame ∧
        Fits V request frame := by
  obtain ⟨relays, hsent, hrelays⟩ := sent_handle hf hs
  -- the relays do not have the id of the request
  have hnone : relays.filter (fun m => m.id = request.id) = [] := by
    rw [List.filter_eq_nil_iff]
    intro m hm
    obtain ⟨j, hj⟩ := hrelays m hm
    simpa [hj] using hids j
  constructor
  · rintro ⟨later, answer, hlater, hfilter, -⟩
    rw [hlater, List.append_assoc] at hsent
    rw [List.append_cancel_left hsent, List.filter_append, hnone, List.nil_append,
      filter_delivered] at hfilter
    obtain ⟨frame, hframe, hfits, -⟩ := delivered_eq_singleton.1 hfilter
    exact ⟨frame, hframe, hfits⟩
  · rintro ⟨frame, hframe, hfits⟩
    refine ⟨_, replyMessage V request (V.frames.encode frame),
      hsent.trans (List.append_assoc _ _ _), ?_, rfl⟩
    rw [List.filter_append, hnone, List.nil_append, filter_delivered, delivered_eq_singleton]
    exact ⟨frame, hframe, hfits, rfl⟩

open Photo in
/-- The probe of a device that is not there. -/
theorem answeredOnce_probe : AnsweredOnce env drawn
    (sentBy owner (.rendezvous (.probe "x"))) start := by
  have hid : List.Vector.replicate 16 1 ≠ note.id := by decide
  refine (answeredOnce_iff ?_ ?_ fun _ => hid).2 ?_
  · rw [decode_sentBy]
    trivial
  · rw [decode_sentBy]
    trivial
  · rw [decode_sentBy]
    exact ⟨_, rfl, by decide +kernel⟩

namespace Photo

/-- The wish to join a lobby. -/
def joining (name : String) : Message := sentBy owner (.lobby (.join name ""))

/-- The refusal that it gets. -/
def refusal (name : String) : AppFrame :=
  .lobby (.refuse ("no lobby named " ++ env.debug name ++ " is hosted here"))

theorem handle_joining (name : String) :
    env.handle drawn (joining name) start =
      (.handled .silent, start.replied env (joining name) (refusal name)) := by
  rw [AppEnv.handle, joining, decode_sentBy]
  rfl

theorem length_lobby (f : LobbyFrame) :
    (env.frames.encode (.lobby f)).length = (LobbyFrame.wire.write f).length + 1 := by
  have htag : (Wire.nat.write 7).length = 1 := by decide
  rw [show env.frames.encode (.lobby f) = Wire.nat.write 7 ++ LobbyFrame.wire.write f from rfl,
    List.length_append, htag]
  omega

theorem length_payload_joining (name : String) :
    (joining name).payload.length = (Wire.string.write name).length + 3 := by
  have hempty : (Wire.string.write "").length = 1 := by decide
  have htag : (Wire.nat.write 0).length = 1 := by decide
  rw [show (joining name).payload =
      env.frames.encode (.lobby (.join name "")) from rfl, length_lobby,
    show LobbyFrame.wire.write (.join name "") =
      Wire.nat.write 0 ++ (Wire.string.write name ++ Wire.string.write "") from rfl,
    List.length_append, List.length_append, hempty, htag]
  omega

theorem utf8ByteSize_refusal (name : String) :
    ("no lobby named " ++ env.debug name ++ " is hosted here").utf8ByteSize =
      name.utf8ByteSize + 32 := by
  have hhead : "no lobby named ".utf8ByteSize = 15 := by decide
  have hquote : "\"".utf8ByteSize = 1 := by decide
  have htail : " is hosted here".utf8ByteSize = 15 := by decide
  rw [show env.debug name = "\"" ++ name ++ "\"" from rfl]
  simp only [String.utf8ByteSize_append, hhead, hquote, htail]
  omega

theorem length_refusal (name : String) :
    (env.frames.encode (refusal name)).length =
      (Wire.nat.write (name.utf8ByteSize + 32)).length + (name.utf8ByteSize + 32) + 2 := by
  have htag : (Wire.nat.write 3).length = 1 := by decide
  rw [refusal, length_lobby, ← utf8ByteSize_refusal, ← Wire.length_string]
  rw [show ∀ text, LobbyFrame.wire.write (.refuse text) =
      Wire.nat.write 3 ++ Wire.string.write text from fun _ => rfl, List.length_append, htag]
  omega

theorem length_encode_env (m : Message) :
    (env.messages.message.encode m).length =
      80 + ((Wire.nat.write m.payload.length).length + m.payload.length) := by
  rw [← Wire.length_bytes]
  exact Message.length_encode m

/-- A name of a lobby that the node does not host. -/
def longName : String := String.ofList (List.replicate 1048480 'a')

theorem utf8ByteSize_longName : longName.utf8ByteSize = 1048480 :=
  Wire.utf8ByteSize_replicate 1048480 'a'

theorem validateSize_joining : (joining longName).validateSize env.messages = .ok () := by
  rw [validateSize_ok, length_encode_env, length_payload_joining, Wire.length_string,
    utf8ByteSize_longName, Wire.length_nat_of_three (by decide) (by decide),
    Wire.length_nat_of_three (by decide) (by decide)]
  decide

theorem not_fits_refusal : ¬ Fits env (joining longName) (refusal longName) := by
  rintro ⟨-, h⟩
  rw [length_encode_env, show ∀ b, (replyMessage env (joining longName) b).payload = b from
    fun _ => rfl, length_refusal, utf8ByteSize_longName,
    Wire.length_nat_of_three (by decide) (by decide),
    Wire.length_nat_of_three (by decide) (by decide)] at h
  exact absurd h (by decide)

end Photo

open Photo in
/-- A request that the router accepts, to join a lobby that the node does not host: the refusal
repeats the name of the lobby, is larger than a message may be, and is not sent. -/
theorem not_answeredOnce :
    (joining longName).validateSize env.messages = .ok () ∧
      (AppFrame.decode env.frames (joining longName).payload).Awaited ∧
      env.Saves drawn (joining longName) start
        (AppFrame.decode env.frames (joining longName).payload) ∧
      (∀ i, drawn.ids i ≠ (joining longName).id) ∧
      ¬ AnsweredOnce env drawn (joining longName) start := by
  have hid : List.Vector.replicate 16 1 ≠ note.id := by decide
  refine ⟨validateSize_joining, ?_, ?_, fun _ => hid, ?_⟩
  · rw [joining, decode_sentBy]
    trivial
  · rw [joining, decode_sentBy]
    trivial
  · rintro ⟨later, answer, hlater, hfilter, -⟩
    rw [handle_joining, AppState.replied_of_not_fits not_fits_refusal] at hlater
    have hnil : later = [] := List.self_eq_append_right.1 hlater
    rw [hnil] at hfilter
    cases hfilter

end Neonet
