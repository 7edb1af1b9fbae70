import Neonet.App.Node

/-!
# Lobbies and channels

* `slug` : the name of a log file.
* `appendLog` : a line at the end of a log.
* `AppEnv.relayAll` : an accepted post is sent to each member.
* `AppEnv.handleLobby`, `AppEnv.handleChannel` : the frames of the lobbies and the channels.
* `frame_handleLobby`, `frame_handleChannel` : the files that a frame may write.
-/

namespace Neonet

open FileTree FsM

/-! ### Names and keys -/

/-- The characters that stay in the name of a log file. -/
def slugChar (c : Char) : Bool :=
  ('a' ≤ c && c ≤ 'z') || ('A' ≤ c && c ≤ 'Z') || ('0' ≤ c && c ≤ '9') || c == '_' || c == '-' ||
    c == '.'

/-- `trim_matches('-')`. -/
def trimDashes (cs : List Char) : List Char :=
  ((cs.dropWhile (· == '-')).reverse.dropWhile (· == '-')).reverse

/-- `slug`. -/
def slug (name : String) : String :=
  match trimDashes (name.toList.map fun c => if slugChar c then c else '-') with
  | [] => "lobby"
  | c :: cs => String.ofList (c :: cs)

/-- `sanitize_text`. -/
def sanitizeText (text : String) : String :=
  String.ofList (text.toList.map fun c => if c = '\r' ∨ c = '\n' then ' ' else c)

/-- The value of a hexadecimal digit of either case. -/
def unhexDigit (c : Char) : Option ℕ :=
  if '0' ≤ c ∧ c ≤ '9' then some (c.toNat - '0'.toNat)
  else if 'a' ≤ c ∧ c ≤ 'f' then some (c.toNat - 'a'.toNat + 10)
  else if 'A' ≤ c ∧ c ≤ 'F' then some (c.toNat - 'A'.toNat + 10)
  else none

/-- `hex::decode`. -/
def unhex : List Char → Option Bytes
  | [] => some []
  | [_] => none
  | a :: b :: rest => do
    let high ← unhexDigit a
    let low ← unhexDigit b
    return UInt8.ofNat (16 * high + low) :: (← unhex rest)

/-- `key_bytes`. -/
def keyBytes (keyHex : String) : Option (ByteArr 32) :=
  (unhex keyHex.toList).bind fun b => if h : b.length = 32 then some ⟨b, h⟩ else none

/-- `lobby::decrypt`: no other data is authenticated. -/
def decryptPost (A : Cipher) (key : ByteArr 32) (nonce ciphertext : Bytes) : Option Bytes :=
  if h : nonce.length = 24 then A.decrypt key ⟨nonce, h⟩ [] ciphertext else none

/-! ### Logs and the roster -/

section Logs

variable (home : Home) (now : UInt64)

/-- `append_log`. -/
def appendLog (base : PathBuf) (name sender text : String) : FsM IoError Unit := do
  createDirAll base
  append (base.join name)
    (utf8 (toString now.toNat ++ "\t" ++ sender ++ "\t" ++ sanitizeText text ++ "\n"))

/-- `append_lobby`. -/
def appendLobby (name sender text : String) : FsM IoError Unit :=
  appendLog now (home.path.join "lobbies") (slug name ++ ".log") sender text

/-- `append_channel`. -/
def appendChannel (sender text : String) : FsM IoError Unit :=
  appendLog now (home.path.join "channel") (slug sender ++ ".log") sender text

/-- `load_roster`: no lobby if it cannot be read. -/
def loadRoster (R : Codec (List MemberLobby)) (t : Tree) : List MemberLobby :=
  match ((read ((home.path.join "lobbies").join "roster.json") : FsM IoError Bytes) t).1 with
  | .ok bytes => (R.decode bytes).toOption.getD []
  | .error _ => []

/-- `find_roster`. -/
def findRoster (R : Codec (List MemberLobby)) (name : String) (t : Tree) : Option MemberLobby :=
  (loadRoster home R t).find? fun lobby => lobby.name = name

end Logs

/-! ### The handlers -/

/-- The lobby is as large as its host allows. -/
def HostState.atCap (state : HostState) : Bool :=
  match state.maxMembers with
  | some cap => decide (cap ≤ state.members.card)
  | none => false

/-- The state of one lobby is replaced. -/
def AppState.setHost (s : AppState) (name : String) (state : HostState) : AppState :=
  { s with hosts := Function.update s.hosts name (some state) }

section Handlers

variable (V : AppEnv) (d : Draws) (request : Message)

/-- `LobbyFrame::Refuse`, as a reply. -/
def AppEnv.refuseLobby (message : String) (s : AppState) : Outcome × AppState :=
  (.handled .silent, s.replied V request (.lobby (.refuse message)))

/-- Send the payload to each member, with the ids from `i` on, and count what the router
accepts. -/
def AppEnv.relayAll (payload : Bytes) : ℕ → List PublicIdentity → AppState → ℕ × AppState
  | _, [], s => (0, s)
  | i, member :: members, s =>
    let pushed : Message := ⟨d.ids i, V.identity, member, payload⟩
    match sendRaw V pushed s with
    | (.ok (), s) =>
      let r := AppEnv.relayAll payload (i + 1) members s
      (r.1 + 1, r.2)
    | (.error _, s) => AppEnv.relayAll payload (i + 1) members s

/-- A post that was decrypted: keep it, relay it, answer. -/
def AppEnv.acceptPost (lobbyName : String) (nonce ciphertext : Bytes) (text : String)
    (s : AppState) : Outcome × AppState :=
  s.onDisk (appendLobby V.home (d.clock 0) lobbyName (request.sender.fingerprint V.primitives) text)
    fun _ s =>
    -- a relay that is too large fails after the log was written
    match (AppFrame.lobby (.relay lobbyName nonce ciphertext)).encode V.frames with
    | .error e => (.failed e, s)
    | .ok payload =>
      let members := ((s.hosts lobbyName).map HostState.members).getD ∅
      let r := V.relayAll d payload 0 (V.memberOrder members) s
      (.handled (.text ("[lobby " ++ lobbyName ++ "] " ++ request.sender.fingerprint V.primitives ++
          " posts relayed to " ++ toString r.1 ++ " member(s): " ++ text)),
        r.2.replied V request (.lobby (.posted lobbyName r.1)))

/-- `handle_lobby`. -/
def AppEnv.handleLobby : LobbyFrame → AppState → Outcome × AppState
  | .join lobbyName key, s =>
    match s.hosts lobbyName with
    | none => V.refuseLobby request ("no lobby named " ++ V.debug lobbyName ++ " is hosted here") s
    | some state =>
      if state.key ≠ key then V.refuseLobby request "wrong lobby key" s
      -- at the cap a member cannot join again, either
      else if state.atCap then V.refuseLobby request "lobby is at its member cap" s
      else
        (.handled (.text ("[lobby " ++ lobbyName ++ "] " ++
            request.sender.fingerprint V.primitives ++ " joined")),
          (s.setHost lobbyName
              { state with members := insert request.sender state.members }).replied
            V request (.lobby (.joined lobbyName state.title state.welcome)))
  | .post lobbyName key nonce ciphertext, s =>
    -- whoever has the key may post, a member or not
    if ((s.hosts lobbyName).map fun state => decide (state.key = key)).getD false = false then
      V.refuseLobby request "wrong lobby key or no such lobby" s
    else
      match keyBytes key with
      | none => V.refuseLobby request "malformed lobby key" s
      | some key =>
        match decryptPost V.cipher key nonce ciphertext with
        | none => V.refuseLobby request "could not decrypt post" s
        | some text => V.acceptPost d request lobbyName nonce ciphertext (V.lossy text) s
  | .relay lobbyName nonce ciphertext, s =>
    -- a relay is taken from the host of the entry only, and never answered
    match findRoster V.home V.roster lobbyName s.disk with
    | none => (.handled .silent, s)
    | some entry =>
      if request.sender.fingerprint V.primitives ≠ entry.hostFingerprint then (.handled .silent, s)
      else
        match (keyBytes entry.keyHex).bind fun key => decryptPost V.cipher key nonce ciphertext with
        | none => (.handled .silent, s)
        | some plaintext =>
          s.onDisk (appendLobby V.home (d.clock 0) lobbyName
              (request.sender.fingerprint V.primitives) (V.lossy plaintext)) fun _ s =>
            (.handled (.text ("[lobby " ++ lobbyName ++ "] " ++
              request.sender.fingerprint V.primitives ++ ": " ++ V.lossy plaintext)), s)
  | .leave lobbyName, s =>
    -- the answer is the same if no such lobby is hosted here
    let s := match s.hosts lobbyName with
      | some state => s.setHost lobbyName
          { state with members := state.members.erase request.sender }
      | none => s
    (.handled (.text ("[lobby " ++ lobbyName ++ "] " ++ request.sender.fingerprint V.primitives ++
        " left")),
      s.replied V request (.lobby (.left lobbyName)))
  | .members lobbyName, s =>
    let members := ((s.hosts lobbyName).map HostState.members).getD ∅
    let names := ((V.memberOrder members).map fun m => m.fingerprint V.primitives).insertionSort
      (· ≤ ·)
    (.handled .silent, s.replied V request (.lobby (.memberList names)))
  | .joined _ _ _, s => (.handled .silent, s)
  | .posted _ _, s => (.handled .silent, s)
  | .memberList _, s => (.handled .silent, s)
  | .left _, s => (.handled .silent, s)
  | .refuse message, s => (.handled (.text ("lobby refused: " ++ message)), s)

/-- `handle_channel`. -/
def AppEnv.handleChannel : ChannelFrame → AppState → Outcome × AppState
  | .send text, s =>
    s.onDisk (appendChannel V.home (d.clock 1) (request.sender.fingerprint V.primitives) text)
      fun _ s =>
      (.handled (.text ("[channel] " ++ request.sender.fingerprint V.primitives ++ ": " ++ text)),
        s.replied V request (.channel (.ack (d.clock 0))))
  | .ack at_, s => (.handled (.text ("channel ack at " ++ toString at_.toNat)), s)

end Handlers

variable {home : Home} {V : AppEnv} {d : Draws} {request : Message} {s : AppState} {now : UInt64}

/-! ### Places -/

theorem mem_trimDashes {cs : List Char} {c : Char} (h : c ∈ trimDashes cs) : c ∈ cs := by
  rw [trimDashes, List.mem_reverse] at h
  have h' := List.mem_reverse.1 ((List.dropWhile_sublist _).mem h)
  exact (List.dropWhile_sublist _).mem h'

theorem slug_no_slash (name : String) : '/' ∉ (slug name).toList := by
  unfold slug
  split
  · decide
  · rename_i heq
    rw [String.toList_ofList, ← heq]
    intro h
    obtain ⟨c, -, hc⟩ := List.mem_map.1 (mem_trimDashes h)
    split at hc
    · rename_i hslug
      rw [hc] at hslug
      exact absurd hslug (by decide)
    · exact absurd hc (by decide)

/-- The log files. -/
def logPlaces (home : Home) : Set Loc :=
  {l | ∃ name dir, (dir = "lobbies" ∨ dir = "channel") ∧ l = (name ++ ".log") :: dir :: home.loc}

theorem touches_appendLog {dir name sender text : String}
    (hdir : dir = "lobbies" ∨ dir = "channel") :
    Touches (logPlaces home) (appendLog now (home.path.join dir) (slug name ++
        ".log") sender text) := by
  refine touches_createDirAll.bind fun _ => touches_append.mono ?_
  have hplace : ((home.path.join dir).join (slug name ++ ".log")).norm =
      (slug name ++ ".log") :: dir :: home.loc := by
    rw [PathBuf.norm_join (toList_append_no_slash (slug_no_slash name) (by decide))
      (plain_append (by decide))]
    rcases hdir with rfl | rfl <;>
      rw [PathBuf.norm_join (by decide) (by decide), Home.norm_path]
  rw [hplace, Set.singleton_subset_iff]
  exact ⟨slug name, dir, hdir, rfl⟩

@[simp] theorem relayAll_disk {payload : Bytes} {i : ℕ} {members : List PublicIdentity} :
    (V.relayAll d payload i members s).2.disk = s.disk := by
  induction members generalizing i s with
  | nil => rfl
  | cons member members ih =>
    rw [AppEnv.relayAll]
    have hsend : (sendRaw V ⟨d.ids i, V.identity, member, payload⟩ s).2.disk = s.disk := by
      rw [sendRaw]
      split <;> rfl
    dsimp only
    split <;> rename_i heq <;> rw [heq] at hsend <;> exact ih.trans hsend

/-- A frame of the lobbies writes a log. -/
theorem frame_handleLobby {f : LobbyFrame} :
    Frame (logPlaces V.home) s.disk (V.handleLobby d request f s).2.disk := by
  have hrefuse : ∀ message, Frame (logPlaces V.home) s.disk
      (V.refuseLobby request message s).2.disk :=
    fun message => by rw [AppEnv.refuseLobby, AppState.replied_disk]
  cases f with
  | join lobbyName key =>
    rw [AppEnv.handleLobby]
    split
    · exact hrefuse _
    · split
      · exact hrefuse _
      · split
        · exact hrefuse _
        · rw [AppState.replied_disk, AppState.setHost]
  | post lobbyName key nonce ciphertext =>
    rw [AppEnv.handleLobby]
    split
    · exact hrefuse _
    · split
      · exact hrefuse _
      · split
        · exact hrefuse _
        · rw [AppEnv.acceptPost]
          refine AppState.frame_onDisk (touches_appendLog (.inl rfl)) fun _ s' => ?_
          dsimp only
          split
          · rfl
          · rw [AppState.replied_disk, relayAll_disk]
  | relay lobbyName nonce ciphertext =>
    rw [AppEnv.handleLobby]
    split
    · rfl
    · split
      · rfl
      · split
        · rfl
        · exact AppState.frame_onDisk (touches_appendLog (.inl rfl)) fun _ _ => .refl _
  | leave lobbyName =>
    rw [AppEnv.handleLobby]
    dsimp only
    rw [AppState.replied_disk]
    split <;> rfl
  | members lobbyName =>
    rw [AppEnv.handleLobby]
    dsimp only
    rw [AppState.replied_disk]
  | joined | posted | memberList | left | refuse => exact .refl _

/-- A frame of the channels writes a log. -/
theorem frame_handleChannel {f : ChannelFrame} :
    Frame (logPlaces V.home) s.disk (V.handleChannel d request f s).2.disk := by
  cases f with
  | send text =>
    rw [AppEnv.handleChannel]
    refine AppState.frame_onDisk (touches_appendLog (.inr rfl)) fun _ _ => ?_
    rw [AppState.replied_disk]
  | ack => exact .refl _

end Neonet
