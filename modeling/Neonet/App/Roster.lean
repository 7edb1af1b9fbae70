import Neonet.App.Hosting
import Neonet.App.LogFiles
import Neonet.Lib.Keyed

/-!
# The roster

The lobbies that a device has joined, each with its host and its key.

* `addToRoster`, `rosterLobbies`, `lastRoster` : the roster as a file.
* `postRequest`, `commandPost`, `shellPost` : to whom a post is sent, and what.
* `joinCommand`, `shellJoin` : a lobby is joined, and recorded as the reply names it.
* `loadRoster_addToRoster` : **what is recorded**, if nothing is in the way of the file.
* `KeepsOthers`, `keepsOthers_iff` : a join changes its own entry only, **iff the reply names the
  lobby that was asked for**.
* `RosterOrder`, `rosterOrder_iff` : the lobby joined last is the one that posts go to, **iff no
  other was joined for the first time after it was**.
-/

namespace Neonet

open FileTree FsM

/-! ### The file -/

section Roster

variable (home : Home) (R : Codec (List MemberLobby))

/-- `write_roster`. -/
def writeRoster (roster : List MemberLobby) : FsM IoError Unit :=
  keepIn (home.path.join "lobbies") "roster.tmp" "roster.json" (R.encode roster)

/-- `add_to_roster`. -/
def addToRoster (lobby : MemberLobby) : FsM IoError Unit := fun t =>
  writeRoster home R (Keyed.put MemberLobby.name lobby (loadRoster home R t)) t

/-- `roster_lobbies`. -/
def rosterLobbies (t : Tree) : List MemberLobby := loadRoster home R t

/-- `last_roster`. -/
def lastRoster (t : Tree) : Option MemberLobby := (rosterLobbies home R t).getLast?

/-- Nothing is in the way of the roster. -/
abbrev TakesRoster (t : Tree) : Prop :=
  t.Keeps (home.path.join "lobbies") "roster.tmp" "roster.json"

/-- Lobbies are recorded one after the other. -/
def recorder : Machine Tree MemberLobby (Except IoError Unit) where
  step t lobby := addToRoster home R lobby t

/-- The joins that were recorded. -/
def recordedJoins (t : Tree) (calls : List MemberLobby) : List MemberLobby :=
  ((recorder home R).transcript t calls).filterMap fun x => if x.2 = .ok () then some x.1 else none

end Roster

/-! ### Posts -/

/-- What a command says that cannot post. -/
structure PostTexts where
  notMember : String → String
  unencrypted : String

section Post

variable (V : AppEnv) (nonce : ByteArr 24) (texts : PostTexts)

/-- A post to a lobby of the roster: the device it is sent to, and the frame. -/
def sendTo (roster : MemberLobby) (lobbyName text : String) : Except String (String × LobbyFrame) :=
  match keyBytes roster.keyHex with
  | none => .error "lobby roster holds a corrupt key"
  | some key =>
    match V.cipher.encrypt key nonce [] (utf8 text) with
    | none => .error texts.unencrypted
    | some ciphertext =>
      .ok (roster.hostAlias, .post lobbyName roster.keyHex nonce.toList ciphertext)

/-- A post to a lobby of the name. -/
def postRequest (lobbyName text : String) (t : Tree) : Except String (String × LobbyFrame) :=
  match findRoster V.home V.roster lobbyName t with
  | none => .error (texts.notMember lobbyName)
  | some roster => sendTo V nonce texts roster lobbyName text

/-- `lobby post` of the command line.  The directory of the node is shown as `shown`. -/
def commandPost (shown lobbyName text : String) (t : Tree) :
    Except String (String × LobbyFrame) :=
  postRequest V nonce
    { notMember := fun name => "not a member of lobby '" ++ name ++ "' — check " ++ shown ++
        "/lobbies/roster.json or `neonet join` it first"
      unencrypted := "could not encrypt the post" } lobbyName text t

/-- What the shell says. -/
def shellTexts : PostTexts where
  notMember name := "not a member of lobby '" ++ name ++ "' — 'join' it first"
  unencrypted := "lobby encryption failed"

/-- `say` and `post` of the shell. -/
def shellPost (command : String) (args : List String) (t : Tree) :
    Except String (String × LobbyFrame) :=
  -- `post` with a name that is not in the roster says the name, too, in the active lobby
  if command = "post" ∧ 2 ≤ args.length ∧
      (findRoster V.home V.roster (args.headD "") t).isSome = true then
    postRequest V nonce shellTexts (args.headD "") (" ".intercalate (args.drop 1)) t
  else if " ".intercalate args = "" then
    .error "usage: say TEXT  (active lobby)  |  post LOBBY TEXT"
  else
    match lastRoster V.home V.roster t with
    | none => .error "not a member of any lobby — 'join LOBBY HOST_KEY_ALIAS LOBBY_KEY' first"
    | some active => postRequest V nonce shellTexts active.name (" ".intercalate args) t

end Post

/-! ### Joins -/

/-- A connection to the mesh. -/
structure MeshClient where
  /-- The identity of a known device that can be reached. -/
  peer : String → Except String PublicIdentity
  /-- `Client::call`. -/
  call : PublicIdentity → AppFrame → Except String Message

section Join

variable (V : AppEnv) (N : MeshClient) (debug : AppFrame → String)

/-- What is recorded of a lobby that was joined. -/
def admitted (hostDeviceId : String) (hostPeer : PublicIdentity)
    (key lobbyName title welcome : String) : MemberLobby where
  name := lobbyName
  hostAlias := hostDeviceId
  hostFingerprint := hostPeer.fingerprint V.primitives
  keyHex := key
  title := title
  welcome := welcome

/-- What is printed of it. -/
def admission (lobbyName title welcome : String) : List String :=
  ["joined lobby '" ++ lobbyName ++ "' (" ++ (if title = "" then lobbyName else title) ++ ")"] ++
    (if title ≠ "" ∧ title ≠ lobbyName then ["lobby title: " ++ title] else []) ++
    (if welcome ≠ "" then [welcome] else [])

/-- `join` of the command line: the lines that are printed, or the error. -/
def joinCommand (lobbyName hostDeviceId key : String) (t : Tree) :
    Except String (List String) × Tree :=
  if key = "" then (.error "no lobby key given", t)
  else
    match N.peer hostDeviceId with
    | .error e => (.error e, t)
    | .ok hostPeer =>
      match N.call hostPeer (.lobby (.join lobbyName key)) with
      | .error e => (.error e, t)
      | .ok reply =>
        match AppFrame.decode V.frames reply.payload with
        | .lobby (.joined lobbyName title welcome) =>
          -- the name is that of the reply
          match addToRoster V.home V.roster
              (admitted V hostDeviceId hostPeer key lobbyName title welcome) t with
          | (.error _, t) => (.error "could not record the lobby in the local roster", t)
          | (.ok (), t) => (.ok (admission lobbyName title welcome), t)
        | .lobby (.refuse message) =>
          (.error (hostDeviceId ++ " refused the lobby key: " ++ message), t)
        | other => (.error ("unexpected reply to join: " ++ debug other), t)

/-- A line of the shell in red. -/
def red (line : String) : String := "\x1b[1;31m" ++ line ++ "\x1b[0m"

/-- `join` of the shell, which goes on whatever happens: the lines that are printed. -/
def shellJoin (shown : String) (args : List String) (t : Tree) : List String × Tree :=
  let lobbyName := args.getD 0 ""
  let hostDeviceId := args.getD 1 ""
  let key := args.getD 2 ""
  if lobbyName = "" ∨ hostDeviceId = "" ∨ key = "" then
    (["usage: join LOBBY HOST_KEY_ALIAS LOBBY_KEY"], t)
  else
    match N.peer hostDeviceId with
    | .error e => ([red e], t)
    | .ok hostPeer =>
      match N.call hostPeer (.lobby (.join lobbyName key)) with
      | .error e => ([red e], t)
      | .ok reply =>
        match AppFrame.decode V.frames reply.payload with
        | .lobby (.joined lobbyName title welcome) =>
          -- a roster that cannot be written is only reported
          let recorded := addToRoster V.home V.roster
            (admitted V hostDeviceId hostPeer key lobbyName title welcome) t
          ((match recorded.1 with | .error e => [red e.text] | .ok () => []) ++
            admission lobbyName title welcome ++
            ["received posts land in " ++ shown ++ "/lobbies/" ++ slug lobbyName ++
              ".log — 'lobby log' to read"], recorded.2)
        | .lobby (.refuse message) =>
          ([red (hostDeviceId ++ " refused the lobby key: " ++ message)], t)
        | other => ([red (debug other)], t)

/-- A join changes the entry of its lobby at most, which then has the host and the key; and posts
to other lobbies are what they were. -/
structure KeepsOthers (lobbyName hostDeviceId key : String) (t t' : Tree) : Prop where
  others : (rosterLobbies V.home V.roster t').filter (fun entry => entry.name ≠ lobbyName) =
    (rosterLobbies V.home V.roster t).filter fun entry => entry.name ≠ lobbyName
  own : findRoster V.home V.roster lobbyName t' = findRoster V.home V.roster lobbyName t ∨
    ∃ hostPeer entry, N.peer hostDeviceId = .ok hostPeer ∧
      findRoster V.home V.roster lobbyName t' = some entry ∧ entry.hostAlias = hostDeviceId ∧
        entry.hostFingerprint = hostPeer.fingerprint V.primitives ∧ entry.keyHex = key
  posts : ∀ name, name ≠ lobbyName → ∀ nonce texts text,
    postRequest V nonce texts name text t' = postRequest V nonce texts name text t

/-- The host replies to a join that a lobby of the name was joined. -/
def Admits (lobbyName hostDeviceId key : String) (hostPeer : PublicIdentity)
    (name title welcome : String) : Prop :=
  ∃ reply, N.peer hostDeviceId = .ok hostPeer ∧
    N.call hostPeer (.lobby (.join lobbyName key)) = .ok reply ∧
    AppFrame.decode V.frames reply.payload = .lobby (.joined name title welcome)

/-- The reply names another lobby, whose entry is not what would be recorded. -/
def Misnames (lobbyName hostDeviceId key : String) (t : Tree) : Prop :=
  ∃ hostPeer name title welcome,
    Admits V N lobbyName hostDeviceId key hostPeer name title welcome ∧ name ≠ lobbyName ∧
      findRoster V.home V.roster name t ≠
        some (admitted V hostDeviceId hostPeer key name title welcome)

end Join

section Order

variable (V : AppEnv)

/-- Each lobby is on the roster once, under its latest record, and posts go to the lobby that was
joined last. -/
structure RosterOrder (t : Tree) (calls : List MemberLobby) : Prop where
  once : ∀ name,
    ((rosterLobbies V.home V.roster ((recorder V.home V.roster).after t calls)).map
        MemberLobby.name).count name =
      if name ∈ (recordedJoins V.home V.roster t calls).map MemberLobby.name then 1 else 0
  found : ∀ name,
    findRoster V.home V.roster name ((recorder V.home V.roster).after t calls) =
      ((recordedJoins V.home V.roster t calls).filter fun lobby => lobby.name = name).getLast?
  last : lastRoster V.home V.roster ((recorder V.home V.roster).after t calls) =
    (recordedJoins V.home V.roster t calls).getLast?
  said : ∀ lobby, (recordedJoins V.home V.roster t calls).getLast? = some lobby →
    ∀ nonce args, " ".intercalate args ≠ "" →
      shellPost V nonce "say" args ((recorder V.home V.roster).after t calls) =
        sendTo V nonce shellTexts lobby lobby.name (" ".intercalate args)

end Order

/-- All other lobbies were joined before the one that was joined last was for the first time. -/
def NewestLast (calls : List MemberLobby) : Prop :=
  ∀ lobby, calls.getLast? = some lobby → ∀ other ∈ calls, other.name = lobby.name ∨
    other.name ∈ (calls.takeWhile fun c => c.name ≠ lobby.name).map MemberLobby.name

section Recorded

variable {home : Home} {R : Codec (List MemberLobby)} {t : Tree} {lobby : MemberLobby}
  {calls : List MemberLobby} {name : String}

/-! ### What is recorded -/

theorem addToRoster_eq : addToRoster home R lobby t =
    keepIn (home.path.join "lobbies") "roster.tmp" "roster.json"
      (R.encode (Keyed.put MemberLobby.name lobby (loadRoster home R t))) t := rfl

theorem addToRoster_ok_iff : (addToRoster home R lobby t).1 = .ok () ↔ TakesRoster home t := by
  rw [addToRoster_eq]
  exact keepIn_ok_iff downward_lobbies (by decide) (by decide) (by decide) (by decide)

theorem takesRoster_addToRoster :
    TakesRoster home (addToRoster home R lobby t).2 ↔ TakesRoster home t := by
  rw [addToRoster_eq]
  exact keeps_keepIn_iff downward_lobbies (by decide) (by decide) (by decide) (by decide)

/-- **What is recorded**: the lobby, under its name. -/
theorem loadRoster_addToRoster (lobby : MemberLobby) (h : TakesRoster home t) :
    loadRoster home R (addToRoster home R lobby t).2 =
      Keyed.put MemberLobby.name lobby (loadRoster home R t) := by
  rw [loadRoster_eq_saved, addToRoster_eq, saved_keepIn downward_lobbies (by decide) (by decide)
    (by decide) (by decide) h, Option.getD_some]

theorem loadRoster_addToRoster_of_not (h : ¬ TakesRoster home t) :
    loadRoster home R (addToRoster home R lobby t).2 = loadRoster home R t := by
  rw [loadRoster_eq_saved, addToRoster_eq, saved_keepIn_of_not downward_lobbies (by decide)
    (by decide) (by decide) (by decide) (by decide) h, ← loadRoster_eq_saved]

/-- **One call after the other**: each is recorded. -/
theorem loadRoster_after (calls : List MemberLobby) (h : TakesRoster home t) :
    loadRoster home R ((recorder home R).after t calls) =
      Keyed.putAll MemberLobby.name (loadRoster home R t) calls ∧
    recordedJoins home R t calls = calls := by
  induction calls generalizing t with
  | nil => exact ⟨rfl, rfl⟩
  | cons lobby calls ih =>
    have hstep : (recorder home R).step t lobby = addToRoster home R lobby t := rfl
    obtain ⟨hload, hjoins⟩ := ih (t := (addToRoster home R lobby t).2)
      (takesRoster_addToRoster.2 h)
    constructor
    · rw [Machine.after_cons, hstep, hload, loadRoster_addToRoster lobby h, Keyed.putAll_cons]
    · rw [recordedJoins, Machine.transcript, hstep, List.filterMap_cons,
        addToRoster_ok_iff.2 h, if_pos rfl]
      rw [recordedJoins] at hjoins
      rw [hjoins]

theorem loadRoster_after_of_not (calls : List MemberLobby) (h : ¬ TakesRoster home t) :
    loadRoster home R ((recorder home R).after t calls) = loadRoster home R t ∧
    recordedJoins home R t calls = [] := by
  induction calls generalizing t with
  | nil => exact ⟨rfl, rfl⟩
  | cons lobby calls ih =>
    have hstep : (recorder home R).step t lobby = addToRoster home R lobby t := rfl
    obtain ⟨hload, hjoins⟩ := ih (t := (addToRoster home R lobby t).2)
      (fun h' => h (takesRoster_addToRoster.1 h'))
    constructor
    · rw [Machine.after_cons, hstep, hload, loadRoster_addToRoster_of_not h]
    · rw [recordedJoins, Machine.transcript, hstep, List.filterMap_cons,
        if_neg fun hok => h (addToRoster_ok_iff.1 hok)]
      exact hjoins

end Recorded

/-! ### Joins -/

section Joins

variable {V : AppEnv} {N : MeshClient} {debug : AppFrame → String} {t t' : Tree}
  {lobbyName hostDeviceId key shown : String} {hostPeer : PublicIdentity}
  {name title welcome : String}

theorem Admits.unique {hostPeer' : PublicIdentity} {name' title' welcome' : String}
    (h : Admits V N lobbyName hostDeviceId key hostPeer name title welcome)
    (h' : Admits V N lobbyName hostDeviceId key hostPeer' name' title' welcome') :
    hostPeer = hostPeer' ∧ name = name' ∧ title = title' ∧ welcome = welcome' := by
  obtain ⟨reply, hpeer, hcall, hdecode⟩ := h
  obtain ⟨reply', hpeer', hcall', hdecode'⟩ := h'
  rw [hpeer, Except.ok.injEq] at hpeer'
  subst hpeer'
  rw [hcall, Except.ok.injEq] at hcall'
  subst hcall'
  rw [hdecode] at hdecode'
  cases hdecode'
  exact ⟨rfl, rfl, rfl, rfl⟩

/-- **What a join records**: the lobby that the reply names, or nothing. -/
def Recorded (V : AppEnv) (N : MeshClient) (lobbyName hostDeviceId key : String) (t t' : Tree) :
    Prop :=
  (∃ hostPeer name title welcome,
    Admits V N lobbyName hostDeviceId key hostPeer name title welcome ∧
      t' = (addToRoster V.home V.roster
        (admitted V hostDeviceId hostPeer key name title welcome) t).2) ∨
    ((∀ hostPeer name title welcome,
      ¬ Admits V N lobbyName hostDeviceId key hostPeer name title welcome) ∧ t' = t)

theorem recorded_of_silent (h : ∀ hostPeer, N.peer hostDeviceId = .ok hostPeer →
      ∃ e, N.call hostPeer (.lobby (.join lobbyName key)) = .error e) :
    Recorded V N lobbyName hostDeviceId key t t := by
  refine .inr ⟨fun hostPeer _ _ _ hadmits => ?_, rfl⟩
  obtain ⟨reply, hpeer, hcall, -⟩ := hadmits
  obtain ⟨e, he⟩ := h hostPeer hpeer
  rw [he] at hcall
  cases hcall

theorem recorded_of_reply {reply : Message} (hpeer : N.peer hostDeviceId = .ok hostPeer)
    (hcall : N.call hostPeer (.lobby (.join lobbyName key)) = .ok reply)
    (hjoined : ∀ name title welcome,
      AppFrame.decode V.frames reply.payload = .lobby (.joined name title welcome) →
        t' = (addToRoster V.home V.roster
          (admitted V hostDeviceId hostPeer key name title welcome) t).2)
    (hother : (∀ name title welcome,
      AppFrame.decode V.frames reply.payload ≠ .lobby (.joined name title welcome)) → t' = t) :
    Recorded V N lobbyName hostDeviceId key t t' := by
  by_cases h : ∃ name title welcome,
      AppFrame.decode V.frames reply.payload = .lobby (.joined name title welcome)
  · obtain ⟨name, title, welcome, hdecode⟩ := h
    exact .inl ⟨hostPeer, name, title, welcome, ⟨reply, hpeer, hcall, hdecode⟩,
      hjoined _ _ _ hdecode⟩
  · refine .inr ⟨fun _ name title welcome hadmits => ?_,
      hother fun name title welcome hdecode => h ⟨name, title, welcome, hdecode⟩⟩
    obtain ⟨reply', hpeer', hcall', hdecode⟩ := hadmits
    rw [hpeer, Except.ok.injEq] at hpeer'
    rw [← hpeer', hcall, Except.ok.injEq] at hcall'
    exact h ⟨name, title, welcome, hcall' ▸ hdecode⟩

theorem recorded_joinCommand (hkey : key ≠ "") :
    Recorded V N lobbyName hostDeviceId key t
      (joinCommand V N debug lobbyName hostDeviceId key t).2 := by
  rw [joinCommand, if_neg hkey]
  cases hpeer : N.peer hostDeviceId with
  | error e =>
    refine recorded_of_silent fun hostPeer hpeer' => ?_
    rw [hpeer] at hpeer'
    cases hpeer'
  | ok hostPeer =>
    dsimp only
    cases hcall : N.call hostPeer (.lobby (.join lobbyName key)) with
    | error e =>
      refine recorded_of_silent fun hostPeer' hpeer' => ⟨e, ?_⟩
      rw [hpeer, Except.ok.injEq] at hpeer'
      rw [← hpeer', hcall]
    | ok reply =>
      refine recorded_of_reply hpeer hcall (fun name title welcome hdecode => ?_) fun hno => ?_
      · simp only [hdecode]
        cases addToRoster V.home V.roster
          (admitted V hostDeviceId hostPeer key name title welcome) t with
        | mk r t' => cases r <;> rfl
      · dsimp only
        split
        · rename_i hdecode
          exact absurd hdecode (hno _ _ _)
        · rfl
        · rfl

theorem recorded_shellJoin {args : List String} (hname : args.getD 0 "" ≠ "")
    (hhost : args.getD 1 "" ≠ "") (hkey : args.getD 2 "" ≠ "") :
    Recorded V N (args.getD 0 "") (args.getD 1 "") (args.getD 2 "") t
      (shellJoin V N debug shown args t).2 := by
  have hargs : ¬ (args.getD 0 "" = "" ∨ args.getD 1 "" = "" ∨ args.getD 2 "" = "") := by
    rintro (h | h | h)
    exacts [hname h, hhost h, hkey h]
  rw [shellJoin]
  dsimp only
  rw [if_neg hargs]
  cases hpeer : N.peer (args.getD 1 "") with
  | error e =>
    refine recorded_of_silent fun hostPeer hpeer' => ?_
    rw [hpeer] at hpeer'
    cases hpeer'
  | ok hostPeer =>
    dsimp only
    cases hcall : N.call hostPeer (.lobby (.join (args.getD 0 "") (args.getD 2 ""))) with
    | error e =>
      refine recorded_of_silent fun hostPeer' hpeer' => ⟨e, ?_⟩
      rw [hpeer, Except.ok.injEq] at hpeer'
      rw [← hpeer', hcall]
    | ok reply =>
      refine recorded_of_reply hpeer hcall (fun name title welcome hdecode => ?_) fun hno => ?_
      · simp only [hdecode]
      · dsimp only
        split
        · rename_i hdecode
          exact absurd hdecode (hno _ _ _)
        · rfl
        · rfl

theorem keepsOthers_of_eq
    (h : rosterLobbies V.home V.roster t' = rosterLobbies V.home V.roster t) :
    KeepsOthers V N lobbyName hostDeviceId key t t' := by
  have hfind : ∀ name, findRoster V.home V.roster name t' = findRoster V.home V.roster name t :=
    fun name => congrArg (List.find? fun lobby : MemberLobby => lobby.name = name) h
  exact ⟨by rw [h], .inl (hfind _), fun name _ nonce texts text => by
    rw [postRequest, hfind, postRequest]⟩

/-- **What one entry more does to the others**: nothing iff it is that of the lobby, or there
already. -/
theorem keepsOthers_addToRoster_iff (hpeer : N.peer hostDeviceId = .ok hostPeer) :
    KeepsOthers V N lobbyName hostDeviceId key t (addToRoster V.home V.roster
        (admitted V hostDeviceId hostPeer key name title welcome) t).2 ↔
      (TakesRoster V.home t → name = lobbyName ∨ findRoster V.home V.roster name t =
        some (admitted V hostDeviceId hostPeer key name title welcome)) := by
  by_cases htakes : TakesRoster V.home t
  · have hload := loadRoster_addToRoster (R := V.roster)
      (admitted V hostDeviceId hostPeer key name title welcome) htakes
    have hfind : ∀ name', findRoster V.home V.roster name' (addToRoster V.home V.roster
          (admitted V hostDeviceId hostPeer key name title welcome) t).2 =
        if name = name' then some (admitted V hostDeviceId hostPeer key name title welcome)
        else findRoster V.home V.roster name' t := by
      intro name'
      rw [findRoster, hload]
      exact Keyed.find?_put
    constructor
    · intro h _
      by_contra hno
      rw [not_or] at hno
      -- the entry is found among those of the others
      have hothers : ∀ l : List MemberLobby,
          (l.filter fun entry => entry.name ≠ lobbyName).find? (fun entry => entry.name = name) =
            l.find? fun entry => entry.name = name := by
        intro l
        rw [List.find?_filter]
        congr 1
        funext entry
        by_cases hentry : entry.name = name <;> simp [hentry, hno.1]
      have hsame := congrArg (List.find? fun entry => entry.name = name) h.others
      rw [hothers, hothers] at hsame
      have hnew := hfind name
      rw [if_pos rfl] at hnew
      exact hno.2 (hsame.symm.trans hnew)
    · intro h
      by_cases hname : name = lobbyName
      · subst hname
        refine ⟨?_, .inr ⟨hostPeer, _, hpeer, (hfind name).trans (if_pos rfl), rfl, rfl, rfl⟩,
          fun name' hne nonce texts text => ?_⟩
        · rw [rosterLobbies, hload]
          exact Keyed.filter_put rfl
        · rw [postRequest, hfind, if_neg (Ne.symm hne), postRequest]
      · refine keepsOthers_of_eq ?_
        rw [rosterLobbies, hload]
        exact Keyed.put_of_find? ((h htakes).resolve_left hname)
  · exact iff_of_true (keepsOthers_of_eq (loadRoster_addToRoster_of_not htakes))
      fun h => absurd h htakes

theorem keepsOthers_iff_of_recorded (h : Recorded V N lobbyName hostDeviceId key t t') :
    KeepsOthers V N lobbyName hostDeviceId key t t' ↔
      (TakesRoster V.home t → ¬ Misnames V N lobbyName hostDeviceId key t) := by
  rcases h with ⟨hostPeer, name, title, welcome, hadmits, rfl⟩ | ⟨hno, rfl⟩
  · have hpeer : N.peer hostDeviceId = .ok hostPeer := by
      obtain ⟨_, hpeer, -⟩ := hadmits
      exact hpeer
    rw [keepsOthers_addToRoster_iff hpeer]
    refine imp_congr_right fun _ => ?_
    constructor
    · rintro h ⟨hostPeer', name', title', welcome', hadmits', hne, hfind⟩
      obtain ⟨rfl, rfl, rfl, rfl⟩ := hadmits.unique hadmits'
      exact h.elim hne hfind
    · intro h
      by_contra hnot
      rw [not_or] at hnot
      exact h ⟨hostPeer, name, title, welcome, hadmits, hnot.1, hnot.2⟩
  · refine iff_of_true (keepsOthers_of_eq rfl) fun _ hmis => ?_
    obtain ⟨hostPeer, name, title, welcome, hadmits, -⟩ := hmis
    exact hno _ _ _ _ hadmits

/-- **A join leaves the other lobbies alone iff the reply names the lobby that was asked for**, or
nothing is recorded, or what is recorded is there already: for the command and for the shell. -/
theorem keepsOthers_iff (V : AppEnv) (N : MeshClient) (debug : AppFrame → String) (t : Tree) :
    (∀ lobbyName hostDeviceId key,
      KeepsOthers V N lobbyName hostDeviceId key t
          (joinCommand V N debug lobbyName hostDeviceId key t).2 ↔
        (key ≠ "" → TakesRoster V.home t → ¬ Misnames V N lobbyName hostDeviceId key t)) ∧
    ∀ shown args,
      KeepsOthers V N (args.getD 0 "") (args.getD 1 "") (args.getD 2 "") t
          (shellJoin V N debug shown args t).2 ↔
        (args.getD 0 "" ≠ "" → args.getD 1 "" ≠ "" → args.getD 2 "" ≠ "" →
          TakesRoster V.home t →
            ¬ Misnames V N (args.getD 0 "") (args.getD 1 "") (args.getD 2 "") t) := by
  constructor
  · intro lobbyName hostDeviceId key
    by_cases hkey : key = ""
    · rw [joinCommand, if_pos hkey]
      exact iff_of_true (keepsOthers_of_eq rfl) fun h => absurd hkey h
    · rw [keepsOthers_iff_of_recorded (recorded_joinCommand hkey)]
      exact ⟨fun h _ => h, fun h => h hkey⟩
  · intro shown args
    by_cases hargs : args.getD 0 "" = "" ∨ args.getD 1 "" = "" ∨ args.getD 2 "" = ""
    · rw [shellJoin]
      dsimp only
      rw [if_pos hargs]
      refine iff_of_true (keepsOthers_of_eq rfl) fun hname hhost hkey => ?_
      exact absurd hargs (by simp only [hname, hhost, hkey, or_self, not_false_eq_true])
    · rw [not_or, not_or] at hargs
      rw [keepsOthers_iff_of_recorded (recorded_shellJoin hargs.1 hargs.2.1 hargs.2.2)]
      exact ⟨fun h _ _ _ => h, fun h => h hargs.1 hargs.2.1 hargs.2.2⟩

end Joins

/-! ### The lobby that was joined last -/

section Newest

variable {V : AppEnv} {t : Tree} {calls : List MemberLobby}

theorem count_of_nodup {l : List String} {name : String} (h : l.Nodup) :
    l.count name = if name ∈ l then 1 else 0 := by
  split
  · rename_i hmem
    exact List.count_eq_one_of_mem h hmem
  · rename_i hmem
    exact List.count_eq_zero_of_not_mem hmem

/-- The roster ends with the lobby that was joined last iff the joins say so. -/
theorem getLast?_putAll_iff_newestLast :
    (Keyed.putAll MemberLobby.name [] calls).getLast? = calls.getLast? ↔ NewestLast calls := by
  cases hcalls : calls.getLast? with
  | none =>
    rw [List.getLast?_eq_none_iff] at hcalls
    subst hcalls
    exact iff_of_true rfl fun lobby hlobby => by cases hlobby
  | some lobby =>
    rw [Keyed.getLast?_putAll_iff hcalls, NewestLast]
    constructor
    · intro h lobby' hlobby'
      rw [hcalls, Option.some.injEq] at hlobby'
      exact hlobby' ▸ h
    · exact fun h => h lobby hcalls

/-- What `say` posts to, if the last entry is the lobby that was joined last. -/
theorem said_of_last {lobby : MemberLobby} {nonce : ByteArr 24} {args : List String}
    (hlast : lastRoster V.home V.roster t = some lobby)
    (hfound : findRoster V.home V.roster lobby.name t = some lobby)
    (hargs : " ".intercalate args ≠ "") :
    shellPost V nonce "say" args t =
      sendTo V nonce shellTexts lobby lobby.name (" ".intercalate args) := by
  rw [shellPost, if_neg fun h => absurd h.1 (by decide), if_neg hargs, hlast]
  dsimp only
  rw [postRequest, hfound]

/-- **Posts go to the lobby that was joined last iff no other was joined for the first time after it
was**; all else holds of every sequence of joins. -/
theorem rosterOrder_iff (V : AppEnv) (t : Tree) (calls : List MemberLobby)
    (hempty : rosterLobbies V.home V.roster t = []) :
    RosterOrder V t calls ↔ (TakesRoster V.home t → NewestLast calls) := by
  by_cases htakes : TakesRoster V.home t
  · obtain ⟨hload, hjoins⟩ := loadRoster_after (R := V.roster) calls htakes
    rw [rosterLobbies] at hempty
    rw [hempty] at hload
    have hfound : ∀ name,
        findRoster V.home V.roster name ((recorder V.home V.roster).after t calls) =
          (calls.filter fun lobby => lobby.name = name).getLast? := by
      intro name
      rw [findRoster, hload]
      exact Keyed.find?_putAll
    have hlast : lastRoster V.home V.roster ((recorder V.home V.roster).after t calls) =
        (Keyed.putAll MemberLobby.name [] calls).getLast? := by
      rw [lastRoster, rosterLobbies, hload]
    constructor
    · intro h _
      have hsame := h.last
      rw [hlast, hjoins] at hsame
      exact getLast?_putAll_iff_newestLast.1 hsame
    · intro h
      have hsame := getLast?_putAll_iff_newestLast.2 (h htakes)
      refine ⟨fun name => ?_, fun name => ?_, ?_, fun lobby hlobby nonce args hargs => ?_⟩
      · rw [rosterLobbies, hload, hjoins, count_of_nodup (Keyed.nodup_putAll (by simp))]
        refine if_congr ?_ rfl rfl
        rw [Keyed.mem_keys_putAll, List.map_nil]
        simp
      · rw [hfound, hjoins]
      · rw [hlast, hjoins, hsame]
      · rw [hjoins] at hlobby
        refine said_of_last (by rw [hlast, hsame, hlobby]) ?_ hargs
        rw [hfound]
        obtain ⟨before, rfl⟩ := List.getLast?_eq_some_iff.1 hlobby
        simp [List.filter_append]
  · obtain ⟨hload, hjoins⟩ := loadRoster_after_of_not (R := V.roster) calls htakes
    rw [rosterLobbies] at hempty
    refine iff_of_true ⟨fun name => ?_, fun name => ?_, ?_, fun lobby hlobby => ?_⟩
      fun h => absurd h htakes
    · rw [rosterLobbies, hload, hjoins, hempty]
      rfl
    · rw [findRoster, hload, hjoins, hempty]
      rfl
    · rw [lastRoster, rosterLobbies, hload, hjoins, hempty, List.getLast?_nil]
    · rw [hjoins] at hlobby
      cases hlobby

end Newest

/-! ### An empty home -/

section Empty

variable {home : Home} {t : Tree}

theorem EmptyHome.takesRoster (h : EmptyHome home t) : TakesRoster home t := by
  have hnorm : (home.path.join "lobbies").norm = "lobbies" :: home.loc := by
    rw [PathBuf.norm_join (by decide) (by decide), Home.norm_path]
  have hnone : ∀ c, ¬ t.IsDir (c :: (home.path.join "lobbies").norm) := by
    intro c hdir
    rw [hnorm] at hdir
    exact hdir.ne_none (h.entry_eq_none c)
  exact ⟨h.lobbies.named, fun k hk => h.lobbies.free k (hnorm ▸ hk),
    h.usual _ (by decide) (by decide) (by decide) (by decide),
    h.usual _ (by decide) (by decide) (by decide) (by decide), hnone _, hnone _⟩

theorem EmptyHome.rosterLobbies {R : Codec (List MemberLobby)} (h : EmptyHome home t) :
    rosterLobbies home R t = [] := by
  have hnone : t.content ((home.path.join "lobbies").join "roster.json") = none := by
    rw [Option.eq_none_iff_forall_ne_some]
    intro b hb
    have hfile := Tree.file?_eq_some.1 (Tree.content_eq_some.1 hb).2
    rw [PathBuf.norm_join (by decide) (by decide), PathBuf.norm_join (by decide) (by decide),
      Home.norm_path, h.entry_eq_none] at hfile
    cases hfile
  rw [Neonet.rosterLobbies, loadRoster_eq_saved, saved, hnone]
  rfl

end Empty

namespace Photo

/-- A lobby that was joined. -/
def joinedAt (name hostAlias : String) (host : Identity) : MemberLobby where
  name := name
  hostAlias := hostAlias
  hostFingerprint := (host.pub .sample).fingerprint .sample
  keyHex := lobbyKey
  title := ""
  welcome := ""

/-- A host that welcomes to another lobby than was asked for. -/
def misleading : MeshClient where
  peer _ := .ok (visitor.pub .sample)
  call _ _ := .ok (sentBy visitor (.lobby (.joined "retreat" "" "")))

/-- The disk of a member of the retreat. -/
def memberDisk : Tree :=
  (addToRoster device env.roster (joinedAt "retreat" "alice" owner) settled.disk).2

theorem findRoster_memberDisk : findRoster device env.roster "retreat" memberDisk =
    some (joinedAt "retreat" "alice" owner) := by
  rw [findRoster, memberDisk, loadRoster_addToRoster _ emptyHome_settled.takesRoster]
  exact Keyed.find?_put

end Photo

open Photo in
/-- The host of the beach takes over the retreat. -/
theorem not_keepsOthers : ¬ ∀ N t lobbyName hostDeviceId key,
    KeepsOthers env N lobbyName hostDeviceId key t
      (joinCommand env N (fun _ => "") lobbyName hostDeviceId key t).2 := by
  intro h
  have hbeach := h misleading memberDisk "beach" "mallory" lobbyKey
  have hkey : lobbyKey ≠ "" := by decide
  refine (keepsOthers_iff_of_recorded (recorded_joinCommand hkey)).1 hbeach ?_ ?_
  · exact takesRoster_addToRoster.2 emptyHome_settled.takesRoster
  · refine ⟨visitor.pub .sample, "retreat", "", "", ⟨_, rfl, rfl, decode_sentBy _ _⟩,
      by decide, fun hsame => ?_⟩
    have hhome : env.home = device := rfl
    rw [hhome, findRoster_memberDisk, Option.some.injEq] at hsame
    exact absurd (congrArg MemberLobby.hostAlias hsame) (by decide)

open Photo in
/-- The retreat, then the beach. -/
theorem rosterOrder_iff_beach : RosterOrder env settled.disk
    [joinedAt "retreat" "alice" owner, joinedAt "beach" "bob" visitor] :=
  (rosterOrder_iff env settled.disk _ emptyHome_settled.rosterLobbies).2 fun _ lobby hlobby => by
    obtain rfl : joinedAt "beach" "bob" visitor = lobby := Option.some.inj hlobby
    decide

open Photo in
/-- The retreat is joined again after the beach. -/
theorem not_rosterOrder : ¬ ∀ calls, RosterOrder env settled.disk calls := by
  intro h
  have hlast := (h [joinedAt "retreat" "alice" owner, joinedAt "beach" "bob" visitor,
    joinedAt "retreat" "alice" owner]).last
  obtain ⟨hload, hjoins⟩ := loadRoster_after (R := env.roster)
    [joinedAt "retreat" "alice" owner, joinedAt "beach" "bob" visitor,
      joinedAt "retreat" "alice" owner] emptyHome_settled.takesRoster
  have hempty := emptyHome_settled.rosterLobbies (R := env.roster)
  rw [rosterLobbies] at hempty
  rw [hempty] at hload
  have hhome : env.home = device := rfl
  rw [hhome, hjoins, lastRoster, rosterLobbies, hload] at hlast
  exact absurd (congrArg (Option.map MemberLobby.name) hlast) (by decide)

end Neonet
