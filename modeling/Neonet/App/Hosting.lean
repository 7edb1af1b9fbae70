import Neonet.App.Answered
import Neonet.App.Sizes
import Neonet.Lib.Past

/-!
# The lobbies of a process

All the nodes of a process share one map of hosted lobbies, which has an entry for each state
directory and name.

* `registerHost` : a lobby is opened, or opened anew.
* `hostRun` : lobbies are opened and nodes handle messages, in any order.
* `LobbyStep`, `lobbyStep` : **what an event does to one lobby depends on that lobby alone.**
* `MembershipSpec` : what the host ought to keep.
* `lobbyInv_of_run` : **in every run a device is a member iff it was admitted and has not left.**
* `membershipSpec_iff` : **the members are those that were told so iff each admission is small
  enough to be told.**
* `not_membershipSpec` : a member that is not told.
-/

namespace Neonet

open FileTree FsM

deriving instance DecidableEq for Home

/-- What the host decides before it opens a lobby. -/
structure LobbyOptions where
  title : String
  welcome : String
  maxMembers : Option ℕ

/-- `register_host`, in the state of the node with that directory. -/
def registerHost (name keyHex : String) (options : LobbyOptions) (s : AppState) : AppState :=
  s.setHost name ⟨keyHex, ∅, options.title, options.welcome, options.maxMembers⟩

/-- What happens in a process. -/
inductive HostEvent
  /-- `register_host` is called. -/
  | hosted (home : Home) (name keyHex : String) (options : LobbyOptions)
  /-- The node with this key and directory receives a message. -/
  | arrived (self : Identity) (home : Home) (d : Draws) (request : Message)

section Hosts

variable (V : AppEnv)

/-- The node with this key and directory. -/
def AppEnv.node (self : Identity) (home : Home) : AppEnv := { V with self, home }

/-- The nodes at work: each message is answered with those that it makes its node send. -/
def hostRun : Machine (Home → AppState) HostEvent (List Message) where
  step w
    | .hosted home name keyHex options =>
      ([], Function.update w home (registerHost name keyHex options (w home)))
    | .arrived self home d request =>
      (((V.node self home).handle d request (w home)).2.sent.drop (w home).sent.length,
        Function.update w home ((V.node self home).handle d request (w home)).2)

/-- An event, and the messages that it is answered with. -/
abbrev HostRecord := HostEvent × List Message

/-- What `register_host` was called with for the lobby. -/
def hosting (home : Home) (name : String) : HostRecord → Option (String × LobbyOptions)
  | (.hosted home' name' keyHex options, _) =>
    if home' = home ∧ name' = name then some (keyHex, options) else none
  | (.arrived _ _ _ _, _) => none

/-- The event opens the lobby. -/
def OpensLobby (home : Home) (name : String) (e : HostRecord) : Prop :=
  ∃ keyHex options, e.1 = .hosted home name keyHex options

/-- The event is a `Join` of `x` for the lobby, answered with `Joined`. -/
def Admitted (home : Home) (name : String) (x : PublicIdentity) (e : HostRecord) : Prop :=
  ∃ self d request key title welcome,
    e = (.arrived self home d request,
        [replyMessage (V.node self home) request
          (V.frames.encode (.lobby (.joined name title welcome)))]) ∧
      request.sender = x ∧ AppFrame.decode V.frames request.payload = .lobby (.join name key)

/-- The event is a `Leave` of `x` for the lobby. -/
def Departed (home : Home) (name : String) (x : PublicIdentity) (e : HostRecord) : Prop :=
  ∃ self d request, e.1 = .arrived self home d request ∧ request.sender = x ∧
    AppFrame.decode V.frames request.payload = .lobby (.leave name)

/-- `x` has joined the lobby, has not left it, and the lobby was not opened anew. -/
def StillIn (home : Home) (name : String) (x : PublicIdentity) (past : List HostRecord) : Prop :=
  Since (Admitted V home name x) (fun e => Departed V home name x e ∨ OpensLobby home name e) past

/-- The name of the lobby that a frame is about. -/
def LobbyFrame.lobbyName? : LobbyFrame → Option String
  | .join lobbyName _ | .joined lobbyName _ _ | .posted lobbyName _ | .post lobbyName _ _ _
  | .relay lobbyName _ _ | .leave lobbyName | .left lobbyName | .members lobbyName => some lobbyName
  | .refuse _ | .memberList _ => none

/-- The lobby that an event is about. -/
def HostEvent.lobby : HostEvent → Option (Home × String)
  | .hosted home name _ _ => some (home, name)
  | .arrived _ home _ request =>
    match AppFrame.decode V.frames request.payload with
    | .lobby f => f.lobbyName?.map fun name => (home, name)
    | _ => none

/-- The entry of the lobby. -/
def lobbyOf (w : Home → AppState) (home : Home) (name : String) : Option HostState :=
  (w home).hosts name

/-- What the host ought to keep, in a run of the process. -/
structure MembershipSpec (w₀ : Home → AppState) (events : List HostEvent) : Prop where
  /-- The members are those that were told that they are, and have not left. -/
  members : ∀ pre, pre <+: events → ∀ home name x,
    x ∈ ((hostRun V).after w₀ pre home).membersOf name ↔
      StillIn V home name x ((hostRun V).transcript w₀ pre)
  /-- Those that are told presented the key of the lobby. -/
  keyed : ∀ pre self home d request post name key x, events =
      pre ++ .arrived self home d request :: post →
    AppFrame.decode V.frames request.payload = .lobby (.join name key) →
      Admitted V home name x (.arrived self home d request,
        ((hostRun V).step ((hostRun V).after w₀ pre) (.arrived self home d request)).1) →
      ∃ options, latest (hosting home name) ((hostRun V).transcript w₀ pre) = some (key, options)
  /-- There are no more of them than the lobby was opened for. -/
  capped : ∀ pre, pre <+: events → ∀ home name key options cap,
    latest (hosting home name) ((hostRun V).transcript w₀ pre) = some (key, options) →
      options.maxMembers = some cap → (((hostRun V).after w₀ pre home).membersOf name).card ≤ cap
  /-- A `Join` that is not answered with `Joined` changes nothing. -/
  refused : ∀ pre self home d request post name key, events =
      pre ++ .arrived self home d request :: post →
    AppFrame.decode V.frames request.payload = .lobby (.join name key) →
      ¬ Admitted V home name request.sender (.arrived self home d request,
        ((hostRun V).step ((hostRun V).after w₀ pre) (.arrived self home d request)).1) →
      ∀ home', ((hostRun V).after w₀ (pre ++ [.arrived self home d request]) home').hosts =
          ((hostRun V).after w₀ pre home').hosts ∧
        ((hostRun V).after w₀ (pre ++ [.arrived self home d request]) home').disk =
          ((hostRun V).after w₀ pre home').disk
  /-- An event changes no lobby but the one that it is about. -/
  separate : ∀ pre e post, events = pre ++ e :: post → ∀ home name,
    e.lobby V ≠ some (home, name) →
      lobbyOf ((hostRun V).after w₀ (pre ++ [e])) home name =
        lobbyOf ((hostRun V).after w₀ pre) home name

/-- A device that becomes a member can be told so: the answer is small enough. -/
def AdmissionFits (w : Home → AppState) (e : HostEvent) : Prop :=
  ∀ self home d request name key state, e = .arrived self home d request →
    AppFrame.decode V.frames request.payload = .lobby (.join name key) →
    lobbyOf w home name = some state → state.key = key → state.atCap = false →
    request.sender ∉ state.members →
      Fits (V.node self home) request (.lobby (.joined name state.title state.welcome))

end Hosts

variable {V : AppEnv} {self : Identity} {home : Home} {name : String} {x : PublicIdentity}
  {d : Draws} {request : Message} {s : AppState} {w : Home → AppState} {e : HostEvent}
  {sent : List Message} {past : List HostRecord}

/-! ### One message -/

theorem hosts_onDisk {α : Type} {m : FsM IoError α} {next : α → AppState → Outcome × AppState}
    (hnext : ∀ a s', (next a s').2.hosts = s'.hosts) : (s.onDisk m next).2.hosts = s.hosts := by
  rw [AppState.onDisk]
  split
  · rfl
  · rw [hnext]

@[simp] theorem relayAll_hosts {payload : Bytes} {i : ℕ} {members : List PublicIdentity} :
    (V.relayAll d payload i members s).2.hosts = s.hosts := by
  induction members generalizing i s with
  | nil => rfl
  | cons member members ih =>
    rw [AppEnv.relayAll]
    have hsend : (sendRaw V ⟨d.ids i, V.identity, member, payload⟩ s).2.hosts = s.hosts := by
      rw [sendRaw]
      split <;> rfl
    dsimp only
    split <;> rename_i heq <;> rw [heq] at hsend <;> exact ih.trans hsend

theorem hosts_handleFiles {f : FilesFrame} : (V.handleFiles request f s).2.hosts = s.hosts := by
  cases f with
  | announce | statusRequest =>
    rw [AppEnv.handleFiles]
    split <;> simp
  | chunk =>
    rw [AppEnv.handleFiles]
    split
    · rename_i status _ _
      rcases status with (_ | _) | _
      · rfl
      · simp [AppEnv.answerChunk]
      · simp [AppEnv.answerChunk]
    · rfl
    · simp
  | _ => rfl

theorem hosts_handleBurrow {f : BurrowFrame} :
    (V.handleBurrow request f s).2.hosts = s.hosts := by
  cases f with
  | list | read | fork =>
    rw [AppEnv.handleBurrow]
    split <;> simp
  | forkResult path success => cases success <;> rfl
  | _ => rfl

theorem hosts_handleCore {f : CoreFrame} : (V.handleCore request f s).2.hosts = s.hosts := by
  cases f with
  | revokeBroadcast =>
    rw [AppEnv.handleCore]
    split_ifs
    · exact AppState.replied_hosts
    · exact AppState.replied_hosts
    · exact hosts_onDisk fun _ _ => AppState.replied_hosts
    -- the sender is no operator
    · exact AppState.replied_hosts
  | reconcileRequest => exact AppState.replied_hosts
  | chunkData hash data =>
    cases data with
    | none => rfl
    | some bytes =>
      rw [AppEnv.handleCore]
      split_ifs
      · rfl
      · exact hosts_onDisk fun _ _ => rfl
  | _ => rfl

theorem hosts_handleRendezvous {f : RendezvousFrame} :
    (V.handleRendezvous d request f s).2.hosts = s.hosts := by
  cases f with
  | register =>
    rw [AppEnv.handleRendezvous]
    split_ifs
    · exact AppState.replied_hosts
    · exact AppState.replied_hosts
    · exact hosts_onDisk fun _ _ => AppState.replied_hosts
  | lookup | list | probe => exact AppState.replied_hosts
  | _ => rfl

theorem hosts_handlePair {f : PairFrame} : (V.handlePair d request f s).2.hosts = s.hosts := by
  cases f with
  | redeem =>
    rw [AppEnv.handlePair]
    split
    · exact hosts_onDisk fun _ _ => AppState.replied_hosts
    · exact AppState.replied_hosts
    · exact AppState.replied_hosts
  | _ => rfl

/-- What is no frame of the lobbies leaves them alone. -/
theorem hosts_dispatch {f : AppFrame} (hf : ∀ g, f ≠ .lobby g) :
    (V.dispatch d request s f).2.hosts = s.hosts := by
  cases f with
  | raw payload => rfl
  | files f => exact hosts_handleFiles
  | burrow f => exact hosts_handleBurrow
  | storage f =>
    rw [AppEnv.dispatch, AppEnv.handleStore]
    split <;> simp
  | core f => exact hosts_handleCore
  | rendezvous f => exact hosts_handleRendezvous
  | pair f => exact hosts_handlePair
  | lobby f => exact absurd rfl (hf f)
  | channel f =>
    cases f with
    | send => exact hosts_onDisk fun _ _ => AppState.replied_hosts
    | ack => rfl

theorem hosts_handleLobby {f : LobbyFrame} (hjoin : ∀ name key, f ≠ .join name key)
    (hleave : ∀ name, f ≠ .leave name) : (V.handleLobby d request f s).2.hosts = s.hosts := by
  cases f with
  | join name key => exact absurd rfl (hjoin name key)
  | leave name => exact absurd rfl (hleave name)
  | post name key nonce ciphertext =>
    rw [AppEnv.handleLobby]
    split_ifs
    · exact AppState.replied_hosts
    · split
      · exact AppState.replied_hosts
      · split
        · exact AppState.replied_hosts
        · refine hosts_onDisk fun _ s' => ?_
          dsimp only
          split
          · rfl
          · rw [AppState.replied_hosts, relayAll_hosts]
  | relay =>
    rw [AppEnv.handleLobby]
    split
    · rfl
    · split_ifs
      · rfl
      · split
        · rfl
        · exact hosts_onDisk fun _ _ => rfl
  | members => exact AppState.replied_hosts
  | _ => rfl

/-- **What a `Join` comes to**: a seat, or a refusal that changes nothing. -/
inductive JoinStep (V : AppEnv) (request : Message) (name key : String) (s : AppState) :
    List Message × AppState → Prop
  | admitted {state : HostState} {s' : AppState} (entry : s.hosts name = some state)
      (keyed : state.key = key) (seat : state.atCap = false)
      (hosts : s'.hosts = Function.update s.hosts name
        (some { state with members := insert request.sender state.members }))
      (disk : s'.disk = s.disk) :
      JoinStep V request name key s
        (delivered V request (some (.lobby (.joined name state.title state.welcome))), s')
  | refused {message : String} {s' : AppState}
      (noSeat : ∀ state, s.hosts name = some state → state.key = key → state.atCap = true)
      (hosts : s'.hosts = s.hosts) (disk : s'.disk = s.disk) :
      JoinStep V request name key s
        (delivered V request (some (.lobby (.refuse message))), s')

theorem joinStep {key : String} : JoinStep V request name key s
    ((V.handleLobby d request (.join name key) s).2.sent.drop s.sent.length,
      (V.handleLobby d request (.join name key) s).2) := by
  have hrefuse : ∀ message,
      (∀ state, s.hosts name = some state → state.key = key → state.atCap = true) →
        JoinStep V request name key s
          ((V.refuseLobby request message s).2.sent.drop s.sent.length,
            (V.refuseLobby request message s).2) := by
    intro message hseat
    rw [AppEnv.refuseLobby, AppState.replied_sent, List.drop_left]
    exact .refused hseat AppState.replied_hosts AppState.replied_disk
  rw [AppEnv.handleLobby]
  cases hentry : s.hosts name with
  | none => exact hrefuse _ fun state h => by cases hentry.symm.trans h
  | some state =>
    dsimp only
    split_ifs with hkey hcap
    · exact hrefuse _ fun state' h hkey' => by
        cases hentry.symm.trans h
        exact absurd hkey' hkey
    · exact hrefuse _ fun state' h _ => by
        cases hentry.symm.trans h
        exact hcap
    · rw [AppState.replied_sent]
      dsimp only [AppState.setHost]
      rw [List.drop_left]
      exact .admitted hentry (not_not.1 hkey) (eq_false_of_ne_true hcap) AppState.replied_hosts
        AppState.replied_disk

/-! ### One event -/

/-- The event is a `Join` of `x` that takes a seat in the lobby with this entry. -/
def TakesSeat (V : AppEnv) (home : Home) (name : String) (entry : Option HostState)
    (x : PublicIdentity) (e : HostEvent) : Prop :=
  ∃ self d request key state, e = .arrived self home d request ∧ request.sender = x ∧
    AppFrame.decode V.frames request.payload = .lobby (.join name key) ∧ entry = some state ∧
      state.key = key ∧ state.atCap = false

/-- What an event does to the entry of one lobby. -/
inductive LobbyStep (V : AppEnv) (home : Home) (name : String) (entry : Option HostState) :
    HostRecord → Option HostState → Prop
  | opened {keyHex : String} {options : LobbyOptions} :
      LobbyStep V home name entry (.hosted home name keyHex options, [])
        (some ⟨keyHex, ∅, options.title, options.welcome, options.maxMembers⟩)
  | admitted {self : Identity} {d : Draws} {request : Message} {key : String} {state : HostState}
      (frame : AppFrame.decode V.frames request.payload = .lobby (.join name key))
      (hosted : entry = some state) (keyed : state.key = key) (seat : state.atCap = false) :
      LobbyStep V home name entry (.arrived self home d request,
          delivered (V.node self home) request
            (some (.lobby (.joined name state.title state.welcome))))
        (some { state with members := insert request.sender state.members })
  | departed {self : Identity} {d : Draws} {request : Message} {sent : List Message}
      (frame : AppFrame.decode V.frames request.payload = .lobby (.leave name)) :
      LobbyStep V home name entry (.arrived self home d request, sent)
        (entry.map fun state => { state with members := state.members.erase request.sender })
  | kept {e : HostRecord} (opens : ¬ OpensLobby home name e)
      (seats : ∀ x, ¬ TakesSeat V home name entry x e.1)
      (admits : ∀ x, ¬ Admitted V home name x e) (departs : ∀ x, ¬ Departed V home name x e) :
      LobbyStep V home name entry e entry

theorem not_opensLobby_arrived {home' : Home} :
    ¬ OpensLobby home name (.arrived self home' d request, sent) := by
  rintro ⟨keyHex, options, h⟩
  cases h

theorem Admitted.frame {home' : Home}
    (h : Admitted V home name x (.arrived self home' d request, sent)) :
    home' = home ∧ request.sender = x ∧
      ∃ key, AppFrame.decode V.frames request.payload = .lobby (.join name key) := by
  obtain ⟨self', d', request', key, title, welcome, heq, hx, hf⟩ := h
  cases heq
  exact ⟨rfl, hx, key, hf⟩

theorem Departed.frame {home' : Home}
    (h : Departed V home name x (.arrived self home' d request, sent)) :
    home' = home ∧ request.sender = x ∧
      AppFrame.decode V.frames request.payload = .lobby (.leave name) := by
  obtain ⟨self', d', request', heq, hx, hf⟩ := h
  cases heq
  exact ⟨rfl, hx, hf⟩

theorem TakesSeat.frame {home' : Home} {entry : Option HostState}
    (h : TakesSeat V home name entry x (.arrived self home' d request)) :
    home' = home ∧ ∃ key state, AppFrame.decode V.frames request.payload =
      .lobby (.join name key) ∧ entry = some state ∧ state.key = key ∧ state.atCap = false := by
  obtain ⟨self', d', request', key, state, heq, -, hf, hentry, hkey, hseat⟩ := h
  cases heq
  exact ⟨rfl, key, state, hf, hentry, hkey, hseat⟩

theorem not_admitted_refuse {home' : Home} {message : String} :
    ¬ Admitted V home name x (.arrived self home' d request,
      delivered (V.node self home') request (some (.lobby (.refuse message)))) := by
  rintro ⟨self', d', request', key, title, welcome, heq, -⟩
  obtain ⟨hevent, hsent⟩ := Prod.mk.inj heq
  cases hevent
  obtain ⟨frame, hframe, -, hreply⟩ := delivered_eq_singleton.1 hsent
  cases hframe
  cases replyMessage_injective hreply

theorem admitted_delivered {key title welcome : String}
    (hf : AppFrame.decode V.frames request.payload = .lobby (.join name key)) :
    Admitted V home name x (.arrived self home d request,
        delivered (V.node self home) request (some (.lobby (.joined name title welcome)))) ↔
      request.sender = x ∧
        Fits (V.node self home) request (.lobby (.joined name title welcome)) := by
  constructor
  · rintro ⟨self', d', request', key', title', welcome', heq, hx, -⟩
    obtain ⟨hevent, hsent⟩ := Prod.mk.inj heq
    cases hevent
    obtain ⟨frame, hframe, hfits, -⟩ := delivered_eq_singleton.1 hsent
    cases hframe
    exact ⟨hx, hfits⟩
  · rintro ⟨hx, hfits⟩
    have hsent := delivered_eq_singleton.2 ⟨_, rfl, hfits, rfl⟩
    exact ⟨self, d, request, key, title, welcome, by rw [hsent]; rfl, hx, hf⟩

theorem lobbyOf_update {home' : Home} :
    lobbyOf (Function.update w home' s) home name =
      if home = home' then s.hosts name else lobbyOf w home name := by
  rw [lobbyOf, Function.update_apply]
  split <;> rfl

theorem lobbyStep_elsewhere {home' : Home} (h : home' ≠ home) :
    LobbyStep V home name (lobbyOf w home name) (.arrived self home' d request, sent)
      (lobbyOf (Function.update w home' s) home name) := by
  rw [lobbyOf_update, if_neg h.symm]
  exact .kept not_opensLobby_arrived (fun x hx => h hx.frame.1) (fun x hx => h hx.frame.1)
    fun x hx => h hx.frame.1

theorem handle_node {f : AppFrame} (hf : AppFrame.decode V.frames request.payload = f) :
    (V.node self home).handle d request s = (V.node self home).dispatch d request s f := by
  rw [← hf]
  rfl

theorem hosts_handle {home' : Home}
    (hjoin : ∀ name key, AppFrame.decode V.frames request.payload ≠ .lobby (.join name key))
    (hleave : ∀ name, AppFrame.decode V.frames request.payload ≠ .lobby (.leave name)) :
    ((V.node self home').handle d request s).2.hosts = s.hosts := by
  rw [handle_node rfl]
  by_cases hf : ∃ f, AppFrame.decode V.frames request.payload = .lobby f
  · obtain ⟨f, hf⟩ := hf
    rw [hf]
    exact hosts_handleLobby (fun name key h => hjoin name key (h ▸ hf))
      fun name h => hleave name (h ▸ hf)
  · exact hosts_dispatch fun f h => hf ⟨f, h⟩

theorem hosts_handle_leave {name' : String}
    (hf : AppFrame.decode V.frames request.payload = .lobby (.leave name')) :
    ((V.node self home).handle d request s).2.hosts name =
      if name = name' then (s.hosts name).map fun state =>
        { state with members := state.members.erase request.sender }
      else s.hosts name := by
  rw [handle_node hf, AppEnv.dispatch, AppEnv.handleLobby]
  dsimp only
  rw [AppState.replied_hosts]
  cases hentry : s.hosts name' with
  | none =>
    split_ifs with h
    · rw [h, hentry]
      rfl
    · rfl
  | some state =>
    dsimp only [AppState.setHost]
    rw [Function.update_apply]
    split_ifs with h
    · rw [h, hentry]
      rfl
    · rfl

/-- What one node does with a message, to a lobby of its own. -/
abbrev OwnStep (V : AppEnv) (self : Identity) (home : Home) (name : String) (d : Draws)
    (request : Message) (s : AppState) : Prop :=
  LobbyStep V home name (s.hosts name) (.arrived self home d request,
      ((V.node self home).handle d request s).2.sent.drop s.sent.length)
    (((V.node self home).handle d request s).2.hosts name)

theorem ownStep_join {name' key : String}
    (hf : AppFrame.decode V.frames request.payload = .lobby (.join name' key)) :
    OwnStep V self home name d request s := by
  have hleft : ∀ sent, ∀ x,
      ¬ Departed V home name x (.arrived self home d request, sent) := by
    intro sent x hx
    cases hf.symm.trans hx.frame.2.2
  have hstep : JoinStep (V.node self home) request name' key s
      (((V.node self home).handle d request s).2.sent.drop s.sent.length,
        ((V.node self home).handle d request s).2) := by
    rw [handle_node hf]
    exact joinStep (d := d)
  unfold OwnStep
  generalize ((V.node self home).handle d request s).2.sent.drop s.sent.length = sent at hstep ⊢
  generalize ((V.node self home).handle d request s).2 = s' at hstep ⊢
  cases hstep with
  | @admitted state _ entry keyed seat hosts disk =>
    rw [hosts, Function.update_apply]
    split_ifs with h
    · obtain rfl := h
      exact .admitted hf entry keyed seat
    · refine .kept not_opensLobby_arrived (fun x hx => ?_) (fun x hx => ?_) (hleft _)
      · obtain ⟨-, key', state', hf', -⟩ := hx.frame
        cases hf.symm.trans hf'
        exact h rfl
      · obtain ⟨-, -, key', hf'⟩ := hx.frame
        cases hf.symm.trans hf'
        exact h rfl
  | refused noSeat hosts disk =>
    rw [hosts]
    refine .kept not_opensLobby_arrived (fun x hx => ?_) (fun x => not_admitted_refuse) (hleft _)
    obtain ⟨-, key', state, hf', hentry, hkey, hseat⟩ := hx.frame
    cases hf.symm.trans hf'
    exact Bool.noConfusion (hseat.symm.trans (noSeat state hentry hkey))

theorem ownStep_leave {name' : String}
    (hf : AppFrame.decode V.frames request.payload = .lobby (.leave name')) :
    OwnStep V self home name d request s := by
  rw [OwnStep, hosts_handle_leave hf]
  split_ifs with h
  · rw [h]
    exact .departed hf
  · refine .kept not_opensLobby_arrived (fun x hx => ?_) (fun x hx => ?_) fun x hx => ?_
    · obtain ⟨-, key, state, hf', -⟩ := hx.frame
      cases hf.symm.trans hf'
    · obtain ⟨-, -, key, hf'⟩ := hx.frame
      cases hf.symm.trans hf'
    · cases hf.symm.trans hx.frame.2.2
      exact h rfl

theorem ownStep : OwnStep V self home name d request s := by
  by_cases hjoin : ∃ name' key, AppFrame.decode V.frames request.payload = .lobby (.join name' key)
  · obtain ⟨name', key, hf⟩ := hjoin
    exact ownStep_join hf
  by_cases hleave : ∃ name', AppFrame.decode V.frames request.payload = .lobby (.leave name')
  · obtain ⟨name', hf⟩ := hleave
    exact ownStep_leave hf
  push Not at hjoin hleave
  rw [OwnStep, hosts_handle hjoin hleave]
  refine .kept not_opensLobby_arrived (fun x hx => ?_) (fun x hx => ?_) fun x hx => ?_
  · obtain ⟨-, key, state, hf, -⟩ := hx.frame
    exact hjoin name key hf
  · obtain ⟨-, -, key, hf⟩ := hx.frame
    exact hjoin name key hf
  · exact hleave name hx.frame.2.2

/-- **What an event does to one lobby depends on that lobby alone.** -/
theorem lobbyStep : LobbyStep V home name (lobbyOf w home name)
    (e, ((hostRun V).step w e).1) (lobbyOf ((hostRun V).step w e).2 home name) := by
  cases e with
  | hosted home' name' keyHex options =>
    by_cases h : home' = home ∧ name' = name
    · obtain ⟨rfl, rfl⟩ := h
      have hopened : lobbyOf ((hostRun V).step w (.hosted home' name' keyHex options)).2 home'
          name' = some ⟨keyHex, ∅, options.title, options.welcome, options.maxMembers⟩ := by
        simp [hostRun, lobbyOf, registerHost, AppState.setHost]
      rw [hopened]
      exact .opened
    · have hkept : lobbyOf ((hostRun V).step w (.hosted home' name' keyHex options)).2 home name =
          lobbyOf w home name := by
        rw [hostRun, lobbyOf_update]
        split_ifs with hhome
        · obtain rfl := hhome
          exact Function.update_of_ne (fun hname => h ⟨rfl, hname.symm⟩) ..
        · rfl
      rw [hkept]
      refine .kept ?_ ?_ ?_ ?_
      · rintro ⟨keyHex', options', heq⟩
        cases heq
        exact h ⟨rfl, rfl⟩
      · rintro x ⟨self, d, request, key, state, heq, -⟩
        cases heq
      · rintro x ⟨self, d, request, key, title, welcome, heq, -⟩
        cases heq
      · rintro x ⟨self, d, request, heq, -⟩
        cases heq
  | arrived self home' d request =>
    -- A message to one home leaves the lobbies of every other as they were.
    by_cases hhome : home' = home
    · obtain rfl := hhome
      have hlobby : lobbyOf ((hostRun V).step w (.arrived self home' d request)).2 home' name =
          ((V.node self home').handle d request (w home')).2.hosts name := by
        rw [hostRun, lobbyOf_update, if_pos rfl]
      rw [hlobby]
      exact ownStep
    · exact lobbyStep_elsewhere hhome

/-! ### Runs -/

/-- The members that an entry lists. -/
def membersIn (entry : Option HostState) : Finset PublicIdentity :=
  (entry.map HostState.members).getD ∅

variable {entry entry' : Option HostState} {r : HostRecord}

theorem mem_membersIn : x ∈ membersIn entry ↔ ∃ state, entry = some state ∧ x ∈ state.members := by
  cases entry <;> simp [membersIn]

theorem hosting_of_not_opensLobby (h : ¬ OpensLobby home name r) : hosting home name r = none := by
  obtain ⟨e, sent⟩ := r
  cases e with
  | hosted home' name' keyHex options =>
    refine if_neg ?_
    rintro ⟨rfl, rfl⟩
    exact h ⟨keyHex, options, rfl⟩
  | arrived => rfl

/-- The entry of a lobby, and what has happened. -/
structure LobbyInv (V : AppEnv) (home : Home) (name : String) (past : List HostRecord)
    (entry : Option HostState) : Prop where
  opened : latest (hosting home name) past =
    entry.map fun state => (state.key, ⟨state.title, state.welcome, state.maxMembers⟩)
  still : ∀ x, StillIn V home name x past → x ∈ membersIn entry
  capped : ∀ state cap, entry = some state → state.maxMembers = some cap →
    state.members.card ≤ cap

theorem HostState.card_lt_of_seat {state : HostState} {cap : ℕ} (h : state.atCap = false)
    (hcap : state.maxMembers = some cap) : state.members.card < cap := by
  rw [HostState.atCap, hcap] at h
  exact Nat.lt_of_not_le (of_decide_eq_false h)

/-- **One event** keeps the invariant. -/
theorem LobbyInv.step (h : LobbyInv V home name past entry)
    (hstep : LobbyStep V home name entry r entry') :
    LobbyInv V home name (past ++ [r]) entry' := by
  cases hstep with
  -- Opening again starts the lobby anew: nobody has been admitted since.
  | @opened keyHex options =>
    refine ⟨latest_concat_of_some (if_pos ⟨rfl, rfl⟩), fun x hx => ?_, fun state cap hs _ => ?_⟩
    · rcases since_concat.1 hx with ⟨self, d, request, key, title, welcome, heq, -⟩ | ⟨hne, -⟩
      · cases heq
      · exact absurd (.inr ⟨keyHex, options, rfl⟩) hne
    · cases hs
      exact Nat.zero_le _
  -- The seat was checked before the insertion.
  | @admitted self d request key state frame hosted keyed seat =>
    have hopened := h.opened
    subst hosted
    refine ⟨(latest_concat_of_none rfl).trans hopened, fun x hx => ?_, fun state' cap hs hcap => ?_⟩
    · refine mem_membersIn.2 ⟨_, rfl, Finset.mem_insert.2 ?_⟩
      rcases since_concat.1 hx with hx | ⟨-, hx⟩
      · exact .inl hx.frame.2.1.symm
      · obtain ⟨state', hstate, hmem⟩ := mem_membersIn.1 (h.still x hx)
        cases hstate
        exact .inr hmem
    · cases hs
      exact (Finset.card_insert_le _ _).trans (HostState.card_lt_of_seat seat hcap)
  | @departed self d request sent frame =>
    refine ⟨(latest_concat_of_none rfl).trans ?_, fun x hx => ?_, fun state' cap hs hcap => ?_⟩
    · rw [h.opened]
      cases entry <;> rfl
    · rcases since_concat.1 hx with hx | ⟨hne, hx⟩
      · obtain ⟨-, -, key, hf⟩ := hx.frame
        cases frame.symm.trans hf
      · obtain ⟨state, rfl, hmem⟩ := mem_membersIn.1 (h.still x hx)
        refine mem_membersIn.2 ⟨_, rfl, Finset.mem_erase.2 ⟨?_, hmem⟩⟩
        rintro rfl
        exact hne (.inl ⟨self, d, request, rfl, rfl, frame⟩)
    · obtain ⟨state, rfl, rfl⟩ := Option.map_eq_some_iff.1 hs
      exact (Finset.card_erase_le).trans (h.capped state cap rfl hcap)
  | kept opens seats admits departs =>
    refine ⟨(latest_concat_of_none (hosting_of_not_opensLobby opens)).trans h.opened,
      fun x hx => ?_, h.capped⟩
    exact h.still x ((since_concat.1 hx).resolve_left (admits x)).2

/-- **Who is in a lobby took a seat** that the event `φ` marks, and has not left since. -/
theorem LobbyStep.since {φ : HostRecord → Prop} (hstep : LobbyStep V home name entry r entry')
    (hseat : TakesSeat V home name entry x r.1 → x ∉ membersIn entry → φ r)
    (hpast : x ∈ membersIn entry →
      Since φ (fun r => Departed V home name x r ∨ OpensLobby home name r) past)
    (h : x ∈ membersIn entry') :
    Since φ (fun r => Departed V home name x r ∨ OpensLobby home name r) (past ++ [r]) := by
  rw [since_concat]
  cases hstep with
  | opened => simp [membersIn] at h
  | @admitted self d request key state frame hosted keyed seat =>
    by_cases hx : x ∈ membersIn entry
    · refine .inr ⟨?_, hpast hx⟩
      rintro (hleft | hopens)
      · cases frame.symm.trans hleft.frame.2.2
      · exact not_opensLobby_arrived hopens
    · obtain ⟨_, hnew, hmem⟩ := mem_membersIn.1 h
      cases hnew
      have hsender : request.sender = x := by
        rcases Finset.mem_insert.1 hmem with hx' | hx'
        · exact hx'.symm
        · exact absurd (mem_membersIn.2 ⟨state, hosted, hx'⟩) hx
      exact .inl (hseat ⟨self, d, request, key, state, rfl, hsender, frame, hosted, keyed, seat⟩ hx)
  | @departed self d request sent frame =>
    obtain ⟨_, hnew, hmem⟩ := mem_membersIn.1 h
    obtain ⟨state, rfl, rfl⟩ := Option.map_eq_some_iff.1 hnew
    obtain ⟨hne, hold⟩ := Finset.mem_erase.1 hmem
    refine .inr ⟨?_, hpast (mem_membersIn.2 ⟨state, rfl, hold⟩)⟩
    rintro (hleft | hopens)
    · exact hne hleft.frame.2.1.symm
    · exact not_opensLobby_arrived hopens
  | kept opens seats admits departs =>
    exact .inr ⟨not_or.2 ⟨departs x, opens⟩, hpast h⟩

section Start

variable {w₀ : Home → AppState} {events : List HostEvent}
  (hstart : ∀ home name, lobbyOf w₀ home name = none)

include hstart

/-- **In every run** the entry of each lobby says what has happened. -/
theorem lobbyInv_of_run :
    LobbyInv V home name ((hostRun V).transcript w₀ events)
      (lobbyOf ((hostRun V).after w₀ events) home name) := by
  refine Machine.Along.history
    (I := fun past w => LobbyInv V home name past (lobbyOf w home name))
    (Machine.along_of_forall (P := fun _ _ => True) fun _ _ _ => trivial) ?_
    fun past w e _ h => h.step lobbyStep
  rw [hstart]
  exact ⟨rfl, fun x hx => absurd hx not_since_nil, fun _ _ h => by cases h⟩

/-- **Who is a member in a run along `P`** took a seat that the event `φ` marks. -/
theorem since_of_member {P : (Home → AppState) → HostEvent → Prop} {φ : HostRecord → Prop}
    (hrun : (hostRun V).Along P w₀ events)
    (hseat : ∀ w e, P w e → TakesSeat V home name (lobbyOf w home name) x e →
      x ∉ membersIn (lobbyOf w home name) → φ (e, ((hostRun V).step w e).1))
    (h : x ∈ membersIn (lobbyOf ((hostRun V).after w₀ events) home name)) :
    Since φ (fun r => Departed V home name x r ∨ OpensLobby home name r)
      ((hostRun V).transcript w₀ events) := by
  refine Machine.Along.history (I := fun past w => x ∈ membersIn (lobbyOf w home name) →
    Since φ (fun r => Departed V home name x r ∨ OpensLobby home name r) past) hrun ?_
    (fun past w e he ih hx => lobbyStep.since (hseat w e he) ih hx) h
  rw [hstart]
  exact fun hx => absurd hx (Finset.notMem_empty x)

end Start

theorem hostRun_sent : ((hostRun V).step w (.arrived self home d request)).1 =
    ((V.node self home).handle d request (w home)).2.sent.drop (w home).sent.length := rfl

theorem hostRun_nodes : ((hostRun V).step w (.arrived self home d request)).2 =
    Function.update w home ((V.node self home).handle d request (w home)).2 := rfl

theorem hostRun_self : ((hostRun V).step w (.arrived self home d request)).2 home =
    ((V.node self home).handle d request (w home)).2 := Function.update_self ..

theorem joinStep_node {key : String}
    (hf : AppFrame.decode V.frames request.payload = .lobby (.join name key)) :
    JoinStep (V.node self home) request name key (w home)
      (((hostRun V).step w (.arrived self home d request)).1,
        ((hostRun V).step w (.arrived self home d request)).2 home) := by
  rw [hostRun_self, hostRun_sent, handle_node hf]
  exact joinStep (d := d)

/-- **What comes of a `Join` that takes a seat.** -/
theorem hostRun_seat {key : String} {state : HostState}
    (hf : AppFrame.decode V.frames request.payload = .lobby (.join name key))
    (hentry : lobbyOf w home name = some state) (hkey : state.key = key)
    (hseat : state.atCap = false) :
    ((hostRun V).step w (.arrived self home d request)).1 =
        delivered (V.node self home) request
          (some (.lobby (.joined name state.title state.welcome))) ∧
      lobbyOf ((hostRun V).step w (.arrived self home d request)).2 home name =
        some { state with members := insert request.sender state.members } := by
  have hstep : JoinStep (V.node self home) request name key (w home)
      (((hostRun V).step w (.arrived self home d request)).1,
        ((hostRun V).step w (.arrived self home d request)).2 home) := joinStep_node hf
  generalize (hostRun V).step w (.arrived self home d request) = r at hstep ⊢
  obtain ⟨sent, w'⟩ := r
  dsimp only [lobbyOf] at hstep ⊢
  generalize w' home = s' at hstep ⊢
  cases hstep with
  | admitted entry keyed seat hosts disk =>
    cases entry.symm.trans hentry
    exact ⟨rfl, by rw [hosts, Function.update_self]⟩
  | refused noSeat hosts disk =>
    exact Bool.noConfusion (hseat.symm.trans (noSeat state hentry hkey))

/-- Whoever is admitted presented the key of the lobby. -/
theorem LobbyStep.keyed (hstep : LobbyStep V home name entry r entry')
    (h : Admitted V home name x r) : ∃ self d request key state,
      r.1 = .arrived self home d request ∧
        AppFrame.decode V.frames request.payload = .lobby (.join name key) ∧
        entry = some state ∧ state.key = key := by
  cases hstep with
  | opened =>
    obtain ⟨self, d, request, key, title, welcome, heq, -⟩ := h
    cases heq
  | admitted frame hosted keyed seat => exact ⟨_, _, _, _, _, rfl, frame, hosted, keyed⟩
  | departed frame =>
    obtain ⟨-, -, key, hf⟩ := h.frame
    cases frame.symm.trans hf
  | kept opens seats admits departs => exact absurd h (admits x)

/-- **An event changes no lobby but the one that it is about.** -/
theorem LobbyStep.separate (hstep : LobbyStep V home name entry r entry')
    (h : r.1.lobby V ≠ some (home, name)) : entry' = entry := by
  cases hstep with
  | opened => exact absurd rfl h
  | admitted frame =>
    rw [HostEvent.lobby, frame] at h
    exact absurd rfl h
  | departed frame =>
    rw [HostEvent.lobby, frame] at h
    exact absurd rfl h
  | kept => rfl

/-- **A `Join` that is not answered with `Joined` changes nothing**, if those that become members
can be told so. -/
theorem join_refused {key : String} (hf : AppFrame.decode V.frames request.payload =
      .lobby (.join name key))
    (hfits : AdmissionFits V w (.arrived self home d request))
    (hnot : ¬ Admitted V home name request.sender (.arrived self home d request,
      ((hostRun V).step w (.arrived self home d request)).1)) (home' : Home) :
    (((hostRun V).step w (.arrived self home d request)).2 home').hosts = (w home').hosts ∧
      (((hostRun V).step w (.arrived self home d request)).2 home').disk = (w home').disk := by
  by_cases hhome : home' = home
  · subst hhome
    have hstep : JoinStep (V.node self home') request name key (w home')
        (((hostRun V).step w (.arrived self home' d request)).1,
          ((hostRun V).step w (.arrived self home' d request)).2 home') := joinStep_node hf
    generalize (hostRun V).step w (.arrived self home' d request) = r at hstep hnot ⊢
    obtain ⟨sent, w'⟩ := r
    dsimp only at hstep hnot ⊢
    generalize w' home' = s' at hstep ⊢
    cases hstep with
    | @admitted state _ entry keyed seat hosts disk =>
      -- the sender is a member already
      have hmem : request.sender ∈ state.members := by
        by_contra hmem
        exact hnot ((admitted_delivered hf).2
          ⟨rfl, hfits _ _ _ _ _ _ _ rfl hf entry keyed seat hmem⟩)
      rw [hosts, Finset.insert_eq_of_mem hmem, ← entry, Function.update_eq_self]
      exact ⟨rfl, disk⟩
    | refused noSeat hosts disk => exact ⟨hosts, disk⟩
  · have hsame : ((hostRun V).step w (.arrived self home d request)).2 home' = w home' :=
      Function.update_of_ne hhome ..
    rw [hsame]
    exact ⟨rfl, rfl⟩

section Start

variable {w₀ : Home → AppState} {events : List HostEvent}
  (hstart : ∀ home name, lobbyOf w₀ home name = none)

include hstart

/-- If those that become members can be told so, the members are those that are told so. -/
theorem membershipSpec_of_fits (hfits : (hostRun V).Along (AdmissionFits V) w₀ events) :
    MembershipSpec V w₀ events where
  members pre hpre home name x := by
    obtain ⟨post, rfl⟩ := hpre
    constructor
    · refine fun h => since_of_member hstart (Machine.along_append.1 hfits).1
        (fun w e he hseat hx => ?_) h
      obtain ⟨self, d, request, key, state, rfl, rfl, hf, hentry, hkey, hcap⟩ := hseat
      rw [(hostRun_seat hf hentry hkey hcap).1, admitted_delivered hf]
      refine ⟨rfl, he _ _ _ _ _ _ _ rfl hf hentry hkey hcap fun hmem => hx ?_⟩
      exact mem_membersIn.2 ⟨state, hentry, hmem⟩
    · exact fun h => (lobbyInv_of_run hstart).still x h
  keyed pre self home d request post name key x heq hf h := by
    obtain ⟨_, _, _, key', state, harrived, hf', hentry, hkey⟩ := lobbyStep.keyed h
    cases harrived
    cases hf.symm.trans hf'
    refine ⟨⟨state.title, state.welcome, state.maxMembers⟩, ?_⟩
    rw [(lobbyInv_of_run hstart).opened, hentry, Option.map_some, hkey]
  capped pre _ home name key options cap hopened hcap := by
    have h : LobbyInv V home name ((hostRun V).transcript w₀ pre)
        (lobbyOf ((hostRun V).after w₀ pre) home name) := lobbyInv_of_run hstart
    rw [h.opened] at hopened
    obtain ⟨state, hentry, hstate⟩ := Option.map_eq_some_iff.1 hopened
    cases hstate
    have hmembers : ((hostRun V).after w₀ pre home).membersOf name = state.members := by
      rw [AppState.membersOf, ← lobbyOf, hentry]
      rfl
    rw [hmembers]
    exact h.capped state cap hentry hcap
  refused pre self home d request post name key heq hf hnot home' := by
    rw [Machine.after_concat]
    exact join_refused hf (Machine.along_iff.1 hfits pre _ post heq) hnot home'
  separate pre e post _ home name hne := by
    rw [Machine.after_concat]
    exact lobbyStep.separate hne

end Start

/-- If the members are those that are told so, then those that become members can be told so. -/
theorem fits_of_membershipSpec {w₀ : Home → AppState} {events : List HostEvent}
    (h : MembershipSpec V w₀ events) : (hostRun V).Along (AdmissionFits V) w₀ events := by
  refine Machine.along_iff.2 fun pre e post heq => ?_
  rintro self home d request name key state rfl hf hentry hkey hseat hnew
  obtain ⟨hsent, hafter⟩ := @hostRun_seat V self home name d request
    ((hostRun V).after w₀ pre) key state hf hentry hkey hseat
  have hin : request.sender ∈
      ((hostRun V).after w₀ (pre ++ [.arrived self home d request]) home).membersOf name := by
    rw [Machine.after_concat]
    exact mem_membersIn.2 ⟨_, hafter, Finset.mem_insert_self ..⟩
  have hprefix : pre ++ [.arrived self home d request] <+: events :=
    ⟨post, by rw [heq, List.append_assoc, List.singleton_append]⟩
  have hstill := (h.members _ hprefix home name request.sender).1 hin
  rw [Machine.transcript_append] at hstill
  rcases since_concat.1 hstill with hadmitted | ⟨-, hbefore⟩
  · rw [hsent, admitted_delivered hf] at hadmitted
    exact hadmitted.2
  -- a member before this event
  · have hmem := (h.members pre ((List.prefix_append _ _).trans hprefix) home name _).2 hbefore
    obtain ⟨state', hentry', hmem⟩ := mem_membersIn.1 hmem
    cases hentry.symm.trans hentry'
    exact absurd hmem hnew

/-- **The members are those that were told so**, in a run of a process that begins without lobbies,
iff each answer that tells a new member so is small enough. -/
theorem membershipSpec_iff {w₀ : Home → AppState} {events : List HostEvent}
    (hstart : ∀ home name, lobbyOf w₀ home name = none) :
    MembershipSpec V w₀ events ↔ (hostRun V).Along (AdmissionFits V) w₀ events :=
  ⟨fits_of_membershipSpec, membershipSpec_of_fits hstart⟩

namespace Photo

/-- The key of a lobby. -/
def lobbyKey : String := "0000000000000000000000000000000000000000000000000000000000000000"

/-- The owner opens a lobby. -/
def opening (options : LobbyOptions) : HostEvent := .hosted device "retreat" lobbyKey options

/-- The visitor joins it. -/
def knocking : HostEvent :=
  .arrived owner device drawn (sentBy visitor (.lobby (.join "retreat" lobbyKey)))

/-- A process that hosts nothing. -/
def idle : Home → AppState := fun _ => start

theorem lobbyOf_opening (options : LobbyOptions) :
    lobbyOf ((hostRun env).step idle (opening options)).2 device "retreat" =
      some ⟨lobbyKey, ∅, options.title, options.welcome, options.maxMembers⟩ := by
  simp [hostRun, opening, lobbyOf, registerHost, AppState.setHost]

theorem node_env : env.node owner device = env := rfl

theorem decode_knocking :
    AppFrame.decode env.frames (sentBy visitor (.lobby (.join "retreat" lobbyKey))).payload =
      .lobby (.join "retreat" lobbyKey) := decode_sentBy visitor _

theorem fits_knocking {options : LobbyOptions} (hcap : options.maxMembers = none)
    (h : AdmissionFits env ((hostRun env).step idle (opening options)).2 knocking) :
    Fits env (sentBy visitor (.lobby (.join "retreat" lobbyKey)))
      (.lobby (.joined "retreat" options.title options.welcome)) := by
  have hseat : HostState.atCap ⟨lobbyKey, ∅, options.title, options.welcome, options.maxMembers⟩ =
      false := by
    rw [HostState.atCap, hcap]
  have hfits := h owner device drawn _ "retreat" lobbyKey _ rfl decode_knocking
    (lobbyOf_opening options) rfl hseat (Finset.notMem_empty _)
  rwa [node_env] at hfits

theorem admissionFits_knocking {options : LobbyOptions}
    (h : Fits env (sentBy visitor (.lobby (.join "retreat" lobbyKey)))
      (.lobby (.joined "retreat" options.title options.welcome))) :
    AdmissionFits env ((hostRun env).step idle (opening options)).2 knocking := by
  rintro self home d request name key state heq hf hentry - - -
  cases heq
  cases decode_knocking.symm.trans hf
  cases (lobbyOf_opening options).symm.trans hentry
  rw [node_env]
  exact h

theorem admissionFits_opening {w : Home → AppState} {options : LobbyOptions} :
    AdmissionFits env w (opening options) := by
  rintro self home d request name key state heq
  cases heq

end Photo

open Photo in
/-- A lobby with a short title. -/
theorem membershipSpec_iff_retreat :
    MembershipSpec env idle [opening ⟨"The Lagoon", "welcome", none⟩, knocking] :=
  (membershipSpec_iff fun _ _ => rfl).2
    ⟨admissionFits_opening, admissionFits_knocking (by decide +kernel), trivial⟩

namespace Photo

/-- A title as large as a message may be. -/
def longTitle : String := String.ofList (List.replicate 1048576 'a')

theorem utf8ByteSize_longTitle : longTitle.utf8ByteSize = 1048576 :=
  Wire.utf8ByteSize_replicate 1048576 'a'

theorem not_fits_joined {name title welcome : String} {request : Message}
    (h : title.utf8ByteSize = 1048576) :
    ¬ Fits env request (.lobby (.joined name title welcome)) := by
  rintro ⟨hle, -⟩
  rw [length_lobby, LobbyFrame.wire, Wire.length_enum] at hle
  dsimp only [Wire.pair] at hle
  rw [List.length_append, List.length_append, Wire.length_string title, h] at hle
  have hmax : maxMessageSize = 1048576 := rfl
  omega

theorem not_membershipSpec_of_long {options : LobbyOptions} (hcap : options.maxMembers = none)
    (h : options.title.utf8ByteSize = 1048576) :
    ¬ MembershipSpec env idle [opening options, knocking] := by
  intro hspec
  have hrun := fits_of_membershipSpec hspec
  exact not_fits_joined h (fits_knocking hcap hrun.2.1)

/-- The title as an option. -/
def longOptions : LobbyOptions := ⟨longTitle, "", none⟩

end Photo

open Photo in
/-- **A member that is not told**: the title of the lobby is as large as a message may be. -/
theorem not_membershipSpec :
    (∀ home name, lobbyOf idle home name = none) ∧
      ¬ MembershipSpec env idle [opening longOptions, knocking] :=
  ⟨fun _ _ => rfl, not_membershipSpec_of_long rfl utf8ByteSize_longTitle⟩

end Neonet
