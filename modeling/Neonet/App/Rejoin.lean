import Neonet.App.Hosting

/-!
# Joining a lobby again

A `Join` looks for room before it looks who asks.

* `RejoinSpec` : what a `Join` of a member comes to, and a `Join` that is repeated.
* `rejoinSpec` : **a member that joins again changes nothing**, and is welcomed again if there is
  room; so in every state of a process.
* `not_welcomedAgain` : the only member of a lobby with one seat.
-/

namespace Neonet

open FileTree FsM

section Rejoin

variable (V : AppEnv)

/-- What a member is answered that joins again. -/
def HostState.rejoinAnswer (state : HostState) (name : String) : LobbyFrame :=
  if state.atCap then .refuse "lobby is at its member cap"
  else .joined name state.title state.welcome

/-- What a `Join` comes to that is one too many. -/
structure RejoinSpec (w : Home → AppState) : Prop where
  /-- A member that joins again stays one, and no lobby changes. -/
  kept : ∀ self home d request name key state,
    AppFrame.decode V.frames request.payload = .lobby (.join name key) →
    lobbyOf w home name = some state → state.key = key → request.sender ∈ state.members →
      ∀ home' name', lobbyOf ((hostRun V).step w (.arrived self home d request)).2 home' name' =
        lobbyOf w home' name'
  /-- It is told the title and the welcome if there is room, and that there is none otherwise. -/
  answer : ∀ self home d request name key state,
    AppFrame.decode V.frames request.payload = .lobby (.join name key) →
    lobbyOf w home name = some state → state.key = key → request.sender ∈ state.members →
      ((hostRun V).step w (.arrived self home d request)).1 =
        delivered (V.node self home) request (some (.lobby (state.rejoinAnswer name)))
  /-- A `Join` that is repeated changes no lobby. -/
  twice : ∀ self self' home d d' request request' name key,
    AppFrame.decode V.frames request.payload = .lobby (.join name key) →
    AppFrame.decode V.frames request'.payload = .lobby (.join name key) →
    request.sender = request'.sender →
      ∀ home' name', lobbyOf ((hostRun V).step
          ((hostRun V).step w (.arrived self home d request)).2
            (.arrived self' home d' request')).2 home' name' =
        lobbyOf ((hostRun V).step w (.arrived self home d request)).2 home' name'

/-- Whoever is a member and joins again is welcomed. -/
def WelcomedAgain (w : Home → AppState) : Prop :=
  ∀ self home d request name key state,
    AppFrame.decode V.frames request.payload = .lobby (.join name key) →
    lobbyOf w home name = some state → state.key = key → request.sender ∈ state.members →
      ((hostRun V).step w (.arrived self home d request)).1 =
        delivered (V.node self home) request
          (some (.lobby (.joined name state.title state.welcome)))

end Rejoin

variable {V : AppEnv} {self : Identity} {home : Home} {name key : String} {d : Draws}
  {request : Message} {w : Home → AppState} {state : HostState}

theorem lobbyOf_of_hosts
    (h : (((hostRun V).step w (.arrived self home d request)).2 home).hosts = (w home).hosts)
    (home' : Home) (name' : String) :
    lobbyOf ((hostRun V).step w (.arrived self home d request)).2 home' name' =
      lobbyOf w home' name' := by
  rw [hostRun_self] at h
  rw [hostRun_nodes, lobbyOf_update]
  split_ifs with hhome
  · rw [hhome, h]
    rfl
  · rfl

/-- **A `Join` without a seat** leaves the lobbies as they are: the key is another, or it is
full. -/
theorem hosts_noSeat (self : Identity) (d : Draws)
    (hf : AppFrame.decode V.frames request.payload = .lobby (.join name key))
    (hseat : ∀ state, lobbyOf w home name = some state → state.key = key → state.atCap = true) :
    (((hostRun V).step w (.arrived self home d request)).2 home).hosts = (w home).hosts := by
  have hstep : JoinStep (V.node self home) request name key (w home)
      (((hostRun V).step w (.arrived self home d request)).1,
        ((hostRun V).step w (.arrived self home d request)).2 home) := joinStep_node hf
  generalize ((hostRun V).step w (.arrived self home d request)).1 = sent at hstep
  generalize ((hostRun V).step w (.arrived self home d request)).2 home = s' at hstep ⊢
  cases hstep with
  | admitted entry keyed seat hosts disk =>
    exact Bool.noConfusion (seat.symm.trans (hseat _ entry keyed))
  | refused noSeat hosts disk => exact hosts

theorem hosts_seat (hf : AppFrame.decode V.frames request.payload = .lobby (.join name key))
    (hentry : lobbyOf w home name = some state) (hmember : request.sender ∈ state.members) :
    (((hostRun V).step w (.arrived self home d request)).2 home).hosts = (w home).hosts := by
  have hstep : JoinStep (V.node self home) request name key (w home)
      (((hostRun V).step w (.arrived self home d request)).1,
        ((hostRun V).step w (.arrived self home d request)).2 home) := joinStep_node hf
  generalize ((hostRun V).step w (.arrived self home d request)).1 = sent at hstep
  generalize ((hostRun V).step w (.arrived self home d request)).2 home = s' at hstep ⊢
  cases hstep with
  | admitted entry keyed seat hosts disk =>
    -- the member is in the set already
    cases entry.symm.trans hentry
    rw [hosts, Finset.insert_eq_of_mem hmember]
    exact Function.update_eq_self_iff.2 entry.symm
  | refused noSeat hosts disk => exact hosts

theorem sent_full (self : Identity) (d : Draws)
    (hf : AppFrame.decode V.frames request.payload = .lobby (.join name key))
    (hentry : lobbyOf w home name = some state) (hkey : state.key = key)
    (hcap : state.atCap = true) :
    ((hostRun V).step w (.arrived self home d request)).1 =
      delivered (V.node self home) request
        (some (.lobby (.refuse "lobby is at its member cap"))) := by
  have hhost : (w home).hosts name = some state := hentry
  rw [hostRun_sent, handle_node hf, AppEnv.dispatch, AppEnv.handleLobby, hhost]
  dsimp only
  rw [if_neg (not_not.2 hkey), if_pos hcap, AppEnv.refuseLobby, AppState.replied_sent,
    List.drop_left]

/-- **What a `Join` of a member comes to**, in every state of a process: it changes no lobby, and
it is answered with the title and the welcome if there is room. -/
theorem rejoinSpec (V : AppEnv) (w : Home → AppState) : RejoinSpec V w where
  kept self home d request name key state hf hentry hkey hmember :=
    lobbyOf_of_hosts (hosts_seat hf hentry hmember)
  answer self home d request name key state hf hentry hkey hmember := by
    rw [HostState.rejoinAnswer]
    cases hcap : state.atCap with
    | false => exact (hostRun_seat hf hentry hkey hcap).1
    | true => exact sent_full self d hf hentry hkey hcap
  twice self self' home d d' request request' name key hf hf' hsender := by
    by_cases hseat : ∃ state, lobbyOf w home name = some state ∧ state.key = key ∧
        state.atCap = false
    · -- the first one is admitted, so the second one is of a member
      obtain ⟨state, hentry, hkey, hcap⟩ := hseat
      have hseated : lobbyOf ((hostRun V).step w (.arrived self home d request)).2 home name =
          some { state with members := insert request.sender state.members } :=
        (hostRun_seat hf hentry hkey hcap).2
      refine lobbyOf_of_hosts (hosts_seat hf' hseated ?_)
      rw [← hsender]
      exact Finset.mem_insert_self ..
    · push Not at hseat
      have hnone : ∀ state, lobbyOf w home name = some state → state.key = key →
          state.atCap = true := fun state hentry hkey =>
        eq_true_of_ne_false (hseat state hentry hkey)
      have hfirst := lobbyOf_of_hosts (hosts_noSeat self d hf hnone)
      refine lobbyOf_of_hosts (hosts_noSeat self' d' hf' fun state hentry hkey => ?_)
      rw [hfirst] at hentry
      exact hnone state hentry hkey

namespace Photo

/-- A lobby with one seat, which the visitor has taken. -/
def taken : Home → AppState :=
  (hostRun env).after idle [opening ⟨"The Lagoon", "welcome", some 1⟩, knocking]

theorem lobbyOf_taken : lobbyOf taken device "retreat" =
    some ⟨lobbyKey, {visitor.pub .sample}, "The Lagoon", "welcome", some 1⟩ := by
  exact (hostRun_seat decode_knocking (lobbyOf_opening ⟨"The Lagoon", "welcome", some 1⟩) rfl
    (by decide)).2

end Photo

open Photo in
/-- **The only member of a lobby with one seat** joins again, and is refused. -/
theorem not_welcomedAgain : ¬ ∀ events, WelcomedAgain env ((hostRun env).after idle events) := by
  intro h
  have hagain := h _ owner device drawn _ "retreat" lobbyKey _ decode_knocking lobbyOf_taken rfl
    (Finset.mem_singleton_self _)
  have hfull := sent_full owner drawn decode_knocking lobbyOf_taken rfl (by decide)
  have hsame := hagain.symm.trans hfull
  rw [node_env, delivered, delivered, if_pos (by decide +kernel),
    if_pos (by decide +kernel)] at hsame
  cases replyMessage_injective (List.cons.inj hsame).1

end Neonet
