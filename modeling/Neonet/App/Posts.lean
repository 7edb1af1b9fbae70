import Neonet.App.Hosting

/-!
# Who speaks in a lobby

A post presents the key of the lobby.  The host compares the key and does not look who sends it.

* `Posted` : the answer to a post that is accepted.
* `SpeakersAreMembers` : what ought to hold of the accepted posts.
* `posted_iff` : **a post is accepted iff it presents the key and can be read, logged, relayed and
  answered.**
* `speakersAreMembers_iff` : **only members speak iff only members present the key.**
* `not_speakersAreMembers` : a device that was refused a seat, and speaks.
-/

namespace Neonet

open FileTree FsM

section Speakers

variable (V : AppEnv)

/-- One of the messages is the answer `Posted`. -/
def Posted (request : Message) (name : String) (sent : List Message) : Prop :=
  ∃ relayed, replyMessage V request (V.frames.encode (.lobby (.posted name relayed))) ∈ sent

/-- The key is that of the lobby. -/
def HoldsKey (s : AppState) (name key : String) : Prop :=
  ∃ state, s.hosts name = some state ∧ state.key = key

/-- The post can be read with the key and logged, and the relay and the answer are small enough. -/
def CanPost (d : Draws) (request : Message) (s : AppState) (name key : String)
    (nonce ciphertext : Bytes) : Prop :=
  ∃ bytes text, keyBytes key = some bytes ∧
    decryptPost V.cipher bytes nonce ciphertext = some text ∧
    (appendLobby V.home (d.clock 0) name (request.sender.fingerprint V.primitives) (V.lossy text)
      s.disk).1 = .ok () ∧
    ∃ answer, V.answerPost d s name nonce ciphertext = some answer ∧ Fits V request (.lobby answer)

/-- The event is a `Join` of `x` for the lobby that is not answered with `Refuse`. -/
def Welcomed (home : Home) (name : String) (x : PublicIdentity) (e : HostRecord) : Prop :=
  ∃ self d request key, e.1 = .arrived self home d request ∧ request.sender = x ∧
    AppFrame.decode V.frames request.payload = .lobby (.join name key) ∧
    ∀ message, e.2 ≠ [replyMessage (V.node self home) request
      (V.frames.encode (.lobby (.refuse message)))]

/-- What ought to hold of the posts that are accepted in a run. -/
structure SpeakersAreMembers (w₀ : Home → AppState) (events : List HostEvent) : Prop where
  /-- Who speaks is a member. -/
  member : ∀ pre self home d request post name key nonce ciphertext, events =
      pre ++ .arrived self home d request :: post →
    AppFrame.decode V.frames request.payload = .lobby (.post name key nonce ciphertext) →
      Posted (V.node self home) request name
        ((hostRun V).step ((hostRun V).after w₀ pre) (.arrived self home d request)).1 →
      request.sender ∈ ((hostRun V).after w₀ pre home).membersOf name
  /-- Who was refused, never joined, or has left does not speak. -/
  silent : ∀ pre self home d request post name key nonce ciphertext, events =
      pre ++ .arrived self home d request :: post →
    AppFrame.decode V.frames request.payload = .lobby (.post name key nonce ciphertext) →
      ¬ Since (Welcomed V home name request.sender)
        (fun e => Departed V home name request.sender e ∨ OpensLobby home name e)
        ((hostRun V).transcript w₀ pre) →
      ¬ Posted (V.node self home) request name
        ((hostRun V).step ((hostRun V).after w₀ pre) (.arrived self home d request)).1

/-- If the message is a post that presents the key of the lobby and can be read, its sender is a
member. -/
def KeyHolderIsMember (w : Home → AppState) (e : HostEvent) : Prop :=
  ∀ self home d request name key nonce ciphertext, e = .arrived self home d request →
    AppFrame.decode V.frames request.payload = .lobby (.post name key nonce ciphertext) →
    HoldsKey (w home) name key →
    CanPost (V.node self home) d request (w home) name key nonce ciphertext →
      request.sender ∈ (w home).membersOf name

end Speakers

variable {V : AppEnv} {d : Draws} {request : Message} {s : AppState} {name key : String}
  {nonce ciphertext : Bytes} {home : Home} {x : PublicIdentity}

/-! ### One post -/

theorem posted_delivered {answer : Option AppFrame} :
    Posted V request name (delivered V request answer) ↔
      ∃ relayed, answer = some (.lobby (.posted name relayed)) ∧
        Fits V request (.lobby (.posted name relayed)) := by
  constructor
  · rintro ⟨relayed, hmem⟩
    cases answer with
    | none => cases hmem
    | some frame =>
      rw [delivered] at hmem
      split_ifs at hmem with hfits
      · obtain rfl := replyMessage_injective (List.mem_singleton.1 hmem)
        exact ⟨relayed, rfl, hfits⟩
      · cases hmem
  · rintro ⟨relayed, rfl, hfits⟩
    refine ⟨relayed, ?_⟩
    rw [delivered, if_pos hfits]
    exact List.mem_singleton_self _

theorem not_posted_refuse {message : String} :
    ¬ Posted V request name ((V.refuseLobby request message s).2.sent.drop s.sent.length) := by
  rw [AppEnv.refuseLobby, AppState.replied_sent, List.drop_left, posted_delivered]
  rintro ⟨relayed, h, -⟩
  cases h

theorem answerPost_eq {answer : LobbyFrame}
    (h : V.answerPost d s name nonce ciphertext = some answer) :
    ∃ relayed, answer = .posted name relayed := by
  rw [AppEnv.answerPost] at h
  split at h
  · cases h
  · exact ⟨_, (Option.some.inj h).symm⟩

theorem posted_acceptPost {text : String} :
    Posted V request name
        ((V.acceptPost d request name nonce ciphertext text s).2.sent.drop s.sent.length) ↔
      (appendLobby V.home (d.clock 0) name (request.sender.fingerprint V.primitives) text
          s.disk).1 = .ok () ∧
        ∃ answer, V.answerPost d s name nonce ciphertext = some answer ∧
          Fits V request (.lobby answer) := by
  cases hlog : (appendLobby V.home (d.clock 0) name (request.sender.fingerprint V.primitives) text
    s.disk).1 with
  | error e =>
    have hsent : (V.acceptPost d request name nonce ciphertext text s).2.sent = s.sent := by
      rw [AppEnv.acceptPost, AppState.onDisk_of_error hlog]
    rw [hsent, List.drop_length]
    constructor
    · rintro ⟨relayed, h⟩
      cases h
    · rintro ⟨h, -⟩
      cases h
  | ok u =>
    obtain ⟨relays, hsent, hrelays⟩ := sent_acceptPost hlog
    rw [hsent, List.append_assoc, List.drop_left]
    -- a relay is no answer
    have hrelay : Posted V request name (relays ++ delivered V request
        ((V.answerPost d s name nonce ciphertext).map .lobby)) ↔
        Posted V request name (delivered V request
          ((V.answerPost d s name nonce ciphertext).map .lobby)) := by
      constructor
      · rintro ⟨relayed, h⟩
        refine ⟨relayed, (List.mem_append.1 h).resolve_left fun hmem => ?_⟩
        cases V.frames.encode_injective (hrelays _ hmem).1
      · rintro ⟨relayed, h⟩
        exact ⟨relayed, List.mem_append_right _ h⟩
    rw [hrelay, posted_delivered]
    constructor
    · rintro ⟨relayed, h, hfits⟩
      obtain ⟨answer, hanswer, heq⟩ := Option.map_eq_some_iff.1 h
      cases heq
      exact ⟨rfl, _, hanswer, hfits⟩
    · rintro ⟨-, answer, hanswer, hfits⟩
      obtain ⟨relayed, rfl⟩ := answerPost_eq hanswer
      exact ⟨relayed, by rw [hanswer]; rfl, hfits⟩

/-- **A post is accepted iff it presents the key** and can be read, logged, relayed and answered. -/
theorem posted_iff : Posted V request name
      ((V.handleLobby d request (.post name key nonce ciphertext) s).2.sent.drop s.sent.length) ↔
    HoldsKey s name key ∧ CanPost V d request s name key nonce ciphertext := by
  rw [AppEnv.handleLobby]
  split_ifs with hkey
  · refine iff_of_false not_posted_refuse ?_
    rintro ⟨⟨state, hentry, rfl⟩, -⟩
    rw [hentry] at hkey
    simp at hkey
  · have hholds : HoldsKey s name key := by
      cases hentry : s.hosts name with
      | none =>
        rw [hentry] at hkey
        exact absurd rfl hkey
      | some state =>
        rw [hentry] at hkey
        exact ⟨state, hentry, by simpa using hkey⟩
    cases hbytes : keyBytes key with
    | none =>
      refine iff_of_false not_posted_refuse ?_
      rintro ⟨-, bytes, text, h, -⟩
      cases hbytes.symm.trans h
    | some bytes =>
      dsimp only
      cases htext : decryptPost V.cipher bytes nonce ciphertext with
      | none =>
        refine iff_of_false not_posted_refuse ?_
        rintro ⟨-, bytes', text, h, h', -⟩
        cases hbytes.symm.trans h
        cases htext.symm.trans h'
      | some text =>
        rw [posted_acceptPost]
        constructor
        · exact fun h => ⟨hholds, bytes, text, hbytes, htext, h⟩
        · rintro ⟨-, bytes', text', h, h', haccept⟩
          cases hbytes.symm.trans h
          cases htext.symm.trans h'
          exact haccept

/-! ### Runs -/

variable {self : Identity} {w w₀ : Home → AppState} {e : HostEvent} {events : List HostEvent}

theorem posted_step
    (hf : AppFrame.decode V.frames request.payload = .lobby (.post name key nonce ciphertext)) :
    Posted (V.node self home) request name
        ((hostRun V).step w (.arrived self home d request)).1 ↔
      HoldsKey (w home) name key ∧
        CanPost (V.node self home) d request (w home) name key nonce ciphertext := by
  rw [← posted_iff, hostRun_sent, handle_node hf]
  rfl

theorem TakesSeat.welcomed (h : TakesSeat V home name (lobbyOf w home name) x e) :
    Welcomed V home name x (e, ((hostRun V).step w e).1) := by
  obtain ⟨self, d, request, key, state, rfl, hx, hf, hentry, hkey, hseat⟩ := h
  refine ⟨self, d, request, key, rfl, hx, hf, fun message hsent => ?_⟩
  dsimp only at hsent
  rw [(hostRun_seat hf hentry hkey hseat).1] at hsent
  obtain ⟨frame, hframe, -, hreply⟩ := delivered_eq_singleton.1 hsent
  cases hframe
  cases replyMessage_injective hreply

/-- If only members speak, then only members present the key. -/
theorem keyHolders_of_speakers (h : SpeakersAreMembers V w₀ events) :
    (hostRun V).Along (KeyHolderIsMember V) w₀ events := by
  refine Machine.along_iff.2 fun pre e post heq => ?_
  rintro self home d request name key nonce ciphertext rfl hf hholds hpost
  exact h.member pre self home d request post name key nonce ciphertext heq hf
    ((posted_step hf).2 ⟨hholds, hpost⟩)

/-- If only members present the key, then only members speak. -/
theorem speakers_of_keyHolders (hstart : ∀ home name, lobbyOf w₀ home name = none)
    (h : (hostRun V).Along (KeyHolderIsMember V) w₀ events) : SpeakersAreMembers V w₀ events := by
  have hmember : ∀ pre self home d request post name key nonce ciphertext, events =
      pre ++ .arrived self home d request :: post →
    AppFrame.decode V.frames request.payload = .lobby (.post name key nonce ciphertext) →
      Posted (V.node self home) request name
        ((hostRun V).step ((hostRun V).after w₀ pre) (.arrived self home d request)).1 →
      request.sender ∈ ((hostRun V).after w₀ pre home).membersOf name := by
    intro pre self home d request post name key nonce ciphertext heq hf hposted
    obtain ⟨hholds, hpost⟩ := (posted_step hf).1 hposted
    exact Machine.along_iff.1 h pre _ post heq self home d request name key nonce ciphertext rfl hf
      hholds hpost
  refine ⟨hmember, ?_⟩
  intro pre self home d request post name key nonce ciphertext heq hf hsilent hposted
  refine hsilent (since_of_member hstart (P := fun _ _ => True)
    (Machine.along_of_forall fun _ _ _ => trivial) (fun w e _ hseat _ => hseat.welcomed) ?_)
  exact hmember pre self home d request post name key nonce ciphertext heq hf hposted

/-- **Only members speak iff only members present the key**, in a run of a process that begins
without lobbies. -/
theorem speakersAreMembers_iff (hstart : ∀ home name, lobbyOf w₀ home name = none) :
    SpeakersAreMembers V w₀ events ↔ (hostRun V).Along (KeyHolderIsMember V) w₀ events :=
  ⟨keyHolders_of_speakers, speakers_of_keyHolders hstart⟩

namespace Photo

/-- The options of a lobby without seats. -/
def noSeats : LobbyOptions := ⟨"", "", some 0⟩

/-- What the visitor says, sealed with the key of the lobby. -/
def sealedHello : Bytes :=
  (Cipher.sample.encrypt (List.Vector.replicate 32 0) (List.Vector.replicate 24 0) []
    (utf8 "hello")).getD []

/-- The post of the visitor. -/
def hello : Message := sentBy visitor
  (.lobby (.post "retreat" lobbyKey (List.replicate 24 0) sealedHello))

/-- The visitor speaks. -/
def speaking : HostEvent := .arrived owner device drawn hello

theorem decode_hello : AppFrame.decode env.frames hello.payload =
    .lobby (.post "retreat" lobbyKey (List.replicate 24 0) sealedHello) := decode_sentBy visitor _

theorem keyHolderIsMember_opening {w : Home → AppState} {options : LobbyOptions} :
    KeyHolderIsMember env w (opening options) := by
  rintro self home d request name key nonce ciphertext heq
  cases heq

theorem keyHolderIsMember_knocking {w : Home → AppState} : KeyHolderIsMember env w knocking := by
  rintro self home d request name key nonce ciphertext heq hf
  cases heq
  cases decode_knocking.symm.trans hf

theorem keyHolderIsMember_speaking {w : Home → AppState}
    (h : visitor.pub .sample ∈ (w device).membersOf "retreat") :
    KeyHolderIsMember env w speaking := by
  rintro self home d request name key nonce ciphertext heq hf - -
  cases heq
  cases decode_hello.symm.trans hf
  exact h

/-- The visitor has a seat. -/
theorem mem_knocking {options : LobbyOptions} (hcap : options.maxMembers = none) :
    visitor.pub .sample ∈
      ((hostRun env).after idle [opening options, knocking] device).membersOf "retreat" := by
  have hseat : HostState.atCap ⟨lobbyKey, ∅, options.title, options.welcome, options.maxMembers⟩ =
      false := by
    rw [HostState.atCap, hcap]
  have hafter : lobbyOf ((hostRun env).after idle [opening options, knocking]) device "retreat" =
      some ⟨lobbyKey, insert (visitor.pub .sample) ∅, options.title, options.welcome,
        options.maxMembers⟩ :=
    (hostRun_seat decode_knocking (lobbyOf_opening options) rfl hseat).2
  exact mem_membersIn.2 ⟨_, hafter, Finset.mem_insert_self ..⟩

/-- The visitor is refused, and nothing changes. -/
theorem after_refused :
    lobbyOf ((hostRun env).after idle [opening noSeats, knocking]) device "retreat" =
        some ⟨lobbyKey, ∅, "", "", some 0⟩ ∧
      ((hostRun env).after idle [opening noSeats, knocking] device).disk = disk := by
  have hstep : JoinStep (env.node owner device)
      (sentBy visitor (.lobby (.join "retreat" lobbyKey))) "retreat" lobbyKey
      (((hostRun env).step idle (opening noSeats)).2 device)
      (((hostRun env).step ((hostRun env).step idle (opening noSeats)).2 knocking).1,
        ((hostRun env).step ((hostRun env).step idle (opening noSeats)).2 knocking).2 device) :=
    joinStep_node decode_knocking
  have hentry := lobbyOf_opening noSeats
  have hopened : ((hostRun env).step idle (opening noSeats)).2 device =
      registerHost "retreat" lobbyKey noSeats start := by
    simp [hostRun, opening, idle]
  rw [Machine.after_cons, Machine.after_cons, Machine.after_nil, lobbyOf]
  generalize (hostRun env).step ((hostRun env).step idle (opening noSeats)).2 knocking = r
    at hstep ⊢
  obtain ⟨sent, w⟩ := r
  dsimp only at hstep ⊢
  generalize w device = s at hstep ⊢
  cases hstep with
  | admitted entry keyed seat hosts disk =>
    cases entry.symm.trans hentry
    exact absurd seat (by decide)
  | refused noSeat hosts disk =>
    rw [hosts, disk, hopened]
    exact ⟨by simp [registerHost, AppState.setHost, noSeats], rfl⟩

theorem canPost_hello {s : AppState} (hdisk : s.disk = disk)
    (hmembers : s.membersOf "retreat" = ∅) :
    CanPost (env.node owner device) drawn hello s "retreat" lobbyKey (List.replicate 24 0)
      sealedHello := by
  rw [node_env]
  refine ⟨List.Vector.replicate 32 0, utf8 "hello", by decide, by decide +kernel, ?_,
    .posted "retreat" 0, ?_, by decide +kernel⟩
  · rw [hdisk]
    decide +kernel
  · rw [AppEnv.answerPost, hmembers]
    rfl

end Photo

open Photo in
/-- The visitor has a seat, and speaks. -/
theorem speakersAreMembers_iff_visitor :
    SpeakersAreMembers env idle [opening ⟨"", "", none⟩, knocking, speaking] :=
  (speakersAreMembers_iff fun _ _ => rfl).2
    ⟨keyHolderIsMember_opening, keyHolderIsMember_knocking,
      keyHolderIsMember_speaking (mem_knocking rfl), trivial⟩

open Photo in
/-- **A device that was refused a seat speaks.** -/
theorem not_speakersAreMembers :
    (∀ home name, lobbyOf idle home name = none) ∧
      ¬ SpeakersAreMembers env idle [opening noSeats, knocking, speaking] := by
  refine ⟨fun _ _ => rfl, fun h => ?_⟩
  obtain ⟨hentry, hdisk⟩ := after_refused
  have hmembers : ((hostRun env).after idle [opening noSeats, knocking] device).membersOf
      "retreat" = ∅ := by
    rw [AppState.membersOf, ← lobbyOf, hentry]
    rfl
  have hrun := keyHolders_of_speakers h
  have hmem := hrun.2.2.1 owner device drawn hello "retreat" lobbyKey (List.replicate 24 0)
    sealedHello rfl decode_hello ⟨_, hentry, rfl⟩ (canPost_hello hdisk hmembers)
  replace hmem : _ ∈ ((hostRun env).after idle [opening noSeats, knocking] device).membersOf
      "retreat" := hmem
  rw [hmembers] at hmem
  exact absurd hmem (Finset.notMem_empty _)

end Neonet
