import Mathlib.Data.List.ReduceOption
import Neonet.App.Logs
import Neonet.App.Posts
import Neonet.Lib.Relay

/-!
# The logs of a lobby

The host logs a post with the fingerprint of its sender, and relays it.  A member logs a relay with
the fingerprint of the sender of the message, who is the host.

* `Room`, `roomRun` : a lobby with its members, whose posts reach the host, and whose relays reach
  the members in order.
* `LogsAgree` : what ought to hold of the logs.
* `postStep`, `handle_relay` : what a post does at the host, and a relay at a member.
* `RoomInv`, `roomInv_of_run` : **a lobby is a source that relays what it publishes.**
* `logsAgree_iff` : **the logs agree iff the host's fingerprint is that of each poster, and the
  host is no member.**
* `not_logsAgree` : a post that the host and the member log under different names.
-/

namespace Neonet

open FileTree FsM

/-- A device: its key and its directory. -/
structure Device where
  self : Identity
  home : Home

/-- A lobby: its name and key, the device that hosts it, and those that are its members. -/
structure Room where
  name : String
  key : String
  bytes : ByteArr 32
  host : Device
  members : List Device

/-- The devices, and what the host has sent to each directory and has not reached it. -/
structure RoomState where
  nodes : Home → AppState
  queues : Home → List Message

/-- What happens in a lobby. -/
inductive RoomEvent
  /-- A post of `x` reaches the host. -/
  | post (d : Draws) (id : ByteArr 16) (x : PublicIdentity) (key : String)
      (nonce ciphertext : Bytes)
  /-- The next message of the host reaches a member. -/
  | deliver (m : Device) (d : Draws)

/-- What `read_lobby` shows of the lines: who and what. -/
def entriesOf (home : Home) (name : String) (t : Tree) : List (String × String) :=
  (readLobby home name t).map fun l => (l.sender, l.text)

section Rooms

variable (V : AppEnv) (R : Room)

/-- Who a device is. -/
def Device.identity (n : Device) : PublicIdentity := n.self.pub V.primitives

/-- The device is the host or a member. -/
def Room.Has (n : Device) : Prop := n = R.host ∨ n ∈ R.members

/-- The message of a post. -/
def postMessage (id : ByteArr 16) (x : PublicIdentity) (key : String) (nonce ciphertext : Bytes) :
    Message :=
  ⟨id, x, R.host.identity V, V.frames.encode (.lobby (.post R.name key nonce ciphertext))⟩

/-- The message is for the member with the directory. -/
def Room.delivers (home : Home) (m : Message) : Bool :=
  R.members.any fun n => n.home = home ∧ n.identity V = m.recipient

/-- The lobby at work. -/
def roomRun : Machine RoomState RoomEvent (List Message) where
  step s
    | .post d id x key nonce ciphertext =>
      let r := (hostRun V).step s.nodes
        (.arrived R.host.self R.host.home d (postMessage V R id x key nonce ciphertext))
      (r.1, ⟨r.2, fun home => s.queues home ++ r.1.filter (R.delivers V home)⟩)
    | .deliver m d =>
      match s.queues m.home with
      | [] => ([], s)
      | message :: rest =>
        let r := (hostRun V).step s.nodes (.arrived m.self m.home d message)
        (r.1, ⟨r.2, Function.update s.queues m.home rest⟩)

/-- Who posts what, if the host accepts it. -/
def Room.accepted : RoomEvent → Option (PublicIdentity × String)
  | .post _ _ x key nonce ciphertext =>
    if key = R.key then
      (decryptPost V.cipher R.bytes nonce ciphertext).map fun text => (x, V.lossy text)
    else none
  | .deliver _ _ => none

/-- A line can be added to the log of the lobby. -/
def LogWritable (home : Home) (s : RoomState) (now : UInt64) (x : PublicIdentity) : Prop :=
  ∀ text, (appendLobby home now R.name (x.fingerprint V.primitives) text
    (s.nodes home).disk).1 = .ok ()

/-- A post of a member that is small enough to be sent, or a delivery to a member; and the log can
be written. -/
inductive Allowed (s : RoomState) : RoomEvent → Prop
  | post {d : Draws} {id : ByteArr 16} {x : PublicIdentity} {key : String}
      {nonce ciphertext : Bytes} (member : x ∈ R.members.map (·.identity V))
      (size : (postMessage V R id x key nonce ciphertext).validateSize V.messages = .ok ())
      (writes : LogWritable V R R.host.home s (d.clock 0) x) :
      Allowed s (.post d id x key nonce ciphertext)
  | deliver {m : Device} {d : Draws} (member : m ∈ R.members)
      (writes : LogWritable V R m.home s (d.clock 0) (R.host.identity V)) :
      Allowed s (.deliver m d)

/-- The devices of the lobby are different, each with a directory of its own. -/
structure Room.Distinct : Prop where
  homes : (R.members.map (·.home)).Nodup
  identities : (R.members.map (·.identity V)).Nodup
  host : ∀ m ∈ R.members, m.home = R.host.home → m = R.host

/-- The host hosts the lobby with these members, and the members have recorded the host. -/
structure RoomReady (s : RoomState) : Prop where
  hosted : ∃ title welcome cap, (s.nodes R.host.home).hosts R.name =
    some ⟨R.key, (R.members.map (·.identity V)).toFinset, title, welcome, cap⟩
  roster : ∀ m ∈ R.members, ∃ entry,
    findRoster m.home V.roster R.name (s.nodes m.home).disk = some entry ∧
      entry.hostFingerprint = (R.host.identity V).fingerprint V.primitives ∧ entry.keyHex = R.key

/-- Nothing is under way, and each log is the text of some lines. -/
structure RoomStart (lines : Home → List LogLine) (s : RoomState) : Prop where
  ready : RoomReady V R s
  logged : ∀ n, R.Has n → Logged (lobbyLog n.home R.name) (s.nodes n.home).disk (lines n.home)
  queues : ∀ home, s.queues home = []

/-- The key of the lobby is well formed, and its members are iterated each once. -/
structure Room.Proper : Prop where
  distinct : R.Distinct V
  key : keyBytes R.key = some R.bytes
  order : (V.memberOrder (R.members.map (·.identity V)).toFinset).Perm
    (R.members.map (·.identity V))

/-- Each log of the lobby has gained exactly the posts that were accepted, each with its sender. -/
def LogsAgree (s₀ : RoomState) (events : List RoomEvent) : Prop :=
  ∀ n, R.Has n →
    entriesOf n.home R.name (((roomRun V R).after s₀ events).nodes n.home).disk =
      entriesOf n.home R.name (s₀.nodes n.home).disk ++ (events.filterMap (R.accepted V)).map
        fun p => (p.1.fingerprint V.primitives, sanitizeText p.2)

end Rooms

variable {V : AppEnv} {R : Room} {d : Draws} {s : AppState} {request : Message} {x : PublicIdentity}
  {id : ByteArr 16} {name key : String} {nonce ciphertext payload : Bytes}

/-! ### Sizes -/

theorem validateSize_of_length_le (hV : V.Postcard) {m : Message}
    (h : m.validateSize V.messages = .ok ()) (hle : payload.length ≤ m.payload.length)
    (id : ByteArr 16) (sender recipient : PublicIdentity) :
    payload.length ≤ maxMessageSize ∧
      Message.validateSize V.messages ⟨id, sender, recipient, payload⟩ = .ok () := by
  rw [validateSize_ok, hV.length_encode, Wire.length_bytes] at h
  have hmax : maxMessageSize = 1048576 := rfl
  rw [hmax] at h ⊢
  refine ⟨by omega, ?_⟩
  rw [validateSize_ok, hV.length_encode, Wire.length_bytes, hmax]
  dsimp only
  have hnum : (Wire.nat.write payload.length).length ≤ 3 := Wire.length_nat_le (by omega)
  rcases Nat.lt_or_ge m.payload.length 16384 with hshort | hlong
  · omega
  · rw [Wire.length_nat_of_three hlong (by omega)] at h
    omega

theorem length_relay_le (hV : V.Postcard) :
    (V.frames.encode (.lobby (.relay name nonce ciphertext))).length ≤
      (V.frames.encode (.lobby (.post name key nonce ciphertext))).length := by
  have hpost : (Wire.nat.write 4).length = 1 := by decide
  have hrelay : (Wire.nat.write 5).length = 1 := by decide
  rw [hV.encode_frame, hV.encode_frame, AppFrame.wire, Wire.length_enum, Wire.length_enum,
    LobbyFrame.wire, Wire.length_enum, Wire.length_enum]
  dsimp only [Wire.pair]
  simp only [List.length_append]
  omega

/-! ### The host -/

/-- All the members are relayed to if the payload is small enough. -/
theorem relayed_of_fits {i : ℕ} {members : List PublicIdentity}
    (hfits : ∀ id member, Message.validateSize V.messages ⟨id, V.identity, member, payload⟩ =
      .ok ()) :
    ∃ relays, (V.relayAll d payload i members s).2.sent = s.sent ++ relays ∧
      List.Forall₂ (fun member m => m.sender = V.identity ∧ m.recipient = member ∧
        m.payload = payload) members relays := by
  induction members generalizing i s with
  | nil => exact ⟨[], (List.append_nil _).symm, .nil⟩
  | cons member members ih =>
    obtain ⟨relays, hsent, hrelays⟩ := ih (i := i + 1)
      (s := { s with sent := s.sent ++ [⟨d.ids i, V.identity, member, payload⟩] })
    refine ⟨⟨d.ids i, V.identity, member, payload⟩ :: relays, ?_, .cons ⟨rfl, rfl, rfl⟩ hrelays⟩
    rw [AppEnv.relayAll]
    dsimp only [sendRaw]
    rw [hfits]
    dsimp only
    rw [hsent, List.append_assoc, List.singleton_append]

/-- **What a post comes to at the host**: it is refused, or logged and relayed. -/
inductive PostStep (V : AppEnv) (R : Room) (d : Draws) (request : Message) (key : String)
    (nonce ciphertext : Bytes) (members : List PublicIdentity) (s : AppState) :
    List Message × AppState → Prop
  | refused {message : String} {s' : AppState}
      (no : R.accepted V (.post d request.id request.sender key nonce ciphertext) = none)
      (hosts : s'.hosts = s.hosts) (disk : s'.disk = s.disk) :
      PostStep V R d request key nonce ciphertext members s
        (delivered V request (some (.lobby (.refuse message))), s')
  | accepted {text : Bytes} {relays : List Message} {count : ℕ} {s' : AppState}
      (yes : R.accepted V (.post d request.id request.sender key nonce ciphertext) =
        some (request.sender, V.lossy text))
      (decrypts : decryptPost V.cipher R.bytes nonce ciphertext = some text)
      (relayed : List.Forall₂ (fun member m => m.sender = V.identity ∧ m.recipient = member ∧
        m.payload = V.frames.encode (.lobby (.relay R.name nonce ciphertext))) members relays)
      (hosts : s'.hosts = s.hosts)
      (disk : s'.disk = (appendLobby V.home (d.clock 0) R.name
        (request.sender.fingerprint V.primitives) (V.lossy text) s.disk).2) :
      PostStep V R d request key nonce ciphertext members s
        (relays ++ delivered V request (some (.lobby (.posted R.name count))), s')

theorem postStep {state : HostState} (hhosted : s.hosts R.name = some state)
    (hkey : state.key = R.key) (hbytes : keyBytes R.key = some R.bytes)
    (hwrites : ∀ text, (appendLobby V.home (d.clock 0) R.name
      (request.sender.fingerprint V.primitives) text s.disk).1 = .ok ())
    (hencode : (AppFrame.lobby (.relay R.name nonce ciphertext)).encode V.frames =
      .ok (V.frames.encode (.lobby (.relay R.name nonce ciphertext))))
    (hfits : ∀ id member, Message.validateSize V.messages ⟨id, V.identity, member,
      V.frames.encode (.lobby (.relay R.name nonce ciphertext))⟩ = .ok ()) :
    PostStep V R d request key nonce ciphertext (V.memberOrder state.members) s
      ((V.handleLobby d request (.post R.name key nonce ciphertext) s).2.sent.drop s.sent.length,
        (V.handleLobby d request (.post R.name key nonce ciphertext) s).2) := by
  -- Both refusals, of the wrong key and of a ciphertext that does not open, leave the room alone.
  have hrefuse : ∀ message,
      R.accepted V (.post d request.id request.sender key nonce ciphertext) = none →
        PostStep V R d request key nonce ciphertext (V.memberOrder state.members) s
          ((V.refuseLobby request message s).2.sent.drop s.sent.length,
            (V.refuseLobby request message s).2) := by
    intro message hno
    rw [AppEnv.refuseLobby, AppState.replied_sent, List.drop_left]
    exact .refused hno AppState.replied_hosts AppState.replied_disk
  rw [AppEnv.handleLobby, hhosted, Option.map_some, Option.getD_some, hkey]
  by_cases h : R.key = key
  · subst h
    rw [if_neg (by simp), hbytes]
    dsimp only
    cases htext : decryptPost V.cipher R.bytes nonce ciphertext with
    | none => exact hrefuse _ (by rw [Room.accepted, if_pos rfl, htext, Option.map_none])
    | some text =>
      dsimp only
      rw [AppEnv.acceptPost, AppState.onDisk_of_ok (hwrites _), hencode]
      dsimp only
      rw [hhosted, Option.map_some, Option.getD_some]
      let kept : AppState := { s with disk := (appendLobby V.home (d.clock 0) R.name
        (request.sender.fingerprint V.primitives) (V.lossy text) s.disk).2 }
      obtain ⟨relays, hsent, hrelays⟩ : ∃ relays, (V.relayAll d
          (V.frames.encode (.lobby (.relay R.name nonce ciphertext))) 0
          (V.memberOrder state.members) kept).2.sent = s.sent ++ relays ∧ _ :=
        relayed_of_fits hfits
      rw [AppState.replied_sent, hsent, List.append_assoc, List.drop_left]
      refine .accepted (by rw [Room.accepted, if_pos rfl, htext, Option.map_some]) htext hrelays
        ?_ ?_
      · rw [AppState.replied_hosts, relayAll_hosts]
      · rw [AppState.replied_disk, relayAll_disk]
  · rw [if_pos (by simp [h])]
    exact hrefuse _ (if_neg (Ne.symm h))

/-! ### The members -/

/-- A message of the host to a member: a relay of the text, or an answer. -/
inductive FromHost (V : AppEnv) (R : Room) : Message → Option String → Prop
  | relay {m : Message} {nonce ciphertext text : Bytes} (sender : m.sender = R.host.identity V)
      (frame : AppFrame.decode V.frames m.payload = .lobby (.relay R.name nonce ciphertext))
      (decrypts : decryptPost V.cipher R.bytes nonce ciphertext = some text) :
      FromHost V R m (some (V.lossy text))
  | answer {m : Message} {f : LobbyFrame}
      (frame : AppFrame.decode V.frames m.payload = .lobby f)
      (kind : (∃ name count, f = .posted name count) ∨ ∃ message, f = .refuse message) :
      FromHost V R m none

variable {m : Device} {message : Message} {text : String}

/-- **A relay is logged** under the name of the host. -/
theorem handle_relay {entry : MemberLobby} (hfrom : FromHost V R message (some text))
    (hbytes : keyBytes R.key = some R.bytes)
    (hroster : findRoster m.home V.roster R.name s.disk = some entry)
    (hhost : entry.hostFingerprint = (R.host.identity V).fingerprint V.primitives)
    (hkey : entry.keyHex = R.key)
    (hwrites : ∀ text, (appendLobby m.home (d.clock 0) R.name
      ((R.host.identity V).fingerprint V.primitives) text s.disk).1 = .ok ()) :
    ((V.node m.self m.home).handle d message s).2 =
      { s with disk := (appendLobby m.home (d.clock 0) R.name
        ((R.host.identity V).fingerprint V.primitives) text s.disk).2 } := by
  cases hfrom with
  | relay sender frame decrypts =>
    rw [handle_node frame, AppEnv.dispatch, AppEnv.handleLobby]
    have hfind : findRoster (V.node m.self m.home).home (V.node m.self m.home).roster R.name
        s.disk = some entry := hroster
    rw [hfind]
    dsimp only
    have hsame : ¬ message.sender.fingerprint (V.node m.self m.home).primitives ≠
        entry.hostFingerprint := by
      rw [sender, hhost]
      exact fun h => h rfl
    rw [if_neg hsame, hkey, hbytes, Option.bind_some]
    have hdecrypt : decryptPost (V.node m.self m.home).cipher R.bytes _ _ = _ := decrypts
    rw [hdecrypt]
    dsimp only
    rw [sender]
    exact congrArg Prod.snd (AppState.onDisk_of_ok (hwrites _))

theorem handle_answer (hfrom : FromHost V R message none) :
    ((V.node m.self m.home).handle d message s).2 = s := by
  cases hfrom with
  | answer frame kind =>
    rw [handle_node frame]
    rcases kind with ⟨name, count, rfl⟩ | ⟨text, rfl⟩ <;> rfl

/-! ### What the host sends -/

theorem delivers_member_iff (hd : R.Distinct V) (hm : m ∈ R.members) :
    R.delivers V m.home message = true ↔ message.recipient = m.identity V := by
  rw [Room.delivers, List.any_eq_true]
  constructor
  · rintro ⟨n, hn, h⟩
    obtain ⟨hhome, hid⟩ := of_decide_eq_true h
    obtain rfl := List.inj_on_of_nodup_map hd.homes hn hm hhome
    exact hid.symm
  · exact fun h => ⟨m, hm, decide_eq_true ⟨rfl, h.symm⟩⟩

theorem recipients_relays {members : List PublicIdentity} {relays : List Message}
    {P : Message → Prop}
    (h : List.Forall₂ (fun member m => P m ∧ m.recipient = member) members relays) :
    relays.map (·.recipient) = members := by
  induction h with
  | nil => rfl
  | cons hm _ ih => rw [List.map_cons, ih, hm.2]

/-- Each member is sent one relay. -/
theorem filter_relays {members : List PublicIdentity} {relays : List Message}
    {P : Message → Prop}
    (h : List.Forall₂ (fun member m => P m ∧ m.recipient = member) members relays)
    (hn : members.Nodup) (hx : x ∈ members) :
    ∃ m, relays.filter (fun m => m.recipient = x) = [m] ∧ P m := by
  induction h with
  | nil => cases hx
  | @cons member m members relays hm hrest ih =>
    obtain ⟨hnot, hn⟩ := List.nodup_cons.1 hn
    by_cases hmember : member = x
    · subst hmember
      have hnone : relays.filter (fun m => m.recipient = member) = [] := by
        refine List.filter_eq_nil_iff.2 fun m' hm' hrec => hnot ?_
        rw [← recipients_relays hrest, ← of_decide_eq_true hrec]
        exact List.mem_map_of_mem hm'
      exact ⟨m, by rw [List.filter_cons_of_pos (by simpa using hm.2), hnone], hm.1⟩
    · obtain ⟨m', hfilter, hm'⟩ := ih hn ((List.mem_cons.1 hx).resolve_left (Ne.symm hmember))
      refine ⟨m', ?_, hm'⟩
      rw [List.filter_cons_of_neg (by simpa [hm.2] using hmember), hfilter]

theorem fromHost_delivered {f : LobbyFrame} {p : Message → Bool} (request : Message)
    (kind : (∃ name count, f = .posted name count) ∨ ∃ message, f = .refuse message) :
    ∃ texts, List.Forall₂ (FromHost V R)
        ((delivered (V.node R.host.self R.host.home) request (some (.lobby f))).filter p) texts ∧
      texts.reduceOption = [] := by
  have hanswer : FromHost V R (replyMessage (V.node R.host.self R.host.home) request
      (V.frames.encode (.lobby f))) none :=
    .answer (AppFrame.decode_encode _) kind
  rw [delivered]
  split_ifs
  · rw [List.filter_singleton]
    cases p _
    · exact ⟨[], .nil, rfl⟩
    · exact ⟨[none], .cons hanswer .nil, rfl⟩
  · exact ⟨[], .nil, rfl⟩

/-! ### The lobby as a relay -/

/-- The lobby as a source that relays. -/
def Room.relay (V : AppEnv) (R : Room) :
    Relay Home (PublicIdentity × String) (String × String) where
  source := R.host.home
  followers := (R.members.map (·.home)).toFinset
  own p := (p.1.fingerprint V.primitives, sanitizeText p.2)
  copy p := ((R.host.identity V).fingerprint V.primitives, sanitizeText p.2)

/-- Who and what a line says. -/
def LogLine.entry (l : LogLine) : String × String := (l.sender, l.text)

/-- The devices and the messages under way, and the relay that they are. -/
structure RoomInv (V : AppEnv) (R : Room) (lines : Home → List LogLine) (past : List RoomEvent)
    (s : RoomState) (b : Relay.State Home (PublicIdentity × String) (String × String)) : Prop where
  reachable : ((R.relay V).system fun home => (lines home).map LogLine.entry).Reachable b
  published : b.published = past.filterMap (R.accepted V)
  ready : RoomReady V R s
  logged : ∀ n, R.Has n → ∃ ls, Logged (lobbyLog n.home R.name) (s.nodes n.home).disk ls ∧
    ls.map LogLine.entry = b.logs n.home
  queued : ∀ m ∈ R.members, ∃ texts, List.Forall₂ (FromHost V R) (s.queues m.home) texts ∧
    texts.reduceOption = (b.queues m.home).map Prod.snd

theorem RoomReady.update {s : RoomState} {home : Home} {s' : AppState}
    {queues : Home → List Message} (h : RoomReady V R s)
    (hhosts : s'.hosts = (s.nodes home).hosts)
    (hroster : findRoster home V.roster R.name s'.disk =
      findRoster home V.roster R.name (s.nodes home).disk) :
    RoomReady V R ⟨Function.update s.nodes home s', queues⟩ := by
  have hsame : ∀ home', (Function.update s.nodes home s' home').hosts = (s.nodes home').hosts ∧
      findRoster home' V.roster R.name (Function.update s.nodes home s' home').disk =
        findRoster home' V.roster R.name (s.nodes home').disk := by
    intro home'
    by_cases hhome : home' = home
    · subst hhome
      rw [Function.update_self]
      exact ⟨hhosts, hroster⟩
    · rw [Function.update_of_ne hhome]
      exact ⟨rfl, rfl⟩
  refine ⟨?_, fun m hm => ?_⟩
  · rw [(hsame _).1]
    exact h.hosted
  · rw [(hsame _).2]
    exact h.roster m hm

theorem mem_followers (hm : m ∈ R.members) : m.home ∈ (R.relay V).followers :=
  List.mem_toFinset.2 (List.mem_map_of_mem hm)

/-- The host follows itself iff it is a member. -/
theorem source_mem_followers (hp : R.Proper V) :
    (R.relay V).source ∈ (R.relay V).followers ↔ R.host ∈ R.members := by
  constructor
  · intro h
    obtain ⟨m, hm, hhome⟩ := List.mem_map.1 (List.mem_toFinset.1 h)
    exact hp.distinct.host m hm hhome ▸ hm
  · exact mem_followers

section Steps

variable {lines : Home → List LogLine} {past : List RoomEvent} {s : RoomState}
  {b : Relay.State Home (PublicIdentity × String) (String × String)}

theorem filterMap_deliver : (past ++ [RoomEvent.deliver m d]).filterMap (R.accepted V) =
    past.filterMap (R.accepted V) := by
  rw [List.filterMap_append]
  exact List.append_nil _

theorem RoomInv.logged_update {home : Home} {s' : AppState} {more : List (String × String)}
    {n : Device} (h : RoomInv V R lines past s b)
    (hmore : ∀ ls, Logged (lobbyLog home R.name) (s.nodes home).disk ls →
      ∃ ls', Logged (lobbyLog home R.name) s'.disk ls' ∧
        ls'.map LogLine.entry = ls.map LogLine.entry ++ more) (hn : R.Has n) :
    ∃ ls, Logged (lobbyLog n.home R.name) (Function.update s.nodes home s' n.home).disk ls ∧
      ls.map LogLine.entry = Function.update b.logs home (b.logs home ++ more) n.home := by
  obtain ⟨ls, hls, hmap⟩ := h.logged n hn
  by_cases hhome : n.home = home
  · rw [hhome] at hls hmap ⊢
    rw [Function.update_self, Function.update_self, ← hmap]
    exact hmore ls hls
  · rw [Function.update_of_ne hhome, Function.update_of_ne hhome]
    exact ⟨ls, hls, hmap⟩

theorem RoomInv.answer {rest : List Message} {texts : List (Option String)}
    (h : RoomInv V R lines past s b) (hd : R.Distinct V) (hm : m ∈ R.members)
    (hfrom : FromHost V R message none)
    (hrest : List.Forall₂ (FromHost V R) rest texts)
    (htexts : texts.reduceOption = (b.queues m.home).map Prod.snd) :
    RoomInv V R lines (past ++ [.deliver m d])
      ⟨((hostRun V).step s.nodes (.arrived m.self m.home d message)).2,
        Function.update s.queues m.home rest⟩ b := by
  have hnodes : ((hostRun V).step s.nodes (.arrived m.self m.home d message)).2 = s.nodes := by
    rw [hostRun_nodes, handle_answer hfrom, Function.update_eq_self]
  rw [hnodes]
  refine ⟨h.reachable, h.published.trans filterMap_deliver.symm,
    ⟨h.ready.hosted, h.ready.roster⟩, h.logged, fun n hn => ?_⟩
  dsimp only
  by_cases hhome : n.home = m.home
  · obtain rfl := List.inj_on_of_nodup_map hd.homes hn hm hhome
    exact ⟨texts, by rwa [Function.update_self], htexts⟩
  · obtain ⟨ts, hqueue, hts⟩ := h.queued n hn
    exact ⟨ts, by rwa [Function.update_of_ne hhome], hts⟩

/-- **A relay reaches a member**, which logs it. -/
theorem RoomInv.relayed {rest : List Message} {texts : List (Option String)}
    (h : RoomInv V R lines past s b) (hp : R.Proper V) (hm : m ∈ R.members)
    (hwrites : LogWritable V R m.home s (d.clock 0) (R.host.identity V))
    (hfrom : FromHost V R message (some text))
    (hrest : List.Forall₂ (FromHost V R) rest texts)
    (htexts : text :: texts.reduceOption = (b.queues m.home).map Prod.snd) :
    ∃ b', RoomInv V R lines (past ++ [.deliver m d])
      ⟨((hostRun V).step s.nodes (.arrived m.self m.home d message)).2,
        Function.update s.queues m.home rest⟩ b' := by
  obtain ⟨entry, hroster, hhost, hkey⟩ := h.ready.roster m hm
  have hafter := handle_relay hfrom hp.key hroster hhost hkey hwrites
  obtain ⟨t, queue, hqueue, rfl, hrestTexts⟩ := List.map_eq_cons_iff.1 htexts.symm
  refine ⟨(R.relay V).deliver b m.home t queue, ?_⟩
  rw [hostRun_nodes, hafter]
  refine ⟨?_, ?_, ?_, fun n hn => ?_, fun n hn => ?_⟩
  · exact h.reachable.step (l := .deliver m.home) ⟨mem_followers hm, t, queue, hqueue, rfl⟩
  · exact h.published.trans filterMap_deliver.symm
  · exact h.ready.update rfl findRoster_appendLobby
  · exact h.logged_update (fun ls hls => ⟨_, hls.appendLobby (hwrites _), List.map_append⟩) hn
  · dsimp only [Relay.deliver]
    by_cases hhome : n.home = m.home
    · obtain rfl := List.inj_on_of_nodup_map hp.distinct.homes hn hm hhome
      rw [Function.update_self, Function.update_self]
      exact ⟨texts, hrest, hrestTexts.symm⟩
    · rw [Function.update_of_ne hhome, Function.update_of_ne hhome]
      exact h.queued n hn

/-- **A delivery** is one of the relay, or nothing. -/
theorem RoomInv.deliver (h : RoomInv V R lines past s b) (hp : R.Proper V) (hm : m ∈ R.members)
    (hwrites : LogWritable V R m.home s (d.clock 0) (R.host.identity V)) :
    ∃ b', RoomInv V R lines (past ++ [.deliver m d])
      ((roomRun V R).step s (.deliver m d)).2 b' := by
  obtain ⟨texts, hqueue, htexts⟩ := h.queued m hm
  rw [roomRun]
  dsimp only
  cases hs : s.queues m.home with
  | nil =>
    exact ⟨b, h.reachable, h.published.trans filterMap_deliver.symm, h.ready, h.logged, h.queued⟩
  | cons message rest =>
    rw [hs] at hqueue
    cases hqueue with
    | @cons _ text _ texts hfirst hrest =>
      cases text with
      | none => exact ⟨b, h.answer hp.distinct hm hfirst hrest htexts⟩
      | some text => exact h.relayed hp hm hwrites hfirst hrest htexts

/-- What the host sends to a member on a post: the relay if there is one, and perhaps an answer. -/
theorem fromHost_post {members : List PublicIdentity} {sent : List Message} {s s' : AppState}
    (hstep : PostStep (V.node R.host.self R.host.home) R d request key nonce ciphertext members s
      (sent, s'))
    (hd : R.Distinct V) (hmembers : members.Perm (R.members.map (·.identity V)))
    (hm : m ∈ R.members) :
    ∃ texts, List.Forall₂ (FromHost V R) (sent.filter (R.delivers V m.home)) texts ∧
      texts.reduceOption = (R.accepted V
        (.post d request.id request.sender key nonce ciphertext)).toList.map Prod.snd := by
  have hfilter : sent.filter (R.delivers V m.home) =
      sent.filter fun message => message.recipient = m.identity V :=
    List.filter_congr fun message _ => by
      rw [Bool.eq_iff_iff, delivers_member_iff hd hm, decide_eq_true_iff]
  rw [hfilter]
  cases hstep with
  | refused no hosts disk =>
    obtain ⟨texts, htexts, hnone⟩ := fromHost_delivered (R := R) (V := V)
      (p := fun message => message.recipient = m.identity V) request (.inr ⟨_, rfl⟩)
    refine ⟨texts, htexts, ?_⟩
    have hno : R.accepted V (.post d request.id request.sender key nonce ciphertext) = none := no
    rw [hnone, hno]
    rfl
  | @accepted text relays count _ yes decrypts relayed hosts disk =>
    have hyes : R.accepted V (.post d request.id request.sender key nonce ciphertext) =
      some (request.sender, V.lossy text) := yes
    obtain ⟨message, hone, hsender, hpayload⟩ := filter_relays
      (P := fun message => message.sender = R.host.identity V ∧ message.payload =
        V.frames.encode (.lobby (.relay R.name nonce ciphertext)))
      (relayed.imp fun _ _ h => ⟨⟨h.1, h.2.2⟩, h.2.1⟩) (hmembers.nodup_iff.2 hd.identities)
      (hmembers.mem_iff.2 (List.mem_map_of_mem hm))
    obtain ⟨texts, htexts, hnone⟩ := fromHost_delivered (R := R) (V := V)
      (p := fun message => message.recipient = m.identity V) request (.inl ⟨R.name, count, rfl⟩)
    have hrelay : FromHost V R message (some (V.lossy text)) :=
      .relay hsender (by rw [hpayload, AppFrame.decode_encode]) decrypts
    refine ⟨some (V.lossy text) :: texts, ?_, ?_⟩
    · rw [List.filter_append, hone]
      exact .cons hrelay htexts
    · rw [List.reduceOption_cons_of_some, hnone, hyes]
      rfl

theorem postStep_host (hV : V.Postcard) (hp : R.Proper V) (h : RoomReady V R s)
    (hsize : (postMessage V R id x key nonce ciphertext).validateSize V.messages = .ok ())
    (hwrites : LogWritable V R R.host.home s (d.clock 0) x) :
    ∃ members, members.Perm (R.members.map (·.identity V)) ∧
      PostStep (V.node R.host.self R.host.home) R d
        (postMessage V R id x key nonce ciphertext) key nonce ciphertext members
        (s.nodes R.host.home)
        (((hostRun V).step s.nodes (.arrived R.host.self R.host.home d
            (postMessage V R id x key nonce ciphertext))).1,
          ((V.node R.host.self R.host.home).handle d
            (postMessage V R id x key nonce ciphertext) (s.nodes R.host.home)).2) := by
  obtain ⟨title, welcome, cap, hhosted⟩ := h.hosted
  have hframe : AppFrame.decode V.frames (postMessage V R id x key nonce ciphertext).payload =
      .lobby (.post R.name key nonce ciphertext) := AppFrame.decode_encode _
  have hfits : ∀ id sender recipient, (V.frames.encode
      (.lobby (.relay R.name nonce ciphertext))).length ≤ maxMessageSize ∧
      Message.validateSize V.messages ⟨id, sender, recipient,
        V.frames.encode (.lobby (.relay R.name nonce ciphertext))⟩ = .ok () :=
    validateSize_of_length_le hV hsize (length_relay_le hV)
  refine ⟨_, hp.order, ?_⟩
  rw [hostRun_sent, handle_node hframe]
  exact postStep (V := V.node R.host.self R.host.home) hhosted rfl hp.key hwrites
    (AppFrame.encode_ok.2 ⟨(hfits id x x).1, rfl⟩) fun id member => (hfits id _ member).2

theorem filterMap_post : (past ++ [RoomEvent.post d id x key nonce ciphertext]).filterMap
      (R.accepted V) =
    past.filterMap (R.accepted V) ++
      (R.accepted V (.post d id x key nonce ciphertext)).toList := by
  rw [List.filterMap_append]
  cases hpost : R.accepted V (.post d id x key nonce ciphertext) <;> simp [hpost]

theorem RoomInv.queued_post {members : List PublicIdentity} {s' : AppState}
    (h : RoomInv V R lines past s b) (hd : R.Distinct V)
    (hstep : PostStep (V.node R.host.self R.host.home) R d
      (postMessage V R id x key nonce ciphertext) key nonce ciphertext members
      (s.nodes R.host.home)
      (((hostRun V).step s.nodes (.arrived R.host.self R.host.home d
        (postMessage V R id x key nonce ciphertext))).1, s'))
    (hmembers : members.Perm (R.members.map (·.identity V))) (hm : m ∈ R.members) :
    ∃ texts, List.Forall₂ (FromHost V R)
        (((roomRun V R).step s (.post d id x key nonce ciphertext)).2.queues m.home) texts ∧
      texts.reduceOption = (b.queues m.home).map Prod.snd ++
        (R.accepted V (.post d id x key nonce ciphertext)).toList.map Prod.snd := by
  obtain ⟨old, hold, holdTexts⟩ := h.queued m hm
  obtain ⟨new, hnew, hnewTexts⟩ := fromHost_post hstep hd hmembers hm
  refine ⟨old ++ new, List.rel_append hold hnew, ?_⟩
  rw [List.reduceOption_append, holdTexts, hnewTexts]
  rfl

/-- **A post** is published by the relay, or nothing happens. -/
theorem RoomInv.post (hV : V.Postcard) (h : RoomInv V R lines past s b) (hp : R.Proper V)
    (hsize : (postMessage V R id x key nonce ciphertext).validateSize V.messages = .ok ())
    (hwrites : LogWritable V R R.host.home s (d.clock 0) x) :
    ∃ b', RoomInv V R lines (past ++ [.post d id x key nonce ciphertext])
      ((roomRun V R).step s (.post d id x key nonce ciphertext)).2 b' := by
  obtain ⟨members, hmembers, hstep⟩ := postStep_host hV hp h.ready hsize hwrites
  have hqueue := fun m hm => h.queued_post (m := m) hp.distinct hstep hmembers hm
  have hnodes : ((roomRun V R).step s (.post d id x key nonce ciphertext)).2.nodes =
      Function.update s.nodes R.host.home ((V.node R.host.self R.host.home).handle d
        (postMessage V R id x key nonce ciphertext) (s.nodes R.host.home)).2 := rfl
  generalize ((roomRun V R).step s (.post d id x key nonce ciphertext)).2 = next at hqueue hnodes ⊢
  obtain ⟨nodes, queues⟩ := next
  obtain rfl : nodes = _ := hnodes
  generalize ((V.node R.host.self R.host.home).handle d
    (postMessage V R id x key nonce ciphertext) (s.nodes R.host.home)).2 = s' at hstep ⊢
  generalize ((hostRun V).step s.nodes _).1 = sent at hstep
  cases hstep with
  | refused no hosts disk =>
    -- nothing is published, and nobody logs anything
    have hno : R.accepted V (.post d id x key nonce ciphertext) = none := no
    rw [hno] at hqueue
    refine ⟨b, h.reachable, ?_, h.ready.update hosts (by rw [disk]), fun n hn => ?_,
      fun m hm => ?_⟩
    · rw [filterMap_post, hno]
      exact h.published.trans (List.append_nil _).symm
    · have hlogs : ∃ ls, Logged (lobbyLog n.home R.name)
            (Function.update s.nodes R.host.home s' n.home).disk ls ∧
          ls.map LogLine.entry =
            Function.update b.logs R.host.home (b.logs R.host.home ++ []) n.home :=
        h.logged_update (fun ls hls => ⟨ls, by rwa [disk], (List.append_nil _).symm⟩) hn
      rwa [List.append_nil, Function.update_eq_self] at hlogs
    · obtain ⟨texts, htexts, hmap⟩ := hqueue m hm
      exact ⟨texts, htexts, hmap.trans (List.append_nil _)⟩
  | @accepted text relays count _ yes decrypts relayed hosts disk =>
    -- the host logs the post, as the source of the relay does, and each member is sent a copy
    have hyes : R.accepted V (.post d id x key nonce ciphertext) = some (x, V.lossy text) := yes
    rw [hyes] at hqueue
    refine ⟨(R.relay V).publish b (x, V.lossy text), ?_, ?_, ?_, fun n hn => ?_, fun m hm => ?_⟩
    · exact h.reachable.step (l := .publish (x, V.lossy text)) rfl
    · rw [filterMap_post, hyes, ← h.published]
      rfl
    · exact h.ready.update hosts (by rw [disk]; exact findRoster_appendLobby)
    · refine h.logged_update (fun ls hls => ?_) hn
      rw [disk]
      exact ⟨_, hls.appendLobby (hwrites _), List.map_append⟩
    · dsimp only [Relay.publish]
      obtain ⟨texts, htexts, hmap⟩ := hqueue m hm
      refine ⟨texts, htexts, hmap.trans ?_⟩
      rw [if_pos (mem_followers hm), List.map_append]
      rfl

/-- **A lobby is a source that relays what it publishes.** -/
theorem roomInv_of_run (hV : V.Postcard) (hp : R.Proper V) {s₀ : RoomState}
    {events : List RoomEvent} (h : RoomStart V R lines s₀)
    (hrun : (roomRun V R).Along (Allowed V R) s₀ events) :
    ∃ b, RoomInv V R lines events ((roomRun V R).after s₀ events) b := by
  have hgen := hrun.history (I := fun past s => ∃ b, RoomInv V R lines (past.map Prod.fst) s b)
    ?_ fun past s e he ih => ?_
  · rwa [Machine.map_fst_transcript] at hgen
  · refine ⟨⟨[], fun home => (lines home).map LogLine.entry, fun _ => []⟩, .of_init rfl, rfl,
      h.ready, fun n hn => ⟨_, h.logged n hn, rfl⟩, fun m _ => ⟨[], ?_, rfl⟩⟩
    rw [h.queues]
    exact .nil
  · obtain ⟨b, hb⟩ := ih
    rw [List.map_append, List.map_singleton]
    cases he with
    | post member size writes => exact hb.post hV hp size writes
    | deliver member writes => exact hb.deliver hp member writes

theorem RoomInv.entriesOf (h : RoomInv V R lines past s b) {n : Device} (hn : R.Has n) :
    entriesOf n.home R.name (s.nodes n.home).disk = b.logs n.home := by
  obtain ⟨ls, hls, hmap⟩ := h.logged n hn
  rw [Neonet.entriesOf, readLobby, hls.readLog]
  exact hmap

theorem RoomStart.entriesOf (h : RoomStart V R lines s) {n : Device} (hn : R.Has n) :
    entriesOf n.home R.name (s.nodes n.home).disk = (lines n.home).map LogLine.entry := by
  rw [Neonet.entriesOf, readLobby, (h.logged n hn).readLog]
  rfl

/-- Once everything is delivered, the logs agree iff those of the relay do. -/
theorem RoomInv.agree_iff {s₀ : RoomState} {events : List RoomEvent}
    (h : RoomInv V R lines events ((roomRun V R).after s₀ events) b)
    (hstart : RoomStart V R lines s₀) :
    LogsAgree V R s₀ events ↔
      (R.relay V).Agree (fun home => (lines home).map LogLine.entry) b := by
  constructor
  · rintro hagree i hi
    obtain ⟨n, hn, rfl⟩ : ∃ n, R.Has n ∧ n.home = i := by
      rcases hi with rfl | hi
      · exact ⟨R.host, .inl rfl, rfl⟩
      · obtain ⟨n, hn, rfl⟩ := List.mem_map.1 (List.mem_toFinset.1 hi)
        exact ⟨n, .inr hn, rfl⟩
    rw [← h.entriesOf hn, hagree n hn, hstart.entriesOf hn, h.published]
    rfl
  · intro hagree n hn
    rw [h.entriesOf hn, hstart.entriesOf hn, ← h.published]
    refine hagree n.home ?_
    rcases hn with rfl | hn
    · exact .inl rfl
    · exact .inr (mem_followers hn)

end Steps

section Runs

variable {lines : Home → List LogLine} {s₀ : RoomState} {events : List RoomEvent}
  (hV : V.Postcard) (hp : R.Proper V) (hstart : RoomStart V R lines s₀)
  (hrun : (roomRun V R).Along (Allowed V R) s₀ events)
  (hdone : ∀ m ∈ R.members, ((roomRun V R).after s₀ events).queues m.home = [])

include hV hp hstart hrun hdone

theorem relay_of_run : ∃ b,
    RoomInv V R lines events ((roomRun V R).after s₀ events) b ∧
      ∀ i ∈ (R.relay V).followers, b.queues i = [] := by
  obtain ⟨b, hb⟩ := roomInv_of_run hV hp hstart hrun
  refine ⟨b, hb, fun i hi => ?_⟩
  obtain ⟨m, hm, rfl⟩ := List.mem_map.1 (List.mem_toFinset.1 hi)
  obtain ⟨texts, htexts, hmap⟩ := hb.queued m hm
  rw [hdone m hm] at htexts
  cases htexts
  exact List.map_eq_nil_iff.1 hmap.symm

/-- **What the members log**: each text, under the name of the host. -/
theorem entriesOf_member {m : Device} (hm : m ∈ R.members) (hne : m ≠ R.host) :
    entriesOf m.home R.name (((roomRun V R).after s₀ events).nodes m.home).disk =
      entriesOf m.home R.name (s₀.nodes m.home).disk ++ (events.filterMap (R.accepted V)).map
        fun p => ((R.host.identity V).fingerprint V.primitives, sanitizeText p.2) := by
  obtain ⟨b, hb, hempty⟩ := relay_of_run hV hp hstart hrun hdone
  have hlog := Relay.follower_log hb.reachable (mem_followers hm)
    fun heq => hne (hp.distinct.host m hm heq)
  rw [hempty _ (mem_followers hm), List.map_nil, List.append_nil] at hlog
  rw [hb.entriesOf (.inr hm), hstart.entriesOf (.inr hm), ← hb.published]
  exact hlog

/-- **What the host logs**: each text, under the name of its sender. -/
theorem entriesOf_host (hno : R.host ∉ R.members) :
    entriesOf R.host.home R.name (((roomRun V R).after s₀ events).nodes R.host.home).disk =
      entriesOf R.host.home R.name (s₀.nodes R.host.home).disk ++
        (events.filterMap (R.accepted V)).map
          fun p => (p.1.fingerprint V.primitives, sanitizeText p.2) := by
  obtain ⟨b, hb, hempty⟩ := relay_of_run hV hp hstart hrun hdone
  rw [hb.entriesOf (.inl rfl), hstart.entriesOf (.inl rfl), ← hb.published]
  exact Relay.source_log hb.reachable fun h => hno ((source_mem_followers hp).1 h)

/-- **The logs agree iff** each poster has the fingerprint of the host, and the host is no
member. -/
theorem logsAgree_iff : LogsAgree V R s₀ events ↔ ∀ p ∈ events.filterMap (R.accepted V),
    p.1.fingerprint V.primitives = (R.host.identity V).fingerprint V.primitives ∧
      R.host ∉ R.members := by
  obtain ⟨b, hb, hempty⟩ := relay_of_run hV hp hstart hrun hdone
  have hsome : b.published ≠ [] → (R.relay V).followers.Nonempty := by
    intro hne
    rw [hb.published] at hne
    obtain ⟨p, hpost⟩ := List.exists_mem_of_ne_nil _ hne
    obtain ⟨e, he, haccepted⟩ := List.mem_filterMap.1 hpost
    obtain ⟨s, hallowed⟩ := hrun.exists_of_mem he
    cases hallowed with
    | post member size writes =>
      obtain ⟨m, hm, -⟩ := List.mem_map.1 member
      exact ⟨m.home, mem_followers hm⟩
    | deliver member writes => cases haccepted
  rw [hb.agree_iff hstart, Relay.agree_iff hb.reachable hempty hsome, hb.published]
  refine forall₂_congr fun p _ => ?_
  rw [source_mem_followers hp]
  refine and_congr_left fun _ => ?_
  simp [Room.relay]

end Runs

namespace Photo

/-- The directory of the visitor. -/
def guest : Home := ⟨["guest"], by decide⟩

/-- What the visitor has recorded of the lobby. -/
def recorded : MemberLobby :=
  ⟨"retreat", "host", (owner.pub .sample).fingerprint .sample, lobbyKey, "", ""⟩

/-- The disk of the visitor, with the roster. -/
def guestDisk : Tree :=
  ((do
    createDirAll (guest.path.join "lobbies")
    write ((guest.path.join "lobbies").join "roster.json") (env.roster.encode [recorded]) :
      FsM IoError Unit) disk).2

/-- The lobby of the owner, with the visitor as its member. -/
def retreat : Room :=
  ⟨"retreat", lobbyKey, List.Vector.replicate 32 0, ⟨owner, device⟩, [⟨visitor, guest⟩]⟩

/-- Before the first post. -/
def assembled : RoomState where
  nodes home :=
    if home = guest then { start with disk := guestDisk }
    else start.setHost "retreat" ⟨lobbyKey, {visitor.pub .sample}, "", "", none⟩
  queues _ := []

/-- The visitor posts. -/
def visitorPosts (text : Bytes) : RoomEvent :=
  .post drawn note.id (visitor.pub .sample) lobbyKey (List.replicate 24 0) text

/-- What the host sends reaches the visitor. -/
def reaches : RoomEvent := .deliver ⟨visitor, guest⟩ drawn

theorem proper_retreat : retreat.Proper env where
  distinct := ⟨by simp [retreat], by simp [retreat], by simp [retreat, guest, device]⟩
  key := by decide
  order := by decide +kernel

theorem roomStart_assembled : RoomStart env retreat (fun _ => []) assembled where
  ready :=
    { hosted := ⟨"", "", none, rfl⟩
      roster := by
        intro m hm
        rw [List.mem_singleton.1 hm]
        exact ⟨recorded, by decide +kernel, rfl, rfl⟩ }
  logged := by
    rintro n (rfl | hn)
    · exact ⟨by decide +kernel, by simp⟩
    · rw [List.mem_singleton.1 hn]
      exact ⟨by decide +kernel, by simp⟩
  queues _ := rfl

/-- One line can be written, hence any. -/
theorem logWritable_of {home : Home} {s : RoomState} {now : UInt64} {x : PublicIdentity}
    (h : (appendLobby home now "retreat" (x.fingerprint .sample) "" (s.nodes home).disk).1 =
      .ok ()) : LogWritable env retreat home s now x := fun _ => fst_appendLobby.trans h

/-- The visitor posts, and the relay and the answer reach it. -/
theorem along_retreat : (roomRun env retreat).Along (Allowed env retreat) assembled
    [visitorPosts sealedHello, reaches, reaches] := by
  refine ⟨.post (List.mem_singleton_self _) ?_ (logWritable_of ?_), .deliver
    (List.mem_singleton_self _) (logWritable_of ?_), .deliver (List.mem_singleton_self _)
    (logWritable_of ?_), trivial⟩
  · rw [validateSize_ok]
    decide +kernel
  · decide +kernel
  · decide +kernel
  · decide +kernel

theorem delivered_retreat : ∀ m ∈ retreat.members, ((roomRun env retreat).after assembled
    [visitorPosts sealedHello, reaches, reaches]).queues m.home = [] := by
  intro m hm
  rw [List.mem_singleton.1 hm]
  decide +kernel

theorem accepted_hello : [visitorPosts sealedHello, reaches, reaches].filterMap
    (retreat.accepted env) = [(visitor.pub .sample, "hello")] := by decide +kernel

theorem fingerprint_visitor : (visitor.pub .sample).fingerprint .sample ≠
    (owner.pub .sample).fingerprint .sample := by decide +kernel

end Photo

open Photo in
/-- The visitor's post: the two sides. -/
theorem logsAgree_iff_retreat :
    LogsAgree env retreat assembled [visitorPosts sealedHello, reaches, reaches] ↔
      ∀ p ∈ [visitorPosts sealedHello, reaches, reaches].filterMap (retreat.accepted env),
        p.1.fingerprint env.primitives =
            (retreat.host.identity env).fingerprint env.primitives ∧
          retreat.host ∉ retreat.members :=
  logsAgree_iff ⟨rfl, rfl⟩ proper_retreat roomStart_assembled along_retreat delivered_retreat

open Photo in
/-- **The host and the member log a post under different names.** -/
theorem not_logsAgree :
    retreat.Proper env ∧ RoomStart env retreat (fun _ => []) assembled ∧
      (roomRun env retreat).Along (Allowed env retreat) assembled
        [visitorPosts sealedHello, reaches, reaches] ∧
      (∀ m ∈ retreat.members, ((roomRun env retreat).after assembled
        [visitorPosts sealedHello, reaches, reaches]).queues m.home = []) ∧
      ¬ LogsAgree env retreat assembled [visitorPosts sealedHello, reaches, reaches] := by
  refine ⟨proper_retreat, roomStart_assembled, along_retreat, delivered_retreat, fun hagree => ?_⟩
  have hmember : (⟨visitor, guest⟩ : Device) ∈ retreat.members := List.mem_singleton_self _
  have hne : (⟨visitor, guest⟩ : Device) ≠ retreat.host := fun h => by
    have hhome := congrArg Device.home h
    exact absurd hhome (by decide)
  have hlog := entriesOf_member ⟨rfl, rfl⟩ proper_retreat roomStart_assembled along_retreat
    delivered_retreat hmember hne
  have hsame := List.append_cancel_left (hlog.symm.trans (hagree _ (.inr hmember)))
  rw [accepted_hello] at hsame
  exact fingerprint_visitor (congrArg Prod.fst (List.cons.inj hsame).1).symm

end Neonet
