import Neonet.App.Handle
import Neonet.Lib.Past

/-!
# The calls of a client and its pump

A client is the consumer of its node's inbox.  A call leaves its id in a table, sends its request
and waits; the pump gives a message to the call that waits for its id, and hands every other one to
the application.  A call borrows the client, so there is one at a time, but it may be given up, and
then its id stays in the table.

* `client` : the steps of the two tasks as a machine.
* `Waits` : some call has asked for an id, and no message with that id was pumped since.
* `CallSince` : the call in progress, and what has happened since it began.
* `client_spec` : **in every interleaving** a message is handed to the application iff nothing waits
  for its id, a call returns the first message with its id that was pumped since it began, and it
  never fails once it has begun.
-/

namespace Neonet

/-- A call in progress. -/
structure ActiveCall where
  /-- Which call of the client it is. -/
  number : ℕ
  request : Message
  sent : Bool
  /-- What is in the channel of the call. -/
  reply : Option Message

/-- `Client`, and the node behind it. -/
structure ClientState where
  app : AppState
  /-- The call whose sender is in the table under an id. -/
  waiting : ByteArr 16 → Option ℕ
  active : Option ActiveCall
  /-- The number of the next call. -/
  next : ℕ
  /-- The pump has panicked. -/
  stopped : Bool

/-- `Client::connect`. -/
def ClientState.connect (app : AppState) : ClientState := ⟨app, fun _ => none, none, 0, false⟩

/-- What the two tasks do. -/
inductive ClientAction
  /-- `call` encodes the frame, and enters the id that it draws. -/
  | call (peer : PublicIdentity) (frame : AppFrame) (id : ByteArr 16)
  /-- The call sends its request. -/
  | send
  /-- The call looks into its channel. -/
  | recv
  /-- The caller gives the call up. -/
  | cancel
  /-- The pump takes a message from the inbox. -/
  | pump (d : Draws) (m : Message)

/-- What comes of it. -/
inductive ClientAnswer
  /-- There is nothing to do. -/
  | idle
  | begun (request : Message)
  | sent
  /-- `call` returns an error. -/
  | refused (e : IoError)
  /-- `call` returns the reply. -/
  | returned (reply : Message)
  /-- `call` waits on. -/
  | waits
  /-- `call` returns an error, because its sender is gone. -/
  | closed
  | cancelled
  /-- A call waited for the message. -/
  | matched
  /-- The message was handed to the application. -/
  | handled (o : Outcome)
  deriving DecidableEq

section Client

variable (V : AppEnv)

/-- The message that a call sends. -/
def callRequest (peer : PublicIdentity) (frame : AppFrame) (id : ByteArr 16) :
    Except IoError Message := do
  let payload ← frame.encode V.frames
  Message.new V.messages id V.identity peer payload

/-- The call in progress goes on. -/
def ClientState.setActive (s : ClientState) (active : Option ActiveCall) : ClientState :=
  { s with active }

/-- A call begins: its sender replaces whatever was in the table under its id. -/
def ClientState.begin (s : ClientState) (request : Message) : ClientState where
  app := s.app
  waiting := Function.update s.waiting request.id (some s.next)
  active := some ⟨s.next, request, false, none⟩
  next := s.next + 1
  stopped := s.stopped

/-- A message goes to the call that waits for its id, if that still listens. -/
def ClientState.deliver (s : ClientState) (k : ℕ) (m : Message) : ClientState :=
  { s with
    waiting := Function.update s.waiting m.id none
    active := s.active.map fun a => if a.number = k then { a with reply := some m } else a }

/-- The call and the pump, one step after the other. -/
def clientStep (s : ClientState) : ClientAction → ClientAnswer × ClientState
  | .call peer frame id =>
    match s.active with
    -- the client is borrowed
    | some _ => (.idle, s)
    | none =>
      match callRequest V peer frame id with
      | .error e => (.refused e, s)
      | .ok request => (.begun request, s.begin request)
  | .send =>
    match s.active with
    | none => (.idle, s)
    | some a =>
      if a.sent then (.idle, s)
      else
        match sendRaw V a.request s.app with
        | (.error e, app) => (.refused e, { s with app, active := none })
        | (.ok (), app) => (.sent, { s with app, active := some { a with sent := true } })
  | .recv =>
    match s.active with
    | none => (.idle, s)
    | some a =>
      if a.sent = false then (.idle, s)
      else
        match a.reply with
        | some m => (.returned m, s.setActive none)
        | none =>
          if s.waiting a.request.id = some a.number then (.waits, s)
          else (.closed, s.setActive none)
  | .cancel =>
    match s.active with
    | none => (.idle, s)
    | some _ => (.cancelled, s.setActive none)
  | .pump d m =>
    if s.stopped then (.idle, s)
    else
      match s.waiting m.id with
      | some k => (.matched, s.deliver k m)
      | none =>
        match V.handle d m s.app with
        | (o, app) => (.handled o, { s with app, stopped := decide (o = .panicked) })

/-- A client as a machine. -/
def client : Machine ClientState ClientAction ClientAnswer where
  step := clientStep V

end Client

/-! ### What has happened -/

/-- An action, with what came of it. -/
abbrev ClientEvent := ClientAction × ClientAnswer

namespace ClientEvent

/-- The request of the call that begins. -/
def begins : ClientEvent → Option Message
  | (.call _ _ _, .begun request) => some request
  | _ => none

/-- The message that the pump took. -/
def pumped : ClientEvent → Option Message
  | (.pump _ m, .matched) | (.pump _ m, .handled _) => some m
  | _ => none

/-- The request was sent. -/
def sends : ClientEvent → Bool
  | (.send, .sent) => true
  | _ => false

/-- The call ends. -/
def ends : ClientEvent → Bool
  | (.send, .refused _) | (.recv, .returned _) | (.recv, .closed) | (.cancel, .cancelled) => true
  | _ => false

end ClientEvent

/-- A call has asked for the id, and no message with that id was pumped since. -/
def Waits (id : ByteArr 16) (past : List ClientEvent) : Prop :=
  Since (fun e => ∃ m, e.begins = some m ∧ m.id = id) (fun e => ∃ m, e.pumped = some m ∧ m.id = id)
    past

/-- The call in progress began with `request`, and `since` is what has happened since. -/
def CallSince (past : List ClientEvent) (request : Message) (since : List ClientEvent) : Prop :=
  ∃ before e, past = before ++ e :: since ∧ e.begins = some request ∧
    ∀ x ∈ since, x.begins = none ∧ x.ends = false

/-- The first message with the id of the request that was pumped. -/
def firstReply (request : Message) (since : List ClientEvent) : Option Message :=
  (since.filterMap ClientEvent.pumped).find? fun m => m.id = request.id

/-- What a client does next in the state `s`, if `past` has happened. -/
structure ClientSpec (V : AppEnv) (past : List ClientEvent) (s : ClientState) : Prop where
  /-- A message that a call waits for leaves the application alone. -/
  matched : ∀ d m, s.stopped = false → Waits m.id past →
    (clientStep V s (.pump d m)).1 = .matched ∧ (clientStep V s (.pump d m)).2.app = s.app
  /-- Any other message is handed to it. -/
  unsolicited : ∀ d m, s.stopped = false → ¬ Waits m.id past →
    (clientStep V s (.pump d m)).1 = .handled (V.handle d m s.app).1 ∧
      (clientStep V s (.pump d m)).2.app = (V.handle d m s.app).2
  /-- The call in progress, once its request is sent, returns the first message with its id that
  was pumped since it began, and waits if there is none. -/
  returns : ∀ request since, CallSince past request since → (∃ e ∈ since, e.sends = true) →
    (clientStep V s .recv).1 =
      match firstReply request since with
      | some m => .returned m
      | none => .waits
  /-- A call returns only so. -/
  returned : ∀ m, (clientStep V s .recv).1 = .returned m →
    ∃ request since, CallSince past request since ∧ firstReply request since = some m
  /-- A call that has begun does not fail. -/
  unfailing : (∀ e, (clientStep V s .send).1 ≠ .refused e) ∧ (clientStep V s .recv).1 ≠ .closed

variable {V : AppEnv} {s s' : ClientState} {past since : List ClientEvent} {e : ClientEvent}
  {request request' : Message} {id : ByteArr 16} {a : ActiveCall}

theorem waits_concat :
    Waits id (past ++ [e]) ↔ (∃ m, e.begins = some m ∧ m.id = id) ∨
      ¬ (∃ m, e.pumped = some m ∧ m.id = id) ∧ Waits id past :=
  since_concat

theorem callSince_concat :
    CallSince (past ++ [e]) request since ↔ (since = [] ∧ e.begins = some request) ∨
      ∃ since', since = since' ++ [e] ∧ (e.begins = none ∧ e.ends = false) ∧
        CallSince past request since' := by
  constructor
  · rintro ⟨before, x, heq, hx, hsince⟩
    rcases List.eq_nil_or_concat since with rfl | ⟨since', y, rfl⟩
    · obtain ⟨-, hlast⟩ := List.append_inj' heq rfl
      obtain rfl := List.singleton_injective hlast
      exact .inl ⟨rfl, hx⟩
    · rw [List.concat_eq_append] at heq hsince ⊢
      rw [← List.cons_append, ← List.append_assoc] at heq
      obtain ⟨hinit, hlast⟩ := List.append_inj' heq rfl
      obtain rfl := List.singleton_injective hlast
      exact .inr ⟨since', rfl, hsince e (by simp), before, x, hinit, hx,
        fun z hz => hsince z (by simp [hz])⟩
  · rintro (⟨rfl, he⟩ | ⟨since', rfl, he, before, x, rfl, hx, hsince⟩)
    · exact ⟨past, e, rfl, he, by simp⟩
    · refine ⟨before, x, by simp, hx, fun z hz => ?_⟩
      rcases List.mem_append.1 hz with hz | hz
      · exact hsince z hz
      · rwa [List.mem_singleton.1 hz]

theorem not_callSince_nil : ¬ CallSince [] request since := by
  rintro ⟨before, e, h, -⟩
  simp at h

/-- There is at most one call in progress. -/
theorem CallSince.unique {since' : List ClientEvent} (h : CallSince past request since)
    (h' : CallSince past request' since') : request = request' ∧ since = since' := by
  induction past using List.reverseRecOn generalizing since since' with
  | nil => exact absurd h not_callSince_nil
  | append_singleton past e ih =>
    rcases callSince_concat.1 h with ⟨rfl, he⟩ | ⟨since₁, rfl, ⟨he, -⟩, h⟩
    · rcases callSince_concat.1 h' with ⟨rfl, he'⟩ | ⟨_, -, ⟨he', -⟩, -⟩
      · exact ⟨Option.some.inj (he.symm.trans he'), rfl⟩
      · cases he.symm.trans he'
    · rcases callSince_concat.1 h' with ⟨rfl, he'⟩ | ⟨since₂, rfl, -, h'⟩
      · cases he.symm.trans he'
      · obtain ⟨hreq, hsince⟩ := ih h h'
        exact ⟨hreq, by rw [hsince]⟩

theorem firstReply_concat :
    firstReply request (since ++ [e]) = (firstReply request since).or
      (e.pumped.filter fun m => m.id = request.id) := by
  rw [firstReply, List.filterMap_append, List.find?_append, firstReply]
  congr 1
  cases h : e.pumped with
  | none => simp [h]
  | some m =>
    by_cases hm : m.id = request.id <;> simp [h, hm, Option.filter]

/-! ### The invariant -/

/-- The table holds the ids that are waited for, and the call in progress is as it ought to be. -/
structure ClientInv (V : AppEnv) (past : List ClientEvent) (s : ClientState) : Prop where
  table : ∀ id, (∃ k, s.waiting id = some k) ↔ Waits id past
  below : ∀ id k, s.waiting id = some k → k < s.next
  active : ∀ a, s.active = some a →
    (a.number < s.next ∧ a.request.validateSize V.messages = .ok () ∧
      ∀ id, s.waiting id = some a.number ↔ id = a.request.id ∧ a.reply = none) ∧
    ∃ since, CallSince past a.request since ∧ a.reply = firstReply a.request since ∧
      (a.sent = true ↔ ∃ e ∈ since, e.sends = true)
  idle : s.active = none → ∀ request since, ¬ CallSince past request since

/-- The ways in which a step can go. -/
inductive ClientCase (V : AppEnv) (s : ClientState) : ClientEvent → ClientState → Prop
  /-- Nothing changes. -/
  | silent {e : ClientEvent} (begins : e.begins = none) (pumped : e.pumped = none)
      (sends : e.sends = false) (ends : e.ends = false) : ClientCase V s e s
  | began {peer : PublicIdentity} {frame : AppFrame} {id : ByteArr 16} {request : Message}
      (free : s.active = none) (valid : request.validateSize V.messages = .ok ()) :
      ClientCase V s (.call peer frame id, .begun request) (s.begin request)
  | sent {a : ActiveCall} {app : AppState} (active : s.active = some a) :
      ClientCase V s (.send, .sent) { s with app, active := some { a with sent := true } }
  | refused {a : ActiveCall} {app : AppState} {e : IoError} (active : s.active = some a)
      (refuses : (sendRaw V a.request s.app).1 = .error e) :
      ClientCase V s (.send, .refused e) { s with app, active := none }
  | returned {a : ActiveCall} {m : Message} (active : s.active = some a)
      (reply : a.reply = some m) : ClientCase V s (.recv, .returned m) (s.setActive none)
  | closed {a : ActiveCall} (active : s.active = some a) (reply : a.reply = none)
      (gone : s.waiting a.request.id ≠ some a.number) :
      ClientCase V s (.recv, .closed) (s.setActive none)
  | cancelled {a : ActiveCall} (active : s.active = some a) :
      ClientCase V s (.cancel, .cancelled) (s.setActive none)
  | matched {d : Draws} {m : Message} {k : ℕ} (waiting : s.waiting m.id = some k) :
      ClientCase V s (.pump d m, .matched) (s.deliver k m)
  | handled {d : Draws} {m : Message} {o : Outcome} {app : AppState} {stopped : Bool}
      (waiting : s.waiting m.id = none) :
      ClientCase V s (.pump d m, .handled o) { s with app, stopped }

theorem callRequest_ok {peer : PublicIdentity} {frame : AppFrame}
    (h : callRequest V peer frame id = .ok request) :
    request = ⟨id, V.identity, peer, V.frames.encode frame⟩ ∧
      request.validateSize V.messages = .ok () := by
  simp only [callRequest, Message.new, AppFrame.encode, bind, Except.bind, pure, Except.pure] at h
  split at h
  · cases h
  · rename_i payload hencode
    split_ifs at hencode
    obtain rfl := Except.ok.inj hencode
    split at h
    · cases h
    · rename_i hvalid
      obtain rfl := Except.ok.inj h
      exact ⟨rfl, hvalid⟩

theorem validateSize_callRequest {peer : PublicIdentity} {frame : AppFrame}
    (h : callRequest V peer frame id = .ok request) :
    request.validateSize V.messages = .ok () := (callRequest_ok h).2

theorem decode_callRequest {peer : PublicIdentity} {frame : AppFrame}
    (h : callRequest V peer frame id = .ok request) :
    AppFrame.decode V.frames request.payload = frame := by
  rw [(callRequest_ok h).1, AppFrame.decode, V.frames.decode_encode]

theorem clientStep_cases (act : ClientAction) :
    ClientCase V s (act, (clientStep V s act).1) (clientStep V s act).2 := by
  cases act with
  | call peer frame id =>
    rw [clientStep]
    cases hactive : s.active with
    | some a => exact .silent rfl rfl rfl rfl
    | none =>
      dsimp only
      cases hrequest : callRequest V peer frame id with
      | error e => exact .silent rfl rfl rfl rfl
      | ok request => exact .began hactive (validateSize_callRequest hrequest)
  | send =>
    rw [clientStep]
    cases hactive : s.active with
    | none => exact .silent rfl rfl rfl rfl
    | some a =>
      dsimp only
      split
      · exact .silent rfl rfl rfl rfl
      · split
        · rename_i hsend
          exact .refused hactive (by rw [hsend])
        · exact .sent hactive
  | recv =>
    rw [clientStep]
    cases hactive : s.active with
    | none => exact .silent rfl rfl rfl rfl
    | some a =>
      dsimp only
      split
      · exact .silent rfl rfl rfl rfl
      · cases hreply : a.reply with
        | some m => exact .returned hactive hreply
        | none =>
          dsimp only
          split
          · exact .silent rfl rfl rfl rfl
          · rename_i hgone
            exact .closed hactive hreply hgone
  | cancel =>
    rw [clientStep]
    cases hactive : s.active with
    | none => exact .silent rfl rfl rfl rfl
    | some a => exact .cancelled hactive
  | pump d m =>
    rw [clientStep]
    split
    · exact .silent rfl rfl rfl rfl
    · cases hwaiting : s.waiting m.id with
      | some k => exact .matched hwaiting
      | none => exact .handled hwaiting

theorem ClientInv.connect (app : AppState) : ClientInv V [] (.connect app) where
  table id := by
    refine iff_of_false ?_ not_since_nil
    rintro ⟨k, hk⟩
    cases hk
  below id k hk := by cases hk
  active a ha := by cases ha
  idle _ _ _ := not_callSince_nil

theorem ClientInv.table_quiet (h : ClientInv V past s) (hbegins : e.begins = none)
    (hpumped : e.pumped = none) (id : ByteArr 16) :
    (∃ k, s.waiting id = some k) ↔ Waits id (past ++ [e]) := by
  rw [waits_concat, h.table, hbegins, hpumped]
  simp

theorem callSince_goes_on (h : CallSince past request since) (hbegins : e.begins = none)
    (hends : e.ends = false) : CallSince (past ++ [e]) request (since ++ [e]) :=
  callSince_concat.2 (.inr ⟨since, rfl, ⟨hbegins, hends⟩, h⟩)

theorem not_callSince_concat (hbegins : e.begins = none)
    (hnone : e.ends = true ∨ ∀ request since, ¬ CallSince past request since) :
    ¬ CallSince (past ++ [e]) request since := by
  rw [callSince_concat]
  rintro (⟨-, hb⟩ | ⟨since', -, ⟨-, hends⟩, hcall⟩)
  · rw [hbegins] at hb
    cases hb
  · rcases hnone with hend | hno
    · rw [hend] at hends
      cases hends
    · exact hno _ _ hcall

theorem ClientInv.ended (h : ClientInv V past s) (hbegins : e.begins = none)
    (hpumped : e.pumped = none) (hends : e.ends = true) (hw : s'.waiting = s.waiting)
    (hn : s'.next = s.next) (ha : s'.active = none) : ClientInv V (past ++ [e]) s' where
  table id := by
    rw [hw]
    exact h.table_quiet hbegins hpumped id
  below id k hk := by
    rw [hw] at hk
    rw [hn]
    exact h.below id k hk
  active a hactive := by
    rw [ha] at hactive
    cases hactive
  idle _ _ _ := not_callSince_concat hbegins (.inl hends)

/-- The reply of a call stays as it is, unless its message is pumped. -/
theorem reply_goes_on (hreply : a.reply = firstReply request since)
    (hother : a.reply = none → ∀ m, e.pumped = some m → m.id ≠ request.id) :
    a.reply = firstReply request (since ++ [e]) := by
  rw [firstReply_concat, ← hreply]
  cases hr : a.reply with
  | some r => rfl
  | none =>
    cases hm : e.pumped with
    | none => rfl
    | some m => simp [Option.filter, hother hr m hm]

theorem sent_goes_on (hsent : a.sent = true ↔ ∃ e ∈ since, ClientEvent.sends e = true)
    (hsends : e.sends = false) :
    a.sent = true ↔ ∃ x ∈ since ++ [e], ClientEvent.sends x = true := by
  rw [hsent]
  simp [or_and_right, exists_or, hsends]

theorem ClientInv.silent (h : ClientInv V past s) (hbegins : e.begins = none)
    (hpumped : e.pumped = none) (hsends : e.sends = false) (hends : e.ends = false) :
    ClientInv V (past ++ [e]) s where
  table := h.table_quiet hbegins hpumped
  below := h.below
  active a ha := by
    obtain ⟨hactive, since, hcall, hreply, hsent⟩ := h.active a ha
    refine ⟨hactive, since ++ [e], callSince_goes_on hcall hbegins hends,
      reply_goes_on hreply fun _ m hm => ?_, sent_goes_on hsent hsends⟩
    rw [hpumped] at hm
    cases hm
  idle hidle _ _ := not_callSince_concat hbegins (.inr (h.idle hidle))

theorem ClientInv.began {peer : PublicIdentity} {frame : AppFrame} (h : ClientInv V past s)
    (hvalid : request.validateSize V.messages = .ok ()) :
    ClientInv V (past ++ [(.call peer frame id, .begun request)]) (s.begin request) where
  table id := by
    rw [waits_concat, ← h.table]
    by_cases hid : id = request.id
    · subst hid
      simp [ClientState.begin, ClientEvent.begins]
    · simp [ClientState.begin, ClientEvent.begins, ClientEvent.pumped,
        Function.update_of_ne hid, Ne.symm hid]
  below id k hk := by
    by_cases hid : id = request.id
    · subst hid
      simp only [ClientState.begin, Function.update_self, Option.some.injEq] at hk ⊢
      omega
    · simp only [ClientState.begin, Function.update_of_ne hid] at hk ⊢
      exact Nat.lt_succ_of_lt (h.below id k hk)
  active a ha := by
    obtain rfl := Option.some.inj ha
    refine ⟨⟨Nat.lt_succ_self _, hvalid, fun id => ?_⟩, [], callSince_concat.2 (.inl ⟨rfl, rfl⟩),
      rfl, by simp⟩
    by_cases hid : id = request.id
    · subst hid
      simp [ClientState.begin]
    · simp only [ClientState.begin, Function.update_of_ne hid, hid, false_and, iff_false]
      exact fun hk => (h.below id _ hk).ne rfl
  idle hidle := by cases hidle

theorem ClientInv.sent {app : AppState} (h : ClientInv V past s) (ha : s.active = some a) :
    ClientInv V (past ++ [(.send, .sent)])
      { s with app, active := some { a with sent := true } } where
  table := h.table_quiet rfl rfl
  below := h.below
  active a' ha' := by
    obtain rfl := Option.some.inj ha'
    obtain ⟨hactive, since, hcall, hreply, -⟩ := h.active a ha
    refine ⟨hactive, since ++ [(.send, .sent)], callSince_goes_on hcall rfl rfl,
      reply_goes_on hreply fun _ m hm => (by cases hm), ?_⟩
    simp [or_and_right, exists_or, ClientEvent.sends]
  idle hidle := by cases hidle

theorem waiting_deliver_self {k : ℕ} {m : Message} : (s.deliver k m).waiting m.id = none :=
  Function.update_self ..

theorem waiting_deliver_of_ne {k : ℕ} {m : Message} (h : id ≠ m.id) :
    (s.deliver k m).waiting id = s.waiting id := Function.update_of_ne h ..

/-- The call waited for the message: it waits no more. -/
theorem ClientInv.delivered {m : Message} (h : ClientInv V past s)
    (hwaiting : s.waiting m.id = some a.number) (ha : s.active = some a)
    (hreply : a.reply = firstReply a.request since) (he : e.pumped = some m) :
    (∀ id, (s.deliver a.number m).waiting id ≠ some a.number) ∧
      some m = firstReply a.request (since ++ [e]) := by
  obtain ⟨⟨-, -, hwaits⟩, -⟩ := h.active a ha
  obtain ⟨hid, hnone⟩ := (hwaits m.id).1 hwaiting
  refine ⟨fun id hw => ?_, ?_⟩
  · by_cases hm : id = m.id
    · rw [hm, waiting_deliver_self] at hw
      cases hw
    · rw [waiting_deliver_of_ne hm] at hw
      exact hm (((hwaits id).1 hw).1.trans hid.symm)
  · rw [firstReply_concat, ← hreply, hnone, he]
    simp [Option.filter, hid]

/-- Another call waited for it, which was given up. -/
theorem ClientInv.delivered_other {k : ℕ} {m : Message} (h : ClientInv V past s)
    (hwaiting : s.waiting m.id = some k) (hk : a.number ≠ k) (ha : s.active = some a)
    (hreply : a.reply = firstReply a.request since) (he : e.pumped = some m) :
    (∀ id, (s.deliver k m).waiting id = some a.number ↔ id = a.request.id ∧ a.reply = none) ∧
      a.reply = firstReply a.request (since ++ [e]) := by
  obtain ⟨⟨-, -, hwaits⟩, -⟩ := h.active a ha
  refine ⟨fun id => Iff.trans ?_ (hwaits id), reply_goes_on hreply fun hr m' hm' hid => ?_⟩
  · by_cases hm : id = m.id
    · rw [hm, waiting_deliver_self, hwaiting]
      simp [Ne.symm hk]
    · rw [waiting_deliver_of_ne hm]
  · obtain rfl := Option.some.inj (he.symm.trans hm')
    rw [hid, (hwaits _).2 ⟨rfl, hr⟩] at hwaiting
    exact hk (Option.some.inj hwaiting)

theorem ClientInv.matched {d : Draws} {m : Message} {k : ℕ} (h : ClientInv V past s)
    (hwaiting : s.waiting m.id = some k) :
    ClientInv V (past ++ [(.pump d m, .matched)]) (s.deliver k m) where
  table id := by
    rw [waits_concat, ← h.table]
    by_cases hid : id = m.id
    · subst hid
      simp [waiting_deliver_self, ClientEvent.begins, ClientEvent.pumped]
    · simp [waiting_deliver_of_ne hid, ClientEvent.begins, ClientEvent.pumped, Ne.symm hid]
  below id k' hk := by
    by_cases hid : id = m.id
    · rw [hid, waiting_deliver_self] at hk
      cases hk
    · rw [waiting_deliver_of_ne hid] at hk
      exact h.below id k' hk
  active a' ha' := by
    obtain ⟨a, ha, rfl⟩ := Option.map_eq_some_iff.1 ha'
    obtain ⟨⟨hlt, hvalid, -⟩, since, hcall, hreply, hsent⟩ := h.active a ha
    have hgoes : CallSince (past ++ [(.pump d m, .matched)]) a.request
        (since ++ [(.pump d m, .matched)]) := callSince_goes_on hcall rfl rfl
    have hsends : a.sent = true ↔ ∃ x ∈ since ++ [((.pump d m, .matched) : ClientEvent)],
        ClientEvent.sends x = true := sent_goes_on hsent rfl
    by_cases hk : a.number = k
    · subst hk
      obtain ⟨hwaits, hfirst⟩ := h.delivered (e := (.pump d m, .matched)) hwaiting ha hreply rfl
      rw [if_pos rfl]
      exact ⟨⟨hlt, hvalid, fun id => iff_of_false (hwaits id) (by simp)⟩, _, hgoes, hfirst, hsends⟩
    · obtain ⟨hwaits, hfirst⟩ := h.delivered_other (e := (.pump d m, .matched)) hwaiting hk ha
        hreply rfl
      rw [if_neg hk]
      exact ⟨⟨hlt, hvalid, hwaits⟩, _, hgoes, hfirst, hsends⟩
  idle hidle _ _ := not_callSince_concat rfl (.inr (h.idle (Option.map_eq_none_iff.1 hidle)))

/-- A message that nobody waits for is the reply of no call. -/
theorem ClientInv.handled {d : Draws} {m : Message} {o : Outcome} {app : AppState} {stopped : Bool}
    (h : ClientInv V past s) (hwaiting : s.waiting m.id = none) :
    ClientInv V (past ++ [(.pump d m, .handled o)]) { s with app, stopped } where
  table id := by
    rw [waits_concat, ← h.table]
    by_cases hid : id = m.id
    · subst hid
      simp [hwaiting, ClientEvent.begins, ClientEvent.pumped]
    · simp [ClientEvent.begins, ClientEvent.pumped, Ne.symm hid]
  below := h.below
  active a ha := by
    obtain ⟨hactive, since, hcall, hreply, hsent⟩ := h.active a ha
    refine ⟨hactive, since ++ [(.pump d m, .handled o)], callSince_goes_on hcall rfl rfl,
      reply_goes_on hreply fun hr m' hm' hid => ?_, sent_goes_on hsent rfl⟩
    obtain rfl := Option.some.inj hm'
    rw [hid, (hactive.2.2 _).2 ⟨rfl, hr⟩] at hwaiting
    cases hwaiting
  idle hidle _ _ := not_callSince_concat rfl (.inr (h.idle hidle))

/-- **A step keeps the invariant.** -/
theorem ClientInv.step (h : ClientInv V past s) (hs : ClientCase V s e s') :
    ClientInv V (past ++ [e]) s' := by
  cases hs with
  | silent begins pumped sends ends => exact h.silent begins pumped sends ends
  | began free valid => exact h.began valid
  | sent active => exact h.sent active
  | refused => exact h.ended rfl rfl rfl rfl rfl rfl
  | returned => exact h.ended rfl rfl rfl rfl rfl rfl
  | closed => exact h.ended rfl rfl rfl rfl rfl rfl
  | cancelled => exact h.ended rfl rfl rfl rfl rfl rfl
  | matched waiting => exact h.matched waiting
  | handled waiting => exact h.handled waiting

theorem clientInv_of_run (app : AppState) (acts : List ClientAction) :
    ClientInv V ((client V).transcript (.connect app) acts)
      ((client V).after (.connect app) acts) :=
  Machine.Along.history (P := fun _ _ => True) (Machine.along_of_forall fun _ _ _ => trivial)
    (ClientInv.connect app) fun _ _ act _ h => h.step (clientStep_cases act)

/-! ### What the client does next -/

theorem ClientInv.exists_active (h : ClientInv V past s) (hcall : CallSince past request since) :
    ∃ a, s.active = some a ∧ a.request = request ∧ a.reply = firstReply request since ∧
      (a.sent = true ↔ ∃ e ∈ since, e.sends = true) := by
  cases hactive : s.active with
  | none => exact absurd hcall (h.idle hactive _ _)
  | some a =>
    obtain ⟨-, since', hcall', hreply, hsent⟩ := h.active a hactive
    obtain ⟨rfl, rfl⟩ := hcall'.unique hcall
    exact ⟨a, rfl, rfl, hreply, hsent⟩

theorem ClientInv.spec (h : ClientInv V past s) : ClientSpec V past s where
  matched d m hrun hwaits := by
    obtain ⟨k, hk⟩ := (h.table m.id).2 hwaits
    rw [clientStep, if_neg (by simp [hrun]), hk]
    exact ⟨rfl, rfl⟩
  unsolicited d m hrun hno := by
    have hnone : s.waiting m.id = none :=
      Option.eq_none_iff_forall_ne_some.2 fun k hk => hno ((h.table m.id).1 ⟨k, hk⟩)
    rw [clientStep, if_neg (by simp [hrun]), hnone]
    exact ⟨rfl, rfl⟩
  returns request since hcall hsent := by
    obtain ⟨a, hactive, rfl, hreply, hsends⟩ := h.exists_active hcall
    have hkey := (h.active a hactive).1.2.2 a.request.id
    rw [clientStep, hactive]
    dsimp only
    rw [if_neg (by simp [hsends.2 hsent]), ← hreply]
    cases hr : a.reply with
    | some m => rfl
    | none =>
      dsimp only
      rw [if_pos (hkey.2 ⟨rfl, hr⟩)]
  returned m hm := by
    have hcase := clientStep_cases (V := V) (s := s) .recv
    rw [hm] at hcase
    generalize (clientStep V s .recv).2 = s' at hcase
    cases hcase with
    | silent _ _ _ ends => cases ends
    | returned active reply =>
      obtain ⟨-, since, hcall, hreply, -⟩ := h.active _ active
      exact ⟨_, since, hcall, hreply.symm.trans reply⟩
  unfailing := by
    constructor
    · intro e he
      have hcase := clientStep_cases (V := V) (s := s) .send
      rw [he] at hcase
      generalize (clientStep V s .send).2 = s' at hcase
      cases hcase with
      | silent _ _ _ ends => cases ends
      | @refused a app _ active refuses =>
        -- the size was checked when the request was made
        rw [sendRaw, (h.active a active).1.2.1] at refuses
        cases refuses
    · intro hclosed
      have hcase := clientStep_cases (V := V) (s := s) .recv
      rw [hclosed] at hcase
      generalize (clientStep V s .recv).2 = s' at hcase
      cases hcase with
      | silent _ _ _ ends => cases ends
      | closed active reply gone =>
        exact gone (((h.active _ active).1.2.2 _).2 ⟨rfl, reply⟩)

/-- **A client in every interleaving of its calls and its pump.** -/
theorem client_spec (V : AppEnv) (app : AppState) (acts : List ClientAction) :
    ClientSpec V ((client V).transcript (.connect app) acts)
      ((client V).after (.connect app) acts) :=
  (clientInv_of_run app acts).spec

end Neonet
