import Neonet.App.Client
import Neonet.App.Registry

/-!
# Scanning for devices

`neonet scan` asks a rendezvous service for all its devices, keeps those that the filter selects,
and with `--active` asks after each of them once more.  Meanwhile the service goes on.

* `Scan` : how far the command has come.
* `Scan.next`, `Scan.receive` : what it asks next, and what it makes of the reply.
* `Scanning` : the command and the service, in any interleaving.
* `Asked` : which of the devices were there when they were asked after.
* `scan_spec` : **what is printed is what was live when the service made the list, each device once
  and in order; with `--active` it was live again later on, maybe somewhere else.**
-/

namespace Neonet

/-- The arguments of `Command::Scan`. -/
structure ScanArgs where
  deviceId : String
  filter : Option String
  active : Bool

/-- How far `Command::Scan` has come. -/
inductive Scan
  | listing
  /-- The devices that were there, the one that is asked after, and those that are left; also what
  was printed. -/
  | probing (live : List EndpointRecord) (record : EndpointRecord) (rest : List EndpointRecord)
      (printed : List String)
  | done (hits : List EndpointRecord) (printed : List String)
  | failed (error : String)
  deriving DecidableEq

section Command

-- `lower` is `str::to_lowercase`, and `debug` prints a frame
variable (K : Primitives) (lower : String → String) (debug : AppFrame → String) (args : ScanArgs)

/-- What the filter looks for. -/
def ScanArgs.needle : String := lower (args.filter.getD "")

/-- The filter selects a device at an address. -/
def ScanArgs.selects (x : PublicIdentity) (address : String) : Bool :=
  args.needle lower = "" ∨
    (args.needle lower).toList <:+: (lower (x.fingerprint K)).toList ∨
      (args.needle lower).toList <:+: (lower address).toList

/-- The records that are selected, in the order of their fingerprints. -/
def ScanArgs.hits (records : List EndpointRecord) : List EndpointRecord :=
  (records.filter fun record => args.selects K lower record.identity record.address).insertionSort
    fun r r' => r.identity.fingerprint K ≤ r'.identity.fingerprint K

/-- A device that is there. -/
def hitLine (record : EndpointRecord) : String :=
  record.identity.fingerprint K ++ " @ " ++ record.address

/-- A device that is not there any more. -/
def staleLine (record : EndpointRecord) : String := hitLine K record ++ " (stale)"

/-- What is printed at the end. -/
def ScanArgs.report (hits : List EndpointRecord) : List String :=
  (if hits = [] then
    ["(no devices registered" ++ (if args.needle lower = "" then "" else
      " matching '" ++ args.needle lower ++ "'") ++ ")"]
  else []) ++ hits.map (hitLine K)

/-- The loop goes on, or ends. -/
def ScanArgs.proceed (live : List EndpointRecord) : List EndpointRecord → List String → Scan
  | [], printed => .done live (printed ++ args.report K lower live)
  | record :: rest, printed => .probing live record rest printed

/-- What is asked next. -/
def Scan.next : Scan → Option RendezvousFrame
  | .listing => some .list
  | .probing _ record _ _ => some (.probe (record.identity.fingerprint K))
  | .done _ _ => none
  | .failed _ => none

/-- What is made of the reply. -/
def Scan.receive (reply : AppFrame) : Scan → Scan
  | .listing =>
    match reply with
    | .rendezvous (.listResult records) =>
      if args.active then args.proceed K lower [] (args.hits K lower records) []
      else .done (args.hits K lower records) (args.report K lower (args.hits K lower records))
    | .rendezvous (.error message) => .failed (args.deviceId ++ " could not enumerate: " ++ message)
    | other => .failed ("unexpected reply to scan: " ++ debug other)
  | .probing live record rest printed =>
    match reply with
    | .rendezvous (.probeResult _ alive) =>
      if alive then args.proceed K lower (live ++ [record]) rest printed
      else args.proceed K lower live rest (printed ++ [staleLine K record])
    -- the device is dropped without a word
    | _ => args.proceed K lower live rest printed
  | s => s

variable (V : AppEnv) (self : Identity) (s₀ : AppState)

/-- The reply to a request, among the messages that the service sent. -/
def replyTo (request : Message) (sent : List Message) : Option AppFrame :=
  (sent.find? fun m => m.id = request.id).map fun m => AppFrame.decode V.frames m.payload

/-- The command and the service: the messages that the service has handled, and how far the command
has come. -/
inductive Scanning : List (Draws × Message) → Scan → Prop
  | started : Scanning [] .listing
  /-- Any message, also one of the command's whose reply does not arrive. -/
  | other {events : List (Draws × Message)} {scan : Scan} {d : Draws} {request : Message}
      (before : Scanning events scan) : Scanning (events ++ [(d, request)]) scan
  | called {events : List (Draws × Message)} {scan : Scan} {d : Draws} {request : Message}
      {frame : RendezvousFrame} {id : ByteArr 16} {reply : AppFrame}
      (before : Scanning events scan) (next : scan.next V.primitives = some frame)
      (called : callRequest { V with self } V.identity (.rendezvous frame) id =
        .ok request)
      (answered : replyTo V request
        ((serviceRun V).step ((serviceRun V).after s₀ events) (d, request)).1 = some reply) :
      Scanning (events ++ [(d, request)]) (scan.receive V.primitives lower debug args reply)
  /-- A call fails. -/
  | broken {events : List (Draws × Message)} {scan : Scan} {error : String}
      (before : Scanning events scan) (next : scan.next V.primitives ≠ none) :
      Scanning events (.failed error)

/-! ### What was there -/

/-- When the service has handled these messages, the latest registration of `x` is one at the
address, and has not expired. -/
def LiveAt (events : List (Draws × Message)) (d : Draws) (x : PublicIdentity) (address : String) :
    Prop :=
  Live V ((serviceRun V).transcript s₀ events) (d.clock 0) x address

/-- The devices that the command goes through. -/
def hitsAt (events : List (Draws × Message)) (d : Draws) : List EndpointRecord :=
  args.hits V.primitives lower
    (listRecords V.records V.home (d.clock 0) ((serviceRun V).after s₀ events).disk)

/-- After the messages `events`, of which there were `mid` after the list was made, the service was
asked after the device, which was there iff `p.2`. -/
def WasProbed (events mid : List (Draws × Message)) (p : EndpointRecord × Bool) : Prop :=
  ∃ between d request later, mid = between ++ (d, request) :: later ∧
    (p.2 = true ↔ ∃ address, LiveAt V s₀ (events ++ between) d p.1.identity address)

/-- The command has a list, and has asked after some of the devices. -/
def Asked (events : List (Draws × Message)) (asked : List (EndpointRecord × Bool))
    (rest : List EndpointRecord) : Prop :=
  args.active = true ∧ ∃ pre d request mid, events = pre ++ (d, request) :: mid ∧
    hitsAt lower args V s₀ pre d = asked.map Prod.fst ++ rest ∧
      ∀ p ∈ asked, WasProbed V s₀ (pre ++ [(d, request)]) mid p

/-- Those that were there. -/
def liveOf (asked : List (EndpointRecord × Bool)) : List EndpointRecord :=
  (asked.filter fun p => p.2).map Prod.fst

/-- Those that were not. -/
def staleOf (asked : List (EndpointRecord × Bool)) : List EndpointRecord :=
  (asked.filter fun p => !p.2).map Prod.fst

/-- How far the command has come, and why. -/
def ScanInv (events : List (Draws × Message)) : Scan → Prop
  | .listing => True
  | .probing live record rest printed => ∃ asked,
    Asked lower args V s₀ events asked (record :: rest) ∧ live = liveOf asked ∧
      printed = (staleOf asked).map (staleLine V.primitives)
  | .done hits printed =>
    (args.active = false ∧ printed = args.report V.primitives lower hits ∧
      ∃ pre d request mid, events = pre ++ (d, request) :: mid ∧
        hits = hitsAt lower args V s₀ pre d) ∨
    ∃ asked, Asked lower args V s₀ events asked [] ∧ hits = liveOf asked ∧
      printed = (staleOf asked).map (staleLine V.primitives) ++ args.report V.primitives lower hits
  | .failed _ => True

end Command

variable {K : Primitives} {lower : String → String} {debug : AppFrame → String} {args : ScanArgs}
  {V : AppEnv} {self : Identity} {s s₀ : AppState} {events pre : List (Draws × Message)} {d : Draws}
  {request : Message} {reply : AppFrame} {frame : RendezvousFrame}
  {records rest : List EndpointRecord} {record : EndpointRecord} {x : PublicIdentity}
  {address : String} {asked : List (EndpointRecord × Bool)} {scan : Scan}

/-! ### What is asked, and what is answered -/

theorem replyTo_delivered {answer : Option AppFrame}
    (h : replyTo V request (delivered V request answer) = some reply) : answer = some reply := by
  cases answer with
  | none => cases h
  | some frame =>
    rw [replyTo, delivered] at h
    split at h
    · obtain ⟨m, hm, rfl⟩ := Option.map_eq_some_iff.1 h
      obtain rfl := List.mem_singleton.1 (List.mem_of_find?_eq_some hm)
      rw [AppFrame.decode, replyMessage, V.frames.decode_encode]
    · cases h

/-- What the command gets to see of a list or of a probe. -/
theorem reply_of_called (hf : AppFrame.decode V.frames request.payload = .rendezvous frame)
    (hawaited : (AppFrame.rendezvous frame).Awaited) (hsave : RecordSaved V s (d, request))
    (hanswer : replyTo V request ((serviceRun V).step s (d, request)).1 = some reply) :
    (V.answerRendezvous d request s frame).map .rendezvous = some reply := by
  rw [serviceRun_sent hf hawaited hsave] at hanswer
  exact replyTo_delivered hanswer

/-! ### The devices of the list -/

theorem mem_hits : record ∈ args.hits K lower records ↔
    record ∈ records ∧ args.selects K lower record.identity record.address = true := by
  rw [ScanArgs.hits, List.mem_insertionSort, List.mem_filter]

/-- Each device is listed once, if its records are filed under its fingerprint. -/
theorem nodup_listRecords {R : Codec Records} {home : Home} {now : UInt64} {t : FileTree.Tree}
    (hkeyed : ∀ e ∈ (allRecords R home t).entries, e.1 = e.2.identity.fingerprint K) :
    ((listRecords R home now t).map fun r => r.identity.fingerprint K).Nodup := by
  rw [listRecords, ((List.perm_insertionSort _ _).map _).nodup_iff, List.map_map]
  have hentries : ((allRecords R home t).prune now).entries.map
      ((fun r : EndpointRecord => r.identity.fingerprint K) ∘ Prod.snd) =
        ((allRecords R home t).prune now).entries.map Prod.fst :=
    List.map_congr_left fun e he => (hkeyed e (Records.mem_prune.1 he).1).symm
  rw [hentries]
  exact Records.nodup _

theorem sorted_hits (h : (records.map fun r => r.identity.fingerprint K).Nodup) :
    ((args.hits K lower records).map fun r => r.identity.fingerprint K).Pairwise (· < ·) := by
  have hle : ((args.hits K lower records).map fun r => r.identity.fingerprint K).Pairwise
      (· ≤ ·) := List.pairwise_map.2 (List.pairwise_insertionSort _ _)
  have hnodup : ((args.hits K lower records).map fun r => r.identity.fingerprint K).Nodup := by
    rw [ScanArgs.hits, ((List.perm_insertionSort _ _).map _).nodup_iff]
    exact h.sublist (List.filter_sublist.map _)
  exact (hle.and hnodup).imp fun hab => lt_of_le_of_ne hab.1 hab.2

/-- What the command goes through is what is live and selected. -/
theorem mem_hitsAt_iff (h : Arrival V s₀ pre d request) :
    (∃ c ∈ hitsAt lower args V s₀ pre d, c.identity = x ∧ c.address = address) ↔
      LiveAt V s₀ pre d x address ∧ args.selects V.primitives lower x address = true := by
  rw [LiveAt, ← h.inv.list_iff h.later]
  simp only [hitsAt, mem_hits]
  constructor
  · rintro ⟨c, ⟨hmem, hselects⟩, rfl, rfl⟩
    exact ⟨⟨c, hmem, rfl, rfl⟩, hselects⟩
  · rintro ⟨⟨c, hmem, rfl, rfl⟩, hselects⟩
    exact ⟨c, ⟨hmem, hselects⟩, rfl, rfl⟩

/-! ### Runs -/

/-- The messages are those of a run of the service, and no two senders have the same fingerprint. -/
structure Served (V : AppEnv) (s₀ : AppState) (events : List (Draws × Message)) : Prop where
  arrival : ∀ pre d request post, events = pre ++ (d, request) :: post →
    Arrival V s₀ pre d request
  distinct : NoCollision V.primitives ((events.map fun a => a.2.sender).map (·.publicKey.toList))

theorem Served.initial {post : List (Draws × Message)} (h : Served V s₀ (events ++ post)) :
    Served V s₀ events := by
  refine ⟨fun pre d request rest hsplit => ?_, fun b hb c hc => ?_⟩
  · exact h.arrival pre d request (rest ++ post) (by rw [hsplit, List.append_assoc]; rfl)
  · refine h.distinct b ?_ c ?_ <;> rw [List.map_append, List.map_append]
    · exact List.mem_append_left _ hb
    · exact List.mem_append_left _ hc

theorem sender_of_liveAt (h : LiveAt V s₀ events d x address) :
    x ∈ events.map fun a => a.2.sender := by
  obtain ⟨_, hlast, -⟩ := h
  have hactions : ((serviceRun V).transcript s₀ events).map Prod.fst = events :=
    Machine.map_fst_transcript
  obtain ⟨e, he, rfl⟩ := List.mem_map.1 (mem_senders_of_latest hlast)
  exact List.mem_map.2 ⟨e.1, hactions ▸ List.mem_map_of_mem he, rfl⟩

theorem alive_iff {post : List (Draws × Message)}
    (h : Served V s₀ (events ++ (d, request) :: post))
    (hx : x ∈ events.map fun a => a.2.sender) :
    (!(lookup V.records V.home (d.clock 0) (x.fingerprint V.primitives)
        ((serviceRun V).after s₀ events).disk).isEmpty) = true ↔
      ∃ address, LiveAt V s₀ events d x address := by
  have harrival := h.arrival events d request post rfl
  rw [Bool.not_eq_true', List.isEmpty_eq_false_iff_exists_mem]
  constructor
  · rintro ⟨c, hc⟩
    obtain ⟨hkey, hlive⟩ := (harrival.inv.lookup_iff harrival.later).1 ⟨c, hc, rfl, rfl⟩
    have hsame := h.initial.distinct.eq_of_fingerprint (sender_of_liveAt hlive) hx hkey
    exact ⟨c.address, hsame ▸ hlive⟩
  · rintro ⟨address, hlive⟩
    obtain ⟨c, hc, -⟩ := (harrival.inv.lookup_iff harrival.later).2 ⟨rfl, hlive⟩
    exact ⟨c, hc⟩

theorem WasProbed.mono {mid more : List (Draws × Message)} {p : EndpointRecord × Bool}
    (h : WasProbed V s₀ events mid p) : WasProbed V s₀ events (mid ++ more) p := by
  obtain ⟨between, d, request, later, rfl, hlive⟩ := h
  exact ⟨between, d, request, later ++ more, by simp, hlive⟩

theorem Asked.mono {more : List (Draws × Message)} (h : Asked lower args V s₀ events asked rest) :
    Asked lower args V s₀ (events ++ more) asked rest := by
  obtain ⟨hactive, pre, d, request, mid, rfl, hhits, hprobed⟩ := h
  exact ⟨hactive, pre, d, request, mid ++ more, by simp, hhits, fun p hp => (hprobed p hp).mono⟩

theorem ScanInv.mono {more : List (Draws × Message)} (h : ScanInv lower args V s₀ events scan) :
    ScanInv lower args V s₀ (events ++ more) scan := by
  cases scan with
  | listing | failed => trivial
  | probing live record rest printed =>
    obtain ⟨asked, hasked, hrest⟩ := h
    exact ⟨asked, hasked.mono, hrest⟩
  | done hits printed =>
    rcases h with ⟨hpassive, hprinted, pre, d, request, mid, rfl, hhits⟩ | ⟨asked, hasked, hrest⟩
    · exact .inl ⟨hpassive, hprinted, pre, d, request, mid ++ more, by simp, hhits⟩
    · exact .inr ⟨asked, hasked.mono, hrest⟩

theorem Asked.proceed (h : Asked lower args V s₀ events asked rest) :
    ScanInv lower args V s₀ events (args.proceed V.primitives lower (liveOf asked) rest
      ((staleOf asked).map (staleLine V.primitives))) := by
  cases rest with
  | nil => exact .inr ⟨asked, h, rfl, rfl⟩
  | cons record rest => exact ⟨asked, h, rfl, rfl⟩

theorem Asked.probe {alive : Bool} (h : Asked lower args V s₀ events asked (record :: rest))
    (hserved : Served V s₀ (events ++ [(d, request)]))
    (halive : alive = !(lookup V.records V.home (d.clock 0)
      (record.identity.fingerprint V.primitives) ((serviceRun V).after s₀ events).disk).isEmpty) :
    Asked lower args V s₀ (events ++ [(d, request)]) (asked ++ [(record, alive)]) rest := by
  obtain ⟨hactive, pre, d', request', mid, rfl, hhits, hprobed⟩ := h
  refine ⟨hactive, pre, d', request', mid ++ [(d, request)], by simp, ?_, fun p hp => ?_⟩
  · rw [hhits, List.map_append, List.append_assoc]
    rfl
  rcases List.mem_append.1 hp with hp | hp
  · exact (hprobed p hp).mono
  -- the device was listed, so it has registered
  have hrecord : record ∈ hitsAt lower args V s₀ pre d' := by
    rw [hhits]
    simp
  have hlisted := ((mem_hitsAt_iff (hserved.initial.arrival pre d' request' mid rfl)).1
    ⟨record, hrecord, rfl, rfl⟩).1
  have hsender := sender_of_liveAt hlisted
  rw [List.mem_singleton.1 hp]
  refine ⟨mid, d, request, [], rfl, ?_⟩
  rw [halive, List.append_assoc, List.singleton_append]
  refine alive_iff hserved ?_
  rw [List.map_append]
  exact List.mem_append_left _ hsender

theorem liveOf_concat {alive : Bool} :
    liveOf (asked ++ [(record, alive)]) = liveOf asked ++ if alive then [record] else [] := by
  cases alive <;> simp [liveOf]

theorem staleOf_concat {alive : Bool} :
    staleOf (asked ++ [(record, alive)]) = staleOf asked ++ if alive then [] else [record] := by
  cases alive <;> simp [staleOf]

/-- **How far the command comes**, in any interleaving with the service. -/
theorem scanInv_of_scanning (h : Scanning lower debug args V self s₀ events scan)
    (hserved : Served V s₀ events) : ScanInv lower args V s₀ events scan := by
  induction h with
  | started | broken => trivial
  | other before ih => exact (ih hserved.initial).mono
  | @called events scan d request frame id reply before next called answered ih =>
    have hinv := ih hserved.initial
    have hf : AppFrame.decode V.frames request.payload = .rendezvous frame :=
      decode_callRequest (V := { V with self }) called
    have hsave := (hserved.arrival events d request [] rfl).saved
    cases scan with
    | done | failed => cases next
    | listing =>
      obtain rfl := Option.some.inj next
      obtain rfl := Option.some.inj (reply_of_called hf trivial hsave answered)
      rw [Scan.receive]
      split_ifs with hactive
      · have hnobody : Asked lower args V s₀ (events ++ [(d, request)]) []
            (hitsAt lower args V s₀ events d) :=
          ⟨hactive, events, d, request, [], rfl, rfl, by simp⟩
        exact hnobody.proceed
      · exact .inl ⟨eq_false_of_ne_true hactive, rfl, events, d, request, [], rfl, rfl⟩
    | probing live record rest printed =>
      obtain rfl := Option.some.inj next
      obtain rfl := Option.some.inj (reply_of_called hf trivial hsave answered)
      obtain ⟨asked, hasked, rfl, rfl⟩ := hinv
      have hnext := (hasked.probe hserved rfl).proceed
      rw [liveOf_concat, staleOf_concat] at hnext
      rw [Scan.receive]
      split_ifs at hnext ⊢ with halive
      · rw [List.append_nil] at hnext
        exact hnext
      · rw [List.append_nil, List.map_append] at hnext
        exact hnext

theorem mem_liveOf : record ∈ liveOf asked ↔ (record, true) ∈ asked := by
  simp [liveOf]

theorem mem_staleOf : record ∈ staleOf asked ↔ (record, false) ∈ asked := by
  simp [staleOf]

theorem mem_map_fst_asked :
    record ∈ asked.map Prod.fst ↔ record ∈ liveOf asked ∨ record ∈ staleOf asked := by
  simp only [mem_liveOf, mem_staleOf, List.mem_map, Prod.exists, exists_and_right, exists_eq_right,
    Bool.exists_bool]
  exact or_comm

/-- What `Command::Scan` prints: the devices that are there at last, and before them those that were
not there any more when they were asked after. -/
structure ScanSpec (lower : String → String) (args : ScanArgs) (V : AppEnv) (s₀ : AppState)
    (events : List (Draws × Message)) (hits : List EndpointRecord) (printed : List String)
    (stale : List EndpointRecord) (pre : List (Draws × Message)) (d : Draws) (request : Message)
    (mid : List (Draws × Message)) : Prop where
  split : events = pre ++ (d, request) :: mid
  output : printed =
    stale.map (staleLine V.primitives) ++ args.report V.primitives lower hits
  /-- The service listed just those that were live and that the filter selects. -/
  listed : ∀ x address, (∃ c, (c ∈ hits ∨ c ∈ stale) ∧ c.identity = x ∧ c.address = address) ↔
    LiveAt V s₀ pre d x address ∧ args.selects V.primitives lower x address = true
  sorted : (hits.map fun c => c.identity.fingerprint V.primitives).Pairwise (· < ·)
  /-- Each was there, or was not, when the service was asked after it. -/
  there : ∀ c ∈ hits, args.active = true → WasProbed V s₀ (pre ++ [(d, request)]) mid (c, true)
  gone : ∀ c ∈ stale, args.active = true ∧
    WasProbed V s₀ (pre ++ [(d, request)]) mid (c, false)

/-- **What is printed was there**: in every run of the command and a service that starts without
records. -/
theorem scan_spec (hV : V.Postcard) (hempty : recordsOf V s₀ = .empty)
    (hservice : ∀ a ∈ events, OfService V a)
    (hsave : (serviceRun V).Along (RecordSaved V) s₀ events)
    (hclock : ∀ a ∈ events, (a.1.clock 0).toNat < clockLimit)
    (hmono : events.Pairwise fun a b => a.1.clock 0 ≤ b.1.clock 0)
    (hcollision : NoCollision V.primitives (events.map fun a => a.2.sender.publicKey.toList))
    {hits : List EndpointRecord} {printed : List String}
    (h : Scanning lower debug args V self s₀ events (.done hits printed)) :
    ∃ stale pre d request mid,
      ScanSpec lower args V s₀ events hits printed stale pre d request mid := by
  have hserved : Served V s₀ events := by
    refine ⟨fun pre d request post hsplit =>
      arrival_of_run hV hempty hservice hsave hclock hmono hcollision hsplit, ?_⟩
    rw [List.map_map]
    exact hcollision
  have hnodup : ∀ {pre d request mid}, events = pre ++ (d, request) :: mid →
      ((hitsAt lower args V s₀ pre d).map fun r => r.identity.fingerprint V.primitives).Pairwise
        (· < ·) := fun hsplit => by
    refine sorted_hits (nodup_listRecords fun e he => ?_)
    exact ((hserved.arrival _ _ _ _ hsplit).inv.keyed e he).1
  rcases scanInv_of_scanning h hserved with
    ⟨hpassive, hprinted, pre, d, request, mid, hsplit, rfl⟩ |
    ⟨asked, ⟨hactive, pre, d, request, mid, hsplit, hhits, hprobed⟩, rfl, hprinted⟩
  · refine ⟨[], pre, d, request, mid, hsplit, hprinted, fun x address => ?_, hnodup hsplit,
      fun c _ hactive => ?_, by simp⟩
    · simp only [List.not_mem_nil, or_false]
      exact mem_hitsAt_iff (hserved.arrival _ _ _ _ hsplit)
    · rw [hpassive] at hactive
      cases hactive
  · rw [List.append_nil] at hhits
    refine ⟨staleOf asked, pre, d, request, mid, hsplit, hprinted, fun x address => ?_, ?_,
      fun c hc _ => hprobed _ (mem_liveOf.1 hc),
      fun c hc => ⟨hactive, hprobed _ (mem_staleOf.1 hc)⟩⟩
    · simp only [← mem_map_fst_asked, ← hhits]
      exact mem_hitsAt_iff (hserved.arrival _ _ _ _ hsplit)
    · have hsorted := hnodup hsplit
      rw [hhits] at hsorted
      exact hsorted.sublist ((List.filter_sublist.map _).map _)

namespace Photo

/-- The visitor looks for everybody. -/
def scanArgs : ScanArgs := ⟨"core", none, true⟩

/-- The visitor's record. -/
def visitorRecord : EndpointRecord := ⟨visitor.pub .sample, "a:1", 0, 60⟩

/-- What the visitor asks after. -/
def probing : Message :=
  sentBy visitor (.rendezvous (.probe (visitorRecord.identity.fingerprint .sample)))

/-- The visitor registers, and scans. -/
def scanEvents : List (Draws × Message) :=
  [(drawn, registering "a:1"), (drawn, sentBy visitor (.rendezvous .list)), (drawn, probing)]

theorem scanning_visitor : Scanning id (fun _ => "") scanArgs env visitor settled scanEvents
    (.done [visitorRecord] [hitLine .sample visitorRecord]) := by
  have hregistered : Scanning id (fun _ => "") scanArgs env visitor settled
      [(drawn, registering "a:1")] .listing := .other .started
  have hlist : callRequest { env with self := visitor } env.identity (.rendezvous .list) note.id =
      .ok (sentBy visitor (.rendezvous .list)) := by decide +kernel
  have hprobe : callRequest { env with self := visitor } env.identity (.rendezvous (.probe
      (visitorRecord.identity.fingerprint .sample))) note.id = .ok probing := by decide +kernel
  have hlisting : replyTo env (sentBy visitor (.rendezvous .list)) ((serviceRun env).step
      ((serviceRun env).after settled [(drawn, registering "a:1")])
        (drawn, sentBy visitor (.rendezvous .list))).1 =
      some (.rendezvous (.listResult [visitorRecord])) := by decide +kernel
  have hprobing : replyTo env probing ((serviceRun env).step ((serviceRun env).after settled
      [(drawn, registering "a:1"), (drawn, sentBy visitor (.rendezvous .list))])
        (drawn, probing)).1 =
      some (.rendezvous (.probeResult (visitorRecord.identity.fingerprint .sample) true)) := by
    decide +kernel
  have hlisted : Scanning id (fun _ => "") scanArgs env visitor settled
      [(drawn, registering "a:1"), (drawn, sentBy visitor (.rendezvous .list))]
      (.probing [] visitorRecord [] []) := .called hregistered rfl hlist hlisting
  exact .called hlisted rfl hprobe hprobing

theorem recordSaved_asks (s : AppState) {f : RendezvousFrame} (hf : f = .list ∨ ∃ x, f = .probe x) :
    RecordSaved env s (drawn, sentBy visitor (.rendezvous f)) := by
  refine ⟨?_⟩
  rw [decode_sentBy]
  rcases hf with rfl | ⟨x, rfl⟩ <;> trivial

end Photo

open Photo in
/-- The visitor finds itself. -/
theorem scan_spec_visitor : ∃ stale pre d request mid, ScanSpec id scanArgs env settled scanEvents
    [visitorRecord] [hitLine .sample visitorRecord] stale pre d request mid := by
  have hmem : ∀ a ∈ scanEvents, ∃ f, a = (drawn, sentBy visitor (.rendezvous f)) := by
    refine List.forall_mem_cons.2 ⟨⟨_, rfl⟩, List.forall_mem_cons.2 ⟨⟨_, rfl⟩, ?_⟩⟩
    exact List.forall_mem_singleton.2 ⟨_, rfl⟩
  have hsame : ∀ b ∈ scanEvents.map fun a => a.2.sender.publicKey.toList,
      b = (visitor.pub .sample).publicKey.toList := fun b hb => by
    obtain ⟨a, ha, rfl⟩ := List.mem_map.1 hb
    obtain ⟨f, rfl⟩ := hmem a ha
    rfl
  have hsave : (serviceRun env).Along (RecordSaved env) settled scanEvents :=
    ⟨recordSaved_registering _, recordSaved_asks _ (.inl rfl), recordSaved_asks _ (.inr ⟨_, rfl⟩),
      trivial⟩
  have hclock : (drawn.clock 0).toNat < clockLimit := by decide
  refine scan_spec ⟨rfl, rfl⟩ recordsOf_settled (fun a ha => ?_) hsave (fun a ha => ?_) ?_
    (fun b hb c hc _ => (hsame b hb).trans (hsame c hc).symm) scanning_visitor
  · obtain ⟨f, rfl⟩ := hmem a ha
    exact ⟨f, decode_sentBy visitor _⟩
  · obtain ⟨f, rfl⟩ := hmem a ha
    exact hclock
  · simp [scanEvents]

end Neonet
