import Neonet.App.Answered
import Neonet.App.Sizes
import Neonet.Lib.Past
import Neonet.Lib.Saved
import Neonet.Storage.Integrity

/-!
# What the rendezvous service reports

A device registers an address for itself, for some time, and anybody may ask the service where a
device is, for all the addresses, or whether a device is there.

* `serviceRun` : a node that handles messages.
* `registration` : the registration of a device that is accepted, and when it expires.
* `Live` : the latest accepted registration of a device has not expired.
* `RegistrySpec` : what the service ought to keep and to report.
* `registryInv_of_run` : **in every run the records are the latest registrations, apart from some
  that have expired.**
* `registrySpec_iff` : **the service reports what is live iff each reply that reports something is
  small enough.**
* `not_registrySpec` : an address that is accepted and never reported.
-/

namespace Neonet

open FileTree FsM

/-- For how long a device is registered. -/
def recordTtl (ttlSecs : UInt32) : UInt64 := min (max ttlSecs.toUInt64 60) maxTtl

/-- `SystemTime` counts the seconds with 63 bits. -/
def clockLimit : ℕ := 2 ^ 63

section Service

variable (V : AppEnv)

/-- A node at work: each message is answered with those that it makes the node send. -/
def serviceRun : Machine AppState (Draws × Message) (List Message) where
  step s a := ((V.handle a.1 a.2 s).2.sent.drop s.sent.length, (V.handle a.1 a.2 s).2)

/-- The records that the node keeps. -/
def recordsOf (s : AppState) : Records := allRecords V.records V.home s.disk

/-- The address that `x` registers and when the registration expires, if it is accepted. -/
def registration (x : PublicIdentity) (e : (Draws × Message) × List Message) :
    Option (String × ℕ) :=
  match AppFrame.decode V.frames e.1.2.payload with
  | .rendezvous (.register address ttlSecs _) =>
    if e.1.2.sender = x ∧
        e.2 = [replyMessage V e.1.2 (V.frames.encode (.rendezvous .registered))] then
      some (address, (e.1.1.clock 0).toNat + (recordTtl ttlSecs).toNat)
    else none
  | _ => none

/-- The event is an accepted registration of `x` at the address, and the signature is its own. -/
def SignedBy (x : PublicIdentity) (address : String) (e : (Draws × Message) × List Message) :
    Prop :=
  (∃ expires, registration V x e = some (address, expires)) ∧
    ∃ ttlSecs signature, AppFrame.decode V.frames e.1.2.payload =
        .rendezvous (.register address ttlSecs signature) ∧
      V.primitives.verify x.publicKey (utf8 address) signature = true

/-- At time `t`, the latest accepted registration of `x` is one at the address, and has not
expired. -/
def Live (past : List ((Draws × Message) × List Message)) (t : UInt64) (x : PublicIdentity)
    (address : String) : Prop :=
  ∃ expires, latest (registration V x) past = some (address, expires) ∧ t.toNat < expires

/-- The answer to `Lookup` names `x` and the address. -/
def LookupReports (request : Message) (fingerprint : String) (sent : List Message)
    (x : PublicIdentity) (address : String) : Prop :=
  ∃ candidates, sent = [replyMessage V request
      (V.frames.encode (.rendezvous (.lookupResult fingerprint candidates)))] ∧
    ∃ c ∈ candidates, c.identity = x ∧ c.address = address

/-- The answer to `List` names `x` and the address. -/
def ListReports (request : Message) (sent : List Message) (x : PublicIdentity)
    (address : String) : Prop :=
  ∃ records, sent = [replyMessage V request
      (V.frames.encode (.rendezvous (.listResult records)))] ∧
    ∃ c ∈ records, c.identity = x ∧ c.address = address

/-- The answer to `Probe` says that the device is there. -/
def ProbeReports (request : Message) (fingerprint : String) (sent : List Message) : Prop :=
  sent = [replyMessage V request (V.frames.encode (.rendezvous (.probeResult fingerprint true)))]

/-- The message is a frame of the service. -/
def OfService (a : Draws × Message) : Prop :=
  ∃ f, AppFrame.decode V.frames a.2.payload = .rendezvous f

/-- The record of a registration can be written. -/
structure RecordSaved (s : AppState) (a : Draws × Message) : Prop where
  saves : V.Saves a.1 a.2 s (AppFrame.decode V.frames a.2.payload)

/-- What the service ought to keep and to report, in a run of its frames. -/
structure RegistrySpec (s₀ : AppState) (events : List (Draws × Message)) : Prop where
  /-- Each record was registered by its device, which signed the address. -/
  keyed : ∀ e ∈ (recordsOf V ((serviceRun V).after s₀ events)).entries,
    e.1 = e.2.identity.fingerprint V.primitives ∧
      ∃ a ∈ (serviceRun V).transcript s₀ events, SignedBy V e.2.identity e.2.address a
  lookups : ∀ pre d request post fingerprint, events = pre ++ (d, request) :: post →
    AppFrame.decode V.frames request.payload = .rendezvous (.lookup fingerprint) →
      ∀ x address, LookupReports V request fingerprint
          ((serviceRun V).step ((serviceRun V).after s₀ pre) (d, request)).1 x address ↔
        x.fingerprint V.primitives = fingerprint ∧
          Live V ((serviceRun V).transcript s₀ pre) (d.clock 0) x address
  lists : ∀ pre d request post, events = pre ++ (d, request) :: post →
    AppFrame.decode V.frames request.payload = .rendezvous .list →
      ∀ x address, ListReports V request
          ((serviceRun V).step ((serviceRun V).after s₀ pre) (d, request)).1 x address ↔
        Live V ((serviceRun V).transcript s₀ pre) (d.clock 0) x address
  probes : ∀ pre d request post fingerprint, events = pre ++ (d, request) :: post →
    AppFrame.decode V.frames request.payload = .rendezvous (.probe fingerprint) →
      (ProbeReports V request fingerprint
          ((serviceRun V).step ((serviceRun V).after s₀ pre) (d, request)).1 ↔
        ∃ x address, x.fingerprint V.primitives = fingerprint ∧
          Live V ((serviceRun V).transcript s₀ pre) (d.clock 0) x address)
  /-- A registration that is not accepted changes nothing. -/
  refused : ∀ pre d request post, events = pre ++ (d, request) :: post →
    (∀ x, registration V x ((d, request),
      ((serviceRun V).step ((serviceRun V).after s₀ pre) (d, request)).1) = none) →
        ((serviceRun V).after s₀ (pre ++ [(d, request)])).disk =
          ((serviceRun V).after s₀ pre).disk

/-- Each reply that has a live device to report is small enough. -/
structure RepliesFit (s₀ : AppState) (events : List (Draws × Message)) : Prop where
  lookups : ∀ pre d request post fingerprint, events = pre ++ (d, request) :: post →
    AppFrame.decode V.frames request.payload = .rendezvous (.lookup fingerprint) →
      (∃ x address, x.fingerprint V.primitives = fingerprint ∧
        Live V ((serviceRun V).transcript s₀ pre) (d.clock 0) x address) →
          Fits V request (.rendezvous (.lookupResult fingerprint
            (lookup V.records V.home (d.clock 0) fingerprint ((serviceRun V).after s₀ pre).disk)))
  lists : ∀ pre d request post, events = pre ++ (d, request) :: post →
    AppFrame.decode V.frames request.payload = .rendezvous .list →
      (∃ x address, Live V ((serviceRun V).transcript s₀ pre) (d.clock 0) x address) →
        Fits V request (.rendezvous (.listResult
          (listRecords V.records V.home (d.clock 0) ((serviceRun V).after s₀ pre).disk)))

end Service

variable {V : AppEnv} {R : Codec Records} {home : Home} {d : Draws} {request : Message}
  {s s' : AppState} {x : PublicIdentity} {address fingerprint : String} {now : UInt64}
  {t t' : Tree}

/-! ### Records -/

theorem allRecords_eq_saved : allRecords R home t = (saved R (recordsPath home) t).getD .empty := by
  rw [allRecords, saved, ← toOption_read (ε := IoError)]
  cases ((read (recordsPath home) : FsM IoError Bytes) t).1 <;> rfl

theorem Records.mem_insert {r : Records} {record : EndpointRecord} {e : String × EndpointRecord} :
    e ∈ (r.insert fingerprint record).entries ↔
      e ∈ r.entries ∧ e.1 ≠ fingerprint ∨ e = (fingerprint, record) := by
  simp [insert]

theorem Records.mem_prune {r : Records} {e : String × EndpointRecord} :
    e ∈ (r.prune now).entries ↔ e ∈ r.entries ∧ now < e.2.expiresAt := by
  simp [prune, retain]

theorem mem_lookup {c : EndpointRecord} :
    c ∈ lookup R home now fingerprint t ↔
      (fingerprint, c) ∈ (allRecords R home t).entries ∧ now < c.expiresAt := by
  simp only [lookup, List.mem_map, List.mem_filter, Records.mem_prune, decide_eq_true_eq]
  constructor
  · rintro ⟨⟨k, c⟩, ⟨⟨hmem, hlt⟩, rfl⟩, rfl⟩
    exact ⟨hmem, hlt⟩
  · rintro ⟨hmem, hlt⟩
    exact ⟨(fingerprint, c), ⟨⟨hmem, hlt⟩, rfl⟩, rfl⟩

theorem mem_listRecords {c : EndpointRecord} :
    c ∈ listRecords R home now t ↔
      ∃ e ∈ (allRecords R home t).entries, e.2 = c ∧ now < c.expiresAt := by
  rw [listRecords, (List.perm_insertionSort _ _).mem_iff]
  simp only [List.mem_map, Records.mem_prune]
  constructor
  · rintro ⟨e, ⟨hmem, hlt⟩, rfl⟩
    exact ⟨e, hmem, rfl, hlt⟩
  · rintro ⟨e, hmem, rfl, hlt⟩
    exact ⟨e, ⟨hmem, hlt⟩, rfl⟩

theorem recordsOf_register {ttlSecs : UInt32} {u : Unit}
    (h : register V.records V.home now V.primitives x address ttlSecs t = (.ok u, t')) :
    allRecords V.records V.home t' = ((allRecords V.records V.home t).insert
      (x.fingerprint V.primitives) ⟨x, address, now, now + recordTtl ttlSecs⟩).prune now := by
  rw [allRecords_eq_saved (t := t'), saved_replaceFile h]
  rfl

theorem toNat_recordTtl (ttlSecs : UInt32) :
    (recordTtl ttlSecs).toNat = min (max ttlSecs.toNat 60) 86400 := by
  rw [recordTtl, UInt64.toNat_min, UInt64.toNat_max]
  rfl

/-- The sum of a reading of the clock and a time to live is not too large. -/
theorem toNat_expiresAt {ttlSecs : UInt32} (h : now.toNat < clockLimit) :
    (now + recordTtl ttlSecs).toNat = now.toNat + (recordTtl ttlSecs).toNat := by
  have httl := toNat_recordTtl ttlSecs
  rw [clockLimit] at h
  rw [UInt64.toNat_add]
  omega

/-! ### One message -/

/-- What comes of a message: a device is registered, or no file changes. -/
inductive ServiceStep (V : AppEnv) (s : AppState) :
    Draws × Message → List Message × AppState → Prop
  | registered {d : Draws} {request : Message} {address : String} {ttlSecs : UInt32}
      {signature : Signature} {s' : AppState}
      (frame : AppFrame.decode V.frames request.payload =
        .rendezvous (.register address ttlSecs signature))
      (signed : V.primitives.verify request.sender.publicKey (utf8 address) signature = true)
      (records : recordsOf V s' = ((recordsOf V s).insert (request.sender.fingerprint V.primitives)
        ⟨request.sender, address, d.clock 0, d.clock 0 + recordTtl ttlSecs⟩).prune (d.clock 0)) :
      ServiceStep V s (d, request)
        ([replyMessage V request (V.frames.encode (.rendezvous .registered))], s')
  | other {a : Draws × Message} {sent : List Message} {s' : AppState}
      (none : ∀ x, registration V x (a, sent) = none) (disk : s'.disk = s.disk) :
      ServiceStep V s a (sent, s')

theorem serviceRun_step {f : RendezvousFrame}
    (hf : AppFrame.decode V.frames request.payload = .rendezvous f) :
    (serviceRun V).step s (d, request) =
      ((V.handleRendezvous d request f s).2.sent.drop s.sent.length,
        (V.handleRendezvous d request f s).2) := by
  have hhandle : V.handle d request s = V.handleRendezvous d request f s := by
    rw [AppEnv.handle, hf]
    rfl
  rw [← hhandle]
  rfl

theorem serviceRun_sent {f : RendezvousFrame}
    (hf : AppFrame.decode V.frames request.payload = .rendezvous f)
    (hawaited : (AppFrame.rendezvous f).Awaited) (hsave : RecordSaved V s (d, request)) :
    ((serviceRun V).step s (d, request)).1 =
      delivered V request ((V.answerRendezvous d request s f).map .rendezvous) := by
  have hwrite := hsave.saves
  rw [hf] at hwrite
  rw [serviceRun_step hf, sent_handleRendezvous hawaited hwrite, List.drop_left]

theorem registration_of_not_register {sent : List Message}
    (h : ∀ address ttlSecs signature, AppFrame.decode V.frames request.payload ≠
      .rendezvous (.register address ttlSecs signature)) :
    registration V x ((d, request), sent) = none := by
  rw [registration]
  split
  · rename_i heq
    exact absurd heq (h _ _ _)
  · rfl

theorem registration_of_error {message : String} :
    registration V x ((d, request), delivered V request (some (.rendezvous (.error message)))) =
      none := by
  rw [registration]
  split
  · refine if_neg fun ⟨_, hsent⟩ => ?_
    have hsingle : delivered V request (some (.rendezvous (.error message))) =
      [replyMessage V request (V.frames.encode (.rendezvous .registered))] := hsent
    obtain ⟨frame, hframe, -, hreply⟩ := delivered_eq_singleton.1 hsingle
    cases hframe
    cases replyMessage_injective hreply
  · rfl

/-- **What a message comes to.** -/
theorem serviceStep (hV : V.Postcard) {a : Draws × Message} (ha : OfService V a)
    (hsave : RecordSaved V s a) : ServiceStep V s a ((serviceRun V).step s a) := by
  obtain ⟨d, request⟩ := a
  obtain ⟨f, hf⟩ := ha
  cases f with
  | register address ttlSecs signature =>
    have hwrite := hsave.saves
    rw [hf] at hwrite
    rw [serviceRun_step hf, AppEnv.handleRendezvous]
    split_ifs with hparses hsigned
    · rw [AppState.replied_sent, List.drop_left]
      exact .other (fun x => registration_of_error) AppState.replied_disk
    · rw [AppState.replied_sent, List.drop_left]
      exact .other (fun x => registration_of_error) AppState.replied_disk
    · cases hrun : Neonet.register V.records V.home (d.clock 0) V.primitives request.sender address
          ttlSecs s.disk with
      | mk r disk =>
      obtain rfl : r = .ok () := by
        rw [AppEnv.Saves, hrun] at hwrite
        exact hwrite
      rw [AppState.onDisk, hrun]
      dsimp only
      rw [AppState.replied_of_fits (fits_registered hV)]
      dsimp only
      rw [List.drop_left]
      exact .registered hf (eq_true_of_ne_false hsigned) (recordsOf_register hrun)
  -- Only `register` writes.
  | lookup | list | probe =>
    refine .other (fun x => registration_of_not_register fun _ _ _ h => ?_) ?_
    · cases hf.symm.trans h
    · rw [AppEnv.handle, hf]
      exact AppState.replied_disk
  | registered | listResult | lookupResult | probeResult | error =>
    refine .other (fun x => registration_of_not_register fun _ _ _ h => ?_) ?_
    · cases hf.symm.trans h
    · rw [AppEnv.handle, hf]
      rfl

/-! ### Runs -/

/-- Who sent the messages. -/
def senders (past : List ((Draws × Message) × List Message)) : List PublicIdentity :=
  past.map fun e => e.1.2.sender

/-- The records are the latest registrations, apart from some that have expired. -/
structure RegistryInv (V : AppEnv) (past : List ((Draws × Message) × List Message))
    (s : AppState) : Prop where
  keyed : ∀ e ∈ (recordsOf V s).entries, e.1 = e.2.identity.fingerprint V.primitives ∧
    latest (registration V e.2.identity) past = some (e.2.address, e.2.expiresAt.toNat)
  signed : ∀ e ∈ (recordsOf V s).entries, ∃ a ∈ past, SignedBy V e.2.identity e.2.address a
  known : ∀ x address expires, latest (registration V x) past = some (address, expires) →
    (∃ e ∈ (recordsOf V s).entries, e.1 = x.fingerprint V.primitives ∧ e.2.identity = x ∧
        e.2.address = address ∧ e.2.expiresAt.toNat = expires) ∨
      ∃ a ∈ past, expires ≤ (a.1.1.clock 0).toNat

theorem sender_of_registration {e : (Draws × Message) × List Message} {r : String × ℕ}
    (h : registration V x e = some r) : e.1.2.sender = x := by
  rw [registration] at h
  split at h
  · split_ifs at h with hx
    exact hx.1
  · cases h

theorem mem_senders_of_latest {past : List ((Draws × Message) × List Message)} {r : String × ℕ}
    (h : latest (registration V x) past = some r) : x ∈ senders past := by
  obtain ⟨pre, e, post, rfl, he, -⟩ := latest_eq_some.1 h
  exact List.mem_map.2 ⟨e, by simp, sender_of_registration he⟩

theorem RegistryInv.other {past : List ((Draws × Message) × List Message)} {a : Draws × Message}
    {sent : List Message} (h : RegistryInv V past s)
    (none : ∀ x, registration V x (a, sent) = none) (disk : s'.disk = s.disk) :
    RegistryInv V (past ++ [(a, sent)]) s' := by
  have hrecords : recordsOf V s' = recordsOf V s := congrArg (allRecords V.records V.home) disk
  have hlatest : ∀ x, latest (registration V x) (past ++ [(a, sent)]) =
      latest (registration V x) past := fun x => latest_concat_of_none (none x)
  refine ⟨fun e he => ?_, fun e he => ?_, fun x address expires hx => ?_⟩
  · rw [hlatest]
    exact h.keyed e (hrecords ▸ he)
  · obtain ⟨b, hb, hsigned⟩ := h.signed e (hrecords ▸ he)
    exact ⟨b, List.mem_append_left _ hb, hsigned⟩
  · rw [hlatest] at hx
    rw [hrecords]
    exact (h.known x address expires hx).imp_right fun ⟨b, hb, hle⟩ =>
      ⟨b, List.mem_append_left _ hb, hle⟩

/-- A registration keeps the invariant: the record of the sender is the new one. -/
theorem RegistryInv.registered {past : List ((Draws × Message) × List Message)}
    {ttlSecs : UInt32} {signature : Signature} (h : RegistryInv V past s)
    (frame : AppFrame.decode V.frames request.payload =
      .rendezvous (.register address ttlSecs signature))
    (signed : V.primitives.verify request.sender.publicKey (utf8 address) signature = true)
    (records : recordsOf V s' = ((recordsOf V s).insert (request.sender.fingerprint V.primitives)
      ⟨request.sender, address, d.clock 0, d.clock 0 + recordTtl ttlSecs⟩).prune (d.clock 0))
    (hclock : (d.clock 0).toNat < clockLimit)
    (hcollision : NoCollision V.primitives ((senders (past ++ [((d, request),
      [replyMessage V request (V.frames.encode (.rendezvous .registered))])])).map
        (·.publicKey.toList))) :
    RegistryInv V (past ++ [((d, request),
      [replyMessage V request (V.frames.encode (.rendezvous .registered))])]) s' := by
  have hnew : registration V request.sender ((d, request),
      [replyMessage V request (V.frames.encode (.rendezvous .registered))]) =
      some (address, (d.clock 0 + recordTtl ttlSecs).toNat) := by
    rw [registration, frame, toNat_expiresAt hclock]
    exact if_pos ⟨rfl, rfl⟩
  have hothers : ∀ x, x ≠ request.sender → latest (registration V x) (past ++ [((d, request),
      [replyMessage V request (V.frames.encode (.rendezvous .registered))])]) =
        latest (registration V x) past := fun x hx => by
    refine latest_concat_of_none ?_
    rw [registration, frame]
    exact if_neg fun hsender => hx hsender.1.symm
  have hmem : ∀ e, e ∈ (recordsOf V s').entries ↔
      (e ∈ (recordsOf V s).entries ∧ e.1 ≠ request.sender.fingerprint V.primitives ∨
        e = (request.sender.fingerprint V.primitives,
          ⟨request.sender, address, d.clock 0, d.clock 0 + recordTtl ttlSecs⟩)) ∧
      d.clock 0 < e.2.expiresAt := fun e => by
    rw [records, Records.mem_prune, Records.mem_insert]
  refine ⟨fun e he => ?_, fun e he => ?_, fun x address' expires hx => ?_⟩
  · obtain ⟨⟨hold, hne⟩ | rfl, -⟩ := (hmem e).1 he
    · obtain ⟨hkey, hlast⟩ := h.keyed e hold
      refine ⟨hkey, ?_⟩
      rw [hothers _ fun heq => hne (by rw [hkey, heq])]
      exact hlast
    · exact ⟨rfl, latest_concat_of_some hnew⟩
  · obtain ⟨⟨hold, -⟩ | rfl, -⟩ := (hmem e).1 he
    · obtain ⟨b, hb, hsigned⟩ := h.signed e hold
      exact ⟨b, List.mem_append_left _ hb, hsigned⟩
    · exact ⟨_, List.mem_append_right _ (List.mem_singleton_self _), ⟨_, hnew⟩, ttlSecs,
        signature, frame, signed⟩
  · by_cases hsender : x = request.sender
    · subst hsender
      rw [latest_concat_of_some hnew] at hx
      cases hx
      refine .inl ⟨_, (hmem _).2 ⟨.inr rfl, ?_⟩, rfl, rfl, rfl, rfl⟩
      have httl := toNat_recordTtl ttlSecs
      rw [UInt64.lt_iff_toNat_lt, toNat_expiresAt hclock]
      omega
    · rw [hothers x hsender] at hx
      rcases h.known x address' expires hx with ⟨e, he, hkey, rfl, haddress, hexpires⟩ |
        ⟨b, hb, hle⟩
      · have hne : e.1 ≠ request.sender.fingerprint V.primitives := fun heq => by
          refine hsender (hcollision.eq_of_fingerprint ?_ ?_ (hkey.symm.trans heq))
          · rw [senders, List.map_append]
            exact List.mem_append_left _ (mem_senders_of_latest hx)
          · simp [senders]
        rcases UInt64.lt_or_le (d.clock 0) e.2.expiresAt with hlt | hle
        · exact .inl ⟨e, (hmem e).2 ⟨.inl ⟨he, hne⟩, hlt⟩, hkey, rfl, haddress, hexpires⟩
        -- the record has expired, and is left out
        · refine .inr ⟨_, List.mem_append_right _ (List.mem_singleton_self _), ?_⟩
          rw [← hexpires]
          exact UInt64.le_iff_toNat_le.1 hle
      · exact .inr ⟨b, List.mem_append_left _ hb, hle⟩

/-- **One message** keeps the invariant. -/
theorem RegistryInv.step {past : List ((Draws × Message) × List Message)} {a : Draws × Message}
    {r : List Message × AppState} (h : RegistryInv V past s) (hstep : ServiceStep V s a r)
    (hclock : (a.1.clock 0).toNat < clockLimit)
    (hcollision : NoCollision V.primitives
      ((senders (past ++ [(a, r.1)])).map (·.publicKey.toList))) :
    RegistryInv V (past ++ [(a, r.1)]) r.2 := by
  cases hstep with
  | other none disk => exact h.other none disk
  | registered frame signed records => exact h.registered frame signed records hclock hcollision

/-- **The records are the latest registrations**, in every run from an empty registry. -/
theorem registryInv_of_run (hV : V.Postcard) {s₀ : AppState} {events : List (Draws × Message)}
    (hempty : recordsOf V s₀ = .empty) (hservice : ∀ a ∈ events, OfService V a)
    (hsave : (serviceRun V).Along (RecordSaved V) s₀ events)
    (hclock : ∀ a ∈ events, (a.1.clock 0).toNat < clockLimit)
    (hcollision : NoCollision V.primitives (events.map fun a => a.2.sender.publicKey.toList)) :
    RegistryInv V ((serviceRun V).transcript s₀ events) ((serviceRun V).after s₀ events) := by
  have hrun : NoCollision V.primitives
      ((senders ((serviceRun V).transcript s₀ events)).map (·.publicKey.toList)) →
        RegistryInv V ((serviceRun V).transcript s₀ events) ((serviceRun V).after s₀ events) := by
    refine Machine.Along.history (I := fun past s => NoCollision V.primitives
        ((senders past).map (·.publicKey.toList)) → RegistryInv V past s)
      ((hsave.and_forall hservice).and_forall hclock) (fun _ => ?_) fun past s a ha ih hnew => ?_
    · refine ⟨fun e he => ?_, fun e he => ?_, fun x address expires hx => by cases hx⟩ <;>
      · rw [hempty] at he
        cases he
    · have hpast : senders past ⊆ senders (past ++ [(a, ((serviceRun V).step s a).1)]) := by
        rw [senders, senders, List.map_append]
        exact List.subset_append_left _ _
      refine (ih fun b hb c hc => ?_).step (serviceStep hV ha.1.2 ha.1.1) ha.2 hnew
      exact hnew b (List.map_subset _ hpast hb) c (List.map_subset _ hpast hc)
  have hactions : ((serviceRun V).transcript s₀ events).map Prod.fst = events :=
    Machine.map_fst_transcript
  refine hrun ?_
  rw [← hactions, List.map_map] at hcollision
  rwa [senders, List.map_map]

/-- What is live is what a record says, which has not expired. -/
theorem RegistryInv.live_iff {past : List ((Draws × Message) × List Message)}
    (h : RegistryInv V past s) (hpast : ∀ a ∈ past, (a.1.1.clock 0).toNat ≤ now.toNat) :
    Live V past now x address ↔ ∃ e ∈ (recordsOf V s).entries,
      e.1 = x.fingerprint V.primitives ∧ e.2.identity = x ∧ e.2.address = address ∧
        now < e.2.expiresAt := by
  constructor
  · rintro ⟨expires, hlast, hlt⟩
    rcases h.known x address expires hlast with ⟨e, he, hkey, hx, haddress, hexpires⟩ |
      ⟨a, ha, hle⟩
    · exact ⟨e, he, hkey, hx, haddress, UInt64.lt_iff_toNat_lt.2 (hexpires ▸ hlt)⟩
    · exact absurd (hpast a ha) (by omega)
  · rintro ⟨e, he, -, rfl, rfl, hlt⟩
    exact ⟨_, (h.keyed e he).2, UInt64.lt_iff_toNat_lt.1 hlt⟩

section Reports

variable {past : List ((Draws × Message) × List Message)} (h : RegistryInv V past s)
  (hpast : ∀ a ∈ past, (a.1.1.clock 0).toNat ≤ now.toNat)

include h hpast

theorem RegistryInv.lookup_iff :
    (∃ c ∈ lookup V.records V.home now fingerprint s.disk,
        c.identity = x ∧ c.address = address) ↔
      x.fingerprint V.primitives = fingerprint ∧ Live V past now x address := by
  rw [h.live_iff hpast]
  constructor
  · rintro ⟨c, hc, rfl, rfl⟩
    obtain ⟨hmem, hlt⟩ := mem_lookup.1 hc
    have hkey := (h.keyed _ hmem).1
    exact ⟨hkey.symm, _, hmem, hkey, rfl, rfl, hlt⟩
  · rintro ⟨rfl, ⟨k, c⟩, hmem, rfl, hx, haddress, hlt⟩
    exact ⟨c, mem_lookup.2 ⟨hmem, hlt⟩, hx, haddress⟩

theorem RegistryInv.list_iff :
    (∃ c ∈ listRecords V.records V.home now s.disk, c.identity = x ∧ c.address = address) ↔
      Live V past now x address := by
  rw [h.live_iff hpast]
  constructor
  · rintro ⟨c, hc, rfl, rfl⟩
    obtain ⟨e, hmem, rfl, hlt⟩ := mem_listRecords.1 hc
    exact ⟨e, hmem, (h.keyed e hmem).1, rfl, rfl, hlt⟩
  · rintro ⟨e, hmem, -, hx, haddress, hlt⟩
    exact ⟨e.2, mem_listRecords.2 ⟨e, hmem, rfl, hlt⟩, hx, haddress⟩

end Reports

theorem lookupReports_delivered {candidates : List EndpointRecord} :
    LookupReports V request fingerprint
        (delivered V request (some (.rendezvous (.lookupResult fingerprint candidates)))) x
          address ↔
      Fits V request (.rendezvous (.lookupResult fingerprint candidates)) ∧
        ∃ c ∈ candidates, c.identity = x ∧ c.address = address := by
  constructor
  · rintro ⟨candidates', hsent, hc⟩
    obtain ⟨frame, hframe, hfits, hreply⟩ := delivered_eq_singleton.1 hsent
    cases hframe
    cases replyMessage_injective hreply
    exact ⟨hfits, hc⟩
  · rintro ⟨hfits, hc⟩
    exact ⟨candidates, delivered_eq_singleton.2 ⟨_, rfl, hfits, rfl⟩, hc⟩

theorem listReports_delivered {records : List EndpointRecord} :
    ListReports V request (delivered V request (some (.rendezvous (.listResult records)))) x
        address ↔
      Fits V request (.rendezvous (.listResult records)) ∧
        ∃ c ∈ records, c.identity = x ∧ c.address = address := by
  constructor
  · rintro ⟨records', hsent, hc⟩
    obtain ⟨frame, hframe, hfits, hreply⟩ := delivered_eq_singleton.1 hsent
    cases hframe
    cases replyMessage_injective hreply
    exact ⟨hfits, hc⟩
  · rintro ⟨hfits, hc⟩
    exact ⟨records, delivered_eq_singleton.2 ⟨_, rfl, hfits, rfl⟩, hc⟩

theorem probeReports_delivered {alive : Bool} :
    ProbeReports V request fingerprint
        (delivered V request (some (.rendezvous (.probeResult fingerprint alive)))) ↔
      Fits V request (.rendezvous (.probeResult fingerprint alive)) ∧ alive = true := by
  constructor
  · intro hsent
    obtain ⟨frame, hframe, hfits, hreply⟩ := delivered_eq_singleton.1 hsent
    cases hframe
    cases replyMessage_injective hreply
    exact ⟨hfits, rfl⟩
  · rintro ⟨hfits, rfl⟩
    exact delivered_eq_singleton.2 ⟨_, rfl, hfits, rfl⟩

theorem fits_probeResult (hV : V.Postcard) {alive : Bool} :
    Fits V request (.rendezvous (.probeResult (x.fingerprint V.primitives) alive)) := by
  have hframe := Wire.length_tag_le (n := 5) (by omega)
  have hcase := Wire.length_tag_le (n := 7) (by omega)
  have hname : (Wire.string.write (x.fingerprint V.primitives)).length ≤ 128 :=
    Wire.length_string_le (by rw [utf8ByteSize_fingerprint]; omega)
  have hflag : (Wire.bool.write alive).length ≤ 1 := by cases alive <;> decide
  refine fits_of_length_le hV ?_
  rw [AppFrame.wire, Wire.length_enum, RendezvousFrame.wire, Wire.length_enum]
  dsimp only [Wire.pair]
  rw [List.length_append]
  omega

section Runs

variable {s₀ : AppState} {events : List (Draws × Message)}

/-- The run so far, when a message arrives. -/
structure Arrival (V : AppEnv) (s₀ : AppState) (pre : List (Draws × Message)) (d : Draws)
    (request : Message) : Prop where
  inv : RegistryInv V ((serviceRun V).transcript s₀ pre) ((serviceRun V).after s₀ pre)
  service : OfService V (d, request)
  saved : RecordSaved V ((serviceRun V).after s₀ pre) (d, request)
  /-- The clock has not gone back. -/
  later : ∀ a ∈ (serviceRun V).transcript s₀ pre, (a.1.1.clock 0).toNat ≤ (d.clock 0).toNat

theorem arrival_of_run (hV : V.Postcard) (hempty : recordsOf V s₀ = .empty)
    (hservice : ∀ a ∈ events, OfService V a)
    (hsave : (serviceRun V).Along (RecordSaved V) s₀ events)
    (hclock : ∀ a ∈ events, (a.1.clock 0).toNat < clockLimit)
    (hmono : events.Pairwise fun a b => a.1.clock 0 ≤ b.1.clock 0)
    (hcollision : NoCollision V.primitives (events.map fun a => a.2.sender.publicKey.toList))
    {pre post : List (Draws × Message)} (hsplit : events = pre ++ (d, request) :: post) :
    Arrival V s₀ pre d request := by
  subst hsplit
  obtain ⟨hpre, hthis⟩ := Machine.along_append.1 hsave
  refine ⟨registryInv_of_run hV hempty (fun a ha => hservice a (List.mem_append_left _ ha)) hpre
    (fun a ha => hclock a (List.mem_append_left _ ha)) fun a ha b hb => ?_, hservice _ (by simp),
    hthis.1, fun a ha => ?_⟩
  · rw [List.map_append] at hcollision
    exact hcollision a (List.mem_append_left _ ha) b (List.mem_append_left _ hb)
  · exact UInt64.le_iff_toNat_le.1 ((List.pairwise_append.1 hmono).2.2 a.1
      (Machine.fst_mem_of_mem_transcript ha) _ List.mem_cons_self)

/-! ### What is reported of an arrival -/

namespace Arrival

variable {pre : List (Draws × Message)}

/-- A lookup is answered with what is live, if the reply is small enough. -/
theorem lookupReports_iff (h : Arrival V s₀ pre d request)
    (hf : AppFrame.decode V.frames request.payload = .rendezvous (.lookup fingerprint)) :
    LookupReports V request fingerprint
        ((serviceRun V).step ((serviceRun V).after s₀ pre) (d, request)).1 x address ↔
      Fits V request (.rendezvous (.lookupResult fingerprint
        (lookup V.records V.home (d.clock 0) fingerprint ((serviceRun V).after s₀ pre).disk))) ∧
        x.fingerprint V.primitives = fingerprint ∧
          Live V ((serviceRun V).transcript s₀ pre) (d.clock 0) x address := by
  rw [serviceRun_sent hf trivial h.saved]
  refine lookupReports_delivered.trans ?_
  rw [h.inv.lookup_iff h.later]

theorem listReports_iff (h : Arrival V s₀ pre d request)
    (hf : AppFrame.decode V.frames request.payload = .rendezvous .list) :
    ListReports V request
        ((serviceRun V).step ((serviceRun V).after s₀ pre) (d, request)).1 x address ↔
      Fits V request (.rendezvous (.listResult
        (listRecords V.records V.home (d.clock 0) ((serviceRun V).after s₀ pre).disk))) ∧
        Live V ((serviceRun V).transcript s₀ pre) (d.clock 0) x address := by
  rw [serviceRun_sent hf trivial h.saved]
  refine listReports_delivered.trans ?_
  rw [h.inv.list_iff h.later]

/-- A probe is always answered. -/
theorem probeReports_iff (h : Arrival V s₀ pre d request) (hV : V.Postcard)
    (hf : AppFrame.decode V.frames request.payload = .rendezvous (.probe fingerprint)) :
    ProbeReports V request fingerprint
        ((serviceRun V).step ((serviceRun V).after s₀ pre) (d, request)).1 ↔
      ∃ x address, x.fingerprint V.primitives = fingerprint ∧
        Live V ((serviceRun V).transcript s₀ pre) (d.clock 0) x address := by
  rw [serviceRun_sent hf trivial h.saved]
  refine probeReports_delivered.trans ?_
  have hfound : (!(lookup V.records V.home (d.clock 0) fingerprint
        ((serviceRun V).after s₀ pre).disk).isEmpty) = true ↔
      ∃ c, c ∈ lookup V.records V.home (d.clock 0) fingerprint
        ((serviceRun V).after s₀ pre).disk := by
    rw [Bool.not_eq_true', List.isEmpty_eq_false_iff_exists_mem]
  rw [hfound]
  constructor
  · rintro ⟨-, c, hc⟩
    exact ⟨c.identity, c.address, (h.inv.lookup_iff h.later).1 ⟨c, hc, rfl, rfl⟩⟩
  · rintro ⟨x, address, hlive⟩
    obtain ⟨c, hc, -⟩ := (h.inv.lookup_iff h.later).2 hlive
    -- the fingerprint is that of a device, so its length is known
    rw [← hlive.1]
    exact ⟨fits_probeResult hV, c, hlive.1 ▸ hc⟩

theorem disk_of_refused (h : Arrival V s₀ pre d request) (hV : V.Postcard)
    (hnone : ∀ x, registration V x ((d, request),
      ((serviceRun V).step ((serviceRun V).after s₀ pre) (d, request)).1) = none) :
    ((serviceRun V).after s₀ (pre ++ [(d, request)])).disk =
      ((serviceRun V).after s₀ pre).disk := by
  have hstep := serviceStep hV h.service h.saved
  rw [Machine.after_concat]
  generalize (serviceRun V).step ((serviceRun V).after s₀ pre) (d, request) = r
    at hstep hnone ⊢
  cases hstep with
  | other _ disk => exact disk
  | registered frame _ _ =>
    have hnew := hnone request.sender
    rw [registration, frame] at hnew
    exact absurd hnew (by simp)

end Arrival

/-- **The service reports what is live iff the replies are small enough**, in every run from an
empty registry. -/
theorem registrySpec_iff (hV : V.Postcard) (hempty : recordsOf V s₀ = .empty)
    (hservice : ∀ a ∈ events, OfService V a)
    (hsave : (serviceRun V).Along (RecordSaved V) s₀ events)
    (hclock : ∀ a ∈ events, (a.1.clock 0).toNat < clockLimit)
    (hmono : events.Pairwise fun a b => a.1.clock 0 ≤ b.1.clock 0)
    (hcollision : NoCollision V.primitives (events.map fun a => a.2.sender.publicKey.toList)) :
    RegistrySpec V s₀ events ↔ RepliesFit V s₀ events := by
  have harrival : ∀ pre d request post, events = pre ++ (d, request) :: post →
      Arrival V s₀ pre d request := fun pre d request post hsplit =>
    arrival_of_run hV hempty hservice hsave hclock hmono hcollision hsplit
  have hinv := registryInv_of_run hV hempty hservice hsave hclock hcollision
  constructor
  · intro h
    constructor
    · rintro pre d request post fingerprint hsplit hf ⟨x, address, hlive⟩
      have hreport := (h.lookups pre d request post fingerprint hsplit hf x address).2 hlive
      exact (((harrival pre d request post hsplit).lookupReports_iff hf).1 hreport).1
    · rintro pre d request post hsplit hf ⟨x, address, hlive⟩
      have hreport := (h.lists pre d request post hsplit hf x address).2 hlive
      exact (((harrival pre d request post hsplit).listReports_iff hf).1 hreport).1
  · intro h
    refine ⟨fun e he => ⟨(hinv.keyed e he).1, hinv.signed e he⟩,
      fun pre d request post fingerprint hsplit hf x address => ?_,
      fun pre d request post hsplit hf x address => ?_,
      fun pre d request post fingerprint hsplit hf =>
        (harrival pre d request post hsplit).probeReports_iff hV hf,
      fun pre d request post hsplit hnone =>
        (harrival pre d request post hsplit).disk_of_refused hV hnone⟩
    · rw [(harrival pre d request post hsplit).lookupReports_iff hf]
      exact and_iff_right_of_imp fun hlive =>
        h.lookups pre d request post fingerprint hsplit hf ⟨x, address, hlive⟩
    · rw [(harrival pre d request post hsplit).listReports_iff hf]
      exact and_iff_right_of_imp fun hlive =>
        h.lists pre d request post hsplit hf ⟨x, address, hlive⟩

end Runs

namespace Photo

/-- The visitor registers an address for a minute. -/
def registering (address : String) : Message :=
  sentBy visitor (.rendezvous (.register address 60
    (Primitives.sample.sign visitor.signingKey (utf8 address))))

/-- The owner asks where the visitor is. -/
def asking : Message :=
  sentBy owner (.rendezvous (.lookup ((visitor.pub .sample).fingerprint .sample)))

theorem recordsOf_settled : recordsOf env settled = .empty := by
  have hcontent : settled.disk.content (recordsPath env.home) = none := by decide +kernel
  rw [recordsOf, allRecords_eq_saved, saved, hcontent]
  rfl

/-- An address of any length can be registered. -/
theorem recordSaved_registering (address : String) :
    RecordSaved env settled (drawn, registering address) := by
  have hshort : ((replaceFile (recordsTmpPath env.home) (recordsPath env.home) [] :
    FsM IoError Unit) settled.disk).1 = .ok () := by decide +kernel
  refine ⟨?_⟩
  rw [registering, decode_sentBy]
  exact replaceFile_ok_congr hshort

theorem recordSaved_asking (s : AppState) : RecordSaved env s (drawn, asking) := by
  refine ⟨?_⟩
  rw [asking, decode_sentBy]
  trivial

theorem ofService_registering (address : String) : OfService env (drawn, registering address) :=
  ⟨_, decode_sentBy visitor _⟩

theorem noCollision_visitor (address : String) : NoCollision env.primitives
    ([(drawn, registering address), (drawn, asking)].map fun a => a.2.sender.publicKey.toList) := by
  have h : NoCollision env.primitives
    [(visitor.pub .sample).publicKey.toList, (owner.pub .sample).publicKey.toList] := by
      decide +kernel
  exact h

end Photo

open Photo in
/-- The visitor registers, and the owner finds it. -/
theorem registrySpec_iff_visitor :
    RegistrySpec env settled [(drawn, registering "a:1"), (drawn, asking)] ↔
      RepliesFit env settled [(drawn, registering "a:1"), (drawn, asking)] := by
  refine registrySpec_iff ⟨rfl, rfl⟩ recordsOf_settled (fun a ha => ?_)
    ⟨recordSaved_registering _, recordSaved_asking _, trivial⟩ (fun a ha => ?_) (by simp)
    (noCollision_visitor _)
  · rcases List.mem_pair.1 ha with rfl | rfl
    · exact ofService_registering _
    · exact ⟨_, decode_sentBy owner _⟩
  · rcases List.mem_pair.1 ha with rfl | rfl <;> decide

namespace Photo

/-- An address that is too long for an answer. -/
def longAddress : String := String.ofList (List.replicate 1048400 'a')

theorem utf8ByteSize_longAddress : longAddress.utf8ByteSize = 1048400 :=
  Wire.utf8ByteSize_replicate 1048400 'a'

theorem length_payload_registering (address : String) :
    (registering address).payload.length = (Wire.string.write address).length + 67 := by
  have htag : (Wire.nat.write 5).length = 1 := by decide
  have hcase : (Wire.nat.write 0).length = 1 := by decide
  have httl : (Wire.u32.write 60).length = 1 := by decide
  have hsignature : ((Wire.array 64).write (Primitives.sample.sign visitor.signingKey
    (utf8 address))).length = 64 := List.Vector.toList_length _
  rw [show (registering address).payload = AppFrame.wire.write (.rendezvous (.register address 60
    (Primitives.sample.sign visitor.signingKey (utf8 address)))) from rfl, AppFrame.wire,
    Wire.length_enum, RendezvousFrame.wire, Wire.length_enum]
  dsimp only [Wire.pair]
  rw [List.length_append, List.length_append, htag, hcase, httl, hsignature]
  omega

/-- A candidate with an address of this length makes the answer too long. -/
theorem not_fits_lookupResult {candidates : List EndpointRecord} {c : EndpointRecord}
    (hc : c ∈ candidates) (haddress : c.address.utf8ByteSize = 1048400) :
    ¬ Fits env asking (.rendezvous (.lookupResult ((visitor.pub .sample).fingerprint .sample)
      candidates)) := by
  rw [fits_iff ⟨rfl, rfl⟩]
  have htag : (Wire.nat.write 5).length = 1 := by decide
  have hcase : (Wire.nat.write 3).length = 1 := by decide
  have hname : 65 ≤ (Wire.string.write ((visitor.pub .sample).fingerprint .sample)).length := by
    decide +kernel
  have hrecord : 1048435 ≤ (EndpointRecord.wire.write c).length := by
    have hkey : (PublicIdentity.wire.write c.identity).length = 32 := List.Vector.toList_length _
    rw [EndpointRecord.wire]
    dsimp only [Wire.comap, Wire.pair]
    rw [List.length_append, List.length_append, hkey, Wire.length_string, haddress,
      Wire.length_nat_of_three (by decide) (by decide)]
    omega
  have hseq : (EndpointRecord.wire.write c).length ≤
      ((Wire.seq EndpointRecord.wire).write candidates).length := Wire.length_le_seq hc
  have hframe : 1048502 ≤ (AppFrame.wire.write (.rendezvous
      (.lookupResult ((visitor.pub .sample).fingerprint .sample) candidates))).length := by
    rw [AppFrame.wire, Wire.length_enum, RendezvousFrame.wire, Wire.length_enum]
    dsimp only [Wire.pair]
    rw [List.length_append, htag, hcase]
    omega
  have hmax : maxMessageSize = 1048576 := rfl
  rw [Wire.length_bytes, hmax]
  generalize (AppFrame.wire.write _).length = n at hframe
  intro hle
  have hnum : (Wire.nat.write n).length = 3 :=
    Wire.length_nat_of_three (by omega) (by omega)
  omega

theorem live_registering (address : String) :
    Live env ((serviceRun env).transcript settled [(drawn, registering address)])
      (drawn.clock 0) (visitor.pub .sample) address := by
  have hframe : AppFrame.decode env.frames (registering address).payload = _ :=
    decode_sentBy visitor _
  have hsent := serviceRun_sent hframe trivial (recordSaved_registering address)
  have hsigned : env.primitives.verify (registering address).sender.publicKey (utf8 address)
      (Primitives.sample.sign visitor.signingKey (utf8 address)) = true := decide_eq_true rfl
  have hparses : env.parsesKey (registering address).sender.publicKey = true := rfl
  rw [AppEnv.answerRendezvous, hparses, if_neg fun h => Bool.noConfusion h, hsigned,
    if_neg fun h => Bool.noConfusion h] at hsent
  have hregistered : ((serviceRun env).step settled (drawn, registering address)).1 =
      [replyMessage env (registering address)
        (env.frames.encode (.rendezvous .registered))] :=
    hsent.trans (delivered_eq_singleton.2 ⟨_, rfl, fits_registered ⟨rfl, rfl⟩, rfl⟩)
  have hregistration : registration env (visitor.pub .sample) ((drawn, registering address),
      ((serviceRun env).step settled (drawn, registering address)).1) = some (address, 60) := by
    rw [registration, hframe]
    exact if_pos ⟨rfl, hregistered⟩
  exact ⟨60, latest_concat_of_some (h := []) hregistration, by decide⟩

/-- If the address is this long, the owner is not told it. -/
theorem not_registrySpec_of_long {address : String} (h : address.utf8ByteSize = 1048400) :
    ¬ RegistrySpec env settled [(drawn, registering address), (drawn, asking)] := by
  intro hspec
  have hframe : AppFrame.decode env.frames asking.payload = _ := decode_sentBy owner _
  have hreport := (hspec.lookups [(drawn, registering address)] drawn asking [] _ rfl hframe
    (visitor.pub .sample) address).2 ⟨rfl, live_registering address⟩
  have hsent := serviceRun_sent hframe trivial
    (recordSaved_asking ((serviceRun env).after settled [(drawn, registering address)]))
  rw [hsent] at hreport
  obtain ⟨hfits, c, hc, -, rfl⟩ := lookupReports_delivered.1 hreport
  exact not_fits_lookupResult hc h hfits

end Photo

open Photo in
/-- **An address is accepted and never reported**: the answer would be larger than a message. -/
theorem not_registrySpec :
    (registering longAddress).validateSize env.messages = .ok () ∧
      recordsOf env settled = .empty ∧
      (serviceRun env).Along (RecordSaved env) settled
        [(drawn, registering longAddress), (drawn, asking)] ∧
      ¬ RegistrySpec env settled [(drawn, registering longAddress), (drawn, asking)] := by
  refine ⟨?_, recordsOf_settled, ⟨recordSaved_registering _, recordSaved_asking _, trivial⟩,
    not_registrySpec_of_long utf8ByteSize_longAddress⟩
  rw [validateSize_ok, length_encode_env, length_payload_registering, Wire.length_string,
    utf8ByteSize_longAddress, Wire.length_nat_of_three (by decide) (by decide),
    Wire.length_nat_of_three (by decide) (by decide)]
  decide

end Neonet
