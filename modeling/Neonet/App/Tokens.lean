import Neonet.App.Sizes
import Neonet.Lib.Past
import Neonet.Lib.Saved

/-!
# Tokens are redeemed once

A device issues a token, and whoever presents it in time is added to the list of the paired devices.
A token that was redeemed is kept as used, and a newer one takes its place.

* `issueToken`, `tokenRun` : a device that issues tokens and handles messages.
* `TokenStep`, `tokenStep` : what comes of an event.
* `TokenInv` : what is kept of the tokens that were issued and redeemed so far.
* `token_spec` : **in every run each token is redeemed once at most, in time and before the next one
  is issued, and just its redemption changes the list.**
-/

namespace Neonet

open FileTree FsM

/-! ### Tokens -/

/-- `DEFAULT_TTL_SECS`. -/
def defaultTokenTtl : UInt64 := 120

/-- `MAX_TTL_SECS`. -/
def maxTokenTtl : UInt64 := 600

/-- For how long a token is issued. -/
def tokenTtl (ttl : Option UInt64) : UInt64 := min (max (ttl.getD defaultTokenTtl) 1) maxTokenTtl

/-- `issue_token`, with the bytes that were drawn and the reading of the clock. -/
def issueToken (T : Codec PendingToken) (home : Home) (raw : ByteArr 16) (ttl : Option UInt64)
    (now : UInt64) : FsM IoError String := do
  writePending T home ⟨hex raw.toList, now + tokenTtl ttl, false⟩
  return hex raw.toList

/-- What happens to the tokens of a device: one is issued, or a message arrives. -/
inductive TokenEvent
  | issued (raw : ByteArr 16) (ttl : Option UInt64) (now : UInt64)
  | arrived (d : Draws) (request : Message)

/-- The token that is issued, and when it expires. -/
def TokenEvent.token : TokenEvent → Option (String × ℕ)
  | .issued raw ttl now => some (hex raw.toList, now.toNat + (tokenTtl ttl).toNat)
  | .arrived _ _ => none

section Device

variable (V : AppEnv)

/-- A device at work: each event is answered with the messages that it makes the device send. -/
def tokenRun : Machine AppState TokenEvent (List Message) where
  step s
    | .issued raw ttl now =>
      ([], { s with disk := (issueToken V.token V.home raw ttl now s.disk).2 })
    | .arrived d request =>
      ((V.handle d request s).2.sent.drop s.sent.length, (V.handle d request s).2)

/-- The event, if it is a message, is a frame of the pairing. -/
def TokenEvent.OfPairing : TokenEvent → Prop
  | .arrived _ request => ∃ f, AppFrame.decode V.frames request.payload = .pair f
  | .issued _ _ _ => True

/-- The files that the event writes can be written. -/
def TokenEvent.Saves (s : AppState) : TokenEvent → Prop
  | .issued raw ttl now =>
    (issueToken V.token V.home raw ttl now s.disk).1 = .ok (hex raw.toList)
  | .arrived d request => ∀ token,
    AppFrame.decode V.frames request.payload = .pair (.redeem token) →
      ∃ valid, (consumeToken V.token V.home (d.clock 0) token s.disk).1 = .ok valid ∧
        (valid = true → (recordPairing V.ledger V.home (d.clock 1) V.primitives request.sender
          (consumeToken V.token V.home (d.clock 0) token s.disk).2).1 = .ok ())

/-- The event is a redemption of the token by `who`, and it is answered that it succeeded. -/
def Redeems (token : String) (who : PublicIdentity) : TokenEvent × List Message → Prop
  | (.arrived _ request, sent) => request.sender = who ∧
    AppFrame.decode V.frames request.payload = .pair (.redeem token) ∧
    sent = [replyMessage V request
      (V.frames.encode (.pair (.redeemed (who.fingerprint V.primitives))))]
  | (.issued _ _ _, _) => False

/-- The token that the device keeps. -/
def pendingOf (s : AppState) : Option PendingToken := pendingToken V.token V.home s.disk

/-- The devices that are paired. -/
def pairedOf (s : AppState) : List PairedDevice := pairLedger V.ledger V.home s.disk

/-- The tokens and the list of the paired devices, in a run of the pairing. -/
structure TokenSpec (s₀ : AppState) (events : List TokenEvent) : Prop where
  /-- No token is redeemed twice. -/
  once : ((tokenRun V).transcript s₀ events).Pairwise fun e e' =>
    ∀ token who who', Redeems V token who e → ¬ Redeems V token who' e'
  /-- Redeemed is the token that was issued last, and in time. -/
  inTime : ∀ pre d request post token who, events = pre ++ .arrived d request :: post →
    Redeems V token who (.arrived d request,
      ((tokenRun V).step ((tokenRun V).after s₀ pre) (.arrived d request)).1) →
        ∃ deadline, latest TokenEvent.token pre = some (token, deadline) ∧
          (d.clock 0).toNat < deadline
  /-- Whoever redeems a token is listed once, and all the others as before. -/
  recorded : ∀ pre d request post token who, events = pre ++ .arrived d request :: post →
    Redeems V token who (.arrived d request,
      ((tokenRun V).step ((tokenRun V).after s₀ pre) (.arrived d request)).1) →
        ((pairedOf V ((tokenRun V).after s₀ (pre ++ [.arrived d request]))).map
            (·.fingerprint)).count (who.fingerprint V.primitives) = 1 ∧
          (pairedOf V ((tokenRun V).after s₀ (pre ++ [.arrived d request]))).filter
              (fun r => r.fingerprint ≠ who.fingerprint V.primitives) =
            (pairedOf V ((tokenRun V).after s₀ pre)).filter
              (fun r => r.fingerprint ≠ who.fingerprint V.primitives)
  /-- All other messages leave every file alone. -/
  unchanged : ∀ pre d request post, events = pre ++ .arrived d request :: post →
    (∀ token who, ¬ Redeems V token who (.arrived d request,
      ((tokenRun V).step ((tokenRun V).after s₀ pre) (.arrived d request)).1)) →
        ((tokenRun V).after s₀ (pre ++ [.arrived d request])).disk =
          ((tokenRun V).after s₀ pre).disk
  /-- No device is listed twice. -/
  distinct : ((pairedOf V ((tokenRun V).after s₀ events)).map (·.fingerprint)).Nodup

end Device

variable {V : AppEnv} {T : Codec PendingToken} {L : Codec (List PairedDevice)} {home : Home}
  {d : Draws} {request : Message} {s s' : AppState} {token : String} {who : PublicIdentity}
  {now : UInt64} {t t' : Tree}

/-! ### What is kept -/

theorem pendingToken_eq_saved : pendingToken T home t = saved T (pendingPath home) t := by
  rw [pendingToken, toOption_read]
  rfl

theorem pairLedger_eq_saved : pairLedger L home t = (saved L (pairedPath home) t).getD [] := by
  rw [pairLedger, saved, ← toOption_read (ε := IoError)]
  cases ((read (pairedPath home) : FsM IoError Bytes) t).1 <;> rfl

theorem norm_pendingPath : (pendingPath home).norm = "pair.json" :: home.loc := by
  rw [pendingPath, PathBuf.norm_join (by decide) (by decide), Home.norm_path]

theorem norm_pairedPath : (pairedPath home).norm = "paired.json" :: home.loc := by
  rw [pairedPath, PathBuf.norm_join (by decide) (by decide), Home.norm_path]

theorem norm_pendingTmpPath : (pendingTmpPath home).norm = "pair.tmp" :: home.loc := by
  rw [pendingTmpPath, PathBuf.norm_join (by decide) (by decide), Home.norm_path]

theorem norm_pairedTmpPath : (pairedTmpPath home).norm = "paired.tmp" :: home.loc := by
  rw [pairedTmpPath, PathBuf.norm_join (by decide) (by decide), Home.norm_path]

theorem pairLedger_of_frame
    (h : Frame {(pendingTmpPath home).norm, (pendingPath home).norm} t t') :
    pairLedger L home t' = pairLedger L home t := by
  rw [norm_pendingPath, norm_pendingTmpPath] at h
  rw [pairLedger_eq_saved, pairLedger_eq_saved, pairedPath,
    saved_of_frame h (downward_home home) (by decide) (by decide) ?_]
  rw [← pairedPath, norm_pairedPath]
  simp

theorem pendingToken_of_frame
    (h : Frame {(pairedTmpPath home).norm, (pairedPath home).norm} t t') :
    pendingToken T home t' = pendingToken T home t := by
  rw [norm_pairedPath, norm_pairedTmpPath] at h
  rw [pendingToken_eq_saved, pendingToken_eq_saved, pendingPath,
    saved_of_frame h (downward_home home) (by decide) (by decide) ?_]
  rw [← pendingPath, norm_pendingPath]
  simp

theorem pendingToken_writePending {p : PendingToken}
    (h : writePending T home p t = (.ok (), t')) : pendingToken T home t' = some p := by
  rw [pendingToken_eq_saved]
  exact saved_replaceFile h

theorem pairLedger_writePending {p : PendingToken} {r : Except IoError Unit}
    (h : writePending T home p t = (r, t')) : pairLedger L home t' = pairLedger L home t := by
  have htouches : Frame {(pendingTmpPath home).norm, (pendingPath home).norm} t
      (writePending T home p t).2 := touches_replaceFile t
  rw [h] at htouches
  exact pairLedger_of_frame htouches

theorem pendingToken_of_writePending_error {p : PendingToken} {e : IoError}
    (h : writePending T home p t = (.error e, t')) :
    pendingToken T home t' = pendingToken T home t := by
  rw [pendingToken_eq_saved, pendingToken_eq_saved]
  refine saved_of_replaceFile_error (downward_home home) (by decide) (by decide) ?_ h
  rw [← pendingPath, norm_pendingPath, norm_pendingTmpPath]
  simp

/-- The list with a device that was paired. -/
def enrolled (K : Primitives) (now : UInt64) (x : PublicIdentity) (l : List PairedDevice) :
    List PairedDevice :=
  if l.any fun record => record.fingerprint = x.fingerprint K then l
  else l ++ [⟨x.fingerprint K, x.publicKey, now⟩]

theorem pairLedger_recordPairing {K : Primitives} {x : PublicIdentity}
    (h : recordPairing L home now K x t = (.ok (), t')) :
    pairLedger L home t' = enrolled K now x (pairLedger L home t) := by
  rw [recordPairing] at h
  rw [enrolled]
  split_ifs at h ⊢ with hlisted
  · rw [(Prod.mk.inj h).2]
  · rw [pairLedger_eq_saved, saved_replaceFile h]
    rfl

theorem pairLedger_of_recordPairing_error {K : Primitives} {x : PublicIdentity} {e : IoError}
    (h : recordPairing L home now K x t = (.error e, t')) :
    pairLedger L home t' = pairLedger L home t := by
  rw [recordPairing] at h
  split_ifs at h
  · cases h
  · rw [pairLedger_eq_saved, pairLedger_eq_saved]
    refine congrArg (Option.getD · [])
      (saved_of_replaceFile_error (downward_home home) (by decide) (by decide) ?_ h)
    rw [← pairedPath, norm_pairedPath, norm_pairedTmpPath]
    simp

theorem pendingToken_recordPairing {K : Primitives} {x : PublicIdentity} :
    pendingToken T home (recordPairing L home now K x t).2 = pendingToken T home t := by
  refine pendingToken_of_frame ?_
  unfold recordPairing
  split
  · exact .refl t
  · exact touches_replaceFile t

section Enrolled

variable {K : Primitives} {x : PublicIdentity} {l : List PairedDevice}

theorem enrolled_of_mem (h : x.fingerprint K ∈ l.map (·.fingerprint)) : enrolled K now x l = l := by
  obtain ⟨r, hr, heq⟩ := List.mem_map.1 h
  exact if_pos (List.any_eq_true.2 ⟨r, hr, decide_eq_true heq⟩)

theorem enrolled_of_not_mem (h : x.fingerprint K ∉ l.map (·.fingerprint)) :
    enrolled K now x l = l ++ [⟨x.fingerprint K, x.publicKey, now⟩] := by
  refine if_neg fun hany => h ?_
  obtain ⟨r, hr, heq⟩ := List.any_eq_true.1 hany
  exact List.mem_map.2 ⟨r, hr, of_decide_eq_true heq⟩

theorem nodup_enrolled (h : (l.map (·.fingerprint)).Nodup) :
    ((enrolled K now x l).map (·.fingerprint)).Nodup := by
  by_cases hx : x.fingerprint K ∈ l.map (·.fingerprint)
  · rwa [enrolled_of_mem hx]
  · rw [enrolled_of_not_mem hx, List.map_append]
    exact h.append (List.nodup_singleton _) (List.disjoint_singleton.2 hx)

theorem mem_enrolled : x.fingerprint K ∈ (enrolled K now x l).map (·.fingerprint) := by
  by_cases hx : x.fingerprint K ∈ l.map (·.fingerprint)
  · rwa [enrolled_of_mem hx]
  · simp [enrolled_of_not_mem hx]

theorem filter_enrolled :
    (enrolled K now x l).filter (fun r => r.fingerprint ≠ x.fingerprint K) =
      l.filter fun r => r.fingerprint ≠ x.fingerprint K := by
  by_cases hx : x.fingerprint K ∈ l.map (·.fingerprint)
  · rw [enrolled_of_mem hx]
  · rw [enrolled_of_not_mem hx, List.filter_append]
    simp

end Enrolled

/-- A token is consumed if it is the one that is kept, was not used, and has not expired. -/
theorem consumeToken_cases {r : Except IoError Bool}
    (h : consumeToken T home now token t = (r, t')) :
    (r = .ok true ∧ ∃ p, pendingToken T home t = some p ∧ p.used = false ∧ now < p.expiresAt ∧
        p.token = token ∧ pendingToken T home t' = some { p with used := true } ∧
        ∀ L : Codec (List PairedDevice), pairLedger L home t' = pairLedger L home t) ∨
      (r = .ok false ∧ t' = t) ∨
      (∃ e, r = .error e) ∧ pendingToken T home t' = pendingToken T home t := by
  rw [consumeToken] at h
  cases hp : pendingToken T home t with
  | none =>
    rw [hp] at h
    obtain ⟨rfl, rfl⟩ := Prod.mk.inj h
    exact .inr (.inl ⟨rfl, rfl⟩)
  | some p =>
    rw [hp] at h
    dsimp only at h
    split_ifs at h with hbad
    · obtain ⟨rfl, rfl⟩ := Prod.mk.inj h
      exact .inr (.inl ⟨rfl, rfl⟩)
    · obtain ⟨hunused, hexpires, hsame⟩ : p.used = false ∧ now < p.expiresAt ∧ p.token = token := by
        simpa [not_or] using hbad
      rcases bind_cases h with ⟨e, hwrite, rfl⟩ | ⟨_, t₁, hwrite, hret⟩
      · exact .inr (.inr ⟨⟨e, rfl⟩, (pendingToken_of_writePending_error hwrite).trans hp⟩)
      · obtain ⟨rfl, rfl⟩ := Prod.mk.inj hret
        exact .inl ⟨rfl, p, rfl, hunused, hexpires, hsame,
          pendingToken_writePending hwrite, fun L => pairLedger_writePending hwrite⟩

/-! ### One event -/

/-- What comes of an event: a token is issued, one is used up and its sender listed, or no file
changes. -/
inductive TokenStep (V : AppEnv) (s : AppState) : TokenEvent → List Message × AppState → Prop
  | issued {raw : ByteArr 16} {ttl : Option UInt64} {now : UInt64} {s' : AppState}
      (pending : pendingOf V s' = some ⟨hex raw.toList, now + tokenTtl ttl, false⟩)
      (listed : pairedOf V s' = pairedOf V s) :
      TokenStep V s (.issued raw ttl now) ([], s')
  | redeemed {d : Draws} {request : Message} {sent : List Message} {s' : AppState}
      {p : PendingToken}
      (redeems : Redeems V p.token request.sender (.arrived d request, sent))
      (pending : pendingOf V s = some p) (unused : p.used = false)
      (inTime : d.clock 0 < p.expiresAt) (spent : pendingOf V s' = some { p with used := true })
      (listed : pairedOf V s' =
        enrolled V.primitives (d.clock 1) request.sender (pairedOf V s)) :
      TokenStep V s (.arrived d request) (sent, s')
  | other {d : Draws} {request : Message} {sent : List Message} {s' : AppState}
      (nobody : ∀ token who, ¬ Redeems V token who (.arrived d request, sent))
      (disk : s'.disk = s.disk) : TokenStep V s (.arrived d request) (sent, s')

theorem tokenRun_arrived {f : PairFrame}
    (hf : AppFrame.decode V.frames request.payload = .pair f) :
    (tokenRun V).step s (.arrived d request) =
      ((V.handlePair d request f s).2.sent.drop s.sent.length,
        (V.handlePair d request f s).2) := by
  have hhandle : V.handle d request s = V.handlePair d request f s := by
    rw [AppEnv.handle, hf]
    rfl
  rw [← hhandle]
  rfl

theorem not_redeems_of_delivered {message : String} :
    ¬ Redeems V token who
      (.arrived d request, delivered V request (some (.pair (.error message)))) := by
  rintro ⟨-, -, hsent⟩
  obtain ⟨frame, hframe, -, hreply⟩ := delivered_eq_singleton.1 hsent
  cases hframe
  cases replyMessage_injective hreply

theorem tokenStep_redeem (hV : V.Postcard)
    (hf : AppFrame.decode V.frames request.payload = .pair (.redeem token))
    (hsave : TokenEvent.Saves V s (.arrived d request)) :
    TokenStep V s (.arrived d request) ((tokenRun V).step s (.arrived d request)) := by
  obtain ⟨valid, hvalid, hrecord⟩ := hsave token hf
  rw [tokenRun_arrived hf, AppEnv.handlePair]
  cases hrun : consumeToken V.token V.home (d.clock 0) token s.disk with
  | mk r disk =>
  rw [hrun] at hvalid hrecord
  obtain rfl : r = .ok valid := hvalid
  rcases consumeToken_cases hrun with ⟨hr, p, hp, hunused, htime, rfl, hspent, hledger⟩ |
    ⟨hr, rfl⟩ | ⟨⟨e, hr⟩, -⟩
  · obtain rfl := Except.ok.inj hr
    dsimp only at hrecord ⊢
    cases hlist : recordPairing V.ledger V.home (d.clock 1) V.primitives request.sender disk with
    | mk r' disk' =>
    obtain rfl : r' = .ok () := by
      rw [hlist] at hrecord
      exact hrecord rfl
    have hkept : pendingToken V.token V.home (recordPairing V.ledger V.home (d.clock 1)
        V.primitives request.sender disk).2 = _ := pendingToken_recordPairing
    have hlisted := pairLedger_recordPairing hlist
    rw [hlist] at hkept
    rw [AppState.onDisk, hlist]
    dsimp only
    rw [AppState.replied_of_fits (fits_redeemed hV)]
    dsimp only
    rw [List.drop_left]
    exact .redeemed ⟨rfl, hf, rfl⟩ hp hunused htime (hkept.trans hspent)
      (hlisted.trans (by rw [hledger]; rfl))
  · obtain rfl := Except.ok.inj hr
    dsimp only
    rw [AppState.replied_sent, List.drop_left]
    exact .other (fun _ _ => not_redeems_of_delivered) AppState.replied_disk
  · cases hr

/-- **What an event comes to.** -/
theorem tokenStep (hV : V.Postcard) {e : TokenEvent} (he : e.OfPairing V) (hsave : e.Saves V s) :
    TokenStep V s e ((tokenRun V).step s e) := by
  cases e with
  | issued raw ttl now =>
    obtain ⟨u, t', hwrite, hret⟩ := bind_ok.1 (Prod.ext hsave rfl)
    obtain ⟨-, hdisk⟩ := Prod.mk.inj hret
    subst hdisk
    exact .issued (pendingToken_writePending hwrite) (pairLedger_writePending hwrite)
  | arrived d request =>
    obtain ⟨f, hf⟩ := he
    cases f with
    | redeem token => exact tokenStep_redeem hV hf hsave
    | redeemed | error =>
      refine .other (fun token who h => ?_) ?_
      · cases hf.symm.trans h.2.1
      · rw [AppEnv.handle, hf]
        rfl

/-! ### Runs -/

/-- The tokens that were issued. -/
def issuedTokens (past : List (TokenEvent × List Message)) : List String :=
  (past.filterMap fun e => e.1.token).map Prod.fst

/-- What is kept of the tokens that were issued and redeemed so far. -/
structure TokenInv (V : AppEnv) (past : List (TokenEvent × List Message)) (s : AppState) :
    Prop where
  once : past.Pairwise fun e e' =>
    ∀ token who who', Redeems V token who e → ¬ Redeems V token who' e'
  /-- What was redeemed had been issued. -/
  known : ∀ e ∈ past, ∀ token who, Redeems V token who e → token ∈ issuedTokens past
  /-- The token that is kept is the one issued last. -/
  last : ∀ p, pendingOf V s = some p → ∃ deadline,
    latest (fun e => e.1.token) past = some (p.token, deadline) ∧ p.expiresAt.toNat ≤ deadline
  /-- If it was redeemed, it is kept as used. -/
  spent : ∀ p, pendingOf V s = some p → ∀ e ∈ past, ∀ who, Redeems V p.token who e → p.used = true
  distinct : ((pairedOf V s).map (·.fingerprint)).Nodup

theorem Redeems.unique {token' : String} {who' : PublicIdentity} {e : TokenEvent × List Message}
    (h : Redeems V token who e) (h' : Redeems V token' who' e) : token' = token ∧ who' = who := by
  obtain ⟨_ | _, sent⟩ := e
  · exact h.elim
  · cases h.2.1.symm.trans h'.2.1
    exact ⟨rfl, h'.1.symm.trans h.1⟩

theorem issuedTokens_concat {past : List (TokenEvent × List Message)}
    {e : TokenEvent × List Message} :
    issuedTokens (past ++ [e]) = issuedTokens past ++ (e.1.token.map Prod.fst).toList := by
  rw [issuedTokens, List.filterMap_append, List.map_append, ← issuedTokens, List.filterMap_cons]
  cases e.1.token <;> rfl

theorem pairwise_concat_of_not_redeems {past : List (TokenEvent × List Message)}
    {e : TokenEvent × List Message}
    (h : past.Pairwise fun e e' =>
      ∀ token who who', Redeems V token who e → ¬ Redeems V token who' e')
    (he : ∀ token who, ¬ Redeems V token who e) :
    (past ++ [e]).Pairwise fun e e' =>
      ∀ token who who', Redeems V token who e → ¬ Redeems V token who' e' := by
  rw [List.pairwise_append]
  refine ⟨h, List.pairwise_singleton _ _, fun a _ b hb token who who' _ => ?_⟩
  rw [List.mem_singleton.1 hb]
  exact he token who'

/-- **One event** keeps the invariant, if no token is issued twice. -/
theorem TokenInv.step {past : List (TokenEvent × List Message)} {e : TokenEvent}
    {r : List Message × AppState} (h : TokenInv V past s) (hstep : TokenStep V s e r)
    (hnodup : (issuedTokens (past ++ [(e, r.1)])).Nodup) : TokenInv V (past ++ [(e, r.1)]) r.2 := by
  have hmem : ∀ {a}, a ∈ past ++ [(e, r.1)] → a ∈ past ∨ a = (e, r.1) := fun ha =>
    (List.mem_append.1 ha).imp_right List.mem_singleton.1
  have hissued : issuedTokens past ⊆ issuedTokens (past ++ [(e, r.1)]) := by
    rw [issuedTokens_concat]
    exact List.subset_append_left _ _
  cases hstep with
  | @issued raw ttl now s' pending listed =>
    have hfresh : hex raw.toList ∉ issuedTokens past := fun hin => by
      rw [issuedTokens_concat] at hnodup
      exact (List.nodup_append.1 hnodup).2.2 _ hin _ (List.mem_singleton_self _) rfl
    refine ⟨pairwise_concat_of_not_redeems h.once fun _ _ => id, fun a ha token who hr => ?_,
      fun p hp => ?_, fun p hp a ha who hr => ?_, by rw [listed]; exact h.distinct⟩
    · rcases hmem ha with ha | rfl
      · exact hissued (h.known a ha token who hr)
      · exact hr.elim
    · obtain rfl := Option.some.inj (pending.symm.trans hp)
      refine ⟨_, latest_concat_of_some rfl, ?_⟩
      rw [UInt64.toNat_add]
      exact Nat.mod_le _ _
    · obtain rfl := Option.some.inj (pending.symm.trans hp)
      rcases hmem ha with ha | rfl
      · exact absurd (h.known a ha _ who hr) hfresh
      · exact hr.elim
  | @redeemed d request sent s' p redeems pending unused _ spent listed =>
    obtain ⟨deadline, hlast, hexpires⟩ := h.last p pending
    refine ⟨?_, fun a ha token who hr => ?_, fun q hq => ?_, fun q hq a ha who hr => ?_, ?_⟩
    · rw [List.pairwise_append]
      refine ⟨h.once, List.pairwise_singleton _ _, fun a ha b hb token who who' hr hr' => ?_⟩
      rw [List.mem_singleton.1 hb] at hr'
      obtain ⟨rfl, -⟩ := redeems.unique hr'
      -- it would be kept as used
      exact absurd (h.spent p pending a ha who hr) (by rw [unused]; exact Bool.false_ne_true)
    · rcases hmem ha with ha | rfl
      · exact hissued (h.known a ha token who hr)
      · obtain ⟨rfl, -⟩ := redeems.unique hr
        obtain ⟨pre, b, post, rfl, hb, -⟩ := latest_eq_some.1 hlast
        exact hissued (List.mem_map.2 ⟨_, List.mem_filterMap.2 ⟨b, by simp, hb⟩, rfl⟩)
    · obtain rfl := Option.some.inj (spent.symm.trans hq)
      exact ⟨deadline, (latest_concat_of_none rfl).trans hlast, hexpires⟩
    · obtain rfl := Option.some.inj (spent.symm.trans hq)
      rfl
    · rw [listed]
      exact nodup_enrolled h.distinct
  | @other d request sent s' nobody disk =>
    have hpending : pendingOf V s' = pendingOf V s := congrArg (pendingToken V.token V.home) disk
    have hpaired : pairedOf V s' = pairedOf V s := congrArg (pairLedger V.ledger V.home) disk
    refine ⟨pairwise_concat_of_not_redeems h.once nobody, fun a ha token who hr => ?_,
      fun p hp => ?_, fun p hp a ha who hr => ?_, by rw [hpaired]; exact h.distinct⟩
    · rcases hmem ha with ha | rfl
      · exact hissued (h.known a ha token who hr)
      · exact absurd hr (nobody token who)
    · obtain ⟨deadline, hlast, hexpires⟩ := h.last p (hpending.symm.trans hp)
      exact ⟨deadline, (latest_concat_of_none rfl).trans hlast, hexpires⟩
    · rcases hmem ha with ha | rfl
      · exact h.spent p (hpending.symm.trans hp) a ha who hr
      · exact absurd hr (nobody _ who)

theorem tokenInv_of_run (hV : V.Postcard) {s₀ : AppState} {events : List TokenEvent}
    (hnone : pendingOf V s₀ = none) (hnobody : pairedOf V s₀ = [])
    (hpair : ∀ e ∈ events, e.OfPairing V)
    (hsave : (tokenRun V).Along (TokenEvent.Saves V) s₀ events)
    (hdistinct : ((events.filterMap TokenEvent.token).map Prod.fst).Nodup) :
    TokenInv V ((tokenRun V).transcript s₀ events) ((tokenRun V).after s₀ events) := by
  have hrun : (issuedTokens ((tokenRun V).transcript s₀ events)).Nodup →
      TokenInv V ((tokenRun V).transcript s₀ events) ((tokenRun V).after s₀ events) := by
    refine Machine.Along.history (I := fun past s => (issuedTokens past).Nodup → TokenInv V past s)
      (hsave.and_forall hpair) (fun _ => ?_) fun past s a ha ih hnodup => ?_
    · refine ⟨.nil, by simp, fun p hp => ?_, by simp, by rw [hnobody]; exact .nil⟩
      cases hnone.symm.trans hp
    · have hpast : (issuedTokens past).Nodup := by
        rw [issuedTokens_concat] at hnodup
        exact (List.nodup_append.1 hnodup).1
      exact (ih hpast).step (tokenStep hV ha.2 ha.1) hnodup
  have hactions : ((tokenRun V).transcript s₀ events).map Prod.fst = events :=
    Machine.map_fst_transcript
  rw [← hactions, List.filterMap_map] at hdistinct
  exact hrun hdistinct

/-- **The tokens**: in every run that starts without a token and a paired device. -/
theorem token_spec (hV : V.Postcard) {s₀ : AppState} {events : List TokenEvent}
    (hnone : pendingOf V s₀ = none) (hnobody : pairedOf V s₀ = [])
    (hpair : ∀ e ∈ events, e.OfPairing V)
    (hsave : (tokenRun V).Along (TokenEvent.Saves V) s₀ events)
    (hdistinct : ((events.filterMap TokenEvent.token).map Prod.fst).Nodup) :
    TokenSpec V s₀ events := by
  have hinv := tokenInv_of_run hV hnone hnobody hpair hsave hdistinct
  -- the state before a message, and what the message comes to
  have hbefore : ∀ pre d request post, events = pre ++ .arrived d request :: post →
      TokenInv V ((tokenRun V).transcript s₀ pre) ((tokenRun V).after s₀ pre) ∧
        TokenStep V ((tokenRun V).after s₀ pre) (.arrived d request)
          ((tokenRun V).step ((tokenRun V).after s₀ pre) (.arrived d request)) := by
    rintro pre d request post rfl
    obtain ⟨hpre, hthis⟩ := Machine.along_append.1 hsave
    refine ⟨tokenInv_of_run hV hnone hnobody (fun e he => hpair e (by simp [he])) hpre ?_,
      tokenStep hV (hpair _ (by simp)) hthis.1⟩
    rw [List.filterMap_append, List.map_append] at hdistinct
    exact (List.nodup_append.1 hdistinct).1
  refine ⟨hinv.once, fun pre d request post token who hsplit h => ?_,
    fun pre d request post token who hsplit h => ?_, fun pre d request post hsplit h => ?_,
    hinv.distinct⟩
  · obtain ⟨hpre, hcases⟩ := hbefore pre d request post hsplit
    generalize (tokenRun V).step ((tokenRun V).after s₀ pre) (.arrived d request) = r at hcases h
    cases hcases with
    | redeemed redeems pending _ inTime _ _ =>
      obtain ⟨rfl, -⟩ := redeems.unique h
      obtain ⟨deadline, hlast, hexpires⟩ := hpre.last _ pending
      refine ⟨deadline, ?_, lt_of_lt_of_le (UInt64.lt_iff_toNat_lt.1 inTime) hexpires⟩
      rwa [latest_map (f := Prod.fst), Machine.map_fst_transcript] at hlast
    | other nobody _ => exact absurd h (nobody token who)
  · obtain ⟨hpre, hcases⟩ := hbefore pre d request post hsplit
    rw [Machine.after_concat]
    generalize (tokenRun V).step ((tokenRun V).after s₀ pre) (.arrived d request) = r
      at hcases h ⊢
    cases hcases with
    | redeemed redeems _ _ _ _ listed =>
      obtain ⟨-, rfl⟩ := redeems.unique h
      rw [listed]
      exact ⟨List.count_eq_one_of_mem (nodup_enrolled hpre.distinct) mem_enrolled, filter_enrolled⟩
    | other nobody _ => exact absurd h (nobody token who)
  · obtain ⟨-, hcases⟩ := hbefore pre d request post hsplit
    rw [Machine.after_concat]
    generalize (tokenRun V).step ((tokenRun V).after s₀ pre) (.arrived d request) = r
      at hcases h ⊢
    cases hcases with
    | redeemed redeems => exact absurd redeems (h _ _)
    | other _ disk => exact disk

namespace Photo

/-- The bytes of a token. -/
def tokenBytes : ByteArr 16 := List.Vector.replicate 16 7

/-- The visitor presents the token. -/
def redeeming : Message := sentBy visitor (.pair (.redeem (hex tokenBytes.toList)))

end Photo

open Photo in
/-- A token is redeemed, and refused when it is presented once more. -/
theorem token_spec_settled :
    TokenSpec env settled
      [.issued tokenBytes none 0, .arrived drawn redeeming, .arrived drawn redeeming] := by
  have hpair : ∃ f, AppFrame.decode env.frames redeeming.payload = .pair f :=
    ⟨_, decode_sentBy visitor _⟩
  have hredeem : ∀ token, AppFrame.decode env.frames redeeming.payload = .pair (.redeem token) →
      token = hex tokenBytes.toList := fun token h => by
    cases h.symm.trans (decode_sentBy visitor _)
    rfl
  have hissue : (issueToken env.token env.home tokenBytes none 0 settled.disk).1 =
      .ok (hex tokenBytes.toList) := by decide +kernel
  refine token_spec ⟨rfl, rfl⟩ (by decide +kernel) (by decide +kernel) (fun e he => ?_)
    ⟨hissue, fun token h => ?_, fun token h => ?_, trivial⟩ (by decide +kernel)
  · rcases List.mem_cons.1 he with rfl | he
    · trivial
    · rw [List.mem_pair.1 he |>.elim id id]
      exact hpair
  · obtain rfl := hredeem token h
    exact ⟨true, by decide +kernel, fun _ => by decide +kernel⟩
  · obtain rfl := hredeem token h
    exact ⟨false, by decide +kernel, fun h => absurd h Bool.false_ne_true⟩

end Neonet
