import Neonet.App.Node

/-!
# Pairing

* `consumeToken`, `recordPairing` : the token that was issued, and the devices that were paired.
* `AppEnv.handlePair` : the frames of the pairing.
* `frame_handlePair` : the files that a frame may write.
-/

namespace Neonet

open FileTree FsM

section Ledger

variable (T : Codec PendingToken) (L : Codec (List PairedDevice)) (home : Home) (now : UInt64)

/-- `pending_path`. -/
def pendingPath : PathBuf := home.path.join "pair.json"

/-- Where the pending token is written first. -/
def pendingTmpPath : PathBuf := home.path.join "pair.tmp"

/-- Where the paired devices are kept. -/
def pairedPath : PathBuf := home.path.join "paired.json"

/-- Where the paired devices are written first. -/
def pairedTmpPath : PathBuf := home.path.join "paired.tmp"

/-- `write_pending`. -/
def writePending (pending : PendingToken) : FsM IoError Unit :=
  replaceFile (pendingTmpPath home) (pendingPath home) (T.encode pending)

/-- The pending token, if one can be read. -/
def pendingToken (t : Tree) : Option PendingToken :=
  ((read (pendingPath home) : FsM IoError Bytes) t).1.toOption.bind fun b =>
    (T.decode b).toOption

/-- `consume_token`. -/
def consumeToken (token : String) : FsM IoError Bool := fun t =>
  match pendingToken T home t with
  | none => (.ok false, t)
  | some pending =>
    if pending.used ∨ pending.expiresAt ≤ now ∨ pending.token ≠ token then (.ok false, t)
    else
      (do
        writePending T home { pending with used := true }
        return true : FsM IoError Bool) t

/-- `load`: nobody if the list cannot be read. -/
def pairLedger (t : Tree) : List PairedDevice :=
  match ((read (pairedPath home) : FsM IoError Bytes) t).1 with
  | .ok bytes => (L.decode bytes).toOption.getD []
  | .error _ => []

/-- `record_pairing`. -/
def recordPairing (K : Primitives) (x : PublicIdentity) : FsM IoError Unit := fun t =>
  if (pairLedger L home t).any fun record => record.fingerprint = x.fingerprint K then (.ok (), t)
  else
    replaceFile (pairedTmpPath home) (pairedPath home)
      (L.encode (pairLedger L home t ++ [⟨x.fingerprint K, x.publicKey, now⟩])) t

end Ledger

/-- `pair::handle`. -/
def AppEnv.handlePair (V : AppEnv) (d : Draws) (request : Message) :
    PairFrame → AppState → Outcome × AppState
  | .redeem token, s =>
    match consumeToken V.token V.home (d.clock 0) token s.disk with
    | (.ok true, disk) =>
      -- the token is spent even if the pairing cannot be recorded
      ({ s with disk } : AppState).onDisk
          (recordPairing V.ledger V.home (d.clock 1) V.primitives request.sender) fun _ s =>
        (.handled (.text ("paired " ++ request.sender.fingerprint V.primitives ++
            " (single-use token consumed)")),
          s.replied V request (.pair (.redeemed (request.sender.fingerprint V.primitives))))
    | (.ok false, disk) =>
      (.handled .silent, ({ s with disk } : AppState).replied V request
        (.pair (.error "token is invalid, expired, or already used")))
    | (.error e, disk) =>
      (.handled .silent, ({ s with disk } : AppState).replied V request
        (.pair (.error ("could not consume token: " ++ e.text))))
  | .redeemed _, s => (.handled .silent, s)
  | .error message, s => (.handled (.text ("pairing error: " ++ message)), s)

variable {home : Home} {V : AppEnv} {d : Draws} {request : Message} {s : AppState} {now : UInt64}

/-- The places that a redemption writes. -/
def pairPlaces (home : Home) : Set Loc :=
  {"pair.tmp" :: home.loc, "pair.json" :: home.loc, "paired.tmp" :: home.loc,
    "paired.json" :: home.loc}

theorem touches_consumeToken {T : Codec PendingToken} {token : String} :
    Touches (pairPlaces home) (consumeToken T home now token) := by
  have hwrite : ∀ pending, Touches (pairPlaces home)
      (do
        writePending T home pending
        return true : FsM IoError Bool) := fun pending => by
    refine Touches.bind (touches_replaceFile.mono ?_) fun _ => touches_pure _
    rw [pendingTmpPath, pendingPath, PathBuf.norm_join (by decide) (by decide),
      PathBuf.norm_join (by decide) (by decide), Home.norm_path]
    rintro l (rfl | rfl) <;> simp [pairPlaces]
  intro t
  unfold consumeToken
  split
  · rfl
  · split
    · rfl
    · exact hwrite _ t

theorem touches_recordPairing {L : Codec (List PairedDevice)} {K : Primitives}
    {x : PublicIdentity} : Touches (pairPlaces home) (recordPairing L home now K x) := by
  intro t
  unfold recordPairing
  split
  · rfl
  · refine (touches_replaceFile t).mono ?_
    rw [pairedTmpPath, pairedPath, PathBuf.norm_join (by decide) (by decide),
      PathBuf.norm_join (by decide) (by decide), Home.norm_path]
    rintro l (rfl | rfl) <;> simp [pairPlaces]

/-- A frame of the pairing writes the token and the list of the paired devices. -/
theorem frame_handlePair {f : PairFrame} :
    Frame (pairPlaces V.home) s.disk (V.handlePair d request f s).2.disk := by
  cases f with
  | redeem token =>
    have h : Frame (pairPlaces V.home) s.disk
        (consumeToken V.token V.home (d.clock 0) token s.disk).2 := touches_consumeToken s.disk
    rw [AppEnv.handlePair]
    cases hrun : consumeToken V.token V.home (d.clock 0) token s.disk with
    | mk res disk =>
    rw [hrun] at h
    match res with
    | .error e => simpa using h
    | .ok false => simpa using h
    | .ok true =>
      refine h.trans ?_
      exact AppState.frame_onDisk (s := { s with disk }) touches_recordPairing fun _ _ => by
        rw [AppState.replied_disk]
  | redeemed | error => exact .refl _

end Neonet
