import Neonet.App.Revoked

/-!
# A list of revoked peers that cannot be read

The check for revoked peers is meant to fail closed.  What cannot be read or parsed is taken for the
empty list, and the next revocation writes that list back with one name.

* `Unreadable` : the list exists, but cannot be read or parsed.
* `FailsClosed` : a revoked peer is refused, and stays on the list.
* `failsOpen` : **while the list is unreadable no request is refused for a revocation, and every
  other revocation takes the peer off the list.**
* `not_failsClosed` : an empty file serves a revoked peer.
-/

namespace Neonet

open FileTree FsM

section Closed

variable (K : Primitives) (E : StorageEnv) (home : Home) (x : PublicIdentity) (t : Tree)

/-- The list of the revoked peers is there, but reading it fails or what is read does not parse. -/
structure Unreadable : Prop where
  present : t.entry (revocationsPath home).norm ≠ none
  garbled : ∀ b, ((read (revocationsPath home) : FsM IoError Bytes) t).1 = .ok b →
    ∃ e, E.names.decode b = .error e

/-- The requests of `x` to store and to fetch are refused, and `x` is on the list after another peer
was revoked. -/
structure FailsClosed : Prop where
  store : ∀ fileId m cs, m.verifySignature K E.manifest = .ok () →
    (storeChunks K E home fileId x m cs t).1 = .error requesterRevoked
  fetch : ∀ fileId offset, (fetchChunks K E home fileId x offset t).1 = .error requesterRevoked
  kept : ∀ y t', y.fingerprint K ≠ x.fingerprint K →
    revokeIdentity K E home y t = (.ok (), t') → x.fingerprint K ∈ revokedNames E home t'

end Closed

variable {K : Primitives} {E : StorageEnv} {home : Home} {x : PublicIdentity} {t : Tree}
  {fileId : String} {m : FileManifest}

theorem Unreadable.revokedNames (h : Unreadable E home t) : revokedNames E home t = [] := by
  rw [Neonet.revokedNames]
  cases hread : ((read (revocationsPath home) : FsM IoError Bytes) t).1 with
  | error e => rfl
  | ok b =>
    obtain ⟨e, he⟩ := h.garbled b hread
    show (E.names.decode b).toOption.getD [] = []
    rw [he]
    rfl

theorem Unreadable.nodeIsRevoked (h : Unreadable E home t) :
    nodeIsRevoked K E home x t = (.ok false, t) := by
  rw [nodeIsRevoked_eq, h.revokedNames]
  rfl

/-! ### Errors that are not the refusal -/

theorem ofOs_ne_requesterRevoked (o : OsError) :
    (OfOs.ofOs o : IoError) ≠ requesterRevoked := fun h => by cases h

theorem avoids_readAcl : Avoids requesterRevoked (readAcl E home fileId) := by
  refine Avoids.bind (avoids_pathExists) fun b => ?_
  cases b
  · exact avoids_pure _
  · refine (avoids_read ofOs_ne_requesterRevoked).bind fun bytes => avoids_ofExcept fun h => ?_
    cases hd : E.names.decode bytes <;> rw [hd] at h <;> cases h

theorem avoids_storeFiles {cs : List EncryptedChunk} :
    Avoids requesterRevoked (storeFiles K E home fileId m cs) :=
  (avoids_createDirAll ofOs_ne_requesterRevoked).bind fun _ =>
    (Avoids.forEach fun _ _ => avoids_replaceFile ofOs_ne_requesterRevoked).bind fun _ =>
      avoids_write ofOs_ne_requesterRevoked

theorem avoids_addReader : Avoids requesterRevoked (addReader K E home fileId x) :=
  avoids_readAcl.bind fun _ => (avoids_createDirAll ofOs_ne_requesterRevoked).bind fun _ =>
    avoids_write ofOs_ne_requesterRevoked

theorem avoids_readHeld (names : List String) :
    Avoids requesterRevoked (readHeld E home fileId names) := by
  induction names with
  | nil => exact avoids_pure _
  | cons name names ih =>
    rw [readHeld]
    split
    · exact ih
    · refine (avoids_readEntry ofOs_ne_requesterRevoked).bind fun bytes => ih.bind fun rest => ?_
      split
      · exact avoids_pure _
      · exact avoids_pure _

theorem avoids_fetchPage {offset : UInt32} :
    Avoids requesterRevoked (fetchPage E home fileId offset) := by
  refine avoids_pathIsDir.bind fun b => ?_
  cases b
  · exact avoids_pure _
  · refine Avoids.bind (fun t => ?_) fun manifest =>
      (avoids_readDir ofOs_ne_requesterRevoked).bind fun names =>
        (avoids_readHeld names).bind fun _ => avoids_pure _
    rw [readManifest]
    split <;> simp

/-! ### Open gates -/

/-- **An unreadable list opens the gates.**  No request of any peer is refused for a revocation, and
after every other revocation that succeeds the peer is not on the list. -/
theorem failsOpen (h : Unreadable E home t) (x : PublicIdentity) :
    ¬ FailsClosed K E home x t ∧
      (∀ fileId m cs, (storeChunks K E home fileId x m cs t).1 ≠ .error requesterRevoked) ∧
      (∀ fileId offset, (fetchChunks K E home fileId x offset t).1 ≠ .error requesterRevoked) ∧
      ∀ y t', y.fingerprint K ≠ x.fingerprint K →
        revokeIdentity K E home y t = (.ok (), t') → x.fingerprint K ∉ revokedNames E home t' := by
  have hfetch : ∀ fileId offset,
      (fetchChunks K E home fileId x offset t).1 ≠ .error requesterRevoked := by
    intro fileId offset
    rw [fetchChunks, bind_of_ok h.nodeIsRevoked]
    refine (avoids_readAcl.bind fun acl => ?_) t
    split
    · exact avoids_fetchPage
    · exact avoids_fail (by decide)
  refine ⟨fun hclosed => hfetch "" 0 (hclosed.fetch "" 0), fun fileId m cs => ?_, hfetch,
    fun y t' hne hrevoke hmem => ?_⟩
  · rw [storeChunks]
    cases m.verifySignature K E.manifest with
    | error e =>
      intro he
      cases he
    | ok =>
      dsimp only
      rw [bind_of_ok h.nodeIsRevoked]
      exact (avoids_storeFiles.bind fun _ => avoids_addReader) t
  · rcases revokeIdentity_cases hrevoke with ⟨-, hnames⟩ | ⟨⟨e, he⟩, -⟩
    · rw [hnames, h.revokedNames, List.mem_insert_iff] at hmem
      rcases hmem with hsame | hmem
      · exact hne hsame.symm
      · cases hmem
    · cases he

/-! ### A list that was truncated -/

namespace Photo

/-- A chunk that the peer stores. -/
def blob : EncryptedChunk := ⟨0, digits 24 1, [9]⟩

/-- The core after that. -/
def stocked : AppState :=
  (env.handle drawn (sentBy stranger (.storage (.storeChunks "f" (manifest "photo") [blob])))
    governed).2

/-- The peer fetches it. -/
def fetching : Message := sentBy stranger (.storage (.fetchChunks "f" 0))

/-- The list of the revoked peers was written, and is empty now. -/
def truncated : AppState :=
  { (env.handle drawn revoking stocked).2 with
    disk := (env.handle drawn revoking stocked).2.disk.putFile ["revocations.json", "node"] [] }

/-- Another peer. -/
def outsider : Identity := ⟨digits 32 9⟩

/-- The owner revokes it. -/
def revokingOther : Message :=
  sentBy owner (.core (.revokeBroadcast (outsider.pub .sample) 2
    (Primitives.sample.sign owner.signingKey (revokePayload 2 (outsider.pub .sample)))))

theorem run_truncated :
    (env.handle drawn revoking stocked).2.sent = stocked.sent ++
        [replyMessage env revoking (env.frames.encode (.core (.revokeAck 1)))] ∧
      truncated.disk.entry (revocationsPath device).norm = some (.file []) ∧
      ((read (revocationsPath device) : FsM IoError Bytes) truncated.disk).1 = .ok [] ∧
      (fetchChunks .sample .sample device "f" (stranger.pub .sample) 0 truncated.disk).1 =
        .ok (some (manifest "photo"), [blob]) ∧
      (env.handle drawn fetching truncated).2.sent = truncated.sent ++
        [replyMessage env fetching (env.frames.encode
          (.storage (.storedChunks "f" (some (manifest "photo")) [blob])))] ∧
      (env.handle drawn revokingOther truncated).2.sent = truncated.sent ++
        [replyMessage env revokingOther (env.frames.encode (.core (.revokeAck 2)))] ∧
      (stranger.pub .sample).fingerprint .sample ∉
        revokedNames .sample device (env.handle drawn revokingOther truncated).2.disk := by
  decide +kernel

theorem unreadable_truncated : Unreadable .sample device truncated.disk where
  present := by
    rw [run_truncated.2.1]
    simp
  garbled b hb := by
    obtain rfl : ([] : Bytes) = b := Except.ok.inj (run_truncated.2.2.1.symm.trans hb)
    exact ⟨_, rfl⟩

end Photo

open Photo in
/-- While the list is empty, the chunk is served. -/
theorem failsOpen_truncated :
    (fetchChunks .sample .sample device "f" (stranger.pub .sample) 0 truncated.disk).1 ≠
      .error requesterRevoked :=
  (failsOpen unreadable_truncated (stranger.pub .sample)).2.2.1 "f" 0

open Photo in
/-- **A truncated list forgets a revocation.**  The peer stored a chunk and was revoked; then its
chunk is served again, and the peer is not on the list once another one was revoked. -/
theorem not_failsClosed :
    Acknowledged env drawn revoking stocked (stranger.pub .sample) ∧
      Unreadable .sample device truncated.disk ∧
      (env.handle drawn fetching truncated).2.sent = truncated.sent ++
        [replyMessage env fetching (env.frames.encode
          (.storage (.storedChunks "f" (some (manifest "photo")) [blob])))] ∧
      Acknowledged env drawn revokingOther truncated (outsider.pub .sample) ∧
      ¬ IsRevoked env (stranger.pub .sample) (env.handle drawn revokingOther truncated).2.disk ∧
      ¬ FailsClosed .sample .sample device (stranger.pub .sample) truncated.disk := by
  obtain ⟨hacked, -, -, hfetched, hserved, hacked', hforgotten⟩ := run_truncated
  refine ⟨⟨1, _, decode_sentBy _ _, hacked⟩, unreadable_truncated, hserved,
    ⟨2, _, decode_sentBy _ _, hacked'⟩, fun h => hforgotten h.listed, fun h => ?_⟩
  rw [h.fetch "f" 0] at hfetched
  cases hfetched

end Neonet
