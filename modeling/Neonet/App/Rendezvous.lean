import Neonet.App.Node

/-!
# The rendezvous service

* `register`, `lookup`, `listRecords` : what is known of where devices are.
* `AppEnv.handleRendezvous` : the frames of the service.
* `frame_handleRendezvous` : the files that a frame may write.
-/

namespace Neonet

open FileTree

namespace Records

/-- Nothing is known. -/
def empty : Records := ⟨[], List.nodup_nil⟩

/-- `HashMap::retain`. -/
def retain (r : Records) (keep : EndpointRecord → Bool) : Records :=
  ⟨r.entries.filter fun e => keep e.2, r.nodup.sublist (List.filter_sublist.map _)⟩

/-- `HashMap::insert`. -/
def insert (r : Records) (fingerprint : String) (record : EndpointRecord) : Records where
  entries := r.entries.filter (fun e => e.1 ≠ fingerprint) ++ [(fingerprint, record)]
  nodup := by
    rw [List.map_append, List.nodup_append]
    refine ⟨r.nodup.sublist (List.filter_sublist.map _), List.nodup_singleton _, ?_⟩
    intro a ha b hb
    obtain ⟨e, he, rfl⟩ := List.mem_map.1 ha
    rw [List.mem_singleton.1 hb]
    exact of_decide_eq_true (List.mem_filter.1 he).2

end Records

section Service

variable (R : Codec Records) (home : Home) (now : UInt64)

/-- `MAX_TTL`. -/
def maxTtl : UInt64 := 24 * 3600

/-- Where the records are kept. -/
def recordsPath : PathBuf := home.path.join "rendezvous.json"

/-- Where the records are written first. -/
def recordsTmpPath : PathBuf := home.path.join "rendezvous.tmp"

/-- `all_records`: none if they cannot be read. -/
def allRecords (t : Tree) : Records :=
  match ((read (recordsPath home) : FsM IoError Bytes) t).1 with
  | .ok bytes => (R.decode bytes).toOption.getD .empty
  | .error _ => .empty

/-- `prune`. -/
def Records.prune (r : Records) : Records := r.retain fun record => decide (now < record.expiresAt)

/-- `register`. -/
def register (K : Primitives) (identity : PublicIdentity) (address : String) (ttlSecs : UInt32) :
    FsM IoError Unit := fun t =>
  let ttl : UInt64 := min (max ttlSecs.toUInt64 60) maxTtl
  let record : EndpointRecord := ⟨identity, address, now, now + ttl⟩
  replaceFile (recordsTmpPath home) (recordsPath home)
    (R.encode (((allRecords R home t).insert (identity.fingerprint K) record).prune now)) t

/-- `lookup`. -/
def lookup (fingerprint : String) (t : Tree) : List EndpointRecord :=
  ((((allRecords R home t).prune now).entries.filter fun e => e.1 = fingerprint).map Prod.snd)

/-- `list`. -/
def listRecords (t : Tree) : List EndpointRecord :=
  ((((allRecords R home t).prune now).entries.map Prod.snd).insertionSort
    fun a b => a.lastSeen ≤ b.lastSeen)

end Service

/-- `rendezvous::handle`. -/
def AppEnv.handleRendezvous (V : AppEnv) (d : Draws) (request : Message) :
    RendezvousFrame → AppState → Outcome × AppState
  | .register address ttlSecs signature, s =>
    if V.parsesKey request.sender.publicKey = false then
      (.handled .silent, s.replied V request (.rendezvous (.error "bad caller key")))
    else if V.primitives.verify request.sender.publicKey (utf8 address) signature = false then
      (.handled .silent, s.replied V request
          (.rendezvous (.error "registration signature invalid")))
    else
      s.onDisk (Neonet.register V.records V.home (d.clock 0) V.primitives request.sender address
          ttlSecs) fun _ s =>
        (.handled .silent, s.replied V request (.rendezvous .registered))
  | .lookup fingerprint, s =>
    (.handled .silent, s.replied V request (.rendezvous
      (.lookupResult fingerprint (Neonet.lookup V.records V.home (d.clock 0) fingerprint s.disk))))
  | .list, s =>
    (.handled .silent, s.replied V request (.rendezvous
      (.listResult (listRecords V.records V.home (d.clock 0) s.disk))))
  | .probe fingerprint, s =>
    (.handled .silent, s.replied V request (.rendezvous (.probeResult fingerprint
      (!(Neonet.lookup V.records V.home (d.clock 0) fingerprint s.disk).isEmpty))))
  | .registered, s => (.handled (.text "registered with rendezvous"), s)
  | .listResult _, s => (.handled .silent, s)
  | .lookupResult fingerprint candidates, s =>
    let lines := candidates.map fun c => c.identity.fingerprint V.primitives ++ " @ " ++ c.address
    let body := if lines = [] then "(none)" else String.intercalate "\n" lines
    (.handled (.text ("rendezvous lookup " ++ fingerprint ++ ":\n" ++ body)), s)
  | .probeResult fingerprint alive, s =>
    (.handled (.text ("probe " ++ fingerprint ++ ": " ++
        if alive then "alive" else "not found")), s)
  | .error message, s => (.handled (.text ("rendezvous error: " ++ message)), s)

variable {R : Codec Records} {home : Home} {V : AppEnv} {d : Draws} {request : Message}
  {s : AppState} {now : UInt64}

@[simp] theorem norm_recordsPath : (recordsPath home).norm = "rendezvous.json" :: home.loc := by
  rw [recordsPath, PathBuf.norm_join (by decide) (by decide), Home.norm_path]

@[simp] theorem norm_recordsTmpPath : (recordsTmpPath home).norm =
    "rendezvous.tmp" :: home.loc := by
  rw [recordsTmpPath, PathBuf.norm_join (by decide) (by decide), Home.norm_path]

/-- The places that a registration writes. -/
def recordPlaces (home : Home) : Set Loc :=
  {"rendezvous.tmp" :: home.loc, "rendezvous.json" :: home.loc}

theorem touches_register {K : Primitives} {x : PublicIdentity} {address : String}
    {ttlSecs : UInt32} :
    FsM.Touches (recordPlaces home) (register R home now K x address ttlSecs) := by
  intro t
  rw [recordPlaces, ← norm_recordsPath, ← norm_recordsTmpPath]
  exact touches_replaceFile t

/-- A frame of the service writes the records. -/
theorem frame_handleRendezvous {f : RendezvousFrame} :
    Frame (recordPlaces V.home) s.disk (V.handleRendezvous d request f s).2.disk := by
  cases f with
  | register address ttlSecs signature =>
    rw [AppEnv.handleRendezvous]
    split
    · rw [AppState.replied_disk]
    · split
      · rw [AppState.replied_disk]
      · refine AppState.frame_onDisk touches_register fun _ _ => ?_
        rw [AppState.replied_disk]
  | lookup | list | probe => rw [AppEnv.handleRendezvous, AppState.replied_disk]
  | registered | listResult | lookupResult | probeResult | error => exact .refl _

end Neonet
