import Neonet.App.Node

/-!
# Requests for shared directories

* `AppEnv.handleBurrow` : the frames of the shared directories.
* `frame_handleBurrow` : the files that a frame may write.
-/

namespace Neonet

open FileTree FsM

/-- The directory that a node shares. -/
def shareRoot (home : Home) : PathBuf := home.path.join "share"

/-- The directory of the copies that were forked. -/
def forkedDir (home : Home) : PathBuf := home.path.join "forked"

section Operations

variable (V : AppEnv) (path : String)

/-- What a request to list comes to. -/
def AppEnv.browse : FsM FileError (List ShareEntry) := do
  let root ← shareOpen (shareRoot V.home)
  shareList V.share root path

/-- What a request to read comes to. -/
def AppEnv.readShared : FsM FileError Bytes := do
  let root ← shareOpen (shareRoot V.home)
  shareRead root path

/-- What a request to fork comes to. -/
def AppEnv.forkShared : FsM FileError Unit := do
  let root ← shareOpen (shareRoot V.home)
  shareFork V.share root path ((forkedDir V.home).join path)

end Operations

/-- The mark of an entry in a listing that is shown. -/
def EntryKind.mark : EntryKind → String
  | .file => ""
  | .directory => "/"
  | .symlink => "@"

/-- `burrow::handle`. -/
def AppEnv.handleBurrow (V : AppEnv) (request : Message) :
    BurrowFrame → AppState → Outcome × AppState
  | .list path, s =>
    match V.browse path s.disk with
    | (.ok entries, disk) =>
      (.handled (.text ("[burrow] " ++ request.sender.fingerprint V.primitives ++
          " browsed " ++ path)),
        ({ s with disk } : AppState).replied V request (.burrow (.listing path entries)))
    | (.error e, disk) =>
      (.handled .silent,
        ({ s with disk } : AppState).replied V request (.burrow (.error (some path) e.text)))
  | .read path, s =>
    match V.readShared path s.disk with
    | (.ok bytes, disk) =>
      (.handled .silent,
        ({ s with disk } : AppState).replied V request (.burrow (.content path bytes)))
    | (.error e, disk) =>
      (.handled .silent,
        ({ s with disk } : AppState).replied V request (.burrow (.error (some path) e.text)))
  | .fork path, s =>
    match V.forkShared path s.disk with
    | (.ok (), disk) =>
      (.handled (.text ("[burrow] forked " ++ path)),
        ({ s with disk } : AppState).replied V request (.burrow (.forkResult path true none)))
    | (.error e, disk) =>
      (.handled .silent, ({ s with disk } : AppState).replied V request
        (.burrow (.forkResult path false (some e.text))))
  | .listing _ entries, s =>
    let lines := entries.map fun e => e.name ++ e.kind.mark ++ "\t" ++ toString e.size.toNat
    let body := if lines = [] then "(empty)" else String.intercalate "\n" lines
    (.handled (.text ("[burrow] listing\n" ++ body)), s)
  | .content path bytes, s =>
    (.handled (.text ("[burrow] " ++ path ++ ": " ++ toString bytes.length ++ " bytes")), s)
  | .forkResult path true _, s =>
    (.handled (.text ("[burrow] fork of " ++ path ++ " succeeded")), s)
  | .forkResult path false error, s =>
    (.handled (.text ("[burrow] fork of " ++ path ++ " failed: " ++ error.getD "")), s)
  | .error path message, s =>
    (.handled (.text ("[burrow] " ++ path.getD "" ++ ": " ++ message)), s)

variable {home : Home} {V : AppEnv} {request : Message} {s : AppState} {path : String}

/-- The places that a fork may write. -/
def forkPlaces (home : Home) : Set Loc := beneath ("forked" :: home.loc)

theorem inert_browse : Inert (V.browse path) := inert_shareOpen.bind fun _ => inert_shareList

theorem inert_readShared : Inert (V.readShared path) := inert_shareOpen.bind fun _ =>
    inert_shareRead

theorem touches_forkShared : Touches (forkPlaces V.home) (V.forkShared path) := by
  have hplace : forkPlaces V.home = beneath (forkedDir V.home).norm := by
    rw [forkPlaces, forkedDir, PathBuf.norm_join (by decide) (by decide), Home.norm_path]
  rw [hplace]
  exact inert_shareOpen.touches.bind fun _ => touches_shareFork

/-- A frame of the shared directories writes copies beneath the directory for them. -/
theorem frame_handleBurrow {f : BurrowFrame} :
    Frame (forkPlaces V.home) s.disk (V.handleBurrow request f s).2.disk := by
  cases f with
  | list path =>
    have h : Frame (forkPlaces V.home) s.disk (V.browse path s.disk).2 := inert_browse.touches _
    rw [AppEnv.handleBurrow]
    split <;> rename_i heq <;> rw [heq] at h <;> rw [AppState.replied_disk] <;> exact h
  | read path =>
    have h : Frame (forkPlaces V.home) s.disk (V.readShared path s.disk).2 :=
      inert_readShared.touches _
    rw [AppEnv.handleBurrow]
    split <;> rename_i heq <;> rw [heq] at h <;> rw [AppState.replied_disk] <;> exact h
  | fork path =>
    have h : Frame (forkPlaces V.home) s.disk (V.forkShared path s.disk).2 := touches_forkShared _
    rw [AppEnv.handleBurrow]
    split <;> rename_i heq <;> rw [heq] at h <;> rw [AppState.replied_disk] <;> exact h
  | forkResult path ok error => cases ok <;> exact .refl _
  | listing | content | error => exact .refl _

end Neonet
