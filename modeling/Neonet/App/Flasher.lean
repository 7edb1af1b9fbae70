import Neonet.App.Tokens
import Neonet.Lib.Directory

/-!
# The flasher

A drive carries the identity of the device that it was flashed from.  Another device adopts it: a
callback is asked whether the source is to be trusted, and if it is, it becomes a paired and a known
device.

* `ResolutionDirectory` : the known devices.
* `readBundle`, `adopt` : reading the bundle of a drive, and adopting its source.
* `AdoptsSafely` : who is recorded was confirmed by its fingerprint, and nothing is recorded without
  a confirmation.
* `adopts_iff` : **a bundle is adopted safely** exactly when it is not confirmed, or the fingerprint
  that it carries is that of the key that it carries.
* `adopts_author` : what `author` writes is adopted safely.
-/

namespace Neonet

open FileTree FsM

/-! ### Known devices -/

/-- `Resolution`. -/
structure Resolution where
  host : String
  port : UInt16
  knownHosts : String
  deriving DecidableEq

/-- `DeviceRecord`. -/
structure DeviceRecord where
  identity : PublicIdentity
  aliasName : String
  user : String
  resolution : Resolution
  deriving DecidableEq

/-- `ResolutionDirectory`. -/
structure ResolutionDirectory where
  devices : List DeviceRecord
  deriving DecidableEq

/-- `empty_directory`. -/
def emptyDirectory : ResolutionDirectory := ⟨[]⟩

/-- `ResolutionDirectory::add`: the devices of the same identity or alias are replaced. -/
def ResolutionDirectory.add (directory : ResolutionDirectory) (record : DeviceRecord) :
    ResolutionDirectory where
  devices := (directory.devices.filter fun d =>
    d.identity ≠ record.identity ∧ d.aliasName ≠ record.aliasName) ++ [record]

theorem ResolutionDirectory.mem_add {directory : ResolutionDirectory} {record d : DeviceRecord}
    (h : d ∈ (directory.add record).devices) : d ∈ directory.devices ∨ d = record := by
  rcases List.mem_append.1 h with h | h
  · exact .inl (List.mem_of_mem_filter h)
  · exact .inr (List.mem_singleton.1 h)

/-! ### Bundles -/

/-- `FlashedSource`. -/
structure FlashedSource where
  publicKey : ByteArr 32
  fingerprint : String
  aliasName : String
  deriving DecidableEq

/-- Who the source is. -/
def FlashedSource.identity (source : FlashedSource) : PublicIdentity := ⟨source.publicKey⟩

/-- `FlashedBundle`. -/
structure FlashedBundle where
  source : FlashedSource
  token : String
  issuedAt : UInt64
  ttl : UInt64
  deriving DecidableEq

/-- `AdoptSummary`. -/
structure AdoptSummary where
  trusted : Bool
  source : FlashedSource
  deriving DecidableEq

/-- The serialisations of the flasher. -/
structure FlasherEnv where
  primitives : Primitives
  bundle : Codec FlashedBundle
  token : Codec PendingToken
  ledger : Codec (List PairedDevice)
  devices : Codec ResolutionDirectory

/-- `BUNDLE_FILE`. -/
def bundleFile : String := "flashed.json"

/-- A callback: what it says to a source, and what becomes of its own state.  It may look at the
disk. -/
abbrev Confirm (σ : Type) := FlashedSource → Tree → σ → Except IoError Bool × σ

/-- A callback that answers so, and writes down what it was shown and how the disk was then. -/
def recording (answer : FlashedSource → Except IoError Bool) :
    Confirm (List (FlashedSource × Tree)) :=
  fun source t shown => (answer source, shown ++ [(source, t)])

section Operations

variable (F : FlasherEnv) (home : Home) (now : UInt64) (usbDir : PathBuf)

/-- Where the known devices are kept. -/
def devicesPath : PathBuf := home.path.join "devices.json"

/-- Where the known devices are written first. -/
def devicesTmpPath : PathBuf := home.path.join "devices.json.tmp"

/-- `author`, with the bytes that were drawn for the token. -/
def author (identity : Identity) (raw : ByteArr 16) : FsM IoError FlashedBundle := do
  let token ← issueToken F.token home raw none now
  let bundle : FlashedBundle :=
    { source :=
        { publicKey := (identity.pub F.primitives).publicKey
          fingerprint := (identity.pub F.primitives).fingerprint F.primitives
          aliasName := "flashed-from" }
      token := token
      issuedAt := now
      ttl := defaultTokenTtl }
  write (usbDir.join bundleFile) (F.bundle.encode bundle)
  return bundle

/-- The bundle, if it has a token and a key. -/
def checkBundle (bundle : FlashedBundle) : Except IoError FlashedBundle :=
  if bundle.token = "" ∨ bundle.source.publicKey = List.Vector.replicate 32 0 then
    .error (.custom .invalidData (bundleFile ++ " is missing a token or public key"))
  else .ok bundle

/-- `read_bundle`. -/
def readBundle : FsM IoError FlashedBundle := do
  let bytes ← read (usbDir.join bundleFile)
  let bundle ← FsM.ofExcept ((F.bundle.decode bytes).mapError fun e =>
    .custom .invalidData (bundleFile ++ ": " ++ e))
  FsM.ofExcept (checkBundle bundle)

/-- `load_devices`: none if they cannot be read. -/
def loadDevices (t : Tree) : ResolutionDirectory :=
  match ((read (devicesPath home) : FsM IoError Bytes) t).1 with
  | .ok bytes => (F.devices.decode bytes).toOption.getD emptyDirectory
  | .error _ => emptyDirectory

/-- `save_devices`. -/
def saveDevices (directory : ResolutionDirectory) : FsM IoError Unit :=
  replaceFile (devicesTmpPath home) (devicesPath home) (F.devices.encode directory)

/-- The record of a source among the known devices. -/
def FlashedSource.record (source : FlashedSource) : DeviceRecord where
  identity := source.identity
  aliasName := source.aliasName
  user := "neo"
  resolution := ⟨"", 22, ""⟩

/-- The known devices are loaded, and saved with the source. -/
def addSource (source : FlashedSource) : FsM IoError Unit := fun t =>
  saveDevices F home ((loadDevices F home t).add source.record) t

/-- The part of `adopt` after the confirmation. -/
def trustSource (source : FlashedSource) : FsM IoError Unit := do
  recordPairing F.ledger home now F.primitives source.identity
  addSource F home source

/-- `adopt`. -/
def adopt {σ : Type} (confirm : Confirm σ) (s : σ) (t : Tree) :
    Except IoError AdoptSummary × σ × Tree :=
  match readBundle F usbDir t with
  | (.error e, t) => (.error e, s, t)
  | (.ok bundle, t) =>
    match confirm bundle.source t s with
    | (.error e, s) => (.error e, s, t)
    -- nothing is written for a source that is declined
    | (.ok false, s) => (.ok ⟨false, bundle.source⟩, s, t)
    | (.ok true, s) =>
      match trustSource F home now bundle.source t with
      | (.error e, t) => (.error e, s, t)
      | (.ok (), t) => (.ok ⟨true, bundle.source⟩, s, t)

end Operations

section Spec

variable (F : FlasherEnv) (home : Home)

/-- The identity has a record as a paired or as a known device that was not there before. -/
def NewlyRecorded (x : PublicIdentity) (t t' : Tree) : Prop :=
  (∃ r ∈ pairLedger F.ledger home t', r.fingerprint = x.fingerprint F.primitives ∧
      r ∉ pairLedger F.ledger home t) ∨
    ∃ d ∈ (loadDevices F home t').devices, d.identity = x ∧ d ∉ (loadDevices F home t).devices

/-- What is recorded was confirmed, and shown with its fingerprint, before anything was written; and
without a confirmation both files stay as they are. -/
structure AdoptsSafely (now : UInt64) (usbDir : PathBuf)
    (answer : FlashedSource → Except IoError Bool) (t : Tree) : Prop where
  confirmed : ∀ r shown t', adopt F home now usbDir (recording answer) [] t = (r, shown, t') →
    ∀ x, NewlyRecorded F home x t t' →
      ∃ source, shown = [(source, t)] ∧ answer source = .ok true ∧
        source.fingerprint = x.fingerprint F.primitives
  unchanged : ∀ r shown t', adopt F home now usbDir (recording answer) [] t = (r, shown, t') →
    ((∃ source, r = .ok ⟨false, source⟩) ∨
        (∃ e, r = .error e) ∧ ∀ q ∈ shown, answer q.1 ≠ .ok true) →
      t'.content (pairedPath home) = t.content (pairedPath home) ∧
        t'.content (devicesPath home) = t.content (devicesPath home)

end Spec

variable {F : FlasherEnv} {home : Home} {now : UInt64} {usbDir : PathBuf} {t t' : Tree}
  {answer : FlashedSource → Except IoError Bool} {bundle : FlashedBundle} {bytes : Bytes}
  {source : FlashedSource}

/-! ### The bundle -/

theorem checkBundle_ok :
    checkBundle bundle = .ok bundle ↔
      bundle.token ≠ "" ∧ bundle.source.publicKey ≠ List.Vector.replicate 32 0 := by
  rw [checkBundle, ← not_or]
  split
  · rename_i hmissing
    exact iff_of_false (fun h => nomatch h) (not_not.2 hmissing)
  · rename_i hthere
    exact iff_of_true rfl hthere

theorem inert_readBundle : Inert (readBundle F usbDir) :=
  inert_read.bind fun _ => (inert_ofExcept _).bind fun _ => inert_ofExcept _

theorem readBundle_ok (hread : (read (usbDir.join bundleFile) : FsM IoError Bytes) t =
      (.ok bytes, t)) :
    (readBundle F usbDir t).1 = .ok bundle ↔
      F.bundle.decode bytes = .ok bundle ∧ bundle.token ≠ "" ∧
        bundle.source.publicKey ≠ List.Vector.replicate 32 0 := by
  rw [readBundle, bind_of_ok hread]
  cases hdecode : F.bundle.decode bytes with
  | error e =>
    exact ⟨fun h => (nomatch h), fun h => (nomatch h.1)⟩
  | ok b =>
    have hcheck : ((do
        let bundle ← FsM.ofExcept ((Except.ok b : Except String FlashedBundle).mapError fun e =>
          IoError.custom .invalidData (bundleFile ++ ": " ++ e))
        FsM.ofExcept (checkBundle bundle) : FsM IoError FlashedBundle) t).1 = checkBundle b := rfl
    rw [hcheck, ← checkBundle_ok]
    constructor
    · intro h
      have hb : bundle = b := by
        rw [checkBundle] at h
        split at h
        · cases h
        · exact (Except.ok.inj h).symm
      exact ⟨by rw [hb], hb ▸ h⟩
    · rintro ⟨hb, h⟩
      rw [Except.ok.inj hb, h]

/-- **What adopting comes to**: nothing is written and no answer was yes, or the source of the
bundle was shown first, the answer was yes, and it is trusted. -/
theorem adopt_cases {r : Except IoError AdoptSummary} {shown : List (FlashedSource × Tree)}
    (h : adopt F home now usbDir (recording answer) [] t = (r, shown, t')) :
    (t' = t ∧ ∀ q ∈ shown, answer q.1 ≠ .ok true) ∨
      ∃ bundle, (readBundle F usbDir t).1 = .ok bundle ∧ answer bundle.source = .ok true ∧
        shown = [(bundle.source, t)] ∧ t' = (trustSource F home now bundle.source t).2 ∧
          ∀ source, r ≠ .ok ⟨false, source⟩ := by
  rw [adopt] at h
  have hsnd : (readBundle F usbDir t).2 = t := inert_readBundle t
  cases hbundle : readBundle F usbDir t with
  | mk res t₁ =>
  rw [hbundle] at hsnd h
  obtain rfl : t₁ = t := hsnd
  cases res with
  | error e =>
    obtain ⟨-, rfl, rfl⟩ : _ ∧ shown = [] ∧ t' = t₁ := by simpa [eq_comm] using h
    exact .inl ⟨rfl, by simp⟩
  | ok bundle =>
    -- The bundle is read before anyone is asked, and nothing is written before the answer is yes.
    cases hanswer : answer bundle.source with
    | error e =>
      simp only [recording, hanswer] at h
      obtain ⟨-, hrest⟩ := Prod.mk.inj h
      obtain ⟨rfl, rfl⟩ := Prod.mk.inj hrest
      exact .inl ⟨rfl, by simp [hanswer]⟩
    | ok yes =>
      cases yes with
      | false =>
        simp only [recording, hanswer] at h
        obtain ⟨-, hrest⟩ := Prod.mk.inj h
        obtain ⟨rfl, rfl⟩ := Prod.mk.inj hrest
        exact .inl ⟨rfl, by simp [hanswer]⟩
      | true =>
        simp only [recording, hanswer] at h
        cases htrust : trustSource F home now bundle.source t₁ with
        | mk res t₂ =>
        rw [htrust] at h
        cases res with
        | error e =>
          obtain ⟨rfl, hrest⟩ := Prod.mk.inj h
          obtain ⟨rfl, rfl⟩ := Prod.mk.inj hrest
          exact .inr ⟨bundle, rfl, hanswer, rfl, by rw [htrust], fun _ h => nomatch h⟩
        | ok u =>
          obtain ⟨rfl, hrest⟩ := Prod.mk.inj h
          obtain ⟨rfl, rfl⟩ := Prod.mk.inj hrest
          exact .inr ⟨bundle, rfl, hanswer, rfl, by rw [htrust], fun _ h => by cases h⟩

theorem adopt_confirmed (hbundle : (readBundle F usbDir t).1 = .ok bundle)
    (hyes : answer bundle.source = .ok true) :
    ∃ r, adopt F home now usbDir (recording answer) [] t =
      (r, [(bundle.source, t)], (trustSource F home now bundle.source t).2) := by
  have hread : readBundle F usbDir t = (.ok bundle, t) := Prod.ext hbundle (inert_readBundle t)
  rw [adopt, hread]
  simp only [recording, hyes]
  cases trustSource F home now bundle.source t with
  | mk res t' =>
  cases res <;> exact ⟨_, rfl⟩

/-! ### What is recorded -/

theorem norm_devicesPath : (devicesPath home).norm = "devices.json" :: home.loc := by
  rw [devicesPath, PathBuf.norm_join (by decide) (by decide), Home.norm_path]

theorem norm_devicesTmpPath : (devicesTmpPath home).norm = "devices.json.tmp" :: home.loc := by
  rw [devicesTmpPath, PathBuf.norm_join (by decide) (by decide), Home.norm_path]

theorem loadDevices_eq_saved :
    loadDevices F home t = (saved F.devices (devicesPath home) t).getD emptyDirectory := by
  rw [loadDevices, saved, ← toOption_read (ε := IoError)]
  cases ((read (devicesPath home) : FsM IoError Bytes) t).1 <;> rfl

theorem loadDevices_recordPairing {x : PublicIdentity} :
    loadDevices F home (recordPairing F.ledger home now F.primitives x t).2 =
      loadDevices F home t := by
  have hframe : Frame {(pairedTmpPath home).norm, (pairedPath home).norm} t
      (recordPairing F.ledger home now F.primitives x t).2 := by
    unfold recordPairing
    split
    · exact .refl t
    · exact touches_replaceFile t
  rw [norm_pairedPath, norm_pairedTmpPath] at hframe
  rw [loadDevices_eq_saved, loadDevices_eq_saved, devicesPath,
    saved_of_frame hframe (downward_home home) (by decide) (by decide) ?_]
  rw [← devicesPath, norm_devicesPath]
  simp

theorem pairLedger_saveDevices {directory : ResolutionDirectory} :
    pairLedger F.ledger home (saveDevices F home directory t).2 = pairLedger F.ledger home t := by
  have hframe : Frame {(devicesTmpPath home).norm, (devicesPath home).norm} t
      (saveDevices F home directory t).2 := touches_replaceFile t
  rw [norm_devicesPath, norm_devicesTmpPath] at hframe
  rw [pairLedger_eq_saved, pairLedger_eq_saved, pairedPath,
    saved_of_frame hframe (downward_home home) (by decide) (by decide) ?_]
  rw [← pairedPath, norm_pairedPath]
  simp

theorem loadDevices_saveDevices (directory : ResolutionDirectory) :
    loadDevices F home (saveDevices F home directory t).2 = directory ∨
      loadDevices F home (saveDevices F home directory t).2 = loadDevices F home t := by
  cases hsave : saveDevices F home directory t with
  | mk r t' =>
  rw [saveDevices] at hsave
  cases r with
  | ok u =>
    left
    rw [loadDevices_eq_saved, saved_replaceFile hsave]
    rfl
  | error e =>
    right
    rw [loadDevices_eq_saved, loadDevices_eq_saved]
    refine congrArg (Option.getD · emptyDirectory)
      (saved_of_replaceFile_error (downward_home home) (by decide) (by decide) ?_ hsave)
    rw [← devicesPath, norm_devicesPath, norm_devicesTmpPath]
    simp

/-- **Only the key of the source is recorded.** -/
theorem newlyRecorded_trustSource {x : PublicIdentity}
    (h : NewlyRecorded F home x t (trustSource F home now source t).2) :
    x.fingerprint F.primitives = source.identity.fingerprint F.primitives := by
  rw [trustSource] at h
  cases hrecord : recordPairing F.ledger home now F.primitives source.identity t with
  | mk res t₁ =>
  have hdevices : loadDevices F home t₁ = loadDevices F home t := by
    have hkept : loadDevices F home (recordPairing F.ledger home now F.primitives
        source.identity t).2 = loadDevices F home t := loadDevices_recordPairing
    rwa [hrecord] at hkept
  cases res with
  | error e =>
    -- nothing was recorded
    rw [bind_of_error hrecord] at h
    rcases h with ⟨r, hr, -, hnew⟩ | ⟨d, hd, -, hnew⟩
    · rw [pairLedger_of_recordPairing_error hrecord] at hr
      exact absurd hr hnew
    · rw [hdevices] at hd
      exact absurd hd hnew
  | ok u =>
    rw [bind_of_ok hrecord] at h
    rcases h with ⟨r, hr, hfp, hnew⟩ | ⟨d, hd, rfl, hnew⟩
    · rw [addSource, pairLedger_saveDevices, pairLedger_recordPairing hrecord, enrolled] at hr
      split at hr
      · exact absurd hr hnew
      · rcases List.mem_append.1 hr with hr | hr
        · exact absurd hr hnew
        · rw [← hfp, List.mem_singleton.1 hr]
    · rcases loadDevices_saveDevices ((loadDevices F home t₁).add source.record)
        with hsaved | hsaved
      · rw [addSource, hsaved] at hd
        rcases ResolutionDirectory.mem_add hd with hd | rfl
        · exact absurd (hdevices ▸ hd) hnew
        · rfl
      · rw [addSource, hsaved] at hd
        exact absurd (hdevices ▸ hd) hnew

theorem not_newlyRecorded_self {x : PublicIdentity} : ¬ NewlyRecorded F home x t t := by
  rintro (⟨r, hr, -, hnew⟩ | ⟨d, hd, -, hnew⟩)
  · exact hnew hr
  · exact hnew hd

/-- If the fingerprint that is shown is that of the key, adopting is safe. -/
theorem adoptsSafely (h : ∀ bundle, (readBundle F usbDir t).1 = .ok bundle →
      answer bundle.source = .ok true →
        bundle.source.fingerprint = bundle.source.identity.fingerprint F.primitives) :
    AdoptsSafely F home now usbDir answer t := by
  constructor
  · intro r shown t' hrun x hx
    rcases adopt_cases hrun with ⟨rfl, -⟩ | ⟨bundle, hbundle, hyes, rfl, rfl, -⟩
    · exact absurd hx not_newlyRecorded_self
    · exact ⟨bundle.source, rfl, hyes,
        (h bundle hbundle hyes).trans (newlyRecorded_trustSource hx).symm⟩
  · rintro r shown t' hrun hno
    rcases adopt_cases hrun with ⟨rfl, -⟩ | ⟨bundle, -, hyes, rfl, rfl, htrusted⟩
    · exact ⟨rfl, rfl⟩
    · rcases hno with ⟨source, rfl⟩ | ⟨-, hnone⟩
      · exact absurd rfl (htrusted source)
      · exact absurd hyes (hnone (bundle.source, t) (List.mem_singleton_self _))

/-! ### A drive on a new device -/

namespace Plugged

/-- The state directory of the device. -/
def device : Home := ⟨["core"], Home.plain_core⟩

/-- Where the drive is. -/
def drive : PathBuf := ["usb"]

/-- The disk of the device, with nothing but the bundle of the drive. -/
def disk (bytes : Bytes) : Tree :=
  (((Tree.bare fun _ => true).mkdir ["core"]).mkdir ["usb"]).putFile ["flashed.json", "usb"] bytes

theorem read_disk :
    (read (drive.join bundleFile) : FsM IoError Bytes) (disk bytes) = (.ok bytes, disk bytes) :=
  read_of_hasFile (hasFile_putFile (by decide +kernel))

theorem entry_disk {l : Loc} (h : l ≠ ["flashed.json", "usb"]) (h' : l ≠ ["usb"])
    (h'' : l ≠ ["core"]) (hl : l ≠ []) : (disk bytes).entry l = none := by
  obtain ⟨c, l, rfl⟩ := List.exists_cons_of_ne_nil hl
  rw [disk, Tree.entry_putFile_of_ne h, Tree.entry_mkdir_of_ne h', Tree.entry_mkdir_of_ne h'',
    Tree.entry_bare_cons]

theorem lists_disk (bytes : Bytes) : (disk bytes).Lists device.path (fun _ => none) ∧
    (disk bytes).HasDir device.path := by
  refine ⟨⟨fun c => ?_, fun _ h => absurd rfl h⟩, ?_⟩
  · rw [Home.norm_path]
    exact entry_disk (by simp [device]) (by simp [device]) (by simp [device]) (by simp)
  · have hd : (((Tree.bare fun _ => true).mkdir ["core"]).mkdir ["usb"]).HasDir device.path :=
      ⟨by decide +kernel, by decide +kernel⟩
    exact hd.grows Tree.grows_putFile

theorem newlyRecorded :
    NewlyRecorded F device source.identity (disk bytes)
      (trustSource F device now source (disk bytes)).2 := by
  obtain ⟨hlists, hd⟩ := lists_disk bytes
  have hempty : pairLedger F.ledger device (disk bytes) = [] := by
    rw [pairLedger_eq_saved, saved]
    have hnone : (disk bytes).content (pairedPath device) = none := by
      refine Option.eq_none_iff_forall_ne_some.2 fun b hb => ?_
      have hentry := Tree.file?_eq_some.1 (Tree.content_eq_some.1 hb).2
      rw [norm_pairedPath, entry_disk (by simp [device]) (by simp [device]) (by simp [device])
        (by simp)] at hentry
      cases hentry
    rw [hnone]
    rfl
  obtain ⟨t', hreplace⟩ : ∃ t', (replaceFile (device.path.join "paired.tmp")
      (device.path.join "paired.json")
      (F.ledger.encode [⟨source.identity.fingerprint F.primitives, source.identity.publicKey,
        now⟩]) : FsM IoError Unit) (disk bytes) = (.ok (), t') :=
    hlists.replaceFile_accepted hd (by decide) (by decide) (by decide) (by decide) rfl rfl
  have hrecord : recordPairing F.ledger device now F.primitives source.identity (disk bytes) =
      (.ok (), t') := by
    rw [recordPairing, hempty]
    exact hreplace
  refine .inl ⟨⟨source.identity.fingerprint F.primitives, source.identity.publicKey, now⟩, ?_, rfl,
    by rw [hempty]; exact List.not_mem_nil⟩
  rw [trustSource, bind_of_ok hrecord, addSource, pairLedger_saveDevices,
    pairLedger_recordPairing hrecord, hempty]
  exact List.mem_singleton_self _

end Plugged

open Plugged

/-- If it is not, a new device that is told yes records a key under another fingerprint. -/
theorem not_adoptsSafely (now : UInt64) (hdecode : F.bundle.decode bytes = .ok bundle)
    (htoken : bundle.token ≠ "") (hkey : bundle.source.publicKey ≠ List.Vector.replicate 32 0)
    (hyes : answer bundle.source = .ok true)
    (hspoofed : bundle.source.fingerprint ≠ bundle.source.identity.fingerprint F.primitives) :
    ¬ AdoptsSafely F device now drive answer (disk bytes) := by
  intro h
  have hbundle : (readBundle F drive (disk bytes)).1 = .ok bundle :=
    (readBundle_ok read_disk).2 ⟨hdecode, htoken, hkey⟩
  obtain ⟨r, hrun⟩ : ∃ r, adopt F device now drive (recording answer) [] (disk bytes) =
      (r, [(bundle.source, disk bytes)], (trustSource F device now bundle.source (disk bytes)).2) :=
    adopt_confirmed hbundle hyes
  obtain ⟨source, hshown, -, hfingerprint⟩ := h.confirmed _ _ _ hrun _ newlyRecorded
  obtain ⟨rfl, -⟩ := Prod.mk.inj (List.singleton_inj.1 hshown)
  exact hspoofed hfingerprint

/-- **A bundle is adopted safely** by every device exactly when it is refused, or not confirmed, or
its fingerprint is that of its key. -/
theorem adopts_iff :
    (∀ (home : Home) (now : UInt64) (usbDir : PathBuf) (t : Tree),
      (read (usbDir.join bundleFile) : FsM IoError Bytes) t = (.ok bytes, t) →
        AdoptsSafely F home now usbDir answer t) ↔
      ∀ bundle, F.bundle.decode bytes = .ok bundle → bundle.token ≠ "" →
        bundle.source.publicKey ≠ List.Vector.replicate 32 0 → answer bundle.source = .ok true →
          bundle.source.fingerprint = bundle.source.identity.fingerprint F.primitives := by
  constructor
  · intro h bundle hdecode htoken hkey hyes
    by_contra hspoofed
    exact not_adoptsSafely 0 hdecode htoken hkey hyes hspoofed
      (h device 0 drive (disk bytes) read_disk)
  · intro h home now usbDir t hread
    refine adoptsSafely fun bundle hbundle hyes => ?_
    obtain ⟨hdecode, htoken, hkey⟩ := (readBundle_ok hread).1 hbundle
    exact h bundle hdecode htoken hkey hyes

/-! ### Authored and spoofed bundles -/

theorem author_ok {identity : Identity} {raw : ByteArr 16}
    (h : author F home now usbDir identity raw t = (.ok bundle, t')) :
    bundle.source.fingerprint = bundle.source.identity.fingerprint F.primitives ∧
      (read (usbDir.join bundleFile) : FsM IoError Bytes) t' =
        (.ok (F.bundle.encode bundle), t') := by
  obtain ⟨token, t₁, htoken, h⟩ := bind_ok.1 h
  obtain ⟨_, t₂, hwrite, h⟩ := bind_ok.1 h
  obtain ⟨hbundle, rfl⟩ := Prod.mk.inj h
  obtain rfl := Except.ok.inj hbundle
  exact ⟨rfl, read_of_hasFile (hasFile_of_write hwrite)⟩

/-- **What `author` writes is adopted safely**, whatever the callback says. -/
theorem adopts_author {identity : Identity} {raw : ByteArr 16} {home' : Home} {now' : UInt64}
    (h : author F home now usbDir identity raw t = (.ok bundle, t')) :
    AdoptsSafely F home' now' usbDir answer t' := by
  obtain ⟨hfingerprint, hread⟩ := author_ok h
  refine adoptsSafely fun b hb _ => ?_
  obtain ⟨hdecode, -, -⟩ := (readBundle_ok hread).1 hb
  rw [F.bundle.decode_encode] at hdecode
  rw [← Except.ok.inj hdecode]
  exact hfingerprint

namespace Plugged

/-- A source, as it may be written. -/
def sourceWire : Wire FlashedSource :=
  ((Wire.array 32).pair (Wire.string.pair Wire.string)).comap
    (fun s => (s.publicKey, s.fingerprint, s.aliasName)) (fun x => .ok ⟨x.1, x.2.1, x.2.2⟩)
    fun _ => rfl

/-- A bundle, as it may be written. -/
def bundleWire : Wire FlashedBundle :=
  (sourceWire.pair (Wire.string.pair (Wire.u64.pair Wire.u64))).comap
    (fun b => (b.source, b.token, b.issuedAt, b.ttl))
    (fun x => .ok ⟨x.1, x.2.1, x.2.2.1, x.2.2.2⟩) fun _ => rfl

/-- A device, as it may be written. -/
def recordWire : Wire DeviceRecord :=
  (PublicIdentity.wire.pair (Wire.string.pair (Wire.string.pair (Wire.string.pair
    (Wire.u16.pair Wire.string))))).comap
    (fun d => (d.identity, d.aliasName, d.user, d.resolution.host, d.resolution.port,
      d.resolution.knownHosts))
    (fun x => .ok ⟨x.1, x.2.1, x.2.2.1, x.2.2.2.1, x.2.2.2.2.1, x.2.2.2.2.2⟩) fun _ => rfl

/-- A flasher to compute with. -/
def env : FlasherEnv where
  primitives := .sample
  bundle := bundleWire.toCodec
  token := PendingToken.wire.toCodec
  ledger := (Wire.seq PairedDevice.wire).toCodec
  devices := ((Wire.seq recordWire).comap ResolutionDirectory.devices (fun l => .ok ⟨l⟩)
    fun _ => rfl).toCodec

/-- A key under the fingerprint of another one. -/
def spoofed : FlashedBundle where
  source := ⟨digits 32 8, (Identity.pub .sample ⟨digits 32 7⟩).fingerprint .sample, "flashed-from"⟩
  token := "00"
  issuedAt := 0
  ttl := 120

end Plugged

/-- **The key of one device is recorded under the fingerprint of another one.** -/
theorem not_adopts :
    ¬ ∀ (F : FlasherEnv) (bytes : Bytes) (answer : FlashedSource → Except IoError Bool)
      (home : Home) (now : UInt64) (usbDir : PathBuf) (t : Tree),
        (read (usbDir.join bundleFile) : FsM IoError Bytes) t = (.ok bytes, t) →
          AdoptsSafely F home now usbDir answer t := by
  intro h
  exact not_adoptsSafely 0 (env.bundle.decode_encode spoofed) (by decide) (by decide) rfl
    (by decide +kernel) (h env (env.bundle.encode spoofed) (fun _ => .ok true) device 0 drive _
      read_disk)

end Neonet
