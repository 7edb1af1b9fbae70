import Neonet.App.Flasher

/-!
# Adopting one device after the other

Every bundle that `author` writes names its source by the same alias, and a directory keeps one
device for an alias.  What cannot be read of `devices.json` is taken for an empty directory, which
is written back with the new device.

* `AdoptionKeeps` : a call loses no other device, records the adopted one, and leaves a file alone
  that it cannot read.
* `AdoptionsKept` : what holds over a sequence of calls.
* `adoptionKeeps_iff` : a call does so exactly if it does not get to the file, or the file is
  readable or absent and no other device has the alias.
* `adoptionsKept_iff` : **nothing is lost over a sequence of calls** exactly if each of them is so.
-/

namespace Neonet

open FileTree FsM

/-- A call of `adopt`: whose machine the drive comes from, what it holds, and the files before. -/
structure Adoption where
  identity : Identity
  bundle : FlashedBundle
  usbDir : PathBuf
  now : UInt64
  before : Tree

/-- The alias that `author` gives to every source. -/
def flashedFrom : String := "flashed-from"

section Spec

variable (F : FlasherEnv) (home : Home)

/-- What the call comes to, if it is told yes. -/
def Adoption.outcome (a : Adoption) :
    Except IoError AdoptSummary × List (FlashedSource × Tree) × Tree :=
  adopt F home a.now a.usbDir (recording fun _ => .ok true) [] a.before

/-- The files after the call. -/
def Adoption.after (a : Adoption) : Tree := (a.outcome F home).2.2

/-- The call does not fail. -/
def Adoption.Succeeds (a : Adoption) : Prop := ∃ summary, (a.outcome F home).1 = .ok summary

/-- The devices that are recorded. -/
def recorded (t : Tree) : List DeviceRecord := (loadDevices F home t).devices

/-- The drive holds what `author` wrote for the identity. -/
structure Adoption.OfAuthor (a : Adoption) : Prop where
  authored : ∃ home' usbDir' now' raw t t',
    author F home' now' usbDir' a.identity raw t = (.ok a.bundle, t')
  onDrive : (read (a.usbDir.join bundleFile) : FsM IoError Bytes) a.before =
    (.ok (F.bundle.encode a.bundle), a.before)

/-- `devices.json` is there, but reading it fails or what is read does not parse. -/
structure DevicesUnreadable (t : Tree) : Prop where
  present : t.entry (devicesPath home).norm ≠ none
  garbled : saved F.devices (devicesPath home) t = none

/-- One call. -/
structure AdoptionKeeps (a : Adoption) : Prop where
  /-- The other devices stay. -/
  others : ∀ d ∈ recorded F home a.before, d.identity ≠ a.identity.pub F.primitives →
    d ∈ recorded F home (a.after F home)
  adopted : a.Succeeds F home → a.bundle.source.record ∈ recorded F home (a.after F home)
  /-- What cannot be read is not overwritten. -/
  unreadable : DevicesUnreadable F home a.before → ¬ a.Succeeds F home ∧
    (a.after F home).content (devicesPath home) = a.before.content (devicesPath home)

/-- A sequence of calls: nobody writes `devices.json` between two of them. -/
def Adoptions (calls : List Adoption) : Prop :=
  calls.IsChain fun a b =>
    b.before.content (devicesPath home) = (a.after F home).content (devicesPath home)

/-- A sequence of calls. -/
structure AdoptionsKept (calls : List Adoption) : Prop where
  each : ∀ a ∈ calls, AdoptionKeeps F home a
  /-- What was recorded at first stays, unless it is adopted itself. -/
  first : ∀ a ∈ calls.head?, ∀ d ∈ recorded F home a.before,
    (∀ c ∈ calls, d.identity ≠ c.identity.pub F.primitives) →
      ∀ c ∈ calls, d ∈ recorded F home (c.after F home)
  /-- Who was adopted stays. -/
  earlier : calls.Pairwise fun a c => a.Succeeds F home →
    a.bundle.source.record ∈ recorded F home (c.after F home)

/-- Nothing keeps the call from writing `devices.json`: the key of the source is not all zeros, and
the files that are written can be created. -/
structure Adoption.Writes (a : Adoption) : Prop where
  key : a.bundle.source.publicKey ≠ List.Vector.replicate 32 0
  paired : (∃ r ∈ pairLedger F.ledger home a.before,
      r.fingerprint = a.bundle.source.identity.fingerprint F.primitives) ∨
    (∃ l, a.before.place (pairedTmpPath home) = .ok l) ∧
      ∃ l, a.before.place (pairedPath home) = .ok l
  devices : (∃ l, a.before.place (devicesTmpPath home) = .ok l) ∧
    ∃ l, a.before.place (devicesPath home) = .ok l

/-- `devices.json` is absent or readable, and no other device has the alias of all sources. -/
structure Adoption.Undisturbed (a : Adoption) : Prop where
  readable : ¬ DevicesUnreadable F home a.before
  alone : ∀ d ∈ recorded F home a.before, d.identity ≠ a.identity.pub F.primitives →
    d.aliasName ≠ flashedFrom

end Spec

variable {F : FlasherEnv} {home : Home} {t t' : Tree} {a : Adoption} {source : FlashedSource}
  {now : UInt64} {calls : List Adoption}

/-! ### One call -/

/-- What `author` writes has a token, the key of the identity, and always the same alias. -/
theorem bundle_of_author {home' : Home} {now' : UInt64} {usbDir' : PathBuf} {identity : Identity}
    {raw : ByteArr 16} {bundle : FlashedBundle}
    (h : author F home' now' usbDir' identity raw t = (.ok bundle, t')) :
    bundle.token ≠ "" ∧ bundle.source.identity = identity.pub F.primitives ∧
      bundle.source.aliasName = flashedFrom := by
  obtain ⟨token, t₁, htoken, h⟩ := bind_ok.1 h
  obtain ⟨_, t₂, -, h⟩ := bind_ok.1 h
  obtain ⟨hbundle, -⟩ := Prod.mk.inj h
  obtain rfl := Except.ok.inj hbundle
  obtain ⟨_, t₃, -, hreturn⟩ := bind_ok.1 htoken
  obtain ⟨htoken, -⟩ := Prod.mk.inj hreturn
  refine ⟨?_, rfl, rfl⟩
  rintro rfl
  have hlength : (hex raw.toList).toList.length = 2 * 16 := by
    rw [length_toList_hex, List.Vector.toList_length]
  rw [Except.ok.inj htoken] at hlength
  cases hlength

theorem readBundle_of_author (h : a.OfAuthor F) :
    (readBundle F a.usbDir a.before).1 = .ok a.bundle ↔
      a.bundle.source.publicKey ≠ List.Vector.replicate 32 0 := by
  obtain ⟨⟨home', usbDir', now', raw, t, t', hauthor⟩, hdrive⟩ := h
  rw [readBundle_ok hdrive, F.bundle.decode_encode]
  exact ⟨fun h => h.2.2, fun h => ⟨rfl, (bundle_of_author hauthor).1, h⟩⟩

theorem outcome_of_refused {e : IoError}
    (h : (readBundle F a.usbDir a.before).1 = .error e) :
    a.outcome F home = (.error e, [], a.before) := by
  have hread : readBundle F a.usbDir a.before = (.error e, a.before) :=
    Prod.ext h (inert_readBundle _)
  rw [Adoption.outcome, adopt, hread]

theorem outcome_of_read {bundle : FlashedBundle}
    (h : (readBundle F a.usbDir a.before).1 = .ok bundle) :
    (a.Succeeds F home ↔ (trustSource F home a.now bundle.source a.before).1 = .ok ()) ∧
      a.after F home = (trustSource F home a.now bundle.source a.before).2 := by
  have hread : readBundle F a.usbDir a.before = (.ok bundle, a.before) :=
    Prod.ext h (inert_readBundle _)
  rw [Adoption.Succeeds, Adoption.after, Adoption.outcome, adopt, hread]
  simp only [recording]
  cases trustSource F home a.now bundle.source a.before with
  | mk r t' =>
  cases r with
  | error e => exact ⟨⟨fun h => (by cases h.choose_spec), fun h => (by cases h)⟩, rfl⟩
  | ok u => exact ⟨⟨fun _ => rfl, fun _ => ⟨_, rfl⟩⟩, rfl⟩

/-- The paired devices are written beside the known ones. -/
theorem content_recordPairing {x : PublicIdentity} :
    (recordPairing F.ledger home now F.primitives x t).2.content (devicesPath home) =
      t.content (devicesPath home) := by
  have hframe : Frame (pairPlaces home) t (recordPairing F.ledger home now F.primitives x t).2 :=
    touches_recordPairing t
  refine Tree.content_of_frame hframe (downward_home home) (by decide) (by decide) ?_
  rw [← devicesPath, norm_devicesPath]
  simp [pairPlaces]

theorem sameDirs_recordPairing {x : PublicIdentity} :
    t.SameDirs (recordPairing F.ledger home now F.primitives x t).2 := by
  unfold recordPairing
  split
  · exact .refl t
  · exact sameDirs_of_replaceFile rfl

theorem recordPairing_ok_iff (n : UInt64) {x : PublicIdentity} :
    (recordPairing F.ledger home n F.primitives x t).1 = .ok () ↔
      (∃ r ∈ pairLedger F.ledger home t, r.fingerprint = x.fingerprint F.primitives) ∨
        (∃ l, t.place (pairedTmpPath home) = .ok l) ∧ ∃ l, t.place (pairedPath home) = .ok l := by
  rw [recordPairing]
  split_ifs with hlisted
  · exact iff_of_true rfl (.inl (by simpa using hlisted))
  · rw [replaceFile_ok_iff, or_iff_right]
    simpa using hlisted

theorem exists_place_congr {p : PathBuf} (h : t.SameDirs t') :
    (∃ l, t'.place p = .ok l) ↔ ∃ l, t.place p = .ok l :=
  ⟨fun ⟨l, hl⟩ => ⟨l, h.symm.place hl⟩, fun ⟨l, hl⟩ => ⟨l, h.place hl⟩⟩

theorem trustSource_ok_iff : (trustSource F home now source t).1 = .ok () ↔
    ((∃ r ∈ pairLedger F.ledger home t,
        r.fingerprint = source.identity.fingerprint F.primitives) ∨
      (∃ l, t.place (pairedTmpPath home) = .ok l) ∧ ∃ l, t.place (pairedPath home) = .ok l) ∧
    (∃ l, t.place (devicesTmpPath home) = .ok l) ∧ ∃ l, t.place (devicesPath home) = .ok l := by
  rw [← recordPairing_ok_iff (F := F) now, trustSource]
  cases hrecord : recordPairing F.ledger home now F.primitives source.identity t with
  | mk r t₁ =>
  cases r with
  | error e =>
    rw [bind_of_error hrecord]
    exact iff_of_false (fun h => by cases h) fun h => by cases h.1
  | ok u =>
    have hdirs : t.SameDirs t₁ := by
      have hsame : t.SameDirs (recordPairing F.ledger home now F.primitives source.identity t).2 :=
        sameDirs_recordPairing
      rwa [hrecord] at hsame
    rw [bind_of_ok hrecord, addSource, saveDevices, replaceFile_ok_iff, exists_place_congr hdirs,
      exists_place_congr hdirs]
    exact ⟨fun h => ⟨rfl, h⟩, fun h => h.2⟩

theorem sameDirs_trustSource : t.SameDirs (trustSource F home now source t).2 := by
  have hrecord : t.SameDirs (recordPairing F.ledger home now F.primitives source.identity t).2 :=
    sameDirs_recordPairing
  rw [trustSource, bind_apply]
  split
  · rename_i hok
    rw [hok] at hrecord
    exact hrecord.trans (sameDirs_of_replaceFile rfl)
  · rename_i herror
    rwa [herror] at hrecord

theorem loadDevices_congr (h : t'.content (devicesPath home) = t.content (devicesPath home)) :
    loadDevices F home t' = loadDevices F home t := by
  rw [loadDevices_eq_saved, loadDevices_eq_saved, saved, saved, h]

/-- **A trusted source is added** to what could be read. -/
theorem loadDevices_trustSource (h : (trustSource F home now source t).1 = .ok ()) :
    loadDevices F home (trustSource F home now source t).2 =
      (loadDevices F home t).add source.record := by
  obtain ⟨_, t₁, hrecord, hadd⟩ := bind_ok.1 (Prod.ext h rfl)
  have hdevices : loadDevices F home t₁ = loadDevices F home t := by
    have hkept : loadDevices F home (recordPairing F.ledger home now F.primitives
        source.identity t).2 = loadDevices F home t := loadDevices_recordPairing
    rwa [hrecord] at hkept
  rw [addSource, saveDevices] at hadd
  have hsaved := saved_replaceFile hadd
  rw [loadDevices_eq_saved]
  exact (congrArg (Option.getD · emptyDirectory) hsaved).trans (by rw [hdevices]; rfl)

/-- Where this fails, the known devices are as they were. -/
theorem content_trustSource (h : (trustSource F home now source t).1 ≠ .ok ()) :
    (trustSource F home now source t).2.content (devicesPath home) =
      t.content (devicesPath home) := by
  have hkept : (recordPairing F.ledger home now F.primitives source.identity t).2.content
      (devicesPath home) = t.content (devicesPath home) := content_recordPairing
  rw [trustSource] at h ⊢
  cases hrecord : recordPairing F.ledger home now F.primitives source.identity t with
  | mk r t₁ =>
  rw [hrecord] at hkept
  cases r with
  | error e => rw [bind_of_error hrecord]; exact hkept
  | ok u =>
    rw [bind_of_ok hrecord] at h ⊢
    rw [← hkept, addSource, saveDevices]
    cases hreplace : (replaceFile (devicesTmpPath home) (devicesPath home)
        (F.devices.encode ((loadDevices F home t₁).add source.record)) : FsM IoError Unit) t₁ with
    | mk r t₂ =>
    rcases replaceFile_cases hreplace with ⟨rfl, -⟩ | ⟨-, hframe⟩
    · rw [addSource, saveDevices, hreplace] at h
      exact absurd rfl h
    · refine Tree.content_of_frame hframe (downward_home home) (by decide) (by decide) ?_
      rw [← devicesPath, norm_devicesPath, norm_devicesTmpPath]
      simp

theorem identity_of_author (h : a.OfAuthor F) :
    a.bundle.source.identity = a.identity.pub F.primitives ∧
      a.bundle.source.aliasName = flashedFrom := by
  obtain ⟨home', usbDir', now', raw, t, t', hauthor⟩ := h.authored
  exact (bundle_of_author hauthor).2

theorem readBundle_cases (h : a.OfAuthor F) :
    (a.bundle.source.publicKey ≠ List.Vector.replicate 32 0 ∧
        (readBundle F a.usbDir a.before).1 = .ok a.bundle) ∨
      (¬ a.bundle.source.publicKey ≠ List.Vector.replicate 32 0 ∧
        ∃ e, (readBundle F a.usbDir a.before).1 = .error e) := by
  cases hread : (readBundle F a.usbDir a.before).1 with
  | error e =>
    refine .inr ⟨fun hkey => ?_, e, rfl⟩
    rw [(readBundle_of_author h).2 hkey] at hread
    cases hread
  | ok bundle =>
    have hb : bundle = a.bundle := by
      have hok := (readBundle_ok h.onDrive).1 hread
      rw [F.bundle.decode_encode] at hok
      exact (Except.ok.inj hok.1).symm
    rw [hb] at hread ⊢
    exact .inl ⟨(readBundle_of_author h).1 hread, rfl⟩

theorem succeeds_iff (h : a.OfAuthor F) : a.Succeeds F home ↔ a.Writes F home := by
  rcases readBundle_cases h with ⟨hkey, hread⟩ | ⟨hkey, e, hread⟩
  · rw [(outcome_of_read hread).1, trustSource_ok_iff]
    exact ⟨fun hok => ⟨hkey, hok.1, hok.2⟩, fun hwrites => ⟨hwrites.paired, hwrites.devices⟩⟩
  · refine iff_of_false ?_ fun hwrites => hkey hwrites.key
    rw [Adoption.Succeeds, outcome_of_refused hread]
    rintro ⟨_, hok⟩
    cases hok

theorem loadDevices_after (h : a.OfAuthor F) (hok : a.Succeeds F home) :
    loadDevices F home (a.after F home) =
      (loadDevices F home a.before).add a.bundle.source.record := by
  have hwrites := (succeeds_iff h).1 hok
  have hread := (readBundle_of_author h).2 hwrites.key
  rw [(outcome_of_read hread).2, loadDevices_trustSource ((outcome_of_read hread).1.1 hok)]

theorem content_after (h : a.OfAuthor F) (hfails : ¬ a.Succeeds F home) :
    (a.after F home).content (devicesPath home) = a.before.content (devicesPath home) := by
  rcases readBundle_cases h with ⟨-, hread⟩ | ⟨-, e, hread⟩
  · rw [(outcome_of_read hread).2]
    exact content_trustSource fun hok => hfails ((outcome_of_read hread).1.2 hok)
  · rw [Adoption.after, outcome_of_refused hread]

/-- **One call** loses nothing exactly if it writes nothing or is undisturbed. -/
theorem adoptionKeeps_iff (h : a.OfAuthor F) :
    AdoptionKeeps F home a ↔ (a.Writes F home → a.Undisturbed F home) := by
  obtain ⟨hidentity, halias⟩ := identity_of_author h
  by_cases hok : a.Succeeds F home
  · have hafter := loadDevices_after h hok
    rw [imp_iff_right ((succeeds_iff h).1 hok)]
    constructor
    · intro hkeeps
      refine ⟨fun hbad => (hkeeps.unreadable hbad).1 hok, fun d hd hother => ?_⟩
      have hkept := hkeeps.others d hd hother
      rw [recorded, hafter, ResolutionDirectory.add, List.mem_append, List.mem_singleton] at hkept
      rcases hkept with hkept | rfl
      · exact halias ▸ (of_decide_eq_true (List.mem_filter.1 hkept).2).2
      · exact absurd hidentity hother
    · rintro ⟨hreadable, halone⟩
      refine ⟨fun d hd hother => ?_, fun _ => ?_, fun hbad => absurd hbad hreadable⟩
      · rw [recorded, hafter, ResolutionDirectory.add, List.mem_append]
        refine .inl (List.mem_filter.2 ⟨hd, decide_eq_true ⟨?_, ?_⟩⟩)
        · exact fun hsame => hother (hsame.trans hidentity)
        · exact fun hsame => halone d hd hother (hsame.trans halias)
      · rw [recorded, hafter, ResolutionDirectory.add]
        exact List.mem_append_right _ (List.mem_singleton_self _)
  · have hcontent := content_after h hok
    refine iff_of_true ⟨fun d hd _ => ?_, fun h => absurd h hok, fun _ => ⟨hok, hcontent⟩⟩
      fun hwrites => absurd ((succeeds_iff h).2 hwrites) hok
    rwa [recorded, loadDevices_congr hcontent]

/-! ### A sequence of calls -/

theorem recorded_of_each {d : DeviceRecord} (hrun : Adoptions F home (a :: calls))
    (heach : ∀ c ∈ calls, AdoptionKeeps F home c) (hd : d ∈ recorded F home (a.after F home))
    (hother : ∀ c ∈ calls, d.identity ≠ c.identity.pub F.primitives) :
    ∀ c ∈ calls, d ∈ recorded F home (c.after F home) := by
  induction calls generalizing a with
  | nil => exact fun c hc => by cases hc
  | cons b calls ih =>
    obtain ⟨hbetween, hrest⟩ := List.isChain_cons_cons.1 hrun
    have hbefore : d ∈ recorded F home b.before := by
      rwa [recorded, loadDevices_congr hbetween]
    have hafter : d ∈ recorded F home (b.after F home) :=
      (heach b List.mem_cons_self).others d hbefore (hother b List.mem_cons_self)
    intro c hc
    rcases List.mem_cons.1 hc with rfl | hc
    · exact hafter
    · exact ih hrest (fun c hc => heach c (List.mem_cons_of_mem _ hc)) hafter
        (fun c hc => hother c (List.mem_cons_of_mem _ hc)) c hc

theorem adoptionsKept_of_each (hrun : Adoptions F home calls)
    (hauthor : ∀ a ∈ calls, a.OfAuthor F)
    (hdistinct : calls.Pairwise fun a c =>
      a.identity.pub F.primitives ≠ c.identity.pub F.primitives)
    (heach : ∀ a ∈ calls, AdoptionKeeps F home a) : AdoptionsKept F home calls := by
  refine ⟨heach, ?_, ?_⟩
  · intro a ha d hd hother
    cases calls with
    | nil => cases ha
    | cons b calls =>
      obtain rfl : b = a := Option.some.inj ha
      have hafter := (heach b List.mem_cons_self).others d hd (hother b List.mem_cons_self)
      intro c hc
      rcases List.mem_cons.1 hc with rfl | hc
      · exact hafter
      · exact recorded_of_each hrun (fun c hc => heach c (List.mem_cons_of_mem _ hc)) hafter
          (fun c hc => hother c (List.mem_cons_of_mem _ hc)) c hc
  · induction calls with
    | nil => exact .nil
    | cons a calls ih =>
      obtain ⟨hothers, hdistinct⟩ := List.pairwise_cons.1 hdistinct
      refine List.pairwise_cons.2 ⟨fun c hc hok => ?_, ih hrun.tail
        (fun c hc => hauthor c (List.mem_cons_of_mem _ hc)) hdistinct
        fun c hc => heach c (List.mem_cons_of_mem _ hc)⟩
      refine recorded_of_each hrun (fun c hc => heach c (List.mem_cons_of_mem _ hc))
        ((heach a List.mem_cons_self).adopted hok) (fun c hc => ?_) c hc
      have hidentity : a.bundle.source.record.identity = a.identity.pub F.primitives :=
        (identity_of_author (hauthor a List.mem_cons_self)).1
      rw [hidentity]
      exact hothers c hc

/-- **Nothing is lost over a sequence of adoptions** exactly if each of them that gets to
`devices.json` finds it absent or readable, and no other device in it with the alias of all
sources. -/
theorem adoptionsKept_iff (hrun : Adoptions F home calls) (hauthor : ∀ a ∈ calls, a.OfAuthor F)
    (hdistinct : calls.Pairwise fun a c =>
      a.identity.pub F.primitives ≠ c.identity.pub F.primitives) :
    AdoptionsKept F home calls ↔
      ∀ a ∈ calls, a.Writes F home → a.Undisturbed F home := by
  constructor
  · exact fun h a ha => (adoptionKeeps_iff (hauthor a ha)).1 (h.each a ha)
  · exact fun h => adoptionsKept_of_each hrun hauthor hdistinct fun a ha =>
      (adoptionKeeps_iff (hauthor a ha)).2 (h a ha)

/-! ### Two drives on a new device -/

namespace Plugged

/-- What `author` writes on a new device. -/
def bundleOf (identity : Identity) : FlashedBundle where
  source := ⟨(identity.pub .sample).publicKey, (identity.pub .sample).fingerprint .sample,
    flashedFrom⟩
  token := hex (digits 16 0).toList
  issuedAt := 0
  ttl := defaultTokenTtl

theorem sameDirs_disk {bytes bytes' : Bytes} : (disk bytes).SameDirs (disk bytes') :=
  Tree.sameDirs_putFile.symm.trans Tree.sameDirs_putFile

theorem author_disk (identity : Identity) : ∃ t',
    author env device 0 drive identity (digits 16 0) (disk []) = (.ok (bundleOf identity), t') := by
  obtain ⟨t₁, hpending⟩ : ∃ t₁, writePending env.token device
      ⟨hex (digits 16 0).toList, 0 + tokenTtl none, false⟩ (disk []) = (.ok (), t₁) :=
    ⟨_, Prod.ext (replaceFile_ok_iff.2 ⟨⟨["pair.tmp", "core"], by decide +kernel⟩,
      ["pair.json", "core"], by decide +kernel⟩) rfl⟩
  have hdirs : (disk []).SameDirs t₁ := sameDirs_of_replaceFile hpending
  have hplace : (disk []).place (drive.join bundleFile) = .ok ["flashed.json", "usb"] := by
    decide +kernel
  exact ⟨_, bind_ok.2 ⟨_, t₁, bind_ok.2 ⟨(), t₁, hpending, rfl⟩,
    bind_ok.2 ⟨(), _, write_ok.2 ⟨_, hdirs.place hplace, rfl⟩, rfl⟩⟩⟩

/-- A drive of the identity is adopted. -/
def plugged (identity : Identity) (t : Tree) : Adoption :=
  ⟨identity, bundleOf identity, drive, 0, t⟩

theorem ofAuthor_plugged {identity : Identity}
    (h : t.HasFile (drive.join bundleFile) (env.bundle.encode (bundleOf identity))) :
    (plugged identity t).OfAuthor env := by
  obtain ⟨t', hauthor⟩ := author_disk identity
  exact ⟨⟨device, drive, 0, digits 16 0, disk [], t', hauthor⟩, read_of_hasFile h⟩

/-- Nothing is in the way on a device with the directories of a new one. -/
theorem writes_plugged {identity : Identity} (hdirs : (disk []).SameDirs t)
    (hkey : (identity.pub .sample).publicKey ≠ List.Vector.replicate 32 0) :
    (plugged identity t).Writes env device where
  key := hkey
  paired := .inr ⟨⟨["paired.tmp", "core"], hdirs.place (by decide +kernel)⟩,
    ["paired.json", "core"], hdirs.place (by decide +kernel)⟩
  devices := ⟨⟨["devices.json.tmp", "core"], hdirs.place (by decide +kernel)⟩,
    ["devices.json", "core"], hdirs.place (by decide +kernel)⟩

theorem sameDirs_after {identity : Identity} (hdirs : (disk []).SameDirs t)
    (h : (readBundle env drive t).1 = .ok (bundleOf identity)) :
    (disk []).SameDirs ((plugged identity t).after env device) := by
  rw [(outcome_of_read (a := plugged identity t) h).2]
  exact hdirs.trans sameDirs_trustSource

theorem place_drive : (disk []).place (drive.join bundleFile) = .ok ["flashed.json", "usb"] := by
  decide

/-- Two machines. -/
def one : Identity := ⟨digits 32 7⟩

def other : Identity := ⟨digits 32 8⟩

theorem key_one : (one.pub .sample).publicKey ≠ List.Vector.replicate 32 0 := by decide

theorem key_other : (other.pub .sample).publicKey ≠ List.Vector.replicate 32 0 := by decide

theorem one_ne_other : one.pub .sample ≠ other.pub .sample := by decide

/-- The drive of one machine is adopted, … -/
def first : Adoption := plugged one (disk (env.bundle.encode (bundleOf one)))

/-- … then that of the other one. -/
def second : Adoption := plugged other ((first.after env device).putFile ["flashed.json", "usb"]
  (env.bundle.encode (bundleOf other)))

theorem ofAuthor_first : first.OfAuthor env := ofAuthor_plugged (read_eq_ok.1 read_disk).2

theorem writes_first : first.Writes env device := writes_plugged sameDirs_disk key_one

theorem sameDirs_first : (disk []).SameDirs (first.after env device) :=
  sameDirs_after sameDirs_disk ((readBundle_of_author ofAuthor_first).2 key_one)

theorem ofAuthor_second : second.OfAuthor env :=
  ofAuthor_plugged (hasFile_putFile (sameDirs_first.place place_drive))

theorem writes_second : second.Writes env device :=
  writes_plugged (sameDirs_first.trans Tree.sameDirs_putFile) key_other

theorem content_putFile_drive {bytes : Bytes} :
    (t.putFile ["flashed.json", "usb"] bytes).content (devicesPath device) =
      t.content (devicesPath device) := by
  have hne : (device.path.join "devices.json").norm ≠ ["flashed.json", "usb"] := by
    rw [← devicesPath, norm_devicesPath]
    simp
  exact Tree.content_join_congr (downward_home device) (by decide) (by decide)
    Tree.accepts_putFile (Tree.file?_putFile_of_ne hne)

theorem content_second : second.before.content (devicesPath device) =
    (first.after env device).content (devicesPath device) := by
  simp only [second, plugged]
  exact content_putFile_drive

/-- A device that was recorded by hand, … -/
def laptop : DeviceRecord := ⟨Identity.pub .sample ⟨digits 32 9⟩, "laptop", "neo", ⟨"", 22, ""⟩⟩

/-- … when the drive of one machine is adopted, … -/
def beside : Adoption := plugged one ((disk (env.bundle.encode (bundleOf one))).putFile
  ["devices.json", "core"] (env.devices.encode ⟨[laptop]⟩))

/-- … and then that of the other one, while the known devices cannot be written. -/
def blocked : Adoption := plugged other (((beside.after env device).putFile ["flashed.json", "usb"]
  (env.bundle.encode (bundleOf other))).mkdir ["devices.json.tmp", "core"])

theorem ofAuthor_calls : ∀ a ∈ [beside, blocked], a.OfAuthor env := by
  refine List.forall_mem_cons.2 ⟨ofAuthor_plugged ⟨?_, ?_⟩,
    List.forall_mem_singleton.2 (ofAuthor_plugged ⟨?_, ?_⟩)⟩
  all_goals decide +kernel

/-- The laptop has another alias, and nothing is written when the second drive is adopted. -/
theorem undisturbed_calls : ∀ a ∈ [beside, blocked], a.Writes env device →
    a.Undisturbed env device := by
  refine List.forall_mem_cons.2 ⟨fun _ => ⟨fun h => ?_, fun d hd _ => ?_⟩,
    List.forall_mem_singleton.2 fun h => ?_⟩
  · exact absurd h.garbled (by decide +kernel)
  · have hrecorded : recorded env device beside.before = [laptop] := by decide +kernel
    obtain rfl : d = laptop := List.mem_singleton.1 (hrecorded ▸ hd)
    decide
  · obtain ⟨⟨l, hl⟩, -⟩ := h.devices
    have hdir : blocked.before.place (devicesTmpPath device) = .error .isADirectory := by
      decide +kernel
    rw [hdir] at hl
    cases hl

end Plugged

open Plugged

/-- The first machine is recorded beside the laptop, and stays when the adoption of the other one
fails. -/
theorem adoptionsKept_iff_first :
    AdoptionsKept env device [beside, blocked] ∧
      recorded env device (blocked.after env device) = [laptop, (bundleOf one).source.record] := by
  obtain ⟨hcontent, hrecorded⟩ : blocked.before.content (devicesPath device) =
      (beside.after env device).content (devicesPath device) ∧
    recorded env device (blocked.after env device) =
      [laptop, (bundleOf one).source.record] := by decide +kernel
  exact ⟨(adoptionsKept_iff (List.isChain_pair.2 hcontent) ofAuthor_calls
    (List.pairwise_pair.2 one_ne_other)).2 undisturbed_calls, hrecorded⟩

/-- **The second drive takes the place of the first one.** -/
theorem not_adoptionsKept :
    ¬ ∀ (F : FlasherEnv) (home : Home) (calls : List Adoption), Adoptions F home calls →
      (∀ a ∈ calls, a.OfAuthor F) →
        calls.Pairwise (fun a c => a.identity.pub F.primitives ≠ c.identity.pub F.primitives) →
          AdoptionsKept F home calls := by
  intro h
  have hkept := h env device [first, second] (List.isChain_pair.2 content_second)
    (by simp [ofAuthor_first, ofAuthor_second]) (List.pairwise_pair.2 one_ne_other)
  have hadopted := (hkept.each first List.mem_cons_self).adopted
    ((succeeds_iff ofAuthor_first).2 writes_first)
  have hundisturbed := (adoptionKeeps_iff ofAuthor_second).1
    (hkept.each second (List.mem_cons_of_mem _ List.mem_cons_self)) writes_second
  refine hundisturbed.alone first.bundle.source.record ?_ one_ne_other rfl
  rwa [recorded, loadDevices_congr content_second]

end Neonet
