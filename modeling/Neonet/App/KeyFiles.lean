import Neonet.App.Operators
import Neonet.App.PairCommand
import Neonet.Lib.Kept
import Neonet.Storage.BlobStore

/-!
# Key files

A device generates its signing key when it is first run, and its storage key when something is first
stored.  Both are kept in files, and so is the epoch of its revocations.

* `loadIdentity`, `LocalKeyStore.loadOrGenerate` : a key is read, or drawn and kept.
* `identityKeeper`, `storageKeeper`, `epochKeeper` : the programs, and what a crash leaves of them.
* `KeyPersists` : one key is handed out, whatever happens; `keys_persist` : **so it is with both
  keys.**
* `epochs_increase` : **no epoch is drawn twice**, until there is none left, **and no broadcast is
  signed twice.**
-/

namespace Neonet

open FileTree FsM

/-- `IdentityError`. -/
inductive IdentityError
  | io (e : IoError)
  | invalidFile (message : String)
  deriving DecidableEq

instance : OfOs IdentityError := ⟨fun e => .io (.os e)⟩

section Operations

variable {ε : Type} [OfOs ε]

/-- A key is read from its file. -/
def readKey (malformed : ε) (path : PathBuf) : FsM ε (ByteArr 32) := do
  let bytes ← read path
  if h : bytes.length = 32 then return ⟨bytes, h⟩ else fail malformed

/-- The error of a signing key that is cut short or too long. -/
def malformedIdentity : IdentityError := .invalidFile "private key must contain exactly 32 bytes"

/-- The error of such a storage key. -/
def malformedStorageKey : StorageError := .codec "storage key must be 32 bytes"

/-- `Identity::load_or_generate`, with the key that would be drawn. -/
def Identity.loadOrGenerate (dir : PathBuf) (drawn : ByteArr 32) : FsM IdentityError Identity := do
  createDirAll dir
  if ← pathExists (dir.join "identity.key") then
    let key ← readKey malformedIdentity (dir.join "identity.key")
    return ⟨key⟩
  else
    replaceFile (dir.join "identity.key.tmp") (dir.join "identity.key") drawn.toList
    return ⟨drawn⟩

variable (home : Home)

/-- `load_identity`. -/
def loadIdentity (drawn : ByteArr 32) : FsM IdentityError Identity := do
  createDirAll home.path
  Identity.loadOrGenerate (identityDir home) drawn

/-- `LocalKeyStore::load_or_generate`, of the file in the state directory. -/
def LocalKeyStore.loadOrGenerate (drawn : ByteArr 32) : FsM StorageError (ByteArr 32) := do
  if ← pathExists (home.path.join "storage.key") then
    readKey malformedStorageKey (home.path.join "storage.key")
  else
    createDirAll home.path
    replaceFile (home.path.join "storage.tmp") (home.path.join "storage.key") drawn.toList
    return drawn

/-! ### What a crash leaves -/

/-- A crash of `load_identity`: in between the directories, or after them, while the key is
written. -/
def IdentityCrash (drawn : ByteArr 32) (t t' : Tree) : Prop :=
  CrashDirs IdentityError home.path t t' ∨
    ∃ t₁, (createDirAll home.path : FsM IdentityError Unit) t = (.ok (), t₁) ∧
      (CrashDirs IdentityError (identityDir home) t₁ t' ∨
        ∃ t₂, (createDirAll (identityDir home) : FsM IdentityError Unit) t₁ = (.ok (), t₂) ∧
          ((pathExists ((identityDir home).join "identity.key") : FsM IdentityError Bool) t₂).1 =
              .ok false ∧
            DirOp.Crash IdentityError (identityDir home)
              (replaceOps "identity.key.tmp" "identity.key" drawn.toList) t₂ t')

/-- A crash of `LocalKeyStore::load_or_generate`. -/
def StorageKeyCrash (drawn : ByteArr 32) (t t' : Tree) : Prop :=
  t' = t ∨
    ((pathExists (home.path.join "storage.key") : FsM StorageError Bool) t).1 = .ok false ∧
      (CrashDirs StorageError home.path t t' ∨
        ∃ t₁, (createDirAll home.path : FsM StorageError Unit) t = (.ok (), t₁) ∧
          DirOp.Crash StorageError home.path
            (replaceOps "storage.tmp" "storage.key" drawn.toList) t₁ t')

/-- A crash of `next_revocation_epoch`. -/
def EpochCrash (t t' : Tree) : Prop :=
  DirOp.Crash IoError home.path (replaceOps "revoke.epoch.tmp" "revoke.epoch"
    (leBytes64 (epochAfter ((read (epochPath home) : FsM IoError Bytes) t).1))) t t'

/-! ### The programs that keep a value -/

/-- The signing key. -/
def identityKeeper : Keeper IdentityError (ByteArr 32) Identity where
  dir := identityDir home
  name := "identity.key"
  run := loadIdentity home
  crash := IdentityCrash home

/-- The storage key. -/
def storageKeeper : Keeper StorageError (ByteArr 32) (ByteArr 32) where
  dir := home.path
  name := "storage.key"
  run := LocalKeyStore.loadOrGenerate home
  crash := StorageKeyCrash home

/-- The epoch. -/
def epochKeeper : Keeper IoError Unit UInt64 where
  dir := home.path
  name := "revoke.epoch"
  run _ := nextRevocationEpoch home
  crash _ := EpochCrash home

section Keys

variable {α : Type} (as : ByteArr 32 ≃ α) (malformed : ε)

/-- The key that a run should hand out: the one in the file, or the one that is drawn. -/
def keyOf : Option Bytes → ByteArr 32 → Except ε α
  | none, drawn => .ok (as drawn)
  | some bytes, _ => if h : bytes.length = 32 then .ok (as ⟨bytes, h⟩) else .error malformed

/-- A key as it is kept. -/
def savedKey (key : α) : Bytes := (as.symm key).toList

/-- A run fails in the operating system, or hands out the key and keeps it. -/
def KeyRun (drawn : ByteArr 32) (content content' : Option Bytes) (r : Except ε α) : Prop :=
  (∃ e, r = .error (OfOs.ofOs e) ∧ content' = content) ∨
    r = keyOf as malformed content drawn ∧
      content' = r.toOption.elim content fun key => some (savedKey as key)

/-- The program keeps a key: it draws one if there is none, and a crash leaves that one or none. -/
structure KeepsKey (k : Keeper ε (ByteArr 32) α) : Prop where
  downward : k.dir.Downward
  noSlash : '/' ∉ k.name.toList
  plain : Plain k.name
  run : ∀ drawn t t' r, k.run drawn t = (r, t') →
    KeyRun as malformed drawn (t.content k.path) (t'.content k.path) r
  crash : ∀ drawn t t', k.crash drawn t t' → t'.content k.path = t.content k.path ∨
    t.content k.path = none ∧ t'.content k.path = some drawn.toList

/-- The file is not there, or it holds a key. -/
def FileIsKey (k : Keeper ε (ByteArr 32) α) (t : Tree) : Prop :=
  t.content k.path = none ∨ ∃ key, t.content k.path = some (savedKey as key)

/-- Whatever runs and crashes there were, only one key was handed out, the one that was in the file
before if there was one, and it is in the file; and no run finds a file that is not a key. -/
def KeyPersists (k : Keeper ε (ByteArr 32) α) : Prop :=
  ∀ t t' keys, FileIsKey as k t → k.life.Leads (t, []) (t', keys) →
    (∀ key ∈ keys, t'.content k.path = some (savedKey as key) ∧ ∀ key' ∈ keys, key' = key) ∧
    (∀ key, t.content k.path = some (savedKey as key) → ∀ key' ∈ keys, key' = key) ∧
    ∀ drawn, (k.run drawn t').1 ≠ .error malformed

end Keys

/-- The epoch that is kept next. -/
def keptEpoch (content : Option Bytes) (_ : Unit) : Option UInt64 :=
  some (epochAfter (content.elim (.error (.os .notFound)) .ok))

end Operations

/-! ### Programs that keep a key -/

section Keys

variable {ε α : Type} [OfOs ε] {as : ByteArr 32 ≃ α} {malformed : ε}
  {k : Keeper ε (ByteArr 32) α} {drawn : ByteArr 32} {key key' : α} {t t' : Tree} {keys : List α}

omit [OfOs ε] in
theorem keyOf_savedKey : keyOf as malformed (some (savedKey as key)) drawn = .ok key := by
  have hlength : (savedKey as key).length = 32 := (as.symm key).toList_length
  rw [keyOf, dif_pos hlength]
  exact congrArg Except.ok (as.apply_symm_apply key)

theorem savedKey_inj (h : savedKey as key = savedKey as key') : key = key' :=
  as.symm.injective (Subtype.ext h)

omit [OfOs ε] in
theorem eq_of_keyOf (h : (keyOf as malformed (some (savedKey as key)) drawn).toOption = some key') :
    key = key' := by
  rw [keyOf_savedKey] at h
  exact Option.some.inj h

namespace KeepsKey

theorem keeps (h : KeepsKey as malformed k) :
    k.Keeps (savedKey as) fun content drawn => (keyOf as malformed content drawn).toOption where
  downward := h.downward
  noSlash := h.noSlash
  plain := h.plain
  ok hrun := by
    rcases h.run _ _ _ _ hrun with ⟨e, he, -⟩ | ⟨hkey, hcontent⟩
    · cases he
    · exact ⟨by rw [← hkey]; rfl, hcontent⟩
  error hrun := by
    rcases h.run _ _ _ _ hrun with ⟨e, -, hcontent⟩ | ⟨-, hcontent⟩
    · exact hcontent
    · exact hcontent
  crash hcrash := by
    rcases h.crash _ _ _ hcrash with hsame | ⟨hnone, hdrawn⟩
    · exact .inl hsame
    · refine .inr ⟨as _, by rw [hnone]; rfl, ?_⟩
      rw [hdrawn, savedKey, as.symm_apply_apply]

theorem content_eq (h : KeepsKey as malformed k) (hlife : k.life.Leads (t, []) (t', keys))
    (hkey : key ∈ keys) : t'.content k.path = some (savedKey as key) := by
  have hordered := h.keeps.ordered (R := Eq) (fun _ _ _ => eq_of_keyOf) (fun _ _ _ => Eq.trans)
    hlife
  obtain ⟨b, hb, rfl | rfl⟩ := hordered.kept key hkey <;> exact hb

theorem content_stays (h : KeepsKey as malformed k) (hlife : k.life.Leads (t, []) (t', keys))
    (hkey : t.content k.path = some (savedKey as key)) :
    t'.content k.path = some (savedKey as key) := by
  obtain ⟨b, hb, rfl | rfl⟩ := Cell.content_above (R := Eq) (fun _ _ _ => eq_of_keyOf)
    (fun _ _ _ => Eq.trans) (h.keeps.moves hlife) hkey <;> exact hb

theorem fileIsKey (h : KeepsKey as malformed k) (hlife : k.life.Leads (t, []) (t', keys))
    (hstart : FileIsKey as k t) : FileIsKey as k t' := by
  rcases Cell.content_cases (h.keeps.moves hlife) with hsame | hnew
  · have hcontent : t'.content k.path = t.content k.path := hsame
    rwa [FileIsKey, hcontent]
  · exact .inr hnew

/-- **One key is handed out, whatever happens.** -/
theorem persists (h : KeepsKey as malformed k) (hos : ∀ e, malformed ≠ OfOs.ofOs e) :
    KeyPersists as malformed k := by
  intro t t' keys hstart hlife
  have hkept : ∀ key ∈ keys, t'.content k.path = some (savedKey as key) := fun _ =>
    h.content_eq hlife
  refine ⟨fun key hkey => ⟨hkept key hkey, fun key' hkey' => ?_⟩, fun key hkey key' hkey' => ?_,
    fun drawn hrun => ?_⟩
  · exact savedKey_inj (Option.some.inj ((hkept _ hkey').symm.trans (hkept _ hkey)))
  · have hstays := h.content_stays hlife hkey
    exact savedKey_inj (Option.some.inj ((hkept _ hkey').symm.trans hstays))
  · rcases h.run drawn t' _ _ rfl with ⟨e, he, -⟩ | ⟨hkey, -⟩
    · rw [hrun] at he
      exact hos e (Except.error.inj he)
    · rw [hrun] at hkey
      rcases h.fileIsKey hlife hstart with hnone | ⟨key, hsome⟩
      · rw [hnone] at hkey
        cases hkey
      · rw [hsome, keyOf_savedKey] at hkey
        cases hkey

end KeepsKey

end Keys

/-! ### Runs -/

section Runs

variable {ε α : Type} [OfOs ε] {as : ByteArr 32 ≃ α} {malformed : ε} {home : Home} {p q : PathBuf}
  {s tmp : String} {t t' : Tree} {drawn : ByteArr 32} {r : Except ε α}

omit [OfOs ε] in
theorem pathExists_spec {r : Except ε Bool} (h : pathExists p t = (r, t')) :
    t' = t ∧ (r = .ok true ∨ r = .ok false ∧ t.content p = none) := by
  rw [pathExists] at h
  cases hr : t.resolve p with
  | error e =>
    rw [hr] at h
    obtain ⟨rfl, rfl⟩ := Prod.mk.inj h
    exact ⟨rfl, .inr ⟨rfl, by rw [Tree.content, hr]⟩⟩
  | ok l =>
    rw [hr] at h
    obtain ⟨rfl, rfl⟩ := Prod.mk.inj h
    cases hentry : t.entry l with
    | some e => exact ⟨rfl, .inl rfl⟩
    | none =>
      have hnone : t.file? l = none := by rw [Tree.file?, hentry]
      exact ⟨rfl, .inr ⟨rfl, by rw [Tree.content, hr]; exact hnone⟩⟩

theorem read_eq {r : Except ε Bytes} (h : read p t = (r, t')) :
    t' = t ∧ ((∃ e, r = .error (OfOs.ofOs e)) ∨ ∃ bytes, r = .ok bytes ∧
      t.content p = some bytes) := by
  have hinert := inert_read (ε := ε) (p := p) t
  rw [h] at hinert
  refine ⟨hinert, ?_⟩
  cases r with
  | ok bytes => exact .inr ⟨bytes, rfl, Tree.content_eq_some.2 (read_eq_ok.1 h).2⟩
  | error e =>
    left
    by_contra hne
    exact avoids_read (fun o ho => hne ⟨o, congrArg _ ho.symm⟩) t (congrArg Prod.fst h)

variable (as drawn) in
theorem keyRun_read {r : Except ε (ByteArr 32)} (h : readKey malformed p t = (r, t')) :
    t' = t ∧ KeyRun as malformed drawn (t.content p) (t.content p) (r.map as) := by
  cases hread : (read p : FsM ε Bytes) t with
  | mk res t₁ =>
  obtain ⟨rfl, ⟨e, rfl⟩ | ⟨bytes, rfl, hcontent⟩⟩ := read_eq hread
  · rw [readKey, bind_of_error hread] at h
    obtain ⟨rfl, rfl⟩ := Prod.mk.inj h
    exact ⟨rfl, .inl ⟨e, rfl, rfl⟩⟩
  rw [readKey, bind_of_ok hread] at h
  rw [hcontent]
  by_cases hlength : bytes.length = 32
  · obtain ⟨rfl, rfl⟩ := Prod.mk.inj ((congrFun (dif_pos hlength) t₁).symm.trans h)
    refine ⟨rfl, .inr ⟨?_, ?_⟩⟩
    · rw [keyOf, dif_pos hlength]
      rfl
    · exact congrArg (some ∘ List.Vector.toList) (as.symm_apply_apply ⟨bytes, hlength⟩).symm
  · obtain ⟨rfl, rfl⟩ := Prod.mk.inj ((congrFun (dif_neg hlength) t₁).symm.trans h)
    refine ⟨rfl, .inr ⟨?_, rfl⟩⟩
    rw [keyOf, dif_neg hlength]
    rfl

theorem keyRun_write (hp : p.Downward) (hs : '/' ∉ s.toList) (hs' : Plain s)
    (htmp : '/' ∉ tmp.toList) (htmp' : Plain tmp) (hne : tmp ≠ s)
    (hnone : t.content (p.join s) = none)
    (h : (replaceFile (p.join tmp) (p.join s) drawn.toList >>= fun _ => pure (as drawn)) t =
      (r, t')) :
    KeyRun as malformed drawn (t.content (p.join s)) (t'.content (p.join s)) r := by
  cases hreplace : (replaceFile (p.join tmp) (p.join s) drawn.toList : FsM ε Unit) t with
  | mk res t₁ =>
  simp only [bind_apply, hreplace] at h
  obtain ⟨rfl, hfile, -⟩ | ⟨⟨e, rfl⟩, hframe⟩ := replaceFile_cases hreplace
  · obtain ⟨rfl, rfl⟩ := Prod.mk.inj h
    refine .inr ⟨by rw [hnone]; rfl, ?_⟩
    rw [Tree.content_eq_some.2 hfile]
    exact congrArg (some ∘ List.Vector.toList) (as.symm_apply_apply drawn).symm
  · obtain ⟨rfl, rfl⟩ := Prod.mk.inj h
    refine .inl ⟨e, rfl, Tree.content_of_frame hframe hp hs hs' ?_⟩
    rw [PathBuf.norm_join hs hs', PathBuf.norm_join htmp htmp']
    exact fun heq => hne (List.cons.inj heq).1.symm

theorem content_createDirAll {r : Except ε Unit} (hp : p.Downward) (hs : '/' ∉ s.toList)
    (hs' : Plain s) (h : (createDirAll q : FsM ε Unit) t = (r, t')) :
    t'.content (p.join s) = t.content (p.join s) := by
  have hframe : Frame ∅ t ((createDirAll q : FsM ε Unit) t).2 := touches_createDirAll t
  rw [h] at hframe
  exact Tree.content_of_frame hframe hp hs hs' (Set.notMem_empty _)

theorem content_crashDirs (hp : p.Downward) (hs : '/' ∉ s.toList) (hs' : Plain s)
    (h : CrashDirs ε q t t') : t'.content (p.join s) = t.content (p.join s) :=
  Tree.content_of_frame h.frame hp hs hs' (Set.notMem_empty _)

theorem keyRun_createDirAll {m : FsM ε α} (hp : p.Downward) (hs : '/' ∉ s.toList) (hs' : Plain s)
    (hm : ∀ t₁, (m t₁ = (r, t')) → t₁.content (p.join s) = t.content (p.join s) →
      KeyRun as malformed drawn (t₁.content (p.join s)) (t'.content (p.join s)) r)
    (h : (createDirAll q >>= fun _ => m) t = (r, t')) :
    KeyRun as malformed drawn (t.content (p.join s)) (t'.content (p.join s)) r := by
  rcases bind_cases h with ⟨e, hcreate, rfl⟩ | ⟨_, t₁, hcreate, hrest⟩
  · obtain ⟨o, rfl⟩ := createDirAll_error hcreate
    exact .inl ⟨o, rfl, content_createDirAll hp hs hs' hcreate⟩
  · have hsame := content_createDirAll hp hs hs' hcreate
    exact hsame ▸ hm t₁ hrest hsame

end Runs

/-! ### The two keys -/

section Both

variable {home : Home} {t t' : Tree} {drawn : ByteArr 32}

/-- A signing key as an identity. -/
def asIdentity : ByteArr 32 ≃ Identity :=
  ⟨Identity.mk, Identity.signingKey, fun _ => rfl, fun _ => rfl⟩

variable (home) in
theorem downward_identityDir : (identityDir home).Downward :=
  (downward_home home).join (by decide) (by decide)

theorem keepsKey_identity : KeepsKey asIdentity malformedIdentity (identityKeeper home) where
  downward := downward_identityDir home
  noSlash := show '/' ∉ "identity.key".toList by decide
  plain := show Plain "identity.key" by decide
  run drawn t t' r h := by
    have hs : '/' ∉ "identity.key".toList := by decide
    have hs' : Plain "identity.key" := by decide
    have hne : "identity.key.tmp" ≠ "identity.key" := by decide
    refine keyRun_createDirAll (downward_identityDir home) hs hs' (fun t₁ h₁ _ => ?_) h
    refine keyRun_createDirAll (downward_identityDir home) hs hs' (fun t₂ h₂ _ => ?_) h₁
    cases hexists : (pathExists ((identityDir home).join "identity.key") :
        FsM IdentityError Bool) t₂ with
    | mk res t₃ =>
    obtain ⟨rfl, rfl | ⟨rfl, hnone⟩⟩ := pathExists_spec hexists
    · rw [bind_of_ok hexists, if_pos rfl] at h₂
      cases hkey : readKey malformedIdentity ((identityDir home).join "identity.key") t₃ with
      | mk key t₄ =>
      obtain ⟨rfl, hrun⟩ := keyRun_read asIdentity drawn hkey
      rw [bind_apply, hkey] at h₂
      cases key with
      | ok key => obtain ⟨rfl, rfl⟩ := Prod.mk.inj h₂; exact hrun
      | error e => obtain ⟨rfl, rfl⟩ := Prod.mk.inj h₂; exact hrun
    · rw [bind_of_ok hexists, if_neg (by decide)] at h₂
      exact keyRun_write (downward_identityDir home) hs hs' (by decide) (by decide) hne hnone h₂
  crash drawn t t' h := by
    have hs : '/' ∉ "identity.key".toList := by decide
    have hs' : Plain "identity.key" := by decide
    have hne : "identity.key.tmp" ≠ "identity.key" := by decide
    rcases h with hdirs | ⟨t₁, hcreate₁, hdirs | ⟨t₂, hcreate₂, hexists, hcrash⟩⟩
    · exact .inl (content_crashDirs (downward_identityDir home) hs hs' hdirs)
    · exact .inl ((content_crashDirs (downward_identityDir home) hs hs' hdirs).trans
        (content_createDirAll (downward_identityDir home) hs hs' hcreate₁))
    · -- all the directories are there, and no key
      have hcontent := (content_createDirAll (downward_identityDir home) hs hs' hcreate₂).trans
        (content_createDirAll (downward_identityDir home) hs hs' hcreate₁)
      have hnone : t₂.content ((identityDir home).join "identity.key") = none := by
        obtain ⟨-, htrue | ⟨-, hnone⟩⟩ := pathExists_spec (Prod.ext hexists rfl)
        · cases htrue
        · exact hnone
      rcases content_of_crash (downward_identityDir home) hs hs' (by decide) (by decide) hne
        hcrash with hsame | hnew
      · exact .inl (hsame.trans hcontent)
      · exact .inr ⟨hcontent.symm.trans hnone, hnew⟩

theorem keepsKey_storage : KeepsKey (.refl _) malformedStorageKey (storageKeeper home) where
  downward := downward_home home
  noSlash := show '/' ∉ "storage.key".toList by decide
  plain := show Plain "storage.key" by decide
  run drawn t t' r h := by
    have hs : '/' ∉ "storage.key".toList := by decide
    have hs' : Plain "storage.key" := by decide
    have hne : "storage.tmp" ≠ "storage.key" := by decide
    have hrun : LocalKeyStore.loadOrGenerate home drawn t = (r, t') := h
    rw [LocalKeyStore.loadOrGenerate] at hrun
    cases hexists : (pathExists (home.path.join "storage.key") : FsM StorageError Bool) t with
    | mk res t₁ =>
    obtain ⟨rfl, rfl | ⟨rfl, hnone⟩⟩ := pathExists_spec hexists
    · rw [bind_of_ok hexists, if_pos rfl] at hrun
      obtain ⟨rfl, hread⟩ := keyRun_read (.refl _) drawn hrun
      cases r with
      | ok key => exact hread
      | error e => exact hread
    · rw [bind_of_ok hexists, if_neg (by decide)] at hrun
      refine keyRun_createDirAll (downward_home home) hs hs' (fun t₂ h₂ hsame => ?_) hrun
      exact keyRun_write (downward_home home) hs hs' (by decide) (by decide) hne
        (hsame.trans hnone) h₂
  crash drawn t t' h := by
    have hs : '/' ∉ "storage.key".toList := by decide
    have hs' : Plain "storage.key" := by decide
    have hne : "storage.tmp" ≠ "storage.key" := by decide
    rcases h with rfl | ⟨hexists, hdirs | ⟨t₁, hcreate, hcrash⟩⟩
    · exact .inl rfl
    · exact .inl (content_crashDirs (downward_home home) hs hs' hdirs)
    · have hcontent := content_createDirAll (downward_home home) hs hs' hcreate
      obtain ⟨-, htrue | ⟨-, hnone⟩⟩ := pathExists_spec (Prod.ext hexists rfl)
      · cases htrue
      rcases content_of_crash (downward_home home) hs hs' (by decide) (by decide) hne hcrash with
        hsame | hnew
      · exact .inl (hsame.trans hcontent)
      · exact .inr ⟨hnone, hnew⟩

variable (home) in
/-- **Of each key there is one**, whatever crashes. -/
theorem keys_persist : KeyPersists asIdentity malformedIdentity (identityKeeper home) ∧
    KeyPersists (.refl _) malformedStorageKey (storageKeeper home) :=
  ⟨keepsKey_identity.persists fun _ => by simp [malformedIdentity, OfOs.ofOs],
    keepsKey_storage.persists fun _ => by simp [malformedStorageKey, OfOs.ofOs]⟩

end Both

/-! ### Crashes before the first key -/

namespace Keyring

open Cabinet

/-- The key that is drawn the `n`-th time. -/
def drawnAt (n : ℕ) : ByteArr 32 := digits 32 n

/-- The directory of the signing key. -/
def ready : Tree :=
  ((createDirAll (identityDir device) : FsM IdentityError Unit)
    ((createDirAll device.path : FsM IdentityError Unit) disk).2).2

/-- The device is first run, and crashes when the file is half written. -/
def cut : Tree :=
  ((write ((identityDir device).join "identity.key.tmp") ((drawnAt 1).toList.take 16) :
    FsM IdentityError Unit) ready).2

/-- It is run again, … -/
def signing : Tree := (loadIdentity device (drawnAt 2) cut).2

/-- … and once more. -/
def signingAgain : Tree := (loadIdentity device (drawnAt 3) signing).2

theorem crash_cut : IdentityCrash device (drawnAt 1) disk cut := by
  exact .inr ⟨_, Prod.ext (by decide) rfl, .inr ⟨ready, Prod.ext (by decide) rfl,
    by decide, [], _, ready, rfl, rfl,
    .inr ⟨_, _, _, _, rfl, List.take_prefix 16 _, Prod.ext (by decide) rfl⟩⟩⟩

theorem life_signing : (identityKeeper device).life.Leads (disk, [])
    (signingAgain, [⟨drawnAt 2⟩, ⟨drawnAt 2⟩]) := by
  have hcut : (identityKeeper device).life.step (disk, []) (.crash (drawnAt 1)) (cut, []) :=
    ⟨crash_cut, rfl⟩
  have hfirst : ((identityKeeper device).run (drawnAt 2) cut).1 = .ok ⟨drawnAt 2⟩ := by
    decide
  have hagain : ((identityKeeper device).run (drawnAt 3) signing).1 = .ok ⟨drawnAt 2⟩ := by
    decide
  exact ((Lts.Leads.of_step hcut).step (Keeper.step_run hfirst)).step (Keeper.step_run hagain)

/-- The storage key is drawn and kept, and the device crashes before it is used. -/
def lost : Tree :=
  ((replaceFile (device.path.join "storage.tmp") (device.path.join "storage.key")
    (drawnAt 4).toList : FsM StorageError Unit) signingAgain).2

/-- The storage key is read. -/
def storing : Tree := (LocalKeyStore.loadOrGenerate device (drawnAt 5) lost).2

theorem crash_lost : StorageKeyCrash device (drawnAt 4) signingAgain lost := by
  refine .inr ⟨by decide, .inr ⟨signingAgain, ?_, _, [], lost, (List.append_nil _).symm, ?_,
    .inl rfl⟩⟩
  · exact createDirAll_of_hasDir ⟨by decide, by decide⟩
  · rw [runAll_replaceOps]
    exact Prod.ext (by decide) rfl

theorem life_storing : (storageKeeper device).life.Leads (signingAgain, [])
    (storing, [drawnAt 4]) := by
  have hcut : (storageKeeper device).life.step (signingAgain, []) (.crash (drawnAt 4)) (lost, []) :=
    ⟨crash_lost, rfl⟩
  have hrun : ((storageKeeper device).run (drawnAt 5) lost).1 = .ok (drawnAt 4) := by decide
  exact (Lts.Leads.of_step hcut).step (Keeper.step_run hrun)

end Keyring

open Keyring Cabinet in
/-- The second signing key is the one that stays, since the first was cut short, and the storage key
is the one that was kept before the crash. -/
theorem keys_persist_cut :
    signingAgain.content (identityKeeper device).path = some (drawnAt 2).toList ∧
      (∀ drawn, (loadIdentity device drawn signingAgain).1 ≠ .error malformedIdentity) ∧
    storing.content (storageKeeper device).path = some (drawnAt 4).toList ∧
      ∀ drawn, (LocalKeyStore.loadOrGenerate device drawn storing).1 ≠
        .error malformedStorageKey := by
  obtain ⟨hkept, -, hsound⟩ :=
    (keys_persist device).1 _ _ _ (.inl (by decide)) life_signing
  obtain ⟨hkept', -, hsound'⟩ :=
    (keys_persist device).2 _ _ _ (.inl (by decide)) life_storing
  exact ⟨(hkept _ List.mem_cons_self).1, hsound, (hkept' _ List.mem_cons_self).1, hsound'⟩

/-! ### The epochs -/

section Epochs

variable {home : Home} {t t' : Tree} {epochs : List UInt64} {n m : UInt64}

/-- One epoch is below another, or there is none left. -/
def EpochBelow (n m : UInt64) : Prop := n < m ∨ n = maxEpoch ∧ m = maxEpoch

theorem not_maxEpoch_lt : ¬ maxEpoch < n := by
  rw [UInt64.lt_iff_toNat_lt, maxEpoch, UInt64.toNat_ofNat_of_lt' (by decide)]
  have := n.toNat_lt
  omega

theorem EpochBelow.trans {l : UInt64} (h : EpochBelow n m) (h' : EpochBelow m l) :
    EpochBelow n l := by
  rcases h with h | ⟨rfl, rfl⟩
  · rcases h' with h' | ⟨rfl, rfl⟩
    · exact .inl (UInt64.lt_trans h h')
    · exact .inl h
  · rcases h' with h' | ⟨-, rfl⟩
    · exact absurd h' not_maxEpoch_lt
    · exact .inr ⟨rfl, rfl⟩

theorem epochBelow_of_keptEpoch (h : keptEpoch (some (leBytes64 n)) () = some m) :
    EpochBelow n m := by
  have hlength : (leBytes64 n).length = 8 := List.Vector.toList_length _
  obtain rfl := Option.some.inj h
  rw [Option.elim_some, epochAfter, if_pos hlength, ofLeBytes64_leBytes64]
  split_ifs with hmax
  · exact .inr ⟨hmax, rfl⟩
  · exact .inl (lt_add_one_of_ne_maxEpoch hmax)

theorem epochAfter_read : some (epochAfter ((read (epochPath home) : FsM IoError Bytes) t).1) =
    keptEpoch (t.content (epochPath home)) () := by
  cases hread : (read (epochPath home) : FsM IoError Bytes) t with
  | mk res t₁ =>
  have hcontent := toOption_read (ε := IoError) (p := epochPath home) (t := t)
  rw [hread] at hcontent
  rw [keptEpoch, ← hcontent]
  cases res with
  | ok bytes => rfl
  | error e => rfl

theorem keeps_epoch : (epochKeeper home).Keeps leBytes64 keptEpoch where
  downward := downward_home home
  noSlash := show '/' ∉ "revoke.epoch".toList by decide
  plain := show Plain "revoke.epoch" by decide
  ok {t t' _ n} h := by
    obtain ⟨_, t₁, hreplace, hret⟩ := bind_ok.1 h
    obtain ⟨hn, rfl⟩ := Prod.mk.inj hret
    obtain ⟨-, hfile, -⟩ | ⟨⟨e, he⟩, -⟩ := replaceFile_cases hreplace
    · rw [Except.ok.inj hn] at hfile
      exact ⟨epochAfter_read.symm.trans (congrArg some (Except.ok.inj hn)),
        Tree.content_eq_some.2 hfile⟩
    · cases he
  error {t t' _ e} h := by
    rcases bind_cases h with ⟨e', hreplace, -⟩ | ⟨_, t₁, -, hret⟩
    · obtain ⟨he, -⟩ | ⟨-, hframe⟩ := replaceFile_cases hreplace
      · cases he
      · have hs : '/' ∉ "revoke.epoch".toList := by decide
        have hs' : Plain "revoke.epoch" := by decide
        refine Tree.content_of_frame hframe (downward_home home) hs hs' fun hmem => ?_
        have hsame : "revoke.epoch" :: home.path.norm = "revoke.epoch.tmp" :: home.path.norm := by
          rw [← PathBuf.norm_join hs hs', ← PathBuf.norm_join (by decide) (by decide)]
          exact hmem
        exact absurd (List.cons.inj hsame).1 (by decide)
    · cases hret
  crash {t t' _} h := by
    have hs : '/' ∉ "revoke.epoch".toList := by decide
    have hs' : Plain "revoke.epoch" := by decide
    rcases content_of_crash (downward_home home) hs hs' (by decide) (by decide) (by decide) h with
      hsame | hnew
    · exact .inl hsame
    · exact .inr ⟨_, epochAfter_read.symm, hnew⟩

/-- **No epoch is drawn twice**, whatever crashes, until there is none left, **and no broadcast is
signed twice.** -/
theorem epochs_increase (hlife : (epochKeeper home).life.Leads (t, []) (t', epochs)) :
    epochs.Pairwise (fun later earlier => EpochBelow earlier later) ∧
      epochs.Pairwise fun later earlier => earlier ≠ maxEpoch → ∀ x y : PublicIdentity,
        revokePayload later x ≠ revokePayload earlier y := by
  have hordered := keeps_epoch.ordered (fun _ _ _ => epochBelow_of_keptEpoch)
    (fun _ _ _ => EpochBelow.trans) hlife
  refine ⟨hordered.pairwise, hordered.pairwise.imp fun {later earlier} hbelow hmax x y hsame => ?_⟩
  -- the epoch stands first in what is signed
  have hlength : ∀ n, (leBytes64 n).length = 8 := fun _ => List.Vector.toList_length _
  have hbytes : leBytes64 later = leBytes64 earlier :=
    (List.append_inj hsame ((hlength _).trans (hlength _).symm)).1
  have hepoch : later = earlier := by
    rw [← ofLeBytes64_leBytes64 later, hbytes, ofLeBytes64_leBytes64]
  rcases hbelow with hlt | ⟨hmax', -⟩
  · exact UInt64.lt_irrefl _ (hepoch ▸ hlt)
  · exact hmax hmax'

end Epochs

/-! ### A crash between two epochs -/

namespace Counter

/-- A state directory with nothing in it. -/
def disk : Tree := Cabinet.disk.mkdir ["core"]

/-- The first epoch is drawn. -/
def first : Tree := (nextRevocationEpoch Cabinet.device disk).2

/-- The second one is lost. -/
def second : Tree :=
  (replaceFile (epochTmpPath Cabinet.device) (epochPath Cabinet.device) (leBytes64 2) first :
    Except IoError Unit × Tree).2

/-- The third one is drawn. -/
def third : Tree := (nextRevocationEpoch Cabinet.device second).2

theorem crash_second : EpochCrash Cabinet.device first second := by
  have hafter : epochAfter ((read (epochPath Cabinet.device) : FsM IoError Bytes) first).1 = 2 := by
    decide +kernel
  rw [EpochCrash, hafter]
  refine ⟨_, [], second, (List.append_nil _).symm, ?_, .inl rfl⟩
  rw [runAll_replaceOps]
  exact Prod.ext (by decide +kernel) rfl

theorem life_third :
    (epochKeeper Cabinet.device).life.Leads (disk, []) (third, [3, 1]) := by
  have hfirst : ((epochKeeper Cabinet.device).run () disk).1 = .ok 1 := by decide +kernel
  have hthird : ((epochKeeper Cabinet.device).run () second).1 = .ok 3 := by decide +kernel
  have hcrash : (epochKeeper Cabinet.device).life.step (first, [1]) (.crash ()) (second, [1]) :=
    ⟨crash_second, rfl⟩
  exact ((Lts.Leads.of_step (Keeper.step_run hfirst)).step hcrash).step (Keeper.step_run hthird)

end Counter

/-- The epochs are 1 and 3. -/
theorem epochs_increase_cut :
    [(3 : UInt64), 1].Pairwise (fun later earlier => EpochBelow earlier later) ∧
      [(3 : UInt64), 1].Pairwise fun later earlier => earlier ≠ maxEpoch →
        ∀ x y : PublicIdentity, revokePayload later x ≠ revokePayload earlier y :=
  epochs_increase Counter.life_third

end Neonet
