import Neonet.Storage.Core

/-!
# Who may read what is stored

The list of the readers of a directory is changed by nobody but the peers that store something
there, and each of them is put on it: no store asks who stored there first.

* `IsReader` : the fingerprint is on the list.
* `reader_of_stored` : **a peer whose store is acknowledged is a reader**, whoever stored before.
* `refused` : **a peer that stores nothing in the directory never becomes a reader** and is refused
  whatever it fetches, in every run.
* `not_ownersOnly` : a stranger stores no chunk at all under a file id, and is a reader.
-/

namespace Neonet

open FileTree FsM

variable {K : Primitives} {E : StorageEnv} {home : Home} {fileId : String} {t t' : Tree}
  {x y : PublicIdentity} {m : FileManifest} {cs : List EncryptedChunk}

/-- The fingerprint is on the list of the readers. -/
def IsReader (E : StorageEnv) (home : Home) (fileId fingerprint : String) (t : Tree) : Prop :=
  ∃ acl, (readAcl E home fileId t).1 = .ok acl ∧ fingerprint ∈ acl

/-- No list of readers at a place names the fingerprint. -/
def Unlisted (E : StorageEnv) (l : Loc) (fingerprint : String) (t : Tree) : Prop :=
  ∀ b acl, t.file? l = some b → E.names.decode b = .ok acl → fingerprint ∉ acl

theorem readAcl_ok {acl : List String} (h : (readAcl E home fileId t).1 = .ok acl) :
    acl = [] ∨ ∃ b, t.file? (aclPath home fileId).norm = some b ∧ E.names.decode b = .ok acl := by
  have hsnd : (readAcl E home fileId t).2 = t := inert_readAcl t
  cases hread : readAcl E home fileId t with
  | mk res t' =>
  rw [hread] at h hsnd
  obtain rfl : t' = t := hsnd
  obtain rfl : res = .ok acl := h
  obtain ⟨b, t₁, hexists, hrest⟩ := bind_ok.1 hread
  have ht₁ := inert_pathExists (ε := IoError) (p := aclPath home fileId) t'
  rw [hexists] at ht₁
  obtain rfl : t₁ = t' := ht₁
  cases b
  · obtain ⟨hacl, -⟩ := Prod.mk.inj hrest
    exact .inl (Except.ok.inj hacl).symm
  · obtain ⟨bytes, t₂, hbytes, hdecode⟩ := bind_ok.1 hrest
    obtain ⟨rfl, hfile⟩ := read_eq_ok.1 hbytes
    obtain ⟨hacl, -⟩ := Prod.mk.inj hdecode
    refine .inr ⟨bytes, hfile.2, ?_⟩
    cases hd : E.names.decode bytes with
    | error e => rw [hd] at hacl; cases hacl
    | ok acl' =>
      rw [hd] at hacl
      obtain rfl := Except.ok.inj hacl
      rfl

theorem Unlisted.not_isReader {fingerprint : String}
    (h : Unlisted E (aclPath home fileId).norm fingerprint t) :
    ¬ IsReader E home fileId fingerprint t := by
  rintro ⟨acl, hread, hmem⟩
  rcases readAcl_ok hread with rfl | ⟨b, hfile, hdecode⟩
  · exact absurd hmem List.not_mem_nil
  · exact h b acl hfile hdecode hmem

theorem Unlisted.frame {l : Loc} {fingerprint : String} {S : Set Loc}
    (h : Unlisted E l fingerprint t) (hf : Frame S t t') (hl : l ∉ S) :
    Unlisted E l fingerprint t' := by
  intro b acl hfile
  rw [hf.file? l hl] at hfile
  exact h b acl hfile

/-! ### What a store does to the readers -/

/-- The list after a store is the one before and the requester, or the list is as it was. -/
theorem addReader_cases {res : Except IoError Unit}
    (h : addReader K E home fileId x t = (res, t')) :
    ((∃ e, res = .error e) ∧ Frame ∅ t t') ∨
      (res = .ok () ∧ ∃ acl, (readAcl E home fileId t).1 = .ok acl ∧
        Frame {(aclPath home fileId).norm} t t' ∧
          t'.HasFile (aclPath home fileId) (E.names.encode (acl.insert (x.fingerprint K)))) := by
  have hsnd : (readAcl E home fileId t).2 = t := inert_readAcl t
  rcases bind_cases h with ⟨e, hread, rfl⟩ | ⟨acl, t₁, hread, hwrite⟩
  · rw [hread] at hsnd
    obtain rfl : t' = t := hsnd
    exact .inl ⟨⟨e, rfl⟩, .refl _⟩
  rw [hread] at hsnd
  obtain rfl : t₁ = t := hsnd
  have hdirs : Frame ∅ t₁ ((createDirAll (blobDir home fileId) : FsM IoError Unit) t₁).2 :=
    touches_createDirAll t₁
  rcases bind_cases hwrite with ⟨e, hcreate, rfl⟩ | ⟨_, t₂, hcreate, hwrite⟩
  · rw [hcreate] at hdirs
    exact .inl ⟨⟨e, rfl⟩, hdirs⟩
  rw [hcreate] at hdirs
  have hwritten := touches_write (ε := IoError) (p := aclPath home fileId)
    (b := E.names.encode (acl.insert (x.fingerprint K))) t₂
  rw [hwrite] at hwritten
  cases res with
  | error e =>
    have hsame : t' = t₂ := by
      unfold write at hwrite
      split at hwrite
      · exact (Prod.mk.inj hwrite).2.symm
      · cases hwrite
    exact .inl ⟨⟨e, rfl⟩, hsame ▸ hdirs⟩
  | ok =>
    exact .inr ⟨rfl, acl, by rw [hread], (hdirs.mono (Set.empty_subset _)).trans hwritten,
      hasFile_of_write hwrite⟩

/-- **A peer whose store is acknowledged is a reader.** -/
theorem reader_of_stored (h : storeChunks K E home fileId x m cs t = (.ok (), t')) :
    IsReader E home fileId (x.fingerprint K) t' := by
  rw [storeChunks_accepted (accepts_of_storeChunks h)] at h
  obtain ⟨_, t₁, -, hreader⟩ := bind_ok.1 h
  rcases addReader_cases hreader with ⟨⟨e, he⟩, -⟩ | ⟨-, acl, -, -, hfile⟩
  · cases he
  · have hexists : (pathExists (aclPath home fileId) : FsM IoError Bool) t' = (.ok true, t') := by
      simp only [pathExists, hfile.1, Tree.file?_eq_some.1 hfile.2]
      rfl
    refine ⟨acl.insert (x.fingerprint K), ?_, List.mem_insert_self⟩
    rw [readAcl, bind_of_ok hexists, if_pos rfl, bind_of_ok (read_of_hasFile hfile),
      ofExcept_apply, E.names.decode_encode]
    rfl

/-- A store by another peer, or elsewhere, puts nobody else on a list. -/
theorem Unlisted.storeChunks {target fingerprint : String}
    (h : Unlisted E (aclPath home target).norm fingerprint t)
    (hx : (blobDir home fileId).norm = (blobDir home target).norm → x.fingerprint K ≠ fingerprint) :
    Unlisted E (aclPath home target).norm fingerprint
      (storeChunks K E home fileId x m cs t).2 := by
  by_cases haccepts : Accepts K E home m x t
  swap
  · obtain ⟨e, he⟩ := storeChunks_rejected fileId cs haccepts
    rw [he]
    exact h
  rw [storeChunks_accepted haccepts]
  have hfiles : Frame (contentPlaces home fileId) t (storeFiles K E home fileId m cs t).2 :=
    touches_storeFiles t
  cases hstore : storeFiles K E home fileId m cs t with
  | mk r₁ t₁ =>
  rw [hstore] at hfiles
  -- the list is not among the chunks and the manifest
  have h₁ : Unlisted E (aclPath home target).norm fingerprint t₁ := by
    refine h.frame hfiles ?_
    rintro ⟨⟨c, -, hl⟩, hnot⟩
    refine hnot ?_
    rw [norm_aclPath] at hl
    rw [Set.mem_singleton_iff, norm_aclPath, norm_aclPath, (List.cons.inj hl).2]
  cases r₁ with
  | error e => rw [bind_of_error hstore]; exact h₁
  | ok =>
  rw [bind_of_ok hstore]
  cases hreader : addReader K E home fileId x t₁ with
  | mk r₂ t₂ =>
  rcases addReader_cases hreader with ⟨-, hframe⟩ | ⟨-, acl, hacl, hframe, hfile⟩
  · exact h₁.frame hframe (Set.notMem_empty _)
  · by_cases hsame : (blobDir home fileId).norm = (blobDir home target).norm
    · have hl : (aclPath home fileId).norm = (aclPath home target).norm := by
        rw [norm_aclPath, norm_aclPath, hsame]
      intro b acl' hb hdecode hmem
      have hb' : b = E.names.encode (acl.insert (x.fingerprint K)) := by
        have := hfile.2
        rw [hl, hb] at this
        exact Option.some.inj this
      rw [hb', E.names.decode_encode] at hdecode
      rw [← Except.ok.inj hdecode, List.mem_insert_iff] at hmem
      rcases hmem with hmem | hmem
      · exact hx hsame hmem.symm
      · rcases readAcl_ok hacl with rfl | ⟨b₁, hb₁, hdecode₁⟩
        · exact absurd hmem List.not_mem_nil
        · exact h₁ b₁ acl (hl ▸ hb₁) hdecode₁ hmem
    · refine h₁.frame hframe fun hmem => hsame ?_
      rw [Set.mem_singleton_iff, norm_aclPath, norm_aclPath] at hmem
      exact (List.cons.inj hmem).2.symm

/-! ### Runs -/

section Runs

variable (K : Primitives) (E : StorageEnv) (home : Home) (fileId : String)

/-- The peer never becomes a reader, and whatever it fetches is refused. -/
def Refused (y : PublicIdentity) (t : Tree) (requests : List (PublicIdentity × StorageFrame)) :
    Prop :=
  ∀ pre post, requests = pre ++ post →
    ¬ IsReader E home fileId (y.fingerprint K) ((core K E home).after t pre) ∧
      ∀ offset rest, post = (y, .fetchChunks fileId offset) :: rest →
        ∃ message, ((core K E home).step ((core K E home).after t pre)
          (y, .fetchChunks fileId offset)).1 = some (.error message)

/-- The first store under the file id is acknowledged, and is that of `o`. -/
def FirstToStore (o : PublicIdentity) (t : Tree)
    (requests : List (PublicIdentity × StorageFrame)) : Prop :=
  ∃ pre m cs post, requests = pre ++ (o, .storeChunks fileId m cs) :: post ∧
    ((core K E home).step ((core K E home).after t pre) (o, .storeChunks fileId m cs)).1 =
        some (.storeAck fileId) ∧
      ∀ z m' cs', (z, .storeChunks fileId m' cs') ∉ pre

/-- The request is no store of `y` in the directory of the file id that the core accepts. -/
def NoStoreBy (y : PublicIdentity) (t : Tree) (request : PublicIdentity × StorageFrame) : Prop :=
  ∀ target m cs, request.2 = .storeChunks target m cs → Accepts K E home m request.1 t →
    (blobDir home target).norm = (blobDir home fileId).norm →
      request.1.fingerprint K ≠ y.fingerprint K

end Runs

theorem fetchChunks_refused (h : ¬ IsReader E home fileId (y.fingerprint K) t) (offset : UInt32) :
    ∃ e, (fetchChunks K E home fileId y offset t).1 = .error e := by
  rw [fetchChunks]
  rcases nodeIsRevoked_cases K E home y t with hr | hr
  · rw [bind_of_ok hr]
    exact ⟨_, rfl⟩
  · rw [bind_of_ok hr]
    cases hread : readAcl E home fileId t with
    | mk res t' =>
    cases res with
    | error e =>
      refine ⟨e, ?_⟩
      simp [bind_of_error hread]
    | ok acl =>
      have hnot : y.fingerprint K ∉ acl := fun hmem => h ⟨acl, by rw [hread], hmem⟩
      refine ⟨notReader, ?_⟩
      simp [bind_of_ok hread, hnot]

/-- **A peer that stores nothing in the directory is refused**, in every run from a core that has
no list of readers there. -/
theorem refused {requests : List (PublicIdentity × StorageFrame)}
    (hnew : t.file? (aclPath home fileId).norm = none)
    (halong : (core K E home).Along (NoStoreBy K E home fileId y) t requests) :
    Refused K E home fileId y t requests := by
  intro pre post hsplit
  have hpre := (Machine.along_append.1 (hsplit ▸ halong)).1
  have hunlisted : Unlisted E (aclPath home fileId).norm (y.fingerprint K)
      ((core K E home).after t pre) := by
    refine hpre.invariant (fun b acl hb => by rw [hnew] at hb; cases hb) ?_
    rintro s ⟨sender, frame⟩ hno hs
    cases frame with
    | storeChunks target m cs =>
      by_cases haccepts : Accepts K E home m sender s
      · exact hs.storeChunks fun hsame => hno target m cs rfl haccepts hsame
      · obtain ⟨e, he⟩ := storeChunks_rejected target cs haccepts
        have hsame : ((core K E home).step s (sender, .storeChunks target m cs)).2 = s := by
          simp only [core, handleStorage, he]
        rw [hsame]
        exact hs
    | fetchChunks target offset =>
      rw [core_fetch]
      exact hs
    | storeAck | storedChunks | error => exact hs
  refine ⟨hunlisted.not_isReader, fun offset rest _ => ?_⟩
  obtain ⟨e, he⟩ := fetchChunks_refused hunlisted.not_isReader offset
  refine ⟨e.text, ?_⟩
  rw [core_fetch, he]
  rfl

/-! ### A stranger -/

namespace Cabinet

/-- The core's state directory. -/
def device : Home := ⟨["core"], Home.plain_core⟩

/-- The one who stores first. -/
def owner : Identity := ⟨digits 32 7⟩

/-- Another peer. -/
def stranger : Identity := ⟨digits 32 8⟩

/-- A manifest of one chunk, signed by either. -/
def manifest (who : Identity) : FileManifest :=
  FileManifest.signed Primitives.sample StorageEnv.sample.manifest who
    { version := 1
      name := "note"
      totalSize := 1
      chunkSize := 1
      chunks := [polyHash [5]]
      signer := who.pub Primitives.sample
      signature := zeroSignature }

/-- A chunk as it is stored. -/
def blob : EncryptedChunk := ⟨0, digits 24 1, [9]⟩

/-- A peer stores some chunks under a file id. -/
def store (who : Identity) (fileId : String) (cs : List EncryptedChunk) :
    PublicIdentity × StorageFrame :=
  (who.pub .sample, .storeChunks fileId (manifest who) cs)

/-- A peer fetches a file id. -/
def fetch (who : Identity) (fileId : String) : PublicIdentity × StorageFrame :=
  (who.pub .sample, .fetchChunks fileId 0)

/-- An empty disk. -/
def disk : Tree := .bare fun _ => true

end Cabinet

open Cabinet in
/-- A stranger that stores elsewhere is refused. -/
theorem refused_elsewhere : Refused .sample .sample device "f" (stranger.pub .sample) disk
    [store owner "f" [blob], fetch stranger "f", store stranger "g" [blob],
        fetch stranger "f"] := by
  refine refused (by decide +kernel) ⟨?_, ?_, ?_, ?_, trivial⟩
  · rintro _ _ _ ⟨⟩ _ _
    decide +kernel
  · rintro _ _ _ ⟨⟩
  · rintro _ _ _ ⟨⟩ _ hsame
    exact absurd hsame (by decide +kernel)
  · rintro _ _ _ ⟨⟩

open Cabinet in
/-- **A stranger becomes a reader by storing nothing.** -/
theorem not_ownersOnly :
    ¬ ∀ (K : Primitives) (E : StorageEnv) (home : Home) (fileId : String) (t : Tree)
      (requests : List (PublicIdentity × StorageFrame)) (o y : PublicIdentity),
        t.file? (aclPath home fileId).norm = none → FirstToStore K E home fileId o t requests →
          y ≠ o → Refused K E home fileId y t requests := by
  intro h
  have hrefused := h .sample .sample device "f" disk
    [store owner "f" [blob], store stranger "f" [], fetch stranger "f"] (owner.pub .sample)
    (stranger.pub .sample) (by decide +kernel)
    ⟨[], _, _, _, rfl, by decide +kernel, by simp⟩ (by decide +kernel)
  obtain ⟨message, hreply⟩ :=
    (hrefused [store owner "f" [blob], store stranger "f" []] [fetch stranger "f"] rfl).2 0 [] rfl
  have hserved : ((core .sample .sample device).step ((core .sample .sample device).after disk
      [store owner "f" [blob], store stranger "f" []]) (fetch stranger "f")).1 =
        some (.storedChunks "f" (some (manifest stranger)) [blob]) := by decide +kernel
  rw [show (stranger.pub .sample, StorageFrame.fetchChunks "f" 0) = fetch stranger "f" from rfl,
    hserved] at hreply
  cases hreply

end Neonet
