import Neonet.Lib.Agree
import Neonet.Storage.Access

/-!
# Stores of different files do not interfere

What a peer fetches of a file id depends on the directory of that id, on what stands above it and
on the list of the revoked peers.  A store changes these for another directory only if one of the
two lies beneath the other, but it may well be for the same directory.

* `storeChunks_alike` : a store at or beneath a directory is the same on trees that agree there.
* `agree_storeChunks` : a store for a directory that is neither beneath nor above changes nothing
  that counts.
* `fetches_eq` : **the replies to a peer's fetches are those of the run without another peer's
  requests**, if the others store elsewhere.
* `not_isolated` : a stranger that stores under the same file id replaces the manifest.
-/

namespace Neonet

open FileTree FsM

variable {K : Primitives} {E : StorageEnv} {home : Home} {fileId : String} {t u : Tree}
  {x y : PublicIdentity} {m : FileManifest} {cs : List EncryptedChunk} {d : Loc}

/-- The trees agree on the directory `d` and on who is revoked. -/
def AgreeOn (home : Home) (d : Loc) (t u : Tree) : Prop :=
  Agree d {(revocationsPath home).norm} t u

/-! ### Looking -/

theorem sameOn_nodeIsRevoked (h : AgreeOn home d t u) :
    SameOn t u (nodeIsRevoked K E home x) := by
  have hinert : Inert (nodeIsRevoked K E home x) := fun v => by
    rcases nodeIsRevoked_cases K E home x v with hv | hv <;> rw [hv]
  exact hinert.sameOn (nodeIsRevoked_congr h.accepts (h.file? _ (.inr rfl)))

theorem accepts_iff (h : AgreeOn home d t u) : Accepts K E home m x t ↔ Accepts K E home m x u := by
  have hsame := sameOn_nodeIsRevoked (K := K) (E := E) (x := x) h
  have hiff : nodeIsRevoked K E home x t = (.ok false, t) ↔
      nodeIsRevoked K E home x u = (.ok false, u) := by
    rcases nodeIsRevoked_cases K E home x t with ht | ht <;>
      rcases nodeIsRevoked_cases K E home x u with hu | hu <;>
      have hres := hsame.result <;> rw [ht, hu] at hres <;> simp_all
  exact ⟨fun ⟨hs, hr⟩ => ⟨hs, hiff.1 hr⟩, fun ⟨hs, hr⟩ => ⟨hs, hiff.2 hr⟩⟩

section Directory

variable (hroot : (blobDir home fileId).Downward) (hd : d <:+ (blobDir home fileId).norm)
include hroot hd

theorem sameOn_readAcl (h : AgreeOn home d t u) : SameOn t u (readAcl E home fileId) := by
  refine (inert_pathExists.sameOn (h.pathExists_join hroot hd (by decide) (by decide))).bind ?_
  intro b hb
  cases b
  · exact sameOn_pure _
  · exact (inert_read.sameOn (h.read_join hroot hd (by decide) (by decide) hb)).bind
      fun _ _ => sameOn_ofExcept _

theorem sameOn_readHeld (h : AgreeOn home d t u) (names : List String)
    (hdir : ((pathIsDir (blobDir home fileId) : FsM IoError Bool) t).1 = .ok true) :
    SameOn t u (readHeld E home fileId names) := by
  induction names with
  | nil => exact sameOn_pure _
  | cons name names ih =>
    rw [readHeld]
    split
    · exact ih
    · refine (inert_readEntry.sameOn (h.readEntry hroot hd hdir)).bind fun bytes _ =>
        ih.bind fun rest _ => ?_
      split
      · exact sameOn_pure _
      · exact sameOn_pure _

theorem sameOn_fetchPage (h : AgreeOn home d t u) (offset : UInt32) :
    SameOn t u (fetchPage E home fileId offset) := by
  refine (inert_pathIsDir.sameOn (h.pathIsDir hroot hd)).bind fun b hdir => ?_
  cases b
  · exact sameOn_pure _
  have hread := h.toOption_read_join (ε := IoError) (s := "manifest.json") hroot hd (by decide)
    (by decide)
  have hmanifest : SameOn t u (readManifest E home fileId) := by
    have hsplit : ∀ v : Tree, (readManifest E home fileId v).1 =
        .ok (((read (storedManifestPath home fileId) : FsM IoError Bytes) v).1.toOption.bind
          fun b => (E.manifest.decode b).toOption) := by
      intro v
      unfold readManifest
      cases hr : (read (storedManifestPath home fileId) : FsM IoError Bytes) v with
      | mk r v' => cases r <;> rfl
    rw [← storedManifestPath] at hread
    exact inert_readManifest.sameOn (by rw [hsplit, hsplit, hread])
  exact hmanifest.bind fun _ _ => (inert_readDir.sameOn (h.readDir hroot hd hdir)).bind
    fun _ _ => (sameOn_readHeld hroot hd h _ hdir).bind fun _ _ => sameOn_pure _

/-- **What is fetched is the same** on trees that agree on the directory. -/
theorem sameOn_fetchChunks (h : AgreeOn home d t u) (offset : UInt32) :
    SameOn t u (fetchChunks K E home fileId x offset) := by
  refine (sameOn_nodeIsRevoked h).bind fun b _ => ?_
  split
  · exact sameOn_fail _
  · refine (sameOn_readAcl hroot hd h).bind fun acl _ => ?_
    split
    · exact sameOn_fetchPage hroot hd h offset
    · exact sameOn_fail _

/-! ### Storing -/

theorem alike_storeFiles :
    Alike d {(revocationsPath home).norm} (storeFiles K E home fileId m cs) := by
  refine (Agree.alike_createDirAll hroot hd).bind fun _ => (Alike.forEach fun c _ => ?_).bind
    fun _ => Agree.alike_write hroot hd (by decide) (by decide)
  exact Agree.alike_replaceFile hroot hd (blobTmpName_no_slash c) (plain_append (by decide))
    (blobName_no_slash c) (plain_blobName c)

theorem alike_addReader :
    Alike d {(revocationsPath home).norm} (addReader K E home fileId x) := by
  have hacl : Alike d {(revocationsPath home).norm} (readAcl E home fileId) := by
    intro t u h
    have hsame := sameOn_readAcl (E := E) hroot hd h
    rw [hsame.left, hsame.right, hsame.result]
    exact ⟨rfl, h⟩
  exact hacl.bind fun _ => (Agree.alike_createDirAll hroot hd).bind
    fun _ => Agree.alike_write hroot hd (by decide) (by decide)

/-- **A store at or beneath the directory** does the same on trees that agree there. -/
theorem storeChunks_alike :
    Alike d {(revocationsPath home).norm} (storeChunks K E home fileId x m cs) := by
  intro t u h
  by_cases haccepts : Accepts K E home m x t
  · rw [storeChunks_accepted haccepts, storeChunks_accepted ((accepts_iff h).1 haccepts)]
    exact ((alike_storeFiles hroot hd).bind fun _ => alike_addReader hroot hd) t u h
  · obtain ⟨e, he⟩ := storeChunks_rejected fileId cs haccepts
    obtain ⟨e', he'⟩ := storeChunks_rejected fileId cs fun hu => haccepts ((accepts_iff h).2 hu)
    rw [he, he']
    exact ⟨rfl, h⟩

end Directory

/-- A store changes entries only in the directory of its file id and above. -/
theorem within_storeChunks (hroot : (blobDir home fileId).Downward) :
    Within ({l | l <:+ (blobDir home fileId).norm} ∪ storePlaces home fileId)
      (storeChunks K E home fileId x m cs) := by
  have hdir : Within ({l | l <:+ (blobDir home fileId).norm} ∪ storePlaces home fileId)
      (createDirAll (blobDir home fileId) : FsM IoError Unit) :=
    (within_createDirAll hroot).mono Set.subset_union_left
  have hcontent : contentPlaces home fileId ⊆
      {l | l <:+ (blobDir home fileId).norm} ∪ storePlaces home fileId :=
    Set.sdiff_subset.trans Set.subset_union_right
  intro t
  by_cases h : Accepts K E home m x t
  · rw [storeChunks_accepted h]
    refine Within.bind (hdir.bind fun _ => (Within.forEach fun c _ => ?_).bind fun _ => ?_)
      (fun _ => inert_readAcl.within.bind fun _ => hdir.bind fun _ => ?_) t
    · exact within_replaceFile.mono ((blobPlaces_subset c).trans hcontent)
    · exact within_write.mono (storedManifestPath_mem.trans hcontent)
    · exact within_write.mono (aclPath_mem.trans Set.subset_union_right)
  · obtain ⟨e, he⟩ := storeChunks_rejected fileId cs h
    rw [he]
    exact fun _ _ => rfl

/-- Neither directory lies beneath the other. -/
def Incomparable (d d' : Loc) : Prop := ¬ d <:+ d' ∧ ¬ d' <:+ d

/-- **A store for another directory**, neither beneath nor above, changes nothing that counts. -/
theorem agree_storeChunks (h : AgreeOn home d t u) (hroot : (blobDir home fileId).Downward)
    (hother : Incomparable d (blobDir home fileId).norm) :
    AgreeOn home d (storeChunks K E home fileId x m cs t).2 u := by
  obtain ⟨hbeneath, habove⟩ := hother
  have htouches : Frame (storePlaces home fileId) t (storeChunks K E home fileId x m cs t).2 :=
    touches_storeChunks t
  refine h.of_changed htouches.grows.accepts (fun l hl => ?_) fun l hl => ?_
  · refine within_storeChunks hroot t l ?_
    rintro (hsuffix | ⟨c, -, rfl⟩)
    · exact hbeneath (hl.trans hsuffix)
    · rcases List.suffix_cons_iff.1 hl with rfl | hl
      · exact habove (List.suffix_cons _ _)
      · exact hbeneath hl
  · refine htouches.file? l ?_
    rintro ⟨c, hc, rfl⟩
    rcases hl with hl | hl
    · exact habove ((List.suffix_cons _ _).trans hl)
    · rw [Set.mem_singleton_iff, norm_revocationsPath] at hl
      exact hc (List.cons.inj hl).1

/-! ### Runs with and without a peer -/

section Runs

variable (K : Primitives) (E : StorageEnv) (home : Home) (fileId : String)

/-- The peer fetches the file id. -/
def isFetch (x : PublicIdentity) : PublicIdentity × StorageFrame → Bool
  | (z, .fetchChunks target _) => decide (z = x ∧ target = fileId)
  | _ => false

/-- The peer's fetches of the file id, with their replies. -/
def fetches (x : PublicIdentity)
    (transcript : List ((PublicIdentity × StorageFrame) × Option StorageFrame)) :
    List ((PublicIdentity × StorageFrame) × Option StorageFrame) :=
  transcript.filter fun entry => isFetch fileId x entry.1

/-- If the request is a store that the core accepts, its file id leads downwards, and either it is
not one of `y` and is for the directory of the file id or one beneath, or its directory and that of
the file id do not lie one beneath the other. -/
def Apart (y : PublicIdentity) (t : Tree) (request : PublicIdentity × StorageFrame) : Prop :=
  ∀ target m cs, request.2 = .storeChunks target m cs → Accepts K E home m request.1 t →
    (blobDir home target).Downward ∧
      ((request.1 ≠ y ∧ (blobDir home fileId).norm <:+ (blobDir home target).norm) ∨
        Incomparable (blobDir home fileId).norm (blobDir home target).norm)

end Runs

/-- One request of a run, kept in the other run. -/
theorem agree_core {request : PublicIdentity × StorageFrame}
    (h : AgreeOn home (blobDir home fileId).norm t u) (hapart : Apart K E home fileId y t request) :
    AgreeOn home (blobDir home fileId).norm ((core K E home).step t request).2
      ((core K E home).step u request).2 := by
  obtain ⟨sender, frame⟩ := request
  cases frame with
  | storeChunks target m cs =>
    by_cases haccepts : Accepts K E home m sender t
    · obtain ⟨hroot, ⟨-, hd⟩ | hother⟩ := hapart target m cs rfl haccepts
      · exact (storeChunks_alike hroot hd t u h).2
      · have h₁ : AgreeOn home (blobDir home fileId).norm
            (storeChunks K E home target sender m cs t).2 u := agree_storeChunks h hroot hother
        exact (agree_storeChunks h₁.symm hroot hother).symm
    · obtain ⟨e, he⟩ := storeChunks_rejected target cs haccepts
      obtain ⟨e', he'⟩ := storeChunks_rejected target cs fun hu => haccepts ((accepts_iff h).2 hu)
      simp only [core, handleStorage, he, he']
      exact h
  | fetchChunks target offset =>
    rw [core_fetch, core_fetch]
    exact h
  | storeAck | storedChunks | error => exact h

/-- One request of a run, left out of the other run. -/
theorem agree_core_left {frame : StorageFrame} (h : AgreeOn home (blobDir home fileId).norm t u)
    (hapart : Apart K E home fileId y t (y, frame)) :
    AgreeOn home (blobDir home fileId).norm ((core K E home).step t (y, frame)).2 u := by
  cases frame with
  | storeChunks target m cs =>
    by_cases haccepts : Accepts K E home m y t
    · obtain ⟨hroot, ⟨hy, -⟩ | hother⟩ := hapart target m cs rfl haccepts
      · exact absurd rfl hy
      · exact agree_storeChunks h hroot hother
    · obtain ⟨e, he⟩ := storeChunks_rejected target cs haccepts
      simp only [core, handleStorage, he]
      exact h
  | fetchChunks target offset =>
    rw [core_fetch]
    exact h
  | storeAck | storedChunks | error => exact h

theorem step_fst_eq {request : PublicIdentity × StorageFrame}
    (h : AgreeOn home (blobDir home fileId).norm t u) (hfile : (blobDir home fileId).Downward)
    (hfetch : isFetch fileId x request = true) :
    ((core K E home).step t request).1 = ((core K E home).step u request).1 := by
  obtain ⟨sender, frame⟩ := request
  cases frame with
  | fetchChunks target offset =>
    obtain ⟨-, rfl⟩ := of_decide_eq_true hfetch
    rw [core_fetch, core_fetch, (sameOn_fetchChunks hfile List.suffix_rfl h offset).result]
  | storeChunks | storeAck | storedChunks | error => cases hfetch

theorem fetches_eq_of_agree {requests : List (PublicIdentity × StorageFrame)}
    (h : AgreeOn home (blobDir home fileId).norm t u) (hfile : (blobDir home fileId).Downward)
    (hxy : x ≠ y) (halong : (core K E home).Along (Apart K E home fileId y) t requests) :
    fetches fileId x ((core K E home).transcript t requests) =
      fetches fileId x ((core K E home).transcript u (requests.filter fun r => r.1 ≠ y)) := by
  induction requests generalizing t u with
  | nil => rfl
  | cons request requests ih =>
    obtain ⟨hapart, halong⟩ := halong
    by_cases hy : request.1 = y
    · -- a request of `y` is left out, and is no fetch of `x`
      obtain ⟨sender, frame⟩ := request
      obtain rfl : sender = y := hy
      have hfetch : isFetch fileId x (sender, frame) = false := by
        cases frame with
        | fetchChunks => exact decide_eq_false fun hz => hxy hz.1.symm
        | storeChunks | storeAck | storedChunks | error => rfl
      rw [List.filter_cons_of_neg (by simp), ← ih (agree_core_left h hapart) halong]
      simp only [fetches, Machine.transcript, List.filter_cons, hfetch, Bool.false_eq_true,
        if_false]
    · rw [List.filter_cons_of_pos (by simpa using hy)]
      have hrest := ih (agree_core h hapart) halong
      simp only [fetches, Machine.transcript, List.filter_cons] at hrest ⊢
      split
      · rename_i hfetch
        rw [step_fst_eq h hfile hfetch, hrest]
      · exact hrest

/-- **The replies to a peer's fetches are those of the run without another peer's requests**, if
every store that the core accepts is for a directory apart, or for that of the file id or one
beneath and not of the other peer. -/
theorem fetches_eq {requests : List (PublicIdentity × StorageFrame)} (hxy : x ≠ y)
    (hfile : (blobDir home fileId).Downward)
    (halong : (core K E home).Along (Apart K E home fileId y) t requests) :
    fetches fileId x ((core K E home).transcript t requests) =
      fetches fileId x ((core K E home).transcript t (requests.filter fun r => r.1 ≠ y)) :=
  fetches_eq_of_agree ⟨rfl, fun _ _ => rfl, fun _ _ => rfl⟩ hfile hxy halong

open Cabinet in
/-- A stranger that stores elsewhere makes no difference. -/
theorem fetches_eq_elsewhere :
    fetches "f" (owner.pub .sample) ((core .sample .sample device).transcript disk
        [store owner "f" [blob], store stranger "g" [], fetch owner "f"]) =
      fetches "f" (owner.pub .sample) ((core .sample .sample device).transcript disk
        ([store owner "f" [blob], store stranger "g" [], fetch owner "f"].filter
          fun r => r.1 ≠ stranger.pub .sample)) := by
  refine fetches_eq (by decide +kernel) (by decide +kernel) ⟨?_, ?_, ?_, trivial⟩
  · rintro _ _ _ ⟨⟩ _
    exact ⟨by decide +kernel, .inl ⟨by decide +kernel, List.suffix_rfl⟩⟩
  · rintro _ _ _ ⟨⟩ _
    exact ⟨by decide +kernel, .inr ⟨by decide +kernel, by decide +kernel⟩⟩
  · rintro _ _ _ ⟨⟩

open Cabinet in
/-- **A stranger that stores under the same file id replaces the manifest.** -/
theorem not_isolated :
    ¬ ∀ (K : Primitives) (E : StorageEnv) (home : Home) (fileId : String) (t : Tree)
      (requests : List (PublicIdentity × StorageFrame)) (x y : PublicIdentity), x ≠ y →
        (∀ r ∈ requests, r.1 = x ∨ r.1 = y) → FirstToStore K E home fileId x t requests →
          fetches fileId x ((core K E home).transcript t requests) =
            fetches fileId x ((core K E home).transcript t (requests.filter fun r => r.1 ≠ y)) := by
  intro h
  have heq := h .sample .sample device "f" disk
    [store owner "f" [blob], store stranger "f" [], fetch owner "f"] (owner.pub .sample)
    (stranger.pub .sample) (by decide +kernel) (by simp [store, fetch])
    ⟨[], _, _, _, rfl, by decide +kernel, by simp⟩
  revert heq
  decide +kernel

end Neonet
