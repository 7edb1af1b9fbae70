import Mathlib.Data.Set.Finite.Basic
import Neonet.Lib.Directory
import Neonet.Lib.Pages
import Neonet.Storage.Access
import Neonet.Storage.Client

/-!
# Page by page

A core gives out what it holds under a file id page by page, and a client collects the pages until
there are as many chunks as the manifest asks for.

* `manifestIn`, `readersIn`, `listedChunks` : what is read of the files of a directory.
* `fetchChunks_eq` : **a reader is sent** the manifest and a page of the chunks, sorted.
* `HoldsChunks` : a directory with a manifest and some chunks.
* `pullLoop_pages` : **the client succeeds exactly when a page ends** after as many chunks as the
  manifest has, with these chunks.
* `paging_spec` : the pages of a directory that holds what its manifest says, and their pull.
-/

namespace Neonet

open FileTree FsM

variable {K : Primitives} {E : StorageEnv} {home : Home} {fileId : String} {t : Tree}
  {x : PublicIdentity} {m : FileManifest} {mo : Option FileManifest} {es : List EncryptedChunk}
  {f : String → Option Bytes}

/-- Chunks and manifests are written as the program writes them. -/
structure StorageEnv.Postcard (E : StorageEnv) : Prop where
  chunk : E.chunk = EncryptedChunk.wire.toCodec
  manifest : E.manifest = FileManifest.wire.toCodec

/-- The bytes that a chunk takes. -/
def chunkSize (E : StorageEnv) (e : EncryptedChunk) : ℕ := (E.chunk.encode e).length

theorem StorageEnv.Postcard.chunkSize_pos (hE : E.Postcard) (e : EncryptedChunk) :
    0 < chunkSize E e := by
  have hindex : 0 < (Wire.u32.write e.index).length := Wire.length_nat_pos
  have hwrite : E.chunk.encode e =
      Wire.u32.write e.index ++
        ((Wire.array 24).pair Wire.bytes).write (e.nonce, e.ciphertext) := by
    rw [hE.chunk]
    rfl
  rw [chunkSize, hwrite, List.length_append]
  omega

theorem takePage_eq {first : Bool} {budget : ℕ} :
    takePage E first budget es = Pages.takeUnder (chunkSize E) first budget es := by
  induction es generalizing first budget with
  | nil => rfl
  | cons e es ih =>
    rw [takePage, Pages.takeUnder, ih]
    rfl

/-- The page that a list of chunks begins with. -/
def pageOf (E : StorageEnv) (es : List EncryptedChunk) : List EncryptedChunk :=
  Pages.page (chunkSize E) maxBatchPayload es

/-- Where the pages of a list of chunks end. -/
def pageEnd (E : StorageEnv) (es : List EncryptedChunk) : ℕ → ℕ :=
  Pages.ends (chunkSize E) maxBatchPayload es

/-- One of the pages ends there. -/
def IsPageEnd (E : StorageEnv) (es : List EncryptedChunk) (n : ℕ) : Prop :=
  Pages.End (chunkSize E) maxBatchPayload es n

/-! ### What a reader is sent -/

/-- The chunk in a file of a listing, if the file is not passed over. -/
def heldIn (E : StorageEnv) (f : String → Option Bytes) (c : String) : Option EncryptedChunk :=
  if skipped c then none else (f c).bind fun b => (E.chunk.decode b).toOption

theorem readHeld_eq (hlists : t.Lists (blobDir home fileId) f) (hd : t.HasDir (blobDir home fileId))
    {names : List String} (hnames : ∀ c ∈ names, f c ≠ none) :
    readHeld E home fileId names t = (.ok (names.filterMap (heldIn E f)), t) := by
  induction names with
  | nil => rfl
  | cons c names ih =>
    have hrest := ih fun x hx => hnames x (List.mem_cons_of_mem _ hx)
    rw [readHeld]
    by_cases hskip : skipped c = true
    · have hnone : heldIn E f c = none := by rw [heldIn, if_pos hskip]
      rw [if_pos hskip, hrest, List.filterMap_cons_none hnone]
    · obtain ⟨b, hb⟩ := Option.ne_none_iff_exists'.1 (hnames c List.mem_cons_self)
      have hheld : heldIn E f c = (E.chunk.decode b).toOption := by
        rw [heldIn, if_neg hskip, hb]
        rfl
      rw [if_neg hskip, bind_of_ok (hlists.readEntry hd hb), bind_of_ok hrest]
      cases hdecode : E.chunk.decode b with
      | error e =>
        rw [hdecode] at hheld
        rw [List.filterMap_cons_none hheld]
        rfl
      | ok e =>
        rw [hdecode] at hheld
        rw [List.filterMap_cons_some hheld]
        rfl

/-- The manifest in the files of a directory, if one can be read. -/
def manifestIn (E : StorageEnv) (f : String → Option Bytes) : Option FileManifest :=
  (f "manifest.json").bind fun b => (E.manifest.decode b).toOption

/-- The readers in the files of a directory, if the list can be read. -/
def readersIn (E : StorageEnv) (f : String → Option Bytes) : Option (List String) :=
  match f "acl.json" with
  | none => some []
  | some b => (E.names.decode b).toOption

open Classical in
/-- The chunks in the files of a directory, in the order of their indices. -/
noncomputable def listedChunks (E : StorageEnv) (f : String → Option Bytes) : List EncryptedChunk :=
  if h : Set.Finite {c | f c ≠ none} then sortHeld ((E.order h.toFinset).filterMap (heldIn E f))
  else []

/-- What is read of the directory of a file id: its manifest, if one can be read, and its chunks.
Temporary files and files that hold no chunk may stand there besides. -/
def HoldsChunks (E : StorageEnv) (home : Home) (fileId : String) (mo : Option FileManifest)
    (es : List EncryptedChunk) (t : Tree) : Prop :=
  ∃ (f : String → Option Bytes) (names : List String),
    t.Lists (blobDir home fileId) f ∧ t.HasDir (blobDir home fileId) ∧ manifestIn E f = mo ∧
      names.Nodup ∧ (∀ c, c ∈ names ↔ f c ≠ none) ∧ (names.filterMap (heldIn E f)).Perm es

theorem listedChunks_eq (hlists : t.Lists (blobDir home fileId) f) :
    listedChunks E f =
      sortHeld ((E.order (t.children (blobDir home fileId).norm)).filterMap (heldIn E f)) := by
  have hfinite : Set.Finite {c | f c ≠ none} := by
    rw [← hlists.coe_children]
    exact Finset.finite_toSet _
  have hnames : hfinite.toFinset = t.children (blobDir home fileId).norm := by
    rw [← Finset.coe_inj, Set.Finite.coe_toFinset, hlists.coe_children]
  rw [listedChunks, dif_pos hfinite, hnames]

theorem readAcl_eq (hlists : t.Lists (blobDir home fileId) f)
    (hd : t.HasDir (blobDir home fileId)) :
    (∀ acl, readersIn E f = some acl → readAcl E home fileId t = (.ok acl, t)) ∧
      (readersIn E f = none → ∃ e, readAcl E home fileId t = (.error e, t)) := by
  rw [readersIn, readAcl]
  cases hacl : f "acl.json" with
  | none =>
    have hexists : (pathExists (aclPath home fileId) : FsM IoError Bool) t = (.ok false, t) := by
      unfold pathExists
      cases hr : t.resolve (aclPath home fileId) with
      | error e => rfl
      | ok l =>
        obtain rfl := Tree.resolve_norm hr
        dsimp only
        rw [norm_aclPath, hlists.entry, hacl]
        rfl
    rw [bind_of_ok hexists]
    refine ⟨fun acl h => ?_, fun h => by cases h⟩
    obtain rfl := Option.some.inj h
    rfl
  | some b =>
    have hfile : t.HasFile (aclPath home fileId) b :=
      hlists.hasFile hd (by decide) (by decide) hacl
    have hexists : (pathExists (aclPath home fileId) : FsM IoError Bool) t = (.ok true, t) := by
      simp only [pathExists, hfile.1, Tree.file?_eq_some.1 hfile.2]
      rfl
    rw [bind_of_ok hexists, if_pos rfl, bind_of_ok (read_of_hasFile hfile), ofExcept_apply]
    dsimp only
    cases E.names.decode b with
    | error e => exact ⟨fun acl h => (by cases h), fun _ => ⟨_, rfl⟩⟩
    | ok acl =>
      refine ⟨fun acl' h => ?_, fun h => by cases h⟩
      obtain rfl := Option.some.inj h
      rfl

theorem readManifest_eq (hlists : t.Lists (blobDir home fileId) f)
    (hd : t.HasDir (blobDir home fileId)) :
    readManifest E home fileId t = (.ok (manifestIn E f), t) := by
  rw [manifestIn]
  cases hfile : f "manifest.json" with
  | some b =>
    have hread : (read (storedManifestPath home fileId) : FsM IoError Bytes) t = (.ok b, t) :=
      read_of_hasFile (hlists.hasFile hd (by decide) (by decide) hfile)
    simp only [readManifest, hread, Option.bind_some]
  | none =>
    have hsnd := inert_read (ε := IoError) (p := storedManifestPath home fileId) t
    cases hread : (read (storedManifestPath home fileId) : FsM IoError Bytes) t with
    | mk res t' =>
    rw [hread] at hsnd
    obtain rfl : t' = t := hsnd
    cases res with
    | error e => simp only [readManifest, hread, Option.bind_none]
    | ok b =>
      -- the file would stand in the directory
      have hentry := (read_eq_ok.1 hread).2.2
      rw [norm_storedManifestPath, Tree.file?_eq_some, hlists.entry, hfile] at hentry
      cases hentry

/-- **A reader is sent** the manifest and a page of the chunks in the order of their indices. -/
theorem fetchChunks_eq (hlists : t.Lists (blobDir home fileId) f)
    (hd : t.HasDir (blobDir home fileId))
    (hreader : IsReader E home fileId (x.fingerprint K) t)
    (hrevoked : nodeIsRevoked K E home x t = (.ok false, t)) (offset : UInt32) :
    fetchChunks K E home fileId x offset t =
      (.ok (manifestIn E f, pageOf E ((listedChunks E f).drop offset.toNat)), t) := by
  obtain ⟨acl, hacl, hin⟩ := hreader
  have hread : readAcl E home fileId t = (.ok acl, t) := Prod.ext hacl (inert_readAcl t)
  have hisDir : (pathIsDir (blobDir home fileId) : FsM IoError Bool) t = (.ok true, t) := by
    simp only [pathIsDir, hd.1, decide_eq_true hd.2]
  have hlisted : (readDir E.order (blobDir home fileId) : FsM IoError (List String)) t =
      (.ok (E.order (t.children (blobDir home fileId).norm)), t) := by
    unfold readDir
    rw [hd.1]
    dsimp only
    rw [if_pos hd.2]
  have hnames : ∀ c ∈ E.order (t.children (blobDir home fileId).norm), f c ≠ none := by
    intro c hc
    have hchild := Finset.mem_coe.2 (((E.lists _).2 c).1 hc)
    rwa [hlists.coe_children] at hchild
  rw [fetchChunks, bind_of_ok hrevoked, if_neg (by decide), bind_of_ok hread]
  simp only [if_pos hin]
  rw [fetchPage, bind_of_ok hisDir, if_pos rfl, bind_of_ok (readManifest_eq hlists hd),
    bind_of_ok hlisted, bind_of_ok (readHeld_eq hlists hd hnames), takePage_eq,
    listedChunks_eq hlists]
  rfl

theorem HoldsChunks.fetch (h : HoldsChunks E home fileId mo es t)
    (hreader : IsReader E home fileId (x.fingerprint K) t)
    (hrevoked : nodeIsRevoked K E home x t = (.ok false, t)) :
    ∃ held : List EncryptedChunk, held.Perm es ∧ ∀ offset, fetchChunks K E home fileId x offset t =
      (.ok (mo, pageOf E ((sortHeld held).drop offset.toNat)), t) := by
  obtain ⟨f, names, hlists, hd, hmanifest, hnodup, hmem, hperm⟩ := h
  have hsame : (E.order (t.children (blobDir home fileId).norm)).Perm names := by
    refine (List.perm_ext_iff_of_nodup (E.lists _).1 hnodup).2 fun c => ?_
    rw [(E.lists _).2, ← Finset.mem_coe, hlists.coe_children, hmem]
    rfl
  refine ⟨_, (hsame.filterMap (heldIn E f)).trans hperm, fun offset => ?_⟩
  rw [fetchChunks_eq hlists hd hreader hrevoked, hmanifest, listedChunks_eq hlists]

/-- Chunks in any order, sorted, are the chunks in the order of their indices. -/
theorem sortHeld_eq {held : List EncryptedChunk} (hperm : held.Perm es)
    (hinc : es.Pairwise fun a b => a.index < b.index) : sortHeld held = es := by
  have hinj : ∀ a ∈ es, ∀ b ∈ es, a.index = b.index → a = b := by
    intro a ha b hb hab
    have hnodup : (es.map EncryptedChunk.index).Nodup :=
      List.pairwise_map.2 (hinc.imp fun hlt heq => absurd (heq ▸ hlt) (UInt32.lt_irrefl _))
    exact List.inj_on_of_nodup_map hnodup ha hb hab
  have hsorted : (sortHeld held).Perm es := (List.perm_insertionSort ..).trans hperm
  refine hsorted.eq_of_pairwise (fun a b ha hb hab hba => ?_) (List.pairwise_insertionSort ..)
    (hinc.imp fun h => UInt32.le_of_lt h)
  exact hinj a (hsorted.mem_iff.1 ha) b hb (UInt32.le_antisymm hab hba)

theorem pairwise_sortHeld : (sortHeld es).Pairwise fun a b => a.index ≤ b.index :=
  List.pairwise_insertionSort ..

theorem perm_sortHeld : (sortHeld es).Perm es := List.perm_insertionSort ..

theorem sortHeld_of_pairwise (h : es.Pairwise fun a b => a.index ≤ b.index) : sortHeld es = es :=
  List.Pairwise.insertionSort_eq h

/-! ### The loop of the client -/

section Loop

variable {σ : Type} {S : Server σ} {s : σ} {n fuel j : ℕ} {p : Pulled}

/-- The server gives out the chunks page by page, with the manifest, and stays as it is. -/
def GivesPages (E : StorageEnv) (S : Server σ) (fileId : String) (mo : Option FileManifest)
    (es : List EncryptedChunk) (s : σ) : Prop :=
  ∀ offset, ∃ debug, S.step s (.fetchChunks fileId offset) =
    (.ok ⟨some (.storedChunks fileId mo (pageOf E (es.drop offset.toNat))), debug⟩, s)

/-- What the client has after so many pages. -/
structure HasPages (E : StorageEnv) (m : FileManifest) (es : List EncryptedChunk) (p : Pulled)
    (j : ℕ) : Prop where
  manifest : p.manifest.or (some m) = some m
  collected : p.collected = es.take (pageEnd E es j)
  offset : p.offset.toNat = pageEnd E es j

theorem hasPages_start : HasPages E m es ⟨none, [], 0⟩ 0 := ⟨rfl, by simp [pageEnd], rfl⟩

theorem HasPages.collected_add (h : HasPages E m es p j) :
    (p.add (some m) (pageOf E (es.drop p.offset.toNat))).collected =
      es.take (pageEnd E es (j + 1)) := by
  rw [Pulled.add, h.collected, h.offset]
  exact Pages.take_ends_succ.symm

theorem HasPages.length_add (h : HasPages E m es p j) :
    (p.add (some m) (pageOf E (es.drop p.offset.toNat))).collected.length =
      pageEnd E es (j + 1) := by
  rw [h.collected_add, List.length_take]
  exact Nat.min_eq_left Pages.ends_le

theorem HasPages.add (h : HasPages E m es p j) (hsmall : pageEnd E es (j + 1) < 2 ^ 32) :
    HasPages E m es (p.add (some m) (pageOf E (es.drop p.offset.toNat))) (j + 1) := by
  refine ⟨?_, h.collected_add, ?_⟩
  · rw [Pulled.add, h.manifest]
    rfl
  · have hsucc : pageEnd E es (j + 1) =
        pageEnd E es j + (pageOf E (es.drop (pageEnd E es j))).length := Pages.ends_succ
    have hpage : (pageOf E (es.drop (pageEnd E es j))).length < 2 ^ 32 := by omega
    have hlen : (UInt32.ofNat (pageOf E (es.drop (pageEnd E es j))).length).toNat =
        (pageOf E (es.drop (pageEnd E es j))).length := UInt32.toNat_ofNat_of_lt' hpage
    have hlt : p.offset.toNat + (UInt32.ofNat (pageOf E (es.drop p.offset.toNat)).length).toNat <
        2 ^ 32 := by
      rw [h.offset, hlen]
      omega
    rw [Pulled.add, saturatingAdd, if_pos hlt, UInt32.toNat_add, Nat.mod_eq_of_lt hlt, h.offset,
      hlen, hsucc]

/-- The loop stops at the first page that reaches the manifest's count, or is empty. -/
theorem HasPages.stops_iff (h : HasPages E m es p j) :
    (p.add (some m) (pageOf E (es.drop p.offset.toNat))).stops
        (pageOf E (es.drop p.offset.toNat)) = true ↔
      (0 < m.chunks.length ∧ m.chunks.length ≤ pageEnd E es (j + 1)) ∨
        pageEnd E es j = es.length := by
  have hmanifest : (p.add (some m) (pageOf E (es.drop p.offset.toNat))).manifest = some m :=
    h.manifest
  have hempty : (pageOf E (es.drop p.offset.toNat)).isEmpty = true ↔
      pageEnd E es j = es.length := by
    rw [List.isEmpty_iff, h.offset]
    constructor
    · intro hnil
      by_contra hne
      have hlt : pageEnd E es j < es.length := lt_of_le_of_ne Pages.ends_le hne
      refine Pages.page_ne_nil (fun hdrop => ?_) hnil
      have := List.drop_eq_nil_iff.1 hdrop
      omega
    · intro hall
      rw [hall, List.drop_length]
      rfl
  simp only [Pulled.stops, hmanifest, h.length_add, Option.map_some, Option.getD_some,
    Bool.or_eq_true, decide_eq_true_eq, hempty]

theorem HasPages.finish (h : HasPages E m es p j) :
    (pageEnd E es (j + 1) = m.chunks.length →
      (p.add (some m) (pageOf E (es.drop p.offset.toNat))).finish fileId =
        .ok (m, sortHeld (es.take m.chunks.length))) ∧
    (pageEnd E es (j + 1) ≠ m.chunks.length →
      ∃ e, (p.add (some m) (pageOf E (es.drop p.offset.toNat))).finish fileId = .error e) := by
  have hmanifest : (p.add (some m) (pageOf E (es.drop p.offset.toNat))).manifest = some m :=
    h.manifest
  rw [Pulled.finish, hmanifest]
  dsimp only
  rw [h.length_add]
  refine ⟨fun hcount => ?_, fun hcount => ?_⟩
  · rw [if_neg (not_not.2 hcount), h.collected_add, hcount]
  · rw [if_pos hcount]
    exact ⟨_, rfl⟩

/-- **The client succeeds exactly when a page ends** after as many chunks as the manifest has, with
these chunks. -/
theorem pullLoop_pages (hS : GivesPages E S fileId (some m) es s) (h : HasPages E m es p j)
    (hbefore : pageEnd E es j < m.chunks.length) (hbound : m.chunks.length ≤ 2 ^ 32)
    (hfuel : min m.chunks.length (es.length + 1) ≤ fuel + pageEnd E es j) :
    ∃ r, (pullLoop S fileId fuel p s).1 = some r ∧
      (IsPageEnd E es m.chunks.length → r = .ok (m, sortHeld (es.take m.chunks.length))) ∧
        (¬ IsPageEnd E es m.chunks.length → ∃ e, r = .error e) := by
  have hle : ∀ i, pageEnd E es i ≤ es.length := fun _ => Pages.ends_le
  induction fuel generalizing j p with
  | zero =>
    have := hle j
    omega
  | succ fuel ih =>
    obtain ⟨debug, hstep⟩ := hS p.offset
    rw [pullLoop, hstep]
    dsimp only
    split
    · rename_i hstops
      rcases h.stops_iff.1 hstops with ⟨-, hreached⟩ | hall
      · by_cases hcount : pageEnd E es (j + 1) = m.chunks.length
        · exact ⟨_, rfl, fun _ => h.finish.1 hcount, fun hnot => absurd ⟨j + 1, hcount⟩ hnot⟩
        · -- the count falls within the page
          refine ⟨_, rfl, fun hend => absurd hend ?_, fun _ => h.finish.2 hcount⟩
          exact Pages.not_end_of_between hbefore (lt_of_le_of_ne hreached (Ne.symm hcount))
      · -- there are no more chunks
        have hsame : pageEnd E es (j + 1) = pageEnd E es j :=
          le_antisymm (hall ▸ hle (j + 1)) (Pages.monotone_ends (Nat.le_succ j))
        refine ⟨_, rfl, fun hend => ?_, fun _ => h.finish.2 (by omega)⟩
        obtain ⟨i, hi⟩ := hend
        have := hle i
        rw [pageEnd] at this
        omega
    · rename_i hgoes
      rw [h.stops_iff, not_or] at hgoes
      have hlt : pageEnd E es j < es.length := lt_of_le_of_ne (hle j) hgoes.2
      have hnext : pageEnd E es j < pageEnd E es (j + 1) := Pages.ends_lt_succ hlt
      have hbefore' : pageEnd E es (j + 1) < m.chunks.length := by omega
      exact ih (h.add (by omega)) hbefore' (by omega)

theorem pullChunks_nil (hS : GivesPages E S fileId (some m) [] s) (hn : m.chunks = [])
    (hfuel : 0 < fuel) : (pullChunks S fileId fuel s).1 = some (.ok (m, [])) := by
  obtain ⟨fuel, rfl⟩ := Nat.exists_eq_succ_of_ne_zero hfuel.ne'
  obtain ⟨debug, hstep⟩ := hS 0
  have hstart : HasPages E m [] ⟨none, [], 0⟩ 0 := hasPages_start
  have hstops := hstart.stops_iff.2 (.inr rfl)
  rw [pullChunks, pullLoop, hstep]
  dsimp only
  rw [if_pos hstops, hstart.finish.1 (by rw [hn]; rfl), hn]
  rfl

/-- A pull that is done is done in more rounds too. -/
theorem pullLoop_mono {r : Except IoError (FileManifest × List EncryptedChunk)} {fuel' : ℕ}
    (h : (pullLoop S fileId fuel p s).1 = some r) (hle : fuel ≤ fuel') :
    (pullLoop S fileId fuel' p s).1 = some r := by
  induction fuel generalizing fuel' p s with
  | zero => cases h
  | succ fuel ih =>
    obtain ⟨k, rfl⟩ : ∃ k, fuel' = k + 1 := ⟨fuel' - 1, by omega⟩
    rw [pullLoop] at h ⊢
    split at h
    · exact h
    · split at h
      · split at h
        · rename_i hstops
          rw [if_pos hstops]
          exact h
        · rename_i hgoes
          rw [if_neg hgoes]
          exact ih h (by omega)
      · exact h
      · exact h

/-- What a pull returns is as much as its manifest asks for, and the page that comes next is among
it. -/
theorem pullLoop_ok (hS : GivesPages E S fileId mo es s) (hp : p.manifest.or mo = mo)
    {l : List EncryptedChunk} (h : (pullLoop S fileId fuel p s).1 = some (.ok (m, l))) :
    mo = some m ∧ l.length = m.chunks.length ∧
      p.collected.length + (pageOf E (es.drop p.offset.toNat)).length ≤ l.length := by
  induction fuel generalizing p with
  | zero => cases h
  | succ fuel ih =>
    obtain ⟨debug, hstep⟩ := hS p.offset
    have hmanifest : (p.add mo (pageOf E (es.drop p.offset.toNat))).manifest = mo := hp
    have hlength : (p.add mo (pageOf E (es.drop p.offset.toNat))).collected.length =
        p.collected.length + (pageOf E (es.drop p.offset.toNat)).length := List.length_append
    rw [pullLoop, hstep] at h
    dsimp only at h
    split at h
    · have hfinish := Option.some.inj h
      rw [Pulled.finish, hmanifest, hlength] at hfinish
      cases mo with
      | none => cases hfinish
      | some m' =>
        dsimp only at hfinish
        split at hfinish
        · cases hfinish
        · rename_i hcount
          obtain ⟨rfl, rfl⟩ := Prod.mk.inj (Except.ok.inj hfinish)
          have hsort : ∀ held, (sortHeld held).length = held.length := fun _ =>
            perm_sortHeld.length_eq
          rw [hsort, hlength]
          exact ⟨rfl, by omega, by omega⟩
    · obtain ⟨hmo, hcount, hle⟩ := ih (p := p.add mo _) (by rw [hmanifest, Option.or_self]) h
      exact ⟨hmo, hcount, by omega⟩

theorem HoldsChunks.givesPages (h : HoldsChunks E home fileId mo es t)
    (hreader : IsReader E home fileId (x.fingerprint K) t)
    (hrevoked : nodeIsRevoked K E home x t = (.ok false, t)) (debug : StorageFrame → String) :
    ∃ held, held.Perm es ∧
      GivesPages E (coreServer K E home x debug) fileId mo (sortHeld held) t := by
  obtain ⟨held, hperm, hfetch⟩ := h.fetch hreader hrevoked
  refine ⟨held, hperm, fun offset => ?_⟩
  simp only [coreServer, core_fetch, hfetch offset]
  exact ⟨_, rfl⟩

/-- **What a reader pulls** from a directory with a manifest of some chunks. -/
theorem HoldsChunks.pull (h : HoldsChunks E home fileId (some m) es t)
    (hreader : IsReader E home fileId (x.fingerprint K) t)
    (hrevoked : nodeIsRevoked K E home x t = (.ok false, t)) (debug : StorageFrame → String)
    (hpos : 0 < m.chunks.length) (hbound : m.chunks.length ≤ 2 ^ 32) :
    ∃ held, held.Perm es ∧ ∀ fuel, min m.chunks.length (es.length + 1) ≤ fuel →
      ∃ r, (pullChunks (coreServer K E home x debug) fileId fuel t).1 = some r ∧
        (IsPageEnd E (sortHeld held) m.chunks.length →
          r = .ok (m, (sortHeld held).take m.chunks.length)) ∧
        (¬ IsPageEnd E (sortHeld held) m.chunks.length → ∃ e, r = .error e) := by
  obtain ⟨held, hperm, hS⟩ := h.givesPages hreader hrevoked debug
  have hlength : (sortHeld held).length = es.length := (perm_sortHeld.trans hperm).length_eq
  refine ⟨held, hperm, fun fuel hfuel => ?_⟩
  have hcalls : min m.chunks.length ((sortHeld held).length + 1) ≤
      fuel + pageEnd E (sortHeld held) 0 := by
    rw [hlength]
    omega
  obtain ⟨r, hr, hok, herror⟩ := pullLoop_pages hS hasPages_start hpos hbound hcalls
  have hsorted : ((sortHeld held).take m.chunks.length).Pairwise fun a b => a.index ≤ b.index :=
    pairwise_sortHeld.sublist (List.take_sublist ..)
  rw [sortHeld_of_pairwise hsorted] at hok
  exact ⟨r, hr, hok, herror⟩

end Loop

/-! ### The pages of a complete directory -/

section Spec

variable (K : Primitives) (E : StorageEnv) (home : Home) (fileId : String) (x : PublicIdentity)
  (t : Tree)

/-- The page that is fetched from an offset on, if the fetch is not refused. -/
def pageAt (offset : ℕ) : List EncryptedChunk :=
  match (fetchChunks K E home fileId x (UInt32.ofNat offset) t).1 with
  | .ok (_, page) => page
  | .error _ => []

/-- What the first fetches return, each from where the one before it ended. -/
def fetched : ℕ → List EncryptedChunk
  | 0 => []
  | j + 1 => fetched j ++ pageAt K E home fileId x t (fetched j).length

/-- A directory that holds the chunks of its manifest is given out page by page and can be
pulled. -/
structure PagingSpec (debug : StorageFrame → String) (m : FileManifest)
    (es : List EncryptedChunk) : Prop where
  /-- Until all chunks were returned, a fetch is answered, by the manifest and a page of some
  chunks: a single one, or no more than the budget. -/
  page : ∀ j, (fetched K E home fileId x t j).length < es.length →
    ∃ page, fetchChunks K E home fileId x
        (UInt32.ofNat (fetched K E home fileId x t j).length) t = (.ok (some m, page), t) ∧
      page ≠ [] ∧ (page.length = 1 ∨ (page.map (chunkSize E)).sum ≤ maxBatchPayload)
  /-- Then each chunk was returned once, in order, and this is what the client has after so many
  calls at most. -/
  all : ∃ sorted, sorted.Perm es ∧ sorted.Pairwise (fun a b => a.index < b.index) ∧
    (∃ j, j ≤ es.length ∧ fetched K E home fileId x t j = sorted) ∧
      ∀ fuel, max es.length 1 ≤ fuel →
        (pullChunks (coreServer K E home x debug) fileId fuel t).1 = some (.ok (m, sorted))

end Spec

theorem length_le_of_nodup_index (h : (es.map EncryptedChunk.index).Nodup) :
    es.length ≤ 2 ^ 32 := by
  have hnodup : (es.map fun e => e.index.toNat).Nodup := by
    have hmap := h.map (f := UInt32.toNat) fun a b => UInt32.toNat_inj.1
    rwa [List.map_map] at hmap
  have hsub : (es.map fun e => e.index.toNat) ⊆ List.range (2 ^ 32) := by
    intro i hi
    obtain ⟨e, -, rfl⟩ := List.mem_map.1 hi
    exact List.mem_range.2 e.index.toNat_lt
  have hle := (List.subperm_of_subset hnodup hsub).length_le
  rwa [List.length_map, List.length_range] at hle

theorem fetched_eq {held : List EncryptedChunk} (hfetch : ∀ offset,
      fetchChunks K E home fileId x offset t = (.ok (mo, pageOf E (held.drop offset.toNat)), t))
    (hbound : held.length ≤ 2 ^ 32) {j : ℕ} (hj : ∀ i < j, pageEnd E held i < held.length) :
    fetched K E home fileId x t j = held.take (pageEnd E held j) := by
  induction j with
  | zero => simp [fetched, pageEnd]
  | succ j ih =>
    have hle : pageEnd E held j ≤ held.length := Pages.ends_le
    have hlt : pageEnd E held j < held.length := hj j (Nat.lt_succ_self j)
    have hbefore := ih fun i hi => hj i (by omega)
    have hoffset : (UInt32.ofNat (pageEnd E held j)).toNat = pageEnd E held j :=
      UInt32.toNat_ofNat_of_lt' (Nat.lt_of_lt_of_le hlt hbound)
    rw [fetched, hbefore, List.length_take, Nat.min_eq_left hle, pageAt, hfetch, hoffset]
    exact Pages.take_ends_succ.symm

theorem length_fetched_mono :
    Monotone fun j => (fetched K E home fileId x t j).length :=
  monotone_nat_of_le_succ fun j => by
    rw [fetched, List.length_append]
    omega

theorem pairwise_lt_sortHeld (h : ((sortHeld es).map EncryptedChunk.index).Nodup) :
    (sortHeld es).Pairwise fun a b => a.index < b.index := by
  have hne : (sortHeld es).Pairwise fun a b => a.index ≠ b.index := List.pairwise_map.1 h
  refine (pairwise_sortHeld.and hne).imp ?_
  rintro a b ⟨hle, hne⟩
  exact UInt32.lt_of_le_of_ne hle hne

/-- A page of what is left has some chunks: a single one, or no more than the budget. -/
theorem pageOf_spec (hE : E.Postcard) (hne : es ≠ []) : pageOf E es ≠ [] ∧
    ((pageOf E es).length = 1 ∨ ((pageOf E es).map (chunkSize E)).sum ≤ maxBatchPayload) := by
  have hpos : 0 < (pageOf E es).length := Pages.length_page_pos hne
  refine ⟨Pages.page_ne_nil hne, ?_⟩
  have hfits : (pageOf E es).length ≤ 1 ∨
      ((pageOf E es).map (chunkSize E)).sum ≤ maxBatchPayload :=
    Pages.page_fits fun e _ => hE.chunkSize_pos e
  exact hfits.imp_left fun hone => by omega

/-- What is given out page by page is pulled, if it is as long as the manifest says. -/
theorem pullChunks_of_fetch {held : List EncryptedChunk} (debug : StorageFrame → String)
    (hfetch : ∀ offset, fetchChunks K E home fileId x offset t =
      (.ok (some m, pageOf E ((sortHeld held).drop offset.toNat)), t))
    (hlength : (sortHeld held).length = m.chunks.length)
    (hbound : (sortHeld held).length ≤ 2 ^ 32) {fuel : ℕ}
    (hfuel : max m.chunks.length 1 ≤ fuel) :
    (pullChunks (coreServer K E home x debug) fileId fuel t).1 =
      some (.ok (m, sortHeld held)) := by
  have hpages : GivesPages E (coreServer K E home x debug) fileId (some m) (sortHeld held) t := by
    intro offset
    simp only [coreServer, core_fetch, hfetch offset]
    exact ⟨_, rfl⟩
  rcases Nat.eq_zero_or_pos m.chunks.length with hzero | hpos
  · have hnil : sortHeld held = [] := List.length_eq_zero_iff.1 (hlength.trans hzero)
    rw [hnil] at hpages ⊢
    exact pullChunks_nil hpages (List.length_eq_zero_iff.1 hzero) (by omega)
  · have hcalls : min m.chunks.length ((sortHeld held).length + 1) ≤
        fuel + pageEnd E (sortHeld held) 0 := by omega
    obtain ⟨r, hr, hok, -⟩ := pullLoop_pages hpages hasPages_start hpos (hlength ▸ hbound) hcalls
    have hisEnd : IsPageEnd E (sortHeld held) m.chunks.length := by
      rw [← hlength]
      exact Pages.end_length
    rw [pullChunks, hr, hok hisEnd, ← hlength, List.take_length,
      sortHeld_of_pairwise pairwise_sortHeld]

/-- **The pages of a complete directory.** -/
theorem paging_spec (hE : E.Postcard) (h : HoldsChunks E home fileId (some m) es t)
    (hcount : es.length = m.chunks.length) (hdistinct : (es.map EncryptedChunk.index).Nodup)
    (hreader : IsReader E home fileId (x.fingerprint K) t)
    (hrevoked : nodeIsRevoked K E home x t = (.ok false, t)) (debug : StorageFrame → String) :
    PagingSpec K E home fileId x t debug m es := by
  obtain ⟨held, hperm, hfetch⟩ := h.fetch hreader hrevoked
  have hsorted : (sortHeld held).Perm es := perm_sortHeld.trans hperm
  have hlength : (sortHeld held).length = es.length := hsorted.length_eq
  have hbound : (sortHeld held).length ≤ 2 ^ 32 := hlength ▸ length_le_of_nodup_index hdistinct
  obtain ⟨last, hlast, hend, hbefore⟩ : ∃ last, last ≤ (sortHeld held).length ∧
      pageEnd E (sortHeld held) last = (sortHeld held).length ∧
        ∀ i < last, pageEnd E (sortHeld held) i < (sortHeld held).length :=
    Pages.exists_first_end
  have hfetched : ∀ j, j ≤ last → fetched K E home fileId x t j =
      (sortHeld held).take (pageEnd E (sortHeld held) j) := fun j hj =>
    fetched_eq hfetch hbound fun i hi => hbefore i (by omega)
  have hall : fetched K E home fileId x t last = sortHeld held := by
    rw [hfetched last le_rfl, hend, List.take_length]
  refine ⟨fun j hj => ?_, sortHeld held, hsorted,
    pairwise_lt_sortHeld ((hsorted.map _).nodup_iff.2 hdistinct),
    ⟨last, hlength ▸ hlast, hall⟩, fun fuel hfuel => ?_⟩
  · -- a page that is fetched before the last one
    have hlt : j < last := by
      by_contra hge
      have hmono : (fetched K E home fileId x t last).length ≤
          (fetched K E home fileId x t j).length := length_fetched_mono (Nat.le_of_not_lt hge)
      rw [hall] at hmono
      omega
    have hj' : pageEnd E (sortHeld held) j < (sortHeld held).length := hbefore j hlt
    have hcollected : (fetched K E home fileId x t j).length = pageEnd E (sortHeld held) j := by
      rw [hfetched j hlt.le, List.length_take, Nat.min_eq_left hj'.le]
    have hoffset : (UInt32.ofNat (fetched K E home fileId x t j).length).toNat =
        pageEnd E (sortHeld held) j := by
      rw [hcollected]
      exact UInt32.toNat_ofNat_of_lt' (Nat.lt_of_lt_of_le hj' hbound)
    have hne : (sortHeld held).drop (pageEnd E (sortHeld held) j) ≠ [] := by
      rw [ne_eq, List.drop_eq_nil_iff]
      omega
    refine ⟨_, hfetch _, ?_⟩
    rw [hoffset]
    exact pageOf_spec hE hne
  · exact pullChunks_of_fetch debug hfetch (hlength.trans hcount) hbound (hcount ▸ hfuel)

/-! ### Two chunks -/

namespace Stack

/-- The second chunk of the note. -/
def second : EncryptedChunk := ⟨1, digits 24 2, [9, 9]⟩

/-- The manifest of a note of two chunks. -/
def manifest : FileManifest :=
  { Cabinet.manifest Cabinet.owner with chunks := [polyHash [5], polyHash [6]] }

/-- The directory of the file id, with nothing in it. -/
def shelf : Tree :=
  ((Cabinet.disk.mkdir ["core"]).mkdir ["blobs", "core"]).mkdir ["f", "blobs", "core"]

/-- The readers. -/
def readers : List String := [(Cabinet.owner.pub .sample).fingerprint .sample]

/-- The files, with the chunks under names in the other order. -/
def files : List (String × Bytes) :=
  [("manifest.json", StorageEnv.sample.manifest.encode manifest),
    ("acl.json", StorageEnv.sample.names.encode readers),
    ("a", StorageEnv.sample.chunk.encode second),
    ("b", StorageEnv.sample.chunk.encode Cabinet.blob)]

/-- The directory with its files. -/
def tree : Tree := shelf.putFiles (blobDir Cabinet.device "f").norm files

theorem lists_shelf : shelf.Lists (blobDir Cabinet.device "f") fun _ => none := by
  refine ⟨fun c => ?_, fun _ h => absurd rfl h⟩
  have hnorm : (blobDir Cabinet.device "f").norm = ["f", "blobs", "core"] := by decide +kernel
  rw [hnorm, shelf, Tree.entry_mkdir_of_ne (by simp), Tree.entry_mkdir_of_ne (by simp),
    Tree.entry_mkdir_of_ne (by simp), Cabinet.disk, Tree.entry_bare_cons]
  rfl

theorem holds_tree : HoldsChunks .sample Cabinet.device "f" (some manifest) [Cabinet.blob, second]
    tree :=
  ⟨contents files fun _ => none, files.map Prod.fst,
    lists_shelf.putFiles files (by decide +kernel) fun _ _ => rfl,
    ⟨by decide +kernel, by decide +kernel⟩, by decide +kernel, by decide +kernel,
    fun _ => by simp [contents_ne_none], by decide +kernel⟩

end Stack

open Stack in
/-- Two chunks are pulled, whatever the names of their files. -/
theorem paging_spec_stack :
    PagingSpec .sample .sample Cabinet.device "f" (Cabinet.owner.pub .sample) tree
      (fun _ => "reply") manifest [Cabinet.blob, second] := by
  refine paging_spec ⟨rfl, rfl⟩ holds_tree rfl (by decide) ⟨readers, by decide +kernel,
    by decide +kernel⟩ ?_ _
  rw [nodeIsRevoked_eq, decide_eq_false (by decide +kernel)]

end Neonet
