import Neonet.App.Frames

/-!
# Read-only shares

* `safeRelativePath` : a path of a request, beneath the share.
* `ReadOnlyShare.list`, `ReadOnlyShare.read`, `ReadOnlyShare.fork` : what a share offers, where no
  links are.
* `inert_shareList`, `inert_shareRead` : listing and reading change nothing.
* `touches_shareFork` : **a fork writes beneath its destination only.**
-/

namespace Neonet

open FileTree FsM

/-- What the system tells of directories: the order of a listing, the length in the metadata of a
directory, and how many directories it descends before the path is too long. -/
structure ShareEnv where
  order : Finset String → List String
  dirLen : Loc → UInt64
  depth : ℕ

/-- `Path::parent`: the last component that names something is left off. -/
def parentPath (p : PathBuf) : PathBuf := (p.filter fun c => c ≠ "" ∧ c ≠ ".").dropLast

/-- `Path::canonicalize` of what exists. -/
def canonicalize (p : PathBuf) : FsM FileError PathBuf := fun t =>
  match t.resolve p with
  | .error e => (.error (.io (.os e)), t)
  | .ok l => if (t.entry l).isSome then (.ok l.reverse, t) else (.error (.io (.os .notFound)), t)

/-- `symlink_metadata`: what stands there, and its place. -/
def metadata (p : PathBuf) : FsM FileError (Loc × Entry) := fun t =>
  match t.resolve p with
  | .error e => (.error (.io (.os e)), t)
  | .ok l =>
    match t.entry l with
    | some e => (.ok (l, e), t)
    | none => (.error (.io (.os .notFound)), t)

/-- An error that a share answers by itself. -/
def denied (message : String) : FileError := .io (.custom .permissionDenied message)

/-- `safe_relative_path`. -/
def safeRelativePath (root : PathBuf) (relative : String) : FsM FileError PathBuf := do
  let root ← canonicalize root
  if relative.toList.head? = some '/' then FsM.fail (denied "absolute path is not allowed")
  else if ".." ∈ components relative then FsM.fail (denied "path escapes share root")
  else if (components relative).all fun c => c = "" ∨ c = "." then return root.join relative
  else do
    let parent ← canonicalize (parentPath (root.join relative))
    if root.isPrefixOf parent then return root.join relative
    else FsM.fail (denied "path escapes share root")

/-- `ReadOnlyShare::open`. -/
def shareOpen (root : PathBuf) : FsM FileError PathBuf := do
  let root ← canonicalize root
  if ← pathIsDir root then return root
  else FsM.fail (.io (.custom .invalidInput "share root is not a directory"))

section Operations

variable (B : ShareEnv)

/-- `read_dir`, which passes over the directory itself and the one above. -/
def listing (dir : PathBuf) : FsM FileError (List String) := do
  let names ← readDir B.order dir
  return names.filter fun name => name ≠ "." ∧ name ≠ ".."

/-- The entry of a listing. -/
def shareEntry (name : String) : Loc × Entry → ShareEntry
  | (l, .dir) => ⟨name, .directory, B.dirLen l⟩
  | (_, .file b) => ⟨name, .file, UInt64.ofNat b.length⟩

/-- The entries of the names of a listing. -/
def shareEntries (dir : PathBuf) : List String → FsM FileError (List ShareEntry)
  | [] => return []
  | name :: names => do
    let found ← metadata (dir ++ [name])
    let entries ← shareEntries dir names
    return shareEntry B name found :: entries

/-- `ReadOnlyShare::list`. -/
def shareList (root : PathBuf) (relative : String) : FsM FileError (List ShareEntry) := do
  let path ← safeRelativePath root relative
  let names ← listing B path
  let entries ← shareEntries B path names
  return entries.insertionSort fun a b => a.name ≤ b.name

/-- `ReadOnlyShare::read`. -/
def shareRead (root : PathBuf) (relative : String) : FsM FileError Bytes := do
  let path ← safeRelativePath root relative
  match ← metadata path with
  | (_, .dir) => FsM.fail (denied "only regular files are readable")
  | (_, .file _) => FileTree.read path

/-- `fs::copy`. -/
def copyFile (src dst : PathBuf) : FsM FileError Unit := do
  let bytes ← FileTree.read src
  write dst bytes

/-- `copy_dir`. -/
def copyDir : ℕ → PathBuf → PathBuf → FsM FileError Unit
  | 0, _, _ => FsM.fail (.io (.os .invalidName))
  | depth + 1, src, dst => do
    createDirAll dst
    let names ← listing B src
    FsM.forEach (fun name => do
      match ← metadata (src ++ [name]) with
      | (_, .dir) => copyDir depth (src ++ [name]) (dst ++ [name])
      | (_, .file _) => copyFile (src ++ [name]) (dst ++ [name])) names

/-- `ReadOnlyShare::fork`. -/
def shareFork (root : PathBuf) (relative : String) (destination : PathBuf) :
    FsM FileError Unit := do
  let source ← safeRelativePath root relative
  match ← metadata source with
  | (_, .file _) => do
    createDirAll (parentPath destination)
    copyFile source destination
  | (_, .dir) => copyDir B B.depth source destination

end Operations

variable {B : ShareEnv} {root p : PathBuf} {relative : String}

theorem inert_canonicalize : Inert (canonicalize p) := by
  intro t
  unfold canonicalize
  split
  · rfl
  · split <;> rfl

theorem inert_metadata : Inert (metadata p) := by
  intro t
  unfold metadata
  split
  · rfl
  · split <;> rfl

theorem inert_safeRelativePath : Inert (safeRelativePath root relative) := by
  refine inert_canonicalize.bind fun root' => ?_
  split
  · exact inert_fail _
  · split
    · exact inert_fail _
    · split
      · exact inert_pure _
      · refine inert_canonicalize.bind fun parent => ?_
        split
        · exact inert_pure _
        · exact inert_fail _

theorem inert_shareOpen : Inert (shareOpen p) := by
  refine inert_canonicalize.bind fun root' => inert_pathIsDir.bind fun b => ?_
  split
  · exact inert_pure _
  · exact inert_fail _

theorem inert_listing : Inert (listing B p) := inert_readDir.bind fun _ => inert_pure _

theorem inert_shareEntries {names : List String} : Inert (shareEntries B p names) := by
  induction names with
  | nil => exact inert_pure _
  | cons name names ih =>
    exact inert_metadata.bind fun _ => ih.bind fun _ => inert_pure _

/-- Listing changes nothing. -/
theorem inert_shareList : Inert (shareList B root relative) :=
  inert_safeRelativePath.bind fun _ => inert_listing.bind fun _ =>
    inert_shareEntries.bind fun _ => inert_pure _

/-- Reading changes nothing. -/
theorem inert_shareRead : Inert (shareRead root relative) := by
  refine inert_safeRelativePath.bind fun path => inert_metadata.bind fun found => ?_
  obtain ⟨l, _ | b⟩ := found
  · exact inert_fail _
  · exact inert_read

/-- A path that is let through leads downwards. -/
theorem downward_of_safeRelativePath {t t' : Tree}
    (h : safeRelativePath root relative t = (.ok p, t')) :
    relative.toList.head? ≠ some '/' ∧ PathBuf.Downward (components relative) := by
  obtain ⟨root', t₁, -, h⟩ := bind_ok.1 h
  split at h
  · cases h
  · rename_i habs
    split at h
    · cases h
    · rename_i hup
      exact ⟨habs, fun c hc he => hup (he ▸ hc)⟩

/-! ### Where a fork writes -/

/-- A place at or beneath `d`. -/
def beneath (d : Loc) : Set Loc := {l | d <:+ l}

theorem norm_append_mem {d : Loc} {p q : PathBuf} (hp : d <:+ p.norm) (hq : PathBuf.Downward q) :
    d <:+ (p ++ q).norm := by
  rw [PathBuf.norm_append]
  exact hp.trans (Tree.suffix_foldl_stepTo hq _)

theorem touches_copyFile {d : Loc} {src dst : PathBuf} (h : d <:+ dst.norm) :
    Touches (beneath d) (copyFile src dst) :=
  inert_read.touches.bind fun _ => touches_write.mono (Set.singleton_subset_iff.2 h)

theorem mem_listing {t t' : Tree} {names : List String} (h : listing B p t = (.ok names, t')) :
    ∀ name ∈ names, name ≠ ".." := by
  obtain ⟨all, t₁, -, h⟩ := bind_ok.1 h
  obtain rfl := Except.ok.inj (Prod.mk.inj h).1
  intro name hname
  exact (of_decide_eq_true (List.mem_filter.1 hname).2).2

theorem touches_listing_bind {S : Set Loc} {α : Type} {f : List String → FsM FileError α}
    (hf : ∀ names, (∀ name ∈ names, name ≠ "..") → Touches S (f names)) :
    Touches S (listing B p >>= f) := by
  intro t
  cases hrun : listing B p t with
  | mk res t₁ =>
  have ht : t₁ = t := by
    have h := inert_listing (B := B) (p := p) t
    rwa [hrun] at h
  subst ht
  cases res with
  | error e => rw [bind_of_error hrun]
  | ok names =>
    rw [bind_of_ok hrun]
    exact hf names (mem_listing hrun) t₁

theorem touches_copyDir {d : Loc} {depth : ℕ} {src dst : PathBuf} (h : d <:+ dst.norm) :
    Touches (beneath d) (copyDir B depth src dst) := by
  induction depth generalizing src dst with
  | zero => exact touches_fail _
  | succ depth ih =>
    refine touches_createDirAll.bind fun _ => touches_listing_bind fun names hnames =>
      Touches.forEach fun name hname => ?_
    have htarget : d <:+ (dst ++ [name]).norm :=
      norm_append_mem h fun c hc => List.mem_singleton.1 hc ▸ hnames name hname
    refine inert_metadata.touches.bind fun found => ?_
    obtain ⟨l, _ | b⟩ := found
    · exact ih htarget
    · exact touches_copyFile htarget

/-- **A fork writes beneath its destination only**, wherever the request points. -/
theorem touches_shareFork {base : PathBuf} :
    Touches (beneath base.norm) (shareFork B root relative (base.join relative)) := by
  intro t
  cases hrun : safeRelativePath root relative t with
  | mk res t₁ =>
  have ht : t₁ = t := by
    have h : (safeRelativePath root relative t).2 = t := inert_safeRelativePath t
    rwa [hrun] at h
  subst ht
  rw [shareFork]
  cases res with
  | error e => rw [bind_of_error hrun]
  | ok source =>
    obtain ⟨hrel, hdown⟩ := downward_of_safeRelativePath hrun
    have hdst : base.norm <:+ (base.join relative).norm := by
      rw [PathBuf.join, if_neg hrel]
      exact norm_append_mem List.suffix_rfl hdown
    rw [bind_of_ok hrun]
    refine inert_metadata.touches.bind (fun found => ?_) t₁
    obtain ⟨l, _ | b⟩ := found
    · exact touches_copyDir hdst
    · exact touches_createDirAll.bind fun _ => touches_copyFile hdst

end Neonet
