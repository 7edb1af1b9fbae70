import Neonet.Burrow.Share
import Neonet.Lib.LinkTree

/-!
# Shares with links

A share of a tree in which links stand.  A request is checked lexically, and the directory of the
path that it asks for has to be beneath the root of the share.  Whether the last component of the
path is a link is seen by reading and forking, unless a slash or a dot follows, and never by
listing.

* `safeRelativePath`, `list`, `read`, `fork` : what a share offers.
* `Confined` : only what is beneath the root is offered, and nothing else matters.
* `Stays` : the path of a request stays along the root while it is resolved.
* `Leads` : a path leads to a directory; `trail_root` : **a path of a share is resolved from its
  root on.**
* `safeRelativePath_named` : **a request is let through exactly if its directory is beneath the
  root.**
-/

namespace Neonet

open FileTree

/-- What the system tells of directories, and how many links it follows. -/
structure LinkEnv extends ShareEnv where
  maxLinks : ℕ
  lists : ListsAll order

/-- The error of a path that cannot be resolved. -/
def lookupError : LinkTree.LookupError → FileError
  | .notFound => .io (.os .notFound)
  | .notADirectory => .io (.os .notADirectory)
  | .tooManyLinks => .io (.custom .other "Too many levels of symbolic links (os error 40)")

namespace Links

/-- What a copy does: a directory is opened, a directory is created if it does not exist, or a file
is copied. -/
inductive Copying
  | opened (src : PathBuf)
  | createDirAll (dst : PathBuf)
  | copied (src dst : PathBuf) (data : Bytes)
  deriving DecidableEq

/-- What a copy does in order, and how it ends, if nothing fails at its destination. -/
structure Plan (α : Type) where
  steps : List Copying
  result : Except FileError α

namespace Plan

variable {α β : Type}

instance : Monad Plan where
  pure a := ⟨[], .ok a⟩
  bind x f :=
    match x.result with
    | .ok a => ⟨x.steps ++ (f a).steps, (f a).result⟩
    | .error e => ⟨x.steps, .error e⟩

/-- One step. -/
def step (s : Copying) : Plan Unit := ⟨[s], .ok ()⟩

/-- What is looked up on the way. -/
def ofExcept (x : Except FileError α) : Plan α := ⟨[], x⟩

/-- The copy ends. -/
def fail (e : FileError) : Plan α := ⟨[], .error e⟩

/-- One element after the other. -/
def forEach (f : α → Plan Unit) : List α → Plan Unit
  | [] => pure ()
  | a :: as => do
    f a
    forEach f as

end Plan

section Operations

variable (B : LinkEnv) (t : LinkTree.Tree)

/-- The place that a path leads to; a link that is its last component is followed if `last` says
so. -/
def resolve (last : Bool) (path : PathBuf) : Except FileError Loc :=
  match (t.trail last B.maxLinks [] path).found with
  | .ok (l, _) => .ok l
  | .error e => .error (lookupError e)

/-- `Path::canonicalize`. -/
def canonicalize (path : PathBuf) : Except FileError PathBuf := do
  let l ← resolve B t true path
  return l.reverse

/-- `fs::symlink_metadata`: what stands there, and its place. -/
def symlinkMetadata (path : PathBuf) : Except FileError (Loc × LinkTree.Node) := do
  let l ← resolve B t false path
  match t.node l with
  | some node => return (l, node)
  | none => throw (lookupError .notFound)

/-- `fs::read_dir`. -/
def readDir (path : PathBuf) : Except FileError (List String) := do
  let l ← resolve B t true path
  if t.node l = some .dir then return B.order (t.names l)
  else throw (lookupError .notADirectory)

/-- `fs::read`. -/
def readFile (path : PathBuf) : Except FileError Bytes := do
  let l ← resolve B t true path
  match t.node l with
  | some (.file data) => return data
  | some .dir => throw (.io (.os .isADirectory))
  | _ => throw (lookupError .notFound)

/-- `safe_relative_path`. -/
def safeRelativePath (root : PathBuf) (relative : String) : Except FileError PathBuf := do
  let root ← canonicalize B t root
  if relative.toList.head? = some '/' then throw (denied "absolute path is not allowed")
  else if ".." ∈ components relative then throw (denied "path escapes share root")
  else if (components relative).all fun c => c = "" ∨ c = "." then
    return root ++ components relative
  else
    let parent ← canonicalize B t (parentPath (root ++ components relative))
    if root.isPrefixOf parent then return root ++ components relative
    else throw (denied "path escapes share root")

/-- `ReadOnlyShare::open`. -/
def shareOpen (root : PathBuf) : Except FileError PathBuf := do
  let root ← canonicalize B t root
  let l ← resolve B t true root
  if t.node l = some .dir then return root
  else throw (.io (.custom .invalidInput "share root is not a directory"))

/-- The entry of a listing. -/
def shareEntry (name : String) : Loc × LinkTree.Node → ShareEntry
  | (l, .dir) => ⟨name, .directory, B.dirLen l⟩
  | (_, .file data) => ⟨name, .file, UInt64.ofNat data.length⟩
  | (_, .link target) => ⟨name, .symlink, UInt64.ofNat target.utf8ByteSize⟩

/-- The entries of the names of a listing. -/
def shareEntries (dir : PathBuf) : List String → Except FileError (List ShareEntry)
  | [] => return []
  | name :: names => do
    let found ← symlinkMetadata B t (dir ++ [name])
    let entries ← shareEntries dir names
    return shareEntry B name found :: entries

/-- `ReadOnlyShare::list`. -/
def list (root : PathBuf) (relative : String) : Except FileError (List ShareEntry) := do
  let path ← safeRelativePath B t root relative
  let names ← readDir B t path
  let entries ← shareEntries B t path names
  return entries.insertionSort fun a b => a.name ≤ b.name

/-- `ReadOnlyShare::read`. -/
def read (root : PathBuf) (relative : String) : Except FileError Bytes := do
  let path ← safeRelativePath B t root relative
  match ← symlinkMetadata B t path with
  | (_, .file _) => readFile B t path
  | (_, _) => throw (denied "only regular files are readable")

/-- `fs::copy`. -/
def copyFile (src dst : PathBuf) : Plan Unit := do
  let data ← Plan.ofExcept (readFile B t src)
  Plan.step (.copied src dst data)

/-- The body of the loop of `copy_dir`, given what becomes of a directory. -/
def copyEntry (copyDir : PathBuf → PathBuf → Plan Unit) (src dst : PathBuf) (name : String) :
    Plan Unit := do
  match ← Plan.ofExcept (symlinkMetadata B t (src ++ [name])) with
  | (_, .dir) => copyDir (src ++ [name]) (dst ++ [name])
  | (_, .file _) => copyFile B t (src ++ [name]) (dst ++ [name])
  | (_, .link _) => Plan.fail (denied "unsupported entry in fork")

/-- `copy_dir`. -/
def copyDir : ℕ → PathBuf → PathBuf → Plan Unit
  | 0, _, _ => Plan.fail (.io (.os .invalidName))
  | depth + 1, src, dst => do
    Plan.step (.createDirAll dst)
    let names ← Plan.ofExcept (readDir B t src)
    Plan.step (.opened src)
    Plan.forEach (copyEntry B t (copyDir depth) src dst) names

/-- `ReadOnlyShare::fork`. -/
def fork (root : PathBuf) (relative : String) (destination : PathBuf) : Plan Unit := do
  let source ← Plan.ofExcept (safeRelativePath B t root relative)
  match ← Plan.ofExcept (symlinkMetadata B t source) with
  | (_, .link _) => Plan.fail (denied "symlinks cannot be forked")
  | (_, .file _) => do
    Plan.step (.createDirAll (parentPath destination))
    copyFile B t source destination
  | (_, .dir) => copyDir B t B.depth source destination

end Operations

/-! ### What is offered -/

section Spec

variable (B : LinkEnv) (t : LinkTree.Tree)

/-- The components of a request that name something. -/
def namedIn (relative : String) : List String :=
  (components relative).filter fun c => c ≠ "" ∧ c ≠ "."

/-- What is copied or opened is beneath `r`. -/
def FromInside (r : Loc) : Copying → Prop
  | .opened src => ∃ l, resolve B t true src = .ok l ∧ r <:+ l
  | .createDirAll _ => True
  | .copied src _ data =>
    ∃ l, resolve B t true src = .ok l ∧ r <:+ l ∧ t.node l = some (.file data)

/-- A request to a share is offered only what is beneath its root, and depends on nothing else. -/
structure Confined (root : PathBuf) (relative : String) : Prop where
  listed : ∀ entries, list B t root relative = .ok entries →
    ∃ l, resolve B t true (root ++ components relative) = .ok l ∧ root.reverse <:+ l ∧
      ∀ e ∈ entries, ∃ node, t.node (e.name :: l) = some node ∧
        e = shareEntry B e.name (e.name :: l, node)
  copied : ∀ destination, ∀ s ∈ (fork B t root relative destination).steps,
    FromInside B t root.reverse s
  independent : ∀ t' : LinkTree.Tree, (∀ l, root.reverse <:+ l → t'.node l = t.node l) →
    list B t' root relative = list B t root relative ∧
      ∀ destination, fork B t' root relative destination = fork B t root relative destination

/-- A request is refused by its text, or asks for the root; or its directory is resolved along the
root, and if that is beneath the root, the path is too and ends there. -/
def Stays (r : Loc) (relative : String) : Prop :=
  relative.toList.head? = some '/' ∨ ".." ∈ components relative ∨ namedIn relative = [] ∨
    (∀ k ∈ (t.trail true B.maxLinks r (namedIn relative).dropLast).seen,
        k ∈ LinkTree.Tree.along r) ∧
      ∀ p n, (t.trail true B.maxLinks r (namedIn relative).dropLast).found = .ok (p, n) →
        r <:+ p → (∀ k ∈ (t.trail true B.maxLinks r (components relative)).seen,
            k ∈ LinkTree.Tree.along r) ∧
          ∀ l m, (t.trail true B.maxLinks r (components relative)).found = .ok (l, m) → r <:+ l

end Spec

open LinkTree LinkTree.Tree

variable {B : LinkEnv} {t t' : LinkTree.Tree} {r l p : Loc} {path src dst root : PathBuf}
  {relative c : String} {cs : List String} {last : Bool} {m : ℕ}

/-! ### Paths from the root of a share -/

theorem resolve_of_found (h : (t.trail last B.maxLinks [] path).found = .ok (l, m)) :
    resolve B t last path = .ok l := by
  rw [resolve, h]

theorem resolve_of_error {e : LookupError}
    (h : (t.trail last B.maxLinks [] path).found = .error e) :
    resolve B t last path = .error (lookupError e) := by
  rw [resolve, h]

theorem resolve_ok :
    resolve B t last path = .ok l ↔ ∃ m, (t.trail last B.maxLinks [] path).found = .ok (l, m) := by
  constructor
  · intro h
    cases hfound : (t.trail last B.maxLinks [] path).found with
    | error e =>
      rw [resolve_of_error hfound] at h
      cases h
    | ok x =>
      obtain ⟨k, m⟩ := x
      rw [resolve_of_found hfound] at h
      obtain rfl := Except.ok.inj h
      exact ⟨m, rfl⟩
  · rintro ⟨m, hm⟩
    exact resolve_of_found hm

/-- A path that leads to a directory. -/
def Leads (B : LinkEnv) (t : LinkTree.Tree) (path : PathBuf) (l : Loc) : Prop :=
  ∃ m, (t.enter B.maxLinks [] path).found = .ok (l, m)

theorem Leads.isDir (h : Leads B t path l) : t.node l = some .dir := by
  obtain ⟨m, hm⟩ := h
  exact found_enter hm

theorem Leads.resolve (h : Leads B t path l) : resolve B t true path = .ok l := by
  obtain ⟨m, hm⟩ := h
  exact resolve_of_found (found_of_enter hm)

theorem Leads.readDir (h : Leads B t path l) : readDir B t path = .ok (B.order (t.names l)) := by
  rw [Links.readDir, h.resolve]
  exact if_pos h.isDir

theorem Leads.trail_append (h : Leads B t path l) (last : Bool) (hcs : cs ≠ []) :
    ∃ m, t.trail last B.maxLinks [] (path ++ cs) =
      ⟨(t.enter B.maxLinks [] path).seen ++ (t.trail last m l cs).seen,
        (t.trail last m l cs).found⟩ := by
  obtain ⟨m, hm⟩ := h
  refine ⟨m, ?_⟩
  rw [LinkTree.Tree.trail_append t.root_dir hcs, Trail.bind, hm]

theorem Leads.symlinkMetadata (h : Leads B t path l) {node : Node}
    (hnode : t.node (c :: l) = some node) :
    symlinkMetadata B t (path ++ [c]) = .ok (c :: l, node) := by
  have hc : Plain c := t.plain (by rw [hnode]; simp)
  obtain ⟨m, htrail⟩ := h.trail_append false (List.cons_ne_nil c [])
  have hfound : (t.trail false B.maxLinks [] (path ++ [c])).found = .ok (c :: l, m) := by
    rw [htrail]
    cases node with
    | dir => rw [trail_dir hc hnode, trail_nil]; rfl
    | file data => rw [trail_file hc hnode]; rfl
    | link target => rw [trail_link_last hc hnode]
  simp only [Links.symlinkMetadata, resolve_of_found hfound, hnode, bind, Except.bind, pure,
    Except.pure]

theorem Leads.child (h : Leads B t path l) (hnode : t.node (c :: l) = some .dir) :
    Leads B t (path ++ [c]) (c :: l) := by
  have hc : Plain c := t.plain (by rw [hnode]; simp)
  obtain ⟨m, hm⟩ := h
  refine ⟨m, ?_⟩
  rw [enter_append t.root_dir, Trail.bind, hm]
  dsimp only
  rw [enter_dir hc hnode, enter_nil hnode]
  rfl

theorem Leads.resolve_file (h : Leads B t path l) {data : Bytes}
    (hnode : t.node (c :: l) = some (.file data)) :
    Links.resolve B t true (path ++ [c]) = .ok (c :: l) := by
  have hc : Plain c := t.plain (by rw [hnode]; simp)
  obtain ⟨m, htrail⟩ := h.trail_append true (List.cons_ne_nil c [])
  have hfound : (t.trail true B.maxLinks [] (path ++ [c])).found = .ok (c :: l, m) := by
    rw [htrail, trail_file hc hnode]
    rfl
  exact resolve_of_found hfound

theorem readFile_of_resolve {data : Bytes} (h : resolve B t true path = .ok l)
    (hnode : t.node l = some (.file data)) : readFile B t path = .ok data := by
  simp only [readFile, h, hnode, bind, Except.bind, pure, Except.pure]

theorem leads_root (hr : t.node r = some .dir) : Leads B t r.reverse r := ⟨_, (enter_root hr).1⟩

/-- **A path of a share is resolved from its root on.** -/
theorem trail_root (hr : t.node r = some .dir) (hcs : cs ≠ []) :
    (t.trail last B.maxLinks [] (r.reverse ++ cs)).found = (t.trail last B.maxLinks r cs).found ∧
      ((∀ k ∈ (t.trail last B.maxLinks r cs).seen, k ∈ along r) →
        ∀ k ∈ (t.trail last B.maxLinks [] (r.reverse ++ cs)).seen, k ∈ along r) := by
  obtain ⟨hfound, hseen⟩ := enter_root (n := B.maxLinks) hr
  rw [LinkTree.Tree.trail_append t.root_dir hcs, Trail.bind, hfound]
  refine ⟨rfl, fun h k hk => ?_⟩
  rcases List.mem_append.1 hk with hk | hk
  · exact .inr (hseen k hk)
  · exact h k hk

theorem resolve_root (hr : t.node r = some .dir) (hcs : cs ≠ []) :
    (∀ l m, (t.trail last B.maxLinks r cs).found = .ok (l, m) →
        resolve B t last (r.reverse ++ cs) = .ok l) ∧
      ∀ e, (t.trail last B.maxLinks r cs).found = .error e →
        resolve B t last (r.reverse ++ cs) = .error (lookupError e) := by
  have hfound : (t.trail last B.maxLinks [] (r.reverse ++ cs)).found =
      (t.trail last B.maxLinks r cs).found := (trail_root hr hcs).1
  exact ⟨fun l m h => resolve_of_found (hfound.trans h),
    fun e h => resolve_of_error (hfound.trans h)⟩

theorem canonicalize_root (hr : t.node r = some .dir) :
    canonicalize B t r.reverse = .ok r.reverse := by
  rw [canonicalize, (leads_root hr).resolve]
  rfl

theorem components_ne_nil : components relative ≠ [] := by
  rw [components, ne_eq, List.map_eq_nil_iff]
  exact List.splitOn_ne_nil _ _

/-! ### The check of a request -/

theorem all_dots_iff :
    ((components relative).all fun c => c = "" ∨ c = ".") = true ↔ namedIn relative = [] := by
  rw [namedIn, List.filter_eq_nil_iff, List.all_eq_true]
  refine forall_congr' fun c => imp_congr_right fun _ => ?_
  by_cases hc : c = "" <;> by_cases hc' : c = "." <;> simp [hc, hc']

/-- The directory that is checked is that of the last component that names something. -/
theorem parentPath_root (hr : t.node r = some .dir) (hnamed : namedIn relative ≠ []) :
    parentPath (r.reverse ++ components relative) =
      r.reverse ++ (namedIn relative).dropLast := by
  have hplain : ∀ c ∈ r.reverse, c ≠ "" ∧ c ≠ "." := by
    intro c hc
    obtain ⟨a, b, rfl⟩ := List.append_of_mem (List.mem_reverse.1 hc)
    have hnode : t.node (c :: b) = some .dir := isDir_suffix hr (List.suffix_append a _)
    have hc := t.plain (c := c) (l := b) (by rw [hnode]; simp)
    exact ⟨hc.1, hc.2.1⟩
  rw [parentPath, List.filter_append,
    List.filter_eq_self.2 fun c hc => decide_eq_true (hplain c hc)]
  exact List.dropLast_append_of_ne_nil hnamed

/-- A request that its text refuses is refused alike everywhere. -/
theorem safeRelativePath_refused (hr : t.node r = some .dir)
    (h : relative.toList.head? = some '/' ∨ ".." ∈ components relative) :
    safeRelativePath B t r.reverse relative = .error (denied
      (if relative.toList.head? = some '/' then "absolute path is not allowed"
        else "path escapes share root")) := by
  rw [safeRelativePath, canonicalize_root hr]
  by_cases habs : relative.toList.head? = some '/'
  · simp only [bind, Except.bind, if_pos habs]
    rfl
  · simp only [bind, Except.bind, if_neg habs, if_pos (h.resolve_left habs)]
    rfl

theorem safeRelativePath_root (hr : t.node r = some .dir)
    (h : ¬ (relative.toList.head? = some '/' ∨ ".." ∈ components relative))
    (hnamed : namedIn relative = []) :
    safeRelativePath B t r.reverse relative = .ok (r.reverse ++ components relative) := by
  rw [safeRelativePath, canonicalize_root hr]
  simp only [bind, Except.bind, if_neg (not_or.1 h).1, if_neg (not_or.1 h).2,
    if_pos (all_dots_iff.2 hnamed)]
  rfl

/-- **Any other request is let through exactly if its directory is beneath the root.** -/
theorem safeRelativePath_named (hr : t.node r = some .dir)
    (h : ¬ (relative.toList.head? = some '/' ∨ ".." ∈ components relative))
    (hnamed : namedIn relative ≠ []) :
    (∀ e, (t.trail true B.maxLinks r (namedIn relative).dropLast).found = .error e →
        safeRelativePath B t r.reverse relative = .error (lookupError e)) ∧
      ∀ p m, (t.trail true B.maxLinks r (namedIn relative).dropLast).found = .ok (p, m) →
        (r <:+ p → safeRelativePath B t r.reverse relative =
          .ok (r.reverse ++ components relative)) ∧
        (¬ r <:+ p → safeRelativePath B t r.reverse relative =
          .error (denied "path escapes share root")) := by
  have hdots : ¬ ((components relative).all fun c => c = "" ∨ c = ".") = true :=
    fun hall => hnamed (all_dots_iff.1 hall)
  have hresolve : (∀ e, (t.trail true B.maxLinks r (namedIn relative).dropLast).found = .error e →
        resolve B t true (r.reverse ++ (namedIn relative).dropLast) = .error (lookupError e)) ∧
      ∀ p m, (t.trail true B.maxLinks r (namedIn relative).dropLast).found = .ok (p, m) →
        resolve B t true (r.reverse ++ (namedIn relative).dropLast) = .ok p := by
    -- A path of one name has the root for its parent.
    by_cases hnil : (namedIn relative).dropLast = []
    · rw [hnil, trail_nil, List.append_nil, (leads_root hr).resolve]
      refine ⟨fun e he => (nomatch he), fun p m hp => ?_⟩
      rw [(Prod.mk.inj (Except.ok.inj hp)).1]
    · exact ⟨(resolve_root hr hnil).2, (resolve_root hr hnil).1⟩
  have hsafe : safeRelativePath B t r.reverse relative =
      (canonicalize B t (r.reverse ++ (namedIn relative).dropLast)).bind fun parent =>
        if r.reverse.isPrefixOf parent then .ok (r.reverse ++ components relative)
        else .error (denied "path escapes share root") := by
    rw [safeRelativePath, canonicalize_root hr]
    simp only [bind, Except.bind, if_neg (not_or.1 h).1, if_neg (not_or.1 h).2, if_neg hdots,
      parentPath_root hr hnamed]
    rfl
  refine ⟨fun e he => ?_, fun p m hp => ?_⟩
  · rw [hsafe, canonicalize, hresolve.1 e he]
    rfl
  · have hparent : canonicalize B t (r.reverse ++ (namedIn relative).dropLast) = .ok p.reverse := by
      rw [canonicalize, hresolve.2 p m hp]
      rfl
    rw [hsafe, hparent]
    refine ⟨fun hin => ?_, fun hout => ?_⟩
    · exact if_pos (List.isPrefixOf_iff_prefix.2 (List.reverse_prefix.2 hin))
    · exact if_neg fun hin => hout (List.reverse_prefix.1 (List.isPrefixOf_iff_prefix.1 hin))

end Links

end Neonet
