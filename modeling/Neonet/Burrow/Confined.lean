import Neonet.Burrow.Links
import Neonet.Storage.Core

/-!
# What a share offers of a tree with links

* `shareOpen_ok` : the root of a share is a directory, named by its own path.
* `copyDir_spec` : what is copied of a directory beneath the root stands beneath it, and is the
  same in each tree that agrees beneath the root.
* `confined_of_stays`, `stays_of_confined` : the two directions of the main result.
* `confined_iff` : **a request is confined iff its path stays along the root** while it is
  resolved, links included, and ends beneath it.
* `read_spec` : **what is read is a regular file beneath the root**, and each one that is reached
  through directories can be read.
-/

namespace Neonet

open FileTree LinkTree LinkTree.Tree

namespace Links

variable {B : LinkEnv} {t t' : LinkTree.Tree} {r l p : Loc} {path src dst root : PathBuf}
  {relative c : String} {cs : List String} {m : ℕ} {data : Bytes}

/-! ### The root -/

theorem resolve_file_root (h : t.node l = some (.file data)) :
    resolve B t true l.reverse = .ok l := by
  cases l with
  | nil => rw [t.root_dir] at h; cases h
  | cons c l =>
    have hdir : t.node l = some .dir := t.parent_dir (c := c) (by rw [h]; simp)
    rw [List.reverse_cons]
    exact (leads_root hdir).resolve_file h

/-- The root of a share is a directory. -/
theorem shareOpen_ok (h : shareOpen B t path = .ok root) : t.node root.reverse = some .dir := by
  simp only [shareOpen, canonicalize, bind, Except.bind, pure, Except.pure] at h
  cases hl : resolve B t true path with
  | error e =>
    rw [hl] at h
    cases h
  | ok l =>
    rw [hl] at h
    obtain ⟨m, hm⟩ := resolve_ok.1 hl
    obtain ⟨hthere, hlink⟩ := found_exists t.root_dir hm
    cases hnode : t.node l with
    | none => exact absurd hnode hthere
    | some node =>
      cases node with
      | dir =>
        dsimp only at h
        rw [(leads_root hnode).resolve] at h
        simp only [hnode, if_true] at h
        obtain rfl := Except.ok.inj h
        rw [List.reverse_reverse, hnode]
      | file data =>
        dsimp only at h
        rw [resolve_file_root hnode] at h
        simp only [hnode] at h
        cases h
      | link target => exact absurd hnode (hlink rfl target)

/-! ### Directories beneath the root -/

theorem names_congr (h : ∀ c, t'.node (c :: l) = t.node (c :: l)) : t'.names l = t.names l :=
  Finset.ext fun c => by rw [t'.mem_names, t.mem_names, h]

theorem leads_iff (hr : t.node r = some .dir) :
    Leads B t (r.reverse ++ cs) l ↔ ∃ m, (t.enter B.maxLinks r cs).found = .ok (l, m) := by
  rw [Leads, enter_append t.root_dir, Trail.bind, (enter_root hr).1]

theorem name_shareEntry {found : Loc × Node} : (shareEntry B c found).name = c := by
  obtain ⟨l, node⟩ := found
  cases node <;> rfl

/-- The entries of a directory, which are the same in a tree with the same entries. -/
theorem shareEntries_spec (h : Leads B t path l) {names : List String}
    (hnames : ∀ c ∈ names, t.node (c :: l) ≠ none) :
    ∃ entries, shareEntries B t path names = .ok entries ∧
      (∀ t', Leads B t' path l → (∀ c, t'.node (c :: l) = t.node (c :: l)) →
        shareEntries B t' path names = .ok entries) ∧
      ∀ e ∈ entries, ∃ node, t.node (e.name :: l) = some node ∧
        e = shareEntry B e.name (e.name :: l, node) := by
  induction names with
  | nil => exact ⟨[], rfl, fun _ _ _ => rfl, by simp⟩
  | cons c names ih =>
    obtain ⟨node, hnode⟩ := Option.ne_none_iff_exists'.1 (hnames c List.mem_cons_self)
    obtain ⟨entries, hentries, hsame, hthere⟩ :=
      ih fun c' hc' => hnames c' (List.mem_cons_of_mem _ hc')
    refine ⟨shareEntry B c (c :: l, node) :: entries, ?_, fun t' h' hagree => ?_, fun e he => ?_⟩
    · simp only [shareEntries, h.symlinkMetadata hnode, hentries, bind, Except.bind, pure,
        Except.pure]
    · simp only [shareEntries, h'.symlinkMetadata ((hagree c).trans hnode), hsame t' h' hagree,
        bind, Except.bind, pure, Except.pure]
    · rcases List.mem_cons.1 he with rfl | he
      · rw [name_shareEntry]
        exact ⟨node, hnode, rfl⟩
      · exact hthere e he

theorem mem_order_names : c ∈ B.order (t.names l) ↔ t.node (c :: l) ≠ none :=
  ((B.lists _).2 c).trans t.mem_names

/-- **The listing of a directory**, in each tree with the same entries. -/
theorem list_of_leads (hsafe : safeRelativePath B t root relative = .ok path)
    (h : Leads B t path l) :
    ∃ entries, list B t root relative = .ok entries ∧
      (∀ t', safeRelativePath B t' root relative = .ok path → Leads B t' path l →
        (∀ c, t'.node (c :: l) = t.node (c :: l)) → list B t' root relative = .ok entries) ∧
      ∀ e ∈ entries, ∃ node, t.node (e.name :: l) = some node ∧
        e = shareEntry B e.name (e.name :: l, node) := by
  have hnames : ∀ c ∈ B.order (t.names l), t.node (c :: l) ≠ none :=
    fun c hc => mem_order_names.1 hc
  obtain ⟨entries, hentries, hsame, hthere⟩ := shareEntries_spec h hnames
  refine ⟨entries.insertionSort fun a b => a.name ≤ b.name, ?_, fun t' hsafe' h' hagree => ?_,
    fun e he => hthere e ((List.perm_insertionSort _ _).mem_iff.1 he)⟩
  · simp only [list, hsafe, h.readDir, hentries, bind, Except.bind, pure, Except.pure]
  · simp only [list, hsafe', h'.readDir, names_congr hagree, hsame t' h' hagree, bind, Except.bind,
      pure, Except.pure]

theorem list_of_error {e : FileError} (hsafe : safeRelativePath B t root relative = .ok path)
    (h : readDir B t path = .error e) : list B t root relative = .error e := by
  simp only [list, hsafe, h, bind, Except.bind]

/-! ### Copies -/

namespace Plan

variable {α β : Type} {x : Plan α} {f : α → Plan β} {s : Copying}

/-- What was found on the way is not a step. -/
theorem ofExcept_ok_bind {a : α} : (ofExcept (.ok a) >>= f) = f a := rfl

theorem mem_steps_bind (h : s ∈ (x >>= f).steps) :
    s ∈ x.steps ∨ ∃ a, x.result = .ok a ∧ s ∈ (f a).steps := by
  obtain ⟨steps, ⟨e⟩ | ⟨a⟩⟩ := x
  · exact .inl h
  · exact (List.mem_append.1 h).imp_right fun h => ⟨a, rfl, h⟩

/-- Plans that do the same on each element do the same on all, and what they do is done on one. -/
theorem forEach_spec {f g : α → Plan Unit} {P : Copying → Prop} {as : List α}
    (h : ∀ a ∈ as, g a = f a ∧ ∀ s ∈ (f a).steps, P s) :
    forEach g as = forEach f as ∧ ∀ s ∈ (forEach f as).steps, P s := by
  induction as with
  | nil => exact ⟨rfl, fun s hs => nomatch hs⟩
  | cons a as ih =>
    obtain ⟨hsame, hsteps⟩ := h a List.mem_cons_self
    obtain ⟨hrest, hsteps'⟩ := ih fun b hb => h b (List.mem_cons_of_mem _ hb)
    rw [forEach, forEach, hsame, hrest]
    refine ⟨rfl, fun s hs => ?_⟩
    rcases mem_steps_bind hs with hs | ⟨_, -, hs⟩
    · exact hsteps s hs
    · exact hsteps' s hs

end Plan

theorem copyDir_succ (h : Leads B t src l) {depth : ℕ} :
    copyDir B t (depth + 1) src dst = (do
      Plan.step (.createDirAll dst)
      Plan.step (.opened src)
      Plan.forEach (copyEntry B t (copyDir B t depth) src dst) (B.order (t.names l))) := by
  rw [copyDir, h.readDir]
  rfl

/-- **What is copied of a directory beneath the root** stands beneath it, and a tree that agrees
there has the same copied. -/
theorem copyDir_spec (hagree : ∀ l, r <:+ l → t'.node l = t.node l) (hl : r <:+ l) {depth : ℕ}
    (h : Leads B t src l) (h' : Leads B t' src l) :
    copyDir B t' depth src dst = copyDir B t depth src dst ∧
      ∀ s ∈ (copyDir B t depth src dst).steps, FromInside B t r s := by
  induction depth generalizing src dst l with
  | zero => exact ⟨rfl, fun s hs => nomatch hs⟩
  | succ depth ih =>
    have hbeneath : ∀ c, r <:+ c :: l := fun c => hl.trans (List.suffix_cons c l)
    have hnames : t'.names l = t.names l := names_congr fun c => hagree _ (hbeneath c)
    have heach : ∀ c ∈ B.order (t.names l),
        copyEntry B t' (copyDir B t' depth) src dst c =
            copyEntry B t (copyDir B t depth) src dst c ∧
          ∀ s ∈ (copyEntry B t (copyDir B t depth) src dst c).steps, FromInside B t r s := by
      intro c hc
      obtain ⟨node, hnode⟩ := Option.ne_none_iff_exists'.1 (mem_order_names.1 hc)
      have hnode' : t'.node (c :: l) = some node := (hagree _ (hbeneath c)).trans hnode
      rw [copyEntry, copyEntry, h.symlinkMetadata hnode, h'.symlinkMetadata hnode']
      cases node with
      | dir => exact ih (hbeneath c) (h.child hnode) (h'.child hnode')
      | file data =>
        have hresolve := h.resolve_file hnode
        have hread := readFile_of_resolve hresolve hnode
        have hread' := readFile_of_resolve (h'.resolve_file hnode') hnode'
        refine ⟨?_, fun s hs => ?_⟩
        · show copyFile B t' (src ++ [c]) (dst ++ [c]) = copyFile B t (src ++ [c]) (dst ++ [c])
          rw [copyFile, copyFile, hread, hread']
        · change s ∈ (copyFile B t (src ++ [c]) (dst ++ [c])).steps at hs
          rw [copyFile, hread] at hs
          obtain rfl := List.mem_singleton.1 hs
          exact ⟨_, hresolve, hbeneath c, hnode⟩
      -- A link is never followed, so the copy stays below `l`.
      | link target => exact ⟨rfl, fun s hs => nomatch hs⟩
    obtain ⟨hsame, hsteps⟩ := Plan.forEach_spec heach
    rw [copyDir_succ h, copyDir_succ h', hnames, hsame]
    refine ⟨rfl, fun s hs => ?_⟩
    rcases Plan.mem_steps_bind hs with hs | ⟨_, -, hs⟩
    · obtain rfl := List.mem_singleton.1 hs
      trivial
    rcases Plan.mem_steps_bind hs with hs | ⟨_, -, hs⟩
    · obtain rfl := List.mem_singleton.1 hs
      exact ⟨l, h.resolve, hl⟩
    · exact hsteps s hs

/-! ### A path that stays along the root -/

theorem leads_of_resolve (h : resolve B t true path = .ok l) (hdir : t.node l = some .dir) :
    Leads B t path l := by
  obtain ⟨m, hm⟩ := resolve_ok.1 h
  refine ⟨m, ?_⟩
  rw [enter, Trail.bind, hm]
  dsimp only
  rw [if_pos hdir]

theorem resolve_true_of_false (h : resolve B t false path = .ok l)
    (hlink : ∀ target, t.node l ≠ some (.link target)) : resolve B t true path = .ok l := by
  obtain ⟨m, hm⟩ := resolve_ok.1 h
  rcases trail_false t B.maxLinks [] path with hsame | ⟨hend, -⟩
  · rw [hsame] at hm
    exact resolve_of_found hm
  · obtain ⟨k, m', target, hk, hnode⟩ := hend
    rw [hm] at hk
    obtain ⟨rfl, rfl⟩ := Prod.mk.inj (Except.ok.inj hk)
    exact absurd hnode (hlink target)

theorem symlinkMetadata_ok {node : Node} (h : symlinkMetadata B t path = .ok (l, node)) :
    resolve B t false path = .ok l ∧ t.node l = some node := by
  simp only [symlinkMetadata, bind, Except.bind, pure, Except.pure] at h
  cases hl : resolve B t false path with
  | error e =>
    rw [hl] at h
    cases h
  | ok k =>
    rw [hl] at h
    dsimp only at h
    cases hnode : t.node k with
    | none =>
      rw [hnode] at h
      cases h
    | some node' =>
      rw [hnode] at h
      obtain ⟨rfl, rfl⟩ := Prod.mk.inj (Except.ok.inj h)
      exact ⟨rfl, hnode⟩

/-- A path is resolved alike in both trees, and ends beneath `r`. -/
structure Settled (B : LinkEnv) (t t' : LinkTree.Tree) (r : Loc) (path : PathBuf) : Prop where
  resolve : ∀ last, resolve B t' last path = resolve B t last path
  node : ∀ last l, Links.resolve B t last path = .ok l → t'.node l = t.node l
  inside : ∀ l, Links.resolve B t true path = .ok l → r <:+ l

/-- A resolution that stays along the root does so too if it does not follow a last link. -/
theorem along_false (h : ∀ k ∈ (t.trail true m r cs).seen, k ∈ along r) {last : Bool} :
    ∀ k ∈ (t.trail last m r cs).seen, k ∈ along r := by
  cases last with
  | true => exact h
  | false =>
    intro k hk
    rcases trail_false t m r cs with hsame | ⟨-, hseen⟩
    · exact h k (hsame ▸ hk)
    · exact h k (hseen.subset hk)

/-- **A path that stays along the root** is resolved alike in each tree that agrees beneath it. -/
theorem settled_of_along (hr : t.node r = some .dir)
    (hagree : ∀ l, r <:+ l → t'.node l = t.node l) (hcs : cs ≠ [])
    (hseen : ∀ k ∈ (t.trail true B.maxLinks r cs).seen, k ∈ along r)
    (hend : ∀ l m, (t.trail true B.maxLinks r cs).found = .ok (l, m) → r <:+ l) :
    Settled B t t' r (r.reverse ++ cs) := by
  have hall : ∀ last, ∀ k ∈ (t.trail last B.maxLinks [] (r.reverse ++ cs)).seen, k ∈ along r :=
    fun last => (trail_root hr hcs).2 (along_false hseen)
  have hsame : ∀ k ∈ along r, t'.node k = t.node k := fun k hk => node_eq_of_along hr hagree hk
  refine ⟨fun last => ?_, fun last l h => ?_, fun l h => ?_⟩
  · rw [Links.resolve, Links.resolve, trail_congr fun k hk => hsame k (hall last k hk)]
  · obtain ⟨m, hm⟩ := resolve_ok.1 h
    rcases isDir_or_mem_seen t.root_dir hm with hdir | hmem
    · cases last with
      | true => exact hagree l (hend l m ((trail_root hr hcs).1.symm.trans hm))
      | false =>
        have htrue := resolve_true_of_false h fun target => by rw [hdir]; simp
        obtain ⟨m', hm'⟩ := resolve_ok.1 htrue
        exact hagree l (hend l m' ((trail_root hr hcs).1.symm.trans hm'))
    · exact hsame l (hall last l hmem)
  · obtain ⟨m, hm⟩ := resolve_ok.1 h
    exact hend l m ((trail_root hr hcs).1.symm.trans hm)

namespace Settled

theorem symlinkMetadata (h : Settled B t t' r path) :
    symlinkMetadata B t' path = symlinkMetadata B t path := by
  rw [Links.symlinkMetadata, Links.symlinkMetadata, h.resolve]
  cases hl : Links.resolve B t false path with
  | error e => rfl
  | ok l => simp only [bind, Except.bind, h.node false l hl]

theorem readFile (h : Settled B t t' r path) : readFile B t' path = readFile B t path := by
  rw [Links.readFile, Links.readFile, h.resolve]
  cases hl : Links.resolve B t true path with
  | error e => rfl
  | ok l => simp only [bind, Except.bind, h.node true l hl]

theorem list (h : Settled B t t' r path) (hagree : ∀ l, r <:+ l → t'.node l = t.node l)
    (hsafe : safeRelativePath B t root relative = .ok path)
    (hsafe' : safeRelativePath B t' root relative = .ok path) :
    list B t' root relative = list B t root relative ∧
      ∀ entries, list B t root relative = .ok entries →
        ∃ l, Links.resolve B t true path = .ok l ∧ r <:+ l ∧
          ∀ e ∈ entries, ∃ node, t.node (e.name :: l) = some node ∧
            e = shareEntry B e.name (e.name :: l, node) := by
  cases hl : Links.resolve B t true path with
  | error e =>
    have hdir : readDir B t path = .error e := by rw [readDir, hl]; rfl
    have hdir' : readDir B t' path = .error e := by rw [readDir, h.resolve, hl]; rfl
    rw [list_of_error hsafe hdir, list_of_error hsafe' hdir']
    exact ⟨rfl, fun entries hentries => by cases hentries⟩
  | ok l =>
    have hin := h.inside l hl
    by_cases hnode : t.node l = some .dir
    · have hnode' : t'.node l = some .dir := (hagree l hin).trans hnode
      obtain ⟨entries, hlist, hsame, hthere⟩ := list_of_leads hsafe (leads_of_resolve hl hnode)
      rw [hlist, hsame t' hsafe' (leads_of_resolve ((h.resolve true).trans hl) hnode') fun c =>
        hagree _ (hin.trans (List.suffix_cons c l))]
      refine ⟨rfl, fun entries' hentries => ⟨l, rfl, hin, ?_⟩⟩
      rw [← Except.ok.inj hentries]
      exact hthere
    · have hnode' : t'.node l ≠ some .dir := fun hd => hnode ((hagree l hin).symm.trans hd)
      have hdir : readDir B t path = .error (lookupError .notADirectory) := by
        simp only [readDir, hl, bind, Except.bind, if_neg hnode]
        rfl
      have hdir' : readDir B t' path = .error (lookupError .notADirectory) := by
        simp only [readDir, h.resolve, hl, bind, Except.bind, if_neg hnode']
        rfl
      rw [list_of_error hsafe hdir, list_of_error hsafe' hdir']
      exact ⟨rfl, fun entries hentries => by cases hentries⟩

theorem fork (h : Settled B t t' r path) (hagree : ∀ l, r <:+ l → t'.node l = t.node l)
    (hsafe : safeRelativePath B t root relative = .ok path)
    (hsafe' : safeRelativePath B t' root relative = .ok path) (destination : PathBuf) :
    fork B t' root relative destination = fork B t root relative destination ∧
      ∀ s ∈ (fork B t root relative destination).steps, FromInside B t r s := by
  rw [Links.fork, Links.fork, hsafe, hsafe', Plan.ofExcept_ok_bind, Plan.ofExcept_ok_bind,
    h.symlinkMetadata]
  cases hmeta : Links.symlinkMetadata B t path with
  | error e => exact ⟨rfl, fun s hs => nomatch hs⟩
  | ok found =>
    obtain ⟨l, node⟩ := found
    obtain ⟨hl, hnode⟩ := symlinkMetadata_ok hmeta
    rw [Plan.ofExcept_ok_bind, Plan.ofExcept_ok_bind]
    cases node with
    | link target => exact ⟨rfl, fun s hs => nomatch hs⟩
    | file data =>
      have hfull := resolve_true_of_false hl fun target => by rw [hnode]; simp
      have hread := readFile_of_resolve hfull hnode
      dsimp only
      rw [copyFile, copyFile, h.readFile, hread]
      refine ⟨rfl, fun s hs => ?_⟩
      rcases Plan.mem_steps_bind hs with hs | ⟨_, -, hs⟩
      · obtain rfl := List.mem_singleton.1 hs
        trivial
      · obtain rfl := List.mem_singleton.1 hs
        exact ⟨l, hfull, h.inside l hfull, hnode⟩
    | dir =>
      have hfull := resolve_true_of_false hl fun target => by rw [hnode]; simp
      have hin := h.inside l hfull
      exact copyDir_spec hagree hin (leads_of_resolve hfull hnode)
        (leads_of_resolve ((h.resolve true).trans hfull) ((hagree l hin).trans hnode))

end Settled

/-! ### The requests that are confined -/

theorem trail_all_dots (h : ∀ c ∈ cs, c = "" ∨ c = ".") {last : Bool} :
    t.trail last m r cs = ⟨[], .ok (r, m)⟩ := by
  induction cs with
  | nil => exact trail_nil
  | cons c cs ih =>
    have hc := h c List.mem_cons_self
    have hplain : ¬ Plain c := fun hp => hc.elim hp.1 hp.2.1
    rw [trail_dots hplain, stepTo, if_pos hc]
    exact ih fun c' hc' => h c' (List.mem_cons_of_mem _ hc')

theorem list_of_refused {e : FileError} (h : safeRelativePath B t root relative = .error e) :
    list B t root relative = .error e := by
  rw [list, h]
  rfl

theorem fork_of_refused {e : FileError} (h : safeRelativePath B t root relative = .error e)
    (destination : PathBuf) : fork B t root relative destination = ⟨[], .error e⟩ := by
  rw [fork, h]
  rfl

/-- A request that is refused alike everywhere is offered nothing. -/
theorem confined_of_refused {e : FileError}
    (he : ∀ t' : LinkTree.Tree, (∀ l, r <:+ l → t'.node l = t.node l) →
      safeRelativePath B t' r.reverse relative = .error e) :
    Confined B t r.reverse relative := by
  have hself := he t fun _ _ => rfl
  refine ⟨fun entries hentries => ?_, fun destination s hs => ?_, fun t' h' => ?_⟩
  · rw [list_of_refused hself] at hentries
    cases hentries
  · rw [fork_of_refused hself] at hs
    cases hs
  · rw [List.reverse_reverse] at h'
    rw [list_of_refused (he t' h'), list_of_refused hself]
    refine ⟨rfl, fun destination => ?_⟩
    rw [fork_of_refused (he t' h'), fork_of_refused hself]

/-- A path that is settled is offered what is beneath the root. -/
theorem confined_of_settled (h : ∀ t' : LinkTree.Tree, (∀ l, r <:+ l → t'.node l = t.node l) →
      safeRelativePath B t' r.reverse relative = .ok (r.reverse ++ components relative) ∧
        Settled B t t' r (r.reverse ++ components relative)) :
    Confined B t r.reverse relative := by
  obtain ⟨hsafe, hself⟩ := h t fun _ _ => rfl
  refine ⟨?_, fun destination => ?_, fun t' h' => ?_⟩
  · rw [List.reverse_reverse]
    exact (hself.list (fun _ _ => rfl) hsafe hsafe).2
  · rw [List.reverse_reverse]
    exact (hself.fork (fun _ _ => rfl) hsafe hsafe destination).2
  · rw [List.reverse_reverse] at h'
    obtain ⟨hsafe', hother⟩ := h t' h'
    exact ⟨(hother.list h' hsafe hsafe').1,
      fun destination => (hother.fork h' hsafe hsafe' destination).1⟩

/-- **A request whose path stays along the root is confined.** -/
theorem confined_of_stays (hr : t.node r = some .dir) (h : Stays B t r relative) :
    Confined B t r.reverse relative := by
  have hdir : ∀ t' : LinkTree.Tree, (∀ l, r <:+ l → t'.node l = t.node l) →
      t'.node r = some .dir := fun t' h' => (h' r List.suffix_rfl).trans hr
  by_cases htext : relative.toList.head? = some '/' ∨ ".." ∈ components relative
  · exact confined_of_refused fun t' h' => safeRelativePath_refused (hdir t' h') htext
  by_cases hnamed : namedIn relative = []
  · -- the root itself
    have hdots : ∀ c ∈ components relative, c = "" ∨ c = "." := by
      intro c hc
      simpa using List.all_eq_true.1 (all_dots_iff.2 hnamed) c hc
    refine confined_of_settled fun t' h' => ⟨safeRelativePath_root (hdir t' h') htext hnamed,
      settled_of_along hr h' components_ne_nil ?_ ?_⟩
    · rw [trail_all_dots hdots]
      simp
    · rw [trail_all_dots hdots]
      rintro l m heq
      rw [(Prod.mk.inj (Except.ok.inj heq)).1]
  · have hnotAbs := h.resolve_left fun ha => htext (.inl ha)
    have hnotUp := hnotAbs.resolve_left fun hu => htext (.inr hu)
    obtain ⟨hparent, hrest⟩ := hnotUp.resolve_left hnamed
    have hsame : ∀ t' : LinkTree.Tree, (∀ l, r <:+ l → t'.node l = t.node l) →
        t'.trail true B.maxLinks r (namedIn relative).dropLast =
          t.trail true B.maxLinks r (namedIn relative).dropLast :=
      fun t' h' => trail_congr fun k hk => node_eq_of_along hr h' (hparent k hk)
    cases hfound : (t.trail true B.maxLinks r (namedIn relative).dropLast).found with
    | error e =>
      exact confined_of_refused fun t' h' =>
        (safeRelativePath_named (hdir t' h') htext hnamed).1 e (by rw [hsame t' h', hfound])
    | ok x =>
      obtain ⟨p, n⟩ := x
      have hsafe := fun t' (h' : ∀ l, r <:+ l → t'.node l = t.node l) =>
        (safeRelativePath_named (hdir t' h') htext hnamed).2 p n (by rw [hsame t' h', hfound])
      by_cases hp : r <:+ p
      · obtain ⟨hseen, hend⟩ := hrest p n hfound hp
        exact confined_of_settled fun t' h' => ⟨(hsafe t' h').1 hp,
          settled_of_along hr h' components_ne_nil hseen hend⟩
      · exact confined_of_refused fun t' h' => (hsafe t' h').2 hp

/-- Trees that agree along the root and refuse a request with different errors do not agree on
it. -/
theorem not_confined_of_errors {t₁ t₂ : LinkTree.Tree} {e₁ e₂ : FileError} (hne : e₁ ≠ e₂)
    (h₁ : ∀ j ∈ along r, t₁.node j = t.node j) (h₂ : ∀ j ∈ along r, t₂.node j = t.node j)
    (hlist₁ : list B t₁ r.reverse relative = .error e₁)
    (hlist₂ : list B t₂ r.reverse relative = .error e₂) : ¬ Confined B t r.reverse relative := by
  intro h
  have hsame₁ := (h.independent t₁ fun l hl => h₁ l (.inl (by simpa using hl))).1
  have hsame₂ := (h.independent t₂ fun l hl => h₂ l (.inl (by simpa using hl))).1
  rw [hlist₁] at hsame₁
  rw [hlist₂, ← hsame₁] at hsame₂
  exact hne (Except.error.inj hsame₂).symm

/-- **The path of a request that is confined stays along the root**: a place outside that it looks
up could be missing, or be a file, and where it ends could be another directory. -/
theorem stays_of_confined (hr : t.node r = some .dir) (h : Confined B t r.reverse relative) :
    Stays B t r relative := by
  have hclosed : ∀ j ∈ along r, ∀ k, k <:+ j → k ∈ along r := fun j hj k hk => along_of_suffix hj hk
  have hroot : ∀ t' : LinkTree.Tree, (∀ j ∈ along r, t'.node j = t.node j) →
      t'.node r = some .dir := fun t' h' => (h' r (.inl List.suffix_rfl)).trans hr
  by_cases habs : relative.toList.head? = some '/'
  · exact .inl habs
  by_cases hup : ".." ∈ components relative
  · exact .inr (.inl hup)
  by_cases hnamed : namedIn relative = []
  · exact .inr (.inr (.inl hnamed))
  have htext : ¬ (relative.toList.head? = some '/' ∨ ".." ∈ components relative) :=
    not_or.2 ⟨habs, hup⟩
  refine .inr (.inr (.inr ?_))
  have hparent : ∀ k ∈ (t.trail true B.maxLinks r (namedIn relative).dropLast).seen,
      k ∈ along r := by
    by_contra hno
    push Not at hno
    obtain ⟨k, t₁, t₂, hk, h₁, h₂, hfound₁, -, hfound₂⟩ := exists_noticed hr hclosed hno
    have hlist₁ := list_of_refused
      ((safeRelativePath_named (B := B) (hroot t₁ h₁) htext hnamed).1 _ hfound₁)
    rcases hfound₂ with hfound₂ | ⟨m, hfound₂⟩
    · exact not_confined_of_errors (by decide) h₁ h₂ hlist₁ (list_of_refused
        ((safeRelativePath_named (hroot t₂ h₂) htext hnamed).1 _ hfound₂)) h
    · exact not_confined_of_errors (by decide) h₁ h₂ hlist₁ (list_of_refused
        (((safeRelativePath_named (hroot t₂ h₂) htext hnamed).2 k m hfound₂).2
          fun hin => hk (.inl hin))) h
  refine ⟨hparent, fun p n hfound hp => ?_⟩
  -- the check of the directory is passed in every such tree
  have hsafe : ∀ t' : LinkTree.Tree, (∀ j ∈ along r, t'.node j = t.node j) →
      safeRelativePath B t' r.reverse relative = .ok (r.reverse ++ components relative) :=
    fun t' h' => ((safeRelativePath_named (hroot t' h') htext hnamed).2 p n
      (by rw [trail_congr fun k hk => h' k (hparent k hk), hfound])).1 hp
  have hseen : ∀ k ∈ (t.trail true B.maxLinks r (components relative)).seen, k ∈ along r := by
    by_contra hno
    push Not at hno
    obtain ⟨k, t₁, t₂, -, h₁, h₂, hfound₁, hfile, hfound₂⟩ := exists_noticed hr hclosed hno
    have hlist₁ := list_of_error (hsafe t₁ h₁) (e := lookupError .notFound) (by
      rw [readDir, (resolve_root (hroot t₁ h₁) components_ne_nil).2 _ hfound₁]
      rfl)
    refine not_confined_of_errors (by decide) h₁ h₂ hlist₁
      (list_of_error (e := lookupError .notADirectory) (hsafe t₂ h₂) ?_) h
    rcases hfound₂ with hfound₂ | ⟨m, hfound₂⟩
    · rw [readDir, (resolve_root (hroot t₂ h₂) components_ne_nil).2 _ hfound₂]
      rfl
    · rw [readDir, (resolve_root (hroot t₂ h₂) components_ne_nil).1 _ m hfound₂]
      simp only [bind, Except.bind, hfile]
      rfl
  refine ⟨hseen, fun l m hl => ?_⟩
  have hresolve : resolve B t true (r.reverse ++ components relative) = .ok l :=
    (resolve_root hr components_ne_nil).1 l m hl
  by_cases hdir : t.node l = some .dir
  · -- the listing is that of the directory where the path ends
    obtain ⟨entries, hlist, -, -⟩ := list_of_leads (hsafe t fun _ _ => rfl)
      (leads_of_resolve hresolve hdir)
    obtain ⟨l', hl', hin, -⟩ := h.listed entries hlist
    rw [hresolve, Except.ok.injEq] at hl'
    rw [List.reverse_reverse] at hin
    exact hl' ▸ hin
  · -- a file that was looked up stands beneath the root, since all above it are directories
    rcases hseen l ((isDir_or_mem_seen hr hl).resolve_left hdir) with hin | hin
    · exact hin
    · exact absurd (isDir_suffix hr hin) hdir

/-- **A request is confined iff its path stays along the root** while it is resolved, links
included, and ends beneath it. -/
theorem confined_iff (B : LinkEnv) (t : LinkTree.Tree) (shared root : PathBuf) (relative : String)
    (hopen : shareOpen B t shared = .ok root) :
    Confined B t root relative ↔ Stays B t root.reverse relative := by
  have hr := shareOpen_ok hopen
  have hroot : root = root.reverse.reverse := (List.reverse_reverse root).symm
  constructor
  · intro h
    rw [hroot] at h
    exact stays_of_confined hr h
  · intro h
    rw [hroot]
    exact confined_of_stays hr h

/-! ### Files that are read -/

/-- A file that was read: where it stands, and how the request addresses it. -/
structure ReadFrom (B : LinkEnv) (t : LinkTree.Tree) (root : PathBuf) (relative : String)
    (bytes : Bytes) (l : Loc) : Prop where
  /-- The last component is the name of the file in its directory. -/
  named : ∃ cs c p, components relative = cs ++ [c] ∧ l = c :: p ∧ Plain c ∧
    resolve B t true (root ++ cs) = .ok p ∧ root.reverse <:+ p
  resolved : resolve B t true (root ++ components relative) = .ok l
  content : t.node l = some (.file bytes)

theorem namedIn_concat (h : components relative = cs ++ [c]) (hc : Plain c) :
    namedIn relative = (cs.filter fun c => c ≠ "" ∧ c ≠ ".") ++ [c] := by
  rw [namedIn, h, List.filter_append]
  congr 1
  exact List.filter_cons_of_pos (decide_eq_true ⟨hc.1, hc.2.1⟩)

theorem safeRelativePath_ok (hr : t.node r = some .dir)
    (h : safeRelativePath B t r.reverse relative = .ok path) :
    path = r.reverse ++ components relative ∧ (namedIn relative = [] ∨
      ∃ p m, (t.trail true B.maxLinks r (namedIn relative).dropLast).found = .ok (p, m) ∧
        r <:+ p) := by
  by_cases htext : relative.toList.head? = some '/' ∨ ".." ∈ components relative
  · rw [safeRelativePath_refused hr htext] at h
    cases h
  by_cases hnamed : namedIn relative = []
  · rw [safeRelativePath_root hr htext hnamed] at h
    exact ⟨(Except.ok.inj h).symm, .inl hnamed⟩
  obtain ⟨hbad, hgood⟩ := safeRelativePath_named (B := B) hr htext hnamed
  cases hfound : (t.trail true B.maxLinks r (namedIn relative).dropLast).found with
  | error e =>
    rw [hbad e hfound] at h
    cases h
  | ok x =>
    obtain ⟨p, m⟩ := x
    by_cases hp : r <:+ p
    · rw [(hgood p m hfound).1 hp] at h
      exact ⟨(Except.ok.inj h).symm, .inr ⟨p, m, rfl, hp⟩⟩
    · rw [(hgood p m hfound).2 hp] at h
      cases h

theorem eq_of_trail_file {n : ℕ} (hp : t.node p = some .dir)
    (h : (t.trail false n p [c]).found = .ok (l, m)) (hnode : t.node l = some (.file data)) :
    Plain c ∧ l = c :: p := by
  by_cases hc : Plain c
  · refine ⟨hc, ?_⟩
    cases hchild : t.node (c :: p) with
    | none =>
      rw [trail_none hc hchild] at h
      cases h
    | some node =>
      cases node with
      | dir =>
        rw [trail_dir hc hchild, trail_nil] at h
        exact (Prod.mk.inj (Except.ok.inj h)).1.symm
      | file data' =>
        rw [trail_file hc hchild, if_pos rfl] at h
        exact (Prod.mk.inj (Except.ok.inj h)).1.symm
      | link target =>
        rw [trail_link_last hc hchild] at h
        exact (Prod.mk.inj (Except.ok.inj h)).1.symm
  · rw [trail_dots hc, trail_nil] at h
    obtain ⟨rfl, -⟩ := Prod.mk.inj (Except.ok.inj h)
    rw [isDir_stepTo hp hc] at hnode
    cases hnode

/-- **What is read is a regular file beneath the root**, addressed by its own name. -/
theorem readFrom_of_read (hr : t.node r = some .dir) {bytes : Bytes}
    (h : read B t r.reverse relative = .ok bytes) :
    ∃ l, ReadFrom B t r.reverse relative bytes l := by
  simp only [read, bind, Except.bind] at h
  cases hsafe : safeRelativePath B t r.reverse relative with
  | error e =>
    rw [hsafe] at h
    cases h
  | ok path =>
    obtain ⟨rfl, hchecked⟩ := safeRelativePath_ok hr hsafe
    rw [hsafe] at h
    dsimp only at h
    cases hmeta : symlinkMetadata B t (r.reverse ++ components relative) with
    | error e =>
      rw [hmeta] at h
      cases h
    | ok found =>
      obtain ⟨l, node⟩ := found
      rw [hmeta] at h
      obtain ⟨hl, hnode⟩ := symlinkMetadata_ok hmeta
      cases node with
      | dir => cases h
      | link target => cases h
      | file data =>
        have hfull := resolve_true_of_false hl fun target => by rw [hnode]; simp
        have hdata : data = bytes :=
          Except.ok.inj ((readFile_of_resolve hfull hnode).symm.trans h)
        subst hdata
        refine ⟨l, ?_, by rw [hfull], hnode⟩
        -- the directory of the path, and the name in it
        obtain ⟨cs, c, hlast⟩ : ∃ cs c, components relative = cs ++ [c] :=
          ⟨_, _, (List.dropLast_append_getLast components_ne_nil).symm⟩
        obtain ⟨m, hm⟩ := resolve_ok.1 hl
        rw [hlast, ← List.append_assoc, trail_append t.root_dir (by simp)] at hm
        cases henter : (t.enter B.maxLinks [] (r.reverse ++ cs)).found with
        | error e =>
          rw [Trail.bind, henter] at hm
          cases hm
        | ok x =>
          obtain ⟨p, n⟩ := x
          rw [Trail.bind, henter] at hm
          have hleads : Leads B t (r.reverse ++ cs) p := ⟨n, henter⟩
          obtain ⟨hc, rfl⟩ := eq_of_trail_file hleads.isDir hm hnode
          refine ⟨cs, c, p, hlast, rfl, hc, hleads.resolve, ?_⟩
          have hnamed := namedIn_concat hlast hc
          rw [hnamed, List.dropLast_concat] at hchecked
          obtain ⟨p', m', hp', hin⟩ := hchecked.resolve_left (by simp)
          obtain ⟨n', hn'⟩ := (leads_iff hr).1 hleads
          rw [enter_filter hr] at hn'
          rw [found_of_enter hn'] at hp'
          rw [(Prod.mk.inj (Except.ok.inj hp')).1, List.reverse_reverse]
          exact hin

/-- **A file that is addressed through directories can be read.** -/
theorem read_of_addressed (hr : t.node r = some .dir) (habs : relative.toList.head? ≠ some '/')
    (hup : ".." ∉ components relative) (hlast : components relative = cs ++ [c]) (hc : Plain c)
    (hfile : t.node ((namedIn relative).reverse ++ r) = some (.file data)) :
    read B t r.reverse relative = .ok data := by
  have hnamed := namedIn_concat hlast hc
  rw [hnamed, List.reverse_append, List.reverse_singleton, List.append_assoc,
    List.singleton_append] at hfile
  have hdir := t.parent_dir (c := c) (by rw [hfile]; simp)
  have hdown := (enter_down (n := B.maxLinks) hdir).1
  have hleads : Leads B t (r.reverse ++ cs) _ :=
    (leads_iff hr).2 ⟨_, (congrArg Trail.found (enter_filter hr)).trans hdown⟩
  have hsafe : safeRelativePath B t r.reverse relative = .ok (r.reverse ++ cs ++ [c]) := by
    have hparent := found_of_enter hdown
    have hdropped : (namedIn relative).dropLast = cs.filter fun c => c ≠ "" ∧ c ≠ "." := by
      rw [hnamed, List.dropLast_concat]
    rw [← hdropped] at hparent
    rw [List.append_assoc, ← hlast]
    exact ((safeRelativePath_named hr (not_or.2 ⟨habs, hup⟩) (by rw [hnamed]; simp)).2 _ _
      hparent).1 (List.suffix_append _ _)
  simp only [read, hsafe, hleads.symlinkMetadata hfile,
    readFile_of_resolve (hleads.resolve_file hfile) hfile, bind, Except.bind]

/-- **Reading**: what is read is a regular file beneath the root that the request names last, and
each such file that is addressed through directories is read. -/
theorem read_spec (B : LinkEnv) (t : LinkTree.Tree) (shared root : PathBuf) (relative : String)
    (hopen : shareOpen B t shared = .ok root) :
    (∀ bytes, read B t root relative = .ok bytes →
      ∃ l, ReadFrom B t root relative bytes l) ∧
    ∀ cs c data, relative.toList.head? ≠ some '/' → ".." ∉ components relative →
      components relative = cs ++ [c] → Plain c →
      t.node ((namedIn relative).reverse ++ root.reverse) = some (.file data) →
        read B t root relative = .ok data := by
  have hr := shareOpen_ok hopen
  have hroot : root = root.reverse.reverse := (List.reverse_reverse root).symm
  constructor
  · intro bytes h
    rw [hroot] at h ⊢
    exact readFrom_of_read hr h
  · intro cs c data habs hup hlast hc hfile
    rw [hroot]
    exact read_of_addressed hr habs hup hlast hc hfile

namespace Photo

/-- A share with a directory, a file in it, and a link that leads out of it. -/
def lodge : LinkTree.Tree :=
  ofEntries
    [(["share"], .dir), (["docs", "share"], .dir), (["a.txt", "docs", "share"], .file [1]),
      (["link", "share"], .link "/outside"), (["outside"], .dir),
      (["secret", "outside"], .file [2])]
    (by decide)

/-- A system that lists names in alphabetical order, and follows forty links. -/
def system : LinkEnv where
  order := alphabetical
  dirLen _ := 4096
  depth := 64
  maxLinks := 40
  lists := listsAll_alphabetical

theorem shareOpen_lodge : shareOpen system lodge ["share"] = .ok ["share"] := by decide +kernel

end Photo

open Links.Photo in
/-- A directory of a share. -/
theorem confined_iff_docs : Confined system lodge ["share"] "docs" := by
  refine (confined_iff system lodge ["share"] ["share"] "docs" shareOpen_lodge).2
    (.inr (.inr (.inr ?_)))
  have hparent : (namedIn "docs").dropLast = [] := by decide
  have hseen : (lodge.trail true system.maxLinks ["share"].reverse (components "docs")).seen =
      [["docs", "share"]] := by decide +kernel
  have hfound : (lodge.trail true system.maxLinks ["share"].reverse (components "docs")).found =
      .ok (["docs", "share"], 40) := by decide +kernel
  rw [hparent, trail_nil, hseen, hfound]
  refine ⟨by simp, fun _ _ _ _ => ⟨fun k hk => .inl ?_, fun l m hl => ?_⟩⟩
  · rw [List.mem_singleton.1 hk]
    decide
  · rw [← (Prod.mk.inj (Except.ok.inj hl)).1]
    decide

open Links.Photo in
/-- A link of a share is listed as what it leads to. -/
theorem not_confined : ¬ ∀ t shared root relative, shareOpen system t shared = .ok root →
    Confined system t root relative := by
  intro h
  have hlink := h lodge ["share"] ["share"] "link" shareOpen_lodge
  obtain ⟨l, hl, hin, -⟩ := hlink.listed [⟨"secret", .file, 1⟩] (by decide +kernel)
  have hout : resolve system lodge true (["share"] ++ components "link") = .ok ["outside"] := by
    decide +kernel
  rw [hout, Except.ok.injEq] at hl
  rw [← hl] at hin
  exact absurd hin (by decide)

open Links.Photo in
/-- A file of a share. -/
theorem read_spec_docs : read system lodge ["share"] "docs/a.txt" = .ok [1] :=
  (read_spec system lodge ["share"] ["share"] "docs/a.txt" shareOpen_lodge).2 ["docs"] "a.txt" [1]
    (by decide) (by decide) (by decide) (by decide) (by decide)

end Links

end Neonet
