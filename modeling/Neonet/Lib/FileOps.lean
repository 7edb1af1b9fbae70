import Neonet.Lib.FileTree

/-!
# Programs over a file tree

`FsM ε α` is a program that works on a file tree and either returns an `α` or fails with an
`ε`.  A failure keeps what was done before it: there is no transaction to roll back.

* the operations of the standard library that the programs use: `read`, `write`, `File.create`
  and `File.writeAll`, `rename`, `createDirAll`, `pathExists`, `pathIsDir`, `readDir`;
* `Tree.HasDir`, `Tree.HasFile` : a path leads to a directory, or to a file with some content;
* `FsM.bind_ok` : a sequence succeeds iff its parts do, the one starting where the other ended;
  `FsM.bind_cases` : what any outcome of a sequence comes from;
* `Frame S t t'` and `FsM.Touches S m` : the program writes no file outside `S` and removes no
  directory, whether it succeeds or not.  Each operation touches only the place its path names,
  whatever the tree looks like.
* `FsM.Preserves I m` : what holds of the tree holds of it after the program, succeed or not.
-/

namespace FileTree

/-- A program over a file tree. -/
def FsM (ε : Type) (α : Type) : Type := Tree → Except ε α × Tree

/-- Errors that the operating system's can be turned into. -/
class OfOs (ε : Type) where
  /-- The error for a refusal of the operating system. -/
  ofOs : OsError → ε

namespace FsM

variable {ε ε' α β γ : Type}

instance : Monad (FsM ε) where
  pure a := fun t => (.ok a, t)
  bind x f := fun t =>
    match x t with
    | (.ok a, t') => f a t'
    | (.error e, t') => (.error e, t')

/-- Fail, leaving the tree as it is. -/
def fail (e : ε) : FsM ε α := fun t => (.error e, t)

/-- The outcome of a computation that does not look at the tree. -/
def ofExcept (x : Except ε α) : FsM ε α := fun t => (x, t)

/-- Do `f` to each element in order. -/
def forEach (f : α → FsM ε Unit) : List α → FsM ε Unit
  | [] => pure ()
  | a :: as => do f a; forEach f as

@[simp] theorem pure_apply (a : α) (t : Tree) : (pure a : FsM ε α) t = (.ok a, t) := rfl

theorem bind_apply (x : FsM ε α) (f : α → FsM ε β) (t : Tree) :
    (x >>= f) t = match x t with
      | (.ok a, t') => f a t'
      | (.error e, t') => (.error e, t') := rfl

@[simp] theorem fail_apply (e : ε) (t : Tree) : (fail e : FsM ε α) t = (.error e, t) := rfl

@[simp] theorem ofExcept_apply (x : Except ε α) (t : Tree) : ofExcept x t = (x, t) := rfl

theorem bind_of_ok {x : FsM ε α} {f : α → FsM ε β} {t t' : Tree} {a : α}
    (h : x t = (.ok a, t')) : (x >>= f) t = f a t' := by rw [bind_apply, h]

theorem bind_of_error {x : FsM ε α} {f : α → FsM ε β} {t t' : Tree} {e : ε}
    (h : x t = (.error e, t')) : (x >>= f) t = (.error e, t') := by rw [bind_apply, h]

theorem bind_ofExcept_ok {x : Except ε α} {f : α → FsM ε β} {t : Tree} {a : α} (h : x = .ok a) :
    (ofExcept x >>= f) t = f a t := bind_of_ok (by rw [ofExcept_apply, h])

theorem bind_ofExcept_error {x : Except ε α} {f : α → FsM ε β} {t : Tree} {e : ε}
    (h : x = .error e) : (ofExcept x >>= f) t = (.error e, t) :=
  bind_of_error (by rw [ofExcept_apply, h])

theorem bind_assoc {x : FsM ε α} {f : α → FsM ε β} {g : β → FsM ε γ} :
    (x >>= f) >>= g = x >>= fun a => f a >>= g := by
  funext t
  rw [bind_apply, bind_apply, bind_apply]
  rcases x t with ⟨_ | _, t'⟩ <;> rfl

/-- A sequence fails where its first part does, or ends as its second part. -/
theorem bind_cases {x : FsM ε α} {f : α → FsM ε β} {t t'' : Tree} {r : Except ε β}
    (h : (x >>= f) t = (r, t'')) :
    (∃ e, x t = (.error e, t'') ∧ r = .error e) ∨
      ∃ a t', x t = (.ok a, t') ∧ f a t' = (r, t'') := by
  rw [bind_apply] at h
  split at h
  · rename_i a t' hx
    exact .inr ⟨a, t', hx, h⟩
  · rename_i e t' hx
    obtain ⟨rfl, rfl⟩ := Prod.mk.inj h
    exact .inl ⟨e, hx, rfl⟩

theorem bind_ok {x : FsM ε α} {f : α → FsM ε β} {t t'' : Tree} {b : β} :
    (x >>= f) t = (.ok b, t'') ↔ ∃ a t', x t = (.ok a, t') ∧ f a t' = (.ok b, t'') := by
  rw [bind_apply]
  constructor
  · intro h
    split at h
    · rename_i a t' hx; exact ⟨a, t', hx, h⟩
    · cases h
  · rintro ⟨a, t', hx, hf⟩
    rw [hx]
    exact hf

end FsM

/-! ### The operations -/

section Operations

variable {ε : Type} [OfOs ε]

/-- `fs::read`. -/
def read (p : PathBuf) : FsM ε Bytes := fun t =>
  match t.resolve p with
  | .error e => (.error (OfOs.ofOs e), t)
  | .ok l =>
    match t.entry l with
    | some (.file b) => (.ok b, t)
    | some .dir => (.error (OfOs.ofOs .isADirectory), t)
    | none => (.error (OfOs.ofOs .notFound), t)

/-- `fs::write`: create or truncate the file, then write the whole content. -/
def write (p : PathBuf) (b : Bytes) : FsM ε Unit := fun t =>
  match t.place p with
  | .error e => (.error (OfOs.ofOs e), t)
  | .ok l => (.ok (), t.putFile l b)

/-- Open a file for appending, creating it if it is missing, and `write_all`. -/
def append (p : PathBuf) (b : Bytes) : FsM ε Unit := fun t =>
  match t.place p with
  | .error e => (.error (OfOs.ofOs e), t)
  | .ok l => (.ok (), t.putFile l ((t.file? l).getD [] ++ b))

/-- `File::create`: the open file is known by the place it stands at. -/
def File.create (p : PathBuf) : FsM ε Loc := fun t =>
  match t.place p with
  | .error e => (.error (OfOs.ofOs e), t)
  | .ok l => (.ok l, t.putFile l [])

/-- `write_all` on an open file, which is only ever written at its end. -/
def File.writeAll (f : Loc) (b : Bytes) : FsM ε Unit := fun t =>
  (.ok (), t.putFile f ((t.file? f).getD [] ++ b))

/-- The length in the metadata of an open file. -/
def File.len (f : Loc) : FsM ε ℕ := fun t => (.ok ((t.file? f).getD []).length, t)

/-- `fs::rename` of a file, replacing a file that stands at the destination. -/
def rename (src dst : PathBuf) : FsM ε Unit := fun t =>
  match t.resolve src with
  | .error e => (.error (OfOs.ofOs e), t)
  | .ok l =>
    match t.entry l with
    | none => (.error (OfOs.ofOs .notFound), t)
    | some .dir => (.error (OfOs.ofOs .isADirectory), t)
    | some (.file b) =>
      match t.place dst with
      | .error e => (.error (OfOs.ofOs e), t)
      | .ok l' => (.ok (), (t.remove l).putFile l' b)

/-- Follow a path from the directory `l`, creating the directories that are missing. -/
def mkdirs (t : Tree) (l : Loc) : PathBuf → Except OsError Unit × Tree
  | [] => (.ok (), t)
  | c :: cs =>
    match t.entry (stepTo l c) with
    | some .dir => mkdirs t (stepTo l c) cs
    | some (.file _) => (.error .notADirectory, t)
    | none => mkdirs (t.mkdir (stepTo l c)) (stepTo l c) cs

/-- `fs::create_dir_all`. -/
def createDirAll (p : PathBuf) : FsM ε Unit := fun t =>
  if t.named p then ((mkdirs t [] p).1.mapError OfOs.ofOs, (mkdirs t [] p).2)
  else (.error (OfOs.ofOs .invalidName), t)

/-- `Path::exists`. -/
def pathExists (p : PathBuf) : FsM ε Bool := fun t =>
  match t.resolve p with
  | .error _ => (.ok false, t)
  | .ok l => (.ok (t.entry l).isSome, t)

/-- `Path::is_dir`. -/
def pathIsDir (p : PathBuf) : FsM ε Bool := fun t =>
  match t.resolve p with
  | .error _ => (.ok false, t)
  | .ok l => (.ok (decide (t.IsDir l)), t)

/-- `fs::read_dir`: the names in a directory, in the order that `order` gives them. -/
def readDir (order : Finset String → List String) (p : PathBuf) : FsM ε (List String) := fun t =>
  match t.resolve p with
  | .error e => (.error (OfOs.ofOs e), t)
  | .ok l => if t.IsDir l then (.ok (order (t.children l)), t)
      else (.error (OfOs.ofOs .notADirectory), t)

/-- `fs::read` of an entry of a directory: the entry is known by its name in a listing. -/
def readEntry (p : PathBuf) (name : String) : FsM ε Bytes := fun t =>
  match t.resolve p with
  | .error e => (.error (OfOs.ofOs e), t)
  | .ok l =>
    match t.entry (name :: l) with
    | some (.file b) => (.ok b, t)
    | some .dir => (.error (OfOs.ofOs .isADirectory), t)
    | none => (.error (OfOs.ofOs .notFound), t)

/-- Write a temporary file and rename it to its place. -/
def replaceFile (tmp dst : PathBuf) (b : Bytes) : FsM ε Unit := do
  write tmp b
  rename tmp dst

/-- What a directory listing may be: each name once, in any order. -/
def ListsAll (order : Finset String → List String) : Prop :=
  ∀ s, (order s).Nodup ∧ ∀ c, c ∈ order s ↔ c ∈ s

end Operations

/-! ### What a successful operation did -/

section Success

variable {ε : Type} [OfOs ε] {p src dst : PathBuf} {t t' : Tree} {l : Loc} {b : Bytes}

theorem read_ok :
    (read p : FsM ε Bytes) t = (.ok b, t') ↔
      t' = t ∧ ∃ l, t.resolve p = .ok l ∧ t.entry l = some (.file b) := by
  unfold read
  split
  · rename_i h; simp [h]
  · rename_i l h
    simp only [h, Except.ok.injEq, exists_eq_left']
    split <;> rename_i he <;> simp [he, eq_comm, and_comm]

theorem write_ok :
    (write p b : FsM ε Unit) t = (.ok (), t') ↔ ∃ l, t.place p = .ok l ∧ t' = t.putFile l b := by
  unfold write
  split <;> rename_i h <;> simp [h, eq_comm]

theorem create_ok :
    (File.create p : FsM ε Loc) t = (.ok l, t') ↔ t.place p = .ok l ∧ t' = t.putFile l [] := by
  unfold File.create
  split <;> rename_i h
  · simp [h]
  · rw [h]
    constructor
    · rintro ⟨⟩; exact ⟨rfl, rfl⟩
    · rintro ⟨h', rfl⟩
      rw [Except.ok.injEq] at h'
      rw [h']

theorem rename_ok :
    (rename src dst : FsM ε Unit) t = (.ok (), t') ↔ ∃ l b l', t.resolve src = .ok l ∧
      t.entry l = some (.file b) ∧ t.place dst = .ok l' ∧ t' = (t.remove l).putFile l' b := by
  unfold rename
  split
  · rename_i h; simp [h]
  · rename_i l h
    simp only [h, Except.ok.injEq]
    split
    · rename_i he; simp [he]
    · rename_i he; simp [he]
    · rename_i b he
      split <;> rename_i hp <;> simp [he, hp, eq_comm]

theorem mkdirs_entry {l₀ : Loc} (hl₀ : t.IsDir l₀) :
    ∀ l, (mkdirs t l₀ p).2.entry l = t.entry l ∨
      (t.entry l = none ∧ (mkdirs t l₀ p).2.IsDir l ∧ ∃ q, q <+: p ∧ l = q.foldl stepTo l₀) := by
  induction p generalizing t l₀ with
  | nil => exact fun l => .inl rfl
  | cons c cs ih =>
    intro l
    have hcons : ∀ q, l = q.foldl stepTo (stepTo l₀ c) →
        l = (c :: q).foldl stepTo l₀ := fun q h => h
    simp only [mkdirs]
    split
    · rename_i hd
      rcases ih hd l with h | ⟨h, h', q, hq, hl⟩
      · exact .inl h
      · exact .inr ⟨h, h', c :: q, (List.prefix_cons_inj c).2 hq, hcons q hl⟩
    · exact .inl rfl
    · rename_i hn
      -- a missing place is an entry of the directory that was left
      have hstep : stepTo l₀ c = c :: l₀ := by
        unfold stepTo at hn ⊢
        split_ifs at hn ⊢
        · exact absurd hn hl₀.ne_none
        · exact absurd hn hl₀.tail.ne_none
        · rfl
      have htl : t.IsDir (stepTo l₀ c).tail := by rw [hstep]; exact hl₀
      have hself : (t.mkdir (stepTo l₀ c)).IsDir (stepTo l₀ c) := Tree.entry_mkdir_self htl hn
      by_cases he : l = stepTo l₀ c
      · subst he
        refine .inr ⟨hn, ?_, [c], (List.prefix_cons_inj c).2 (List.nil_prefix), rfl⟩
        rcases ih hself (stepTo l₀ c) with h | ⟨h, _⟩
        · exact h.trans hself
        · exact absurd h hself.ne_none
      · rcases ih hself l with h | ⟨h, h', q, hq, hl⟩
        · exact .inl (by rw [h, Tree.entry_mkdir_of_ne he])
        · rw [Tree.entry_mkdir_of_ne he] at h
          exact .inr ⟨h, h', c :: q, (List.prefix_cons_inj c).2 hq, hcons q hl⟩

theorem mkdirs_accepts {l₀ : Loc} : (mkdirs t l₀ p).2.accepts = t.accepts := by
  induction p generalizing t l₀ with
  | nil => rfl
  | cons c cs ih =>
    simp only [mkdirs]
    split
    · exact ih
    · rfl
    · rw [ih, Tree.accepts_mkdir]

theorem mkdirs_file? {l₀ : Loc} : (mkdirs t l₀ p).2.file? l = t.file? l := by
  induction p generalizing t l₀ with
  | nil => rfl
  | cons c cs ih =>
    simp only [mkdirs]
    split
    · exact ih
    · rfl
    · rw [ih, Tree.file?_mkdir]

theorem grows_mkdirs {l₀ : Loc} (hl₀ : t.IsDir l₀) : t.Grows (mkdirs t l₀ p).2 := by
  refine ⟨fun {l} hl => ?_, mkdirs_accepts⟩
  rcases mkdirs_entry (p := p) hl₀ l with h | ⟨h, _⟩
  · exact h.trans hl
  · exact absurd h hl.ne_none

theorem mkdirs_ok {l₀ : Loc} (hl₀ : t.IsDir l₀) (h : (mkdirs t l₀ p).1 = .ok ()) :
    (mkdirs t l₀ p).2.walk l₀ p = .ok (p.foldl stepTo l₀) ∧
      (mkdirs t l₀ p).2.IsDir (p.foldl stepTo l₀) := by
  induction p generalizing t l₀ with
  | nil => exact ⟨rfl, hl₀⟩
  | cons c cs ih =>
    simp only [mkdirs] at h ⊢
    split at h
    · rename_i hd
      obtain ⟨hw, hdir⟩ := ih hd h
      refine ⟨?_, hdir⟩
      simp only [Tree.walk, ((grows_mkdirs (p := cs) hd).isDir hl₀).entry]
      exact hw
    · cases h
    · rename_i hn
      have hstep : stepTo l₀ c = c :: l₀ := by
        unfold stepTo at hn ⊢
        split_ifs at hn ⊢
        · exact absurd hn hl₀.ne_none
        · exact absurd hn hl₀.tail.ne_none
        · rfl
      have hself : (t.mkdir (stepTo l₀ c)).IsDir (stepTo l₀ c) :=
        Tree.entry_mkdir_self (by rw [hstep]; exact hl₀) hn
      obtain ⟨hw, hdir⟩ := ih hself h
      refine ⟨?_, hdir⟩
      have h₀ := (grows_mkdirs (p := cs) hself).isDir (Tree.grows_mkdir.isDir hl₀)
      simp only [Tree.walk, h₀.entry]
      exact hw

theorem createDirAll_snd :
    ((createDirAll p : FsM ε Unit) t).2 = t ∨
      ((createDirAll p : FsM ε Unit) t).2 = (mkdirs t [] p).2 := by
  unfold createDirAll
  split
  · exact .inr rfl
  · exact .inl rfl

/-- Creating directories leaves every entry as it is, apart from directories that are new and
on the way. -/
theorem createDirAll_entry (l : Loc) :
    ((createDirAll p : FsM ε Unit) t).2.entry l = t.entry l ∨
      (t.entry l = none ∧ ((createDirAll p : FsM ε Unit) t).2.IsDir l ∧
        ∃ q, q <+: p ∧ l = PathBuf.norm q) := by
  rcases createDirAll_snd (ε := ε) (p := p) (t := t) with h | h <;> rw [h]
  · exact .inl rfl
  · exact mkdirs_entry t.isDir_root l

theorem createDirAll_ok (h : (createDirAll p : FsM ε Unit) t = (.ok (), t')) :
    t'.resolve p = .ok p.norm ∧ t'.IsDir p.norm := by
  unfold createDirAll at h
  split at h
  · rename_i hn
    simp only [Prod.mk.injEq] at h
    obtain ⟨h₁, rfl⟩ := h
    have hok : (mkdirs t [] p).1 = .ok () := by
      cases hm : (mkdirs t [] p).1 with
      | ok => rfl
      | error e => rw [hm] at h₁; cases h₁
    obtain ⟨hw, hd⟩ := mkdirs_ok t.isDir_root hok
    refine ⟨Tree.resolve_ok.2 ⟨?_, hw⟩, hd⟩
    simpa [Tree.named, mkdirs_accepts] using hn
  · cases h

/-- **Creating directories downwards.**  If no file is on the way, everything on the way is a
directory afterwards; otherwise nothing changes. -/
theorem mkdirs_downward {l₀ : Loc} (hp : PathBuf.Downward p) (hl₀ : t.IsDir l₀) :
    ((∀ k, k <:+ p.foldl stepTo l₀ → t.file? k = none) → (mkdirs t l₀ p).1 = .ok () ∧
      ∀ l, (mkdirs t l₀ p).2.entry l =
        if l <:+ p.foldl stepTo l₀ then some .dir else t.entry l) ∧
    ((∃ k, k <:+ p.foldl stepTo l₀ ∧ t.file? k ≠ none) →
      mkdirs t l₀ p = (.error .notADirectory, t)) := by
  induction p generalizing t l₀ with
  | nil =>
    constructor
    · refine fun _ => ⟨rfl, fun l => ?_⟩
      split
      · rename_i hl; exact hl₀.of_suffix hl
      · rfl
    · rintro ⟨k, hk, hfile⟩
      have hdir : t.IsDir k := hl₀.of_suffix hk
      rw [Tree.file?, hdir.entry] at hfile
      exact absurd rfl hfile
  | cons c cs ih =>
    have hcs : PathBuf.Downward cs := fun x hx => hp x (List.mem_cons_of_mem _ hx)
    have hnext : stepTo l₀ c <:+ (c :: cs).foldl stepTo l₀ := Tree.suffix_foldl_stepTo hcs _
    simp only [mkdirs]
    split
    · rename_i hd
      exact ih hcs hd
    · rename_i b hb
      refine ⟨fun hno => ?_, fun _ => rfl⟩
      have := hno _ hnext
      rw [Tree.file?_eq_some.2 hb] at this
      cases this
    · rename_i hn
      have hstep : stepTo l₀ c = c :: l₀ := by
        unfold stepTo at hn ⊢
        split_ifs at hn ⊢
        · exact absurd hn hl₀.ne_none
        · exact absurd hn hl₀.tail.ne_none
        · rfl
      have hself : (t.mkdir (stepTo l₀ c)).IsDir (stepTo l₀ c) :=
        Tree.entry_mkdir_self (by rw [hstep]; exact hl₀) hn
      obtain ⟨hok, hbad⟩ := ih hcs hself
      constructor
      · intro hno
        obtain ⟨hres, hentry⟩ := hok fun k hk => by rw [Tree.file?_mkdir]; exact hno k hk
        refine ⟨hres, fun l => ?_⟩
        rw [hentry]
        by_cases hl : l <:+ (c :: cs).foldl stepTo l₀
        · exact (if_pos hl).trans (if_pos hl).symm
        · have hne : l ≠ stepTo l₀ c := by rintro rfl; exact hl hnext
          exact (if_neg hl).trans ((Tree.entry_mkdir_of_ne hne).trans (if_neg hl).symm)
      · -- a file further on would need the missing directory
        rintro ⟨k, hk, hfile⟩
        obtain ⟨b, hb⟩ := Option.ne_none_iff_exists'.1 hfile
        have hkb := Tree.file?_eq_some.1 hb
        have hknone : t.entry k ≠ none := by rw [hkb]; simp
        rcases List.suffix_or_suffix_of_suffix hk hnext with hle | hle
        · rw [hstep] at hle hn
          rcases List.suffix_cons_iff.1 hle with rfl | hle
          · exact absurd hn hknone
          · have hdir : t.entry k = some .dir := hl₀.of_suffix hle
            rw [hkb] at hdir
            cases hdir
        · by_cases heq : stepTo l₀ c = k
          · exact absurd (heq ▸ hn) hknone
          · exact absurd hn (Tree.isDir_of_suffix hknone hle heq).ne_none

theorem createDirAll_downward (hp : PathBuf.Downward p) :
    (t.named p = true ∧ (∀ k, k <:+ p.norm → t.file? k = none) →
      ((createDirAll p : FsM ε Unit) t).1 = .ok () ∧
        ∀ l, ((createDirAll p : FsM ε Unit) t).2.entry l =
          if l <:+ p.norm then some .dir else t.entry l) ∧
    (¬ (t.named p = true ∧ ∀ k, k <:+ p.norm → t.file? k = none) →
      ∃ e, (createDirAll p : FsM ε Unit) t = (.error e, t)) := by
  obtain ⟨hok, hbad⟩ := mkdirs_downward (p := p) hp t.isDir_root
  unfold createDirAll
  by_cases hn : t.named p = true
  · rw [if_pos hn]
    refine ⟨fun ⟨_, hno⟩ => ⟨?_, (hok hno).2⟩, fun hnot => ?_⟩
    · rw [(hok hno).1]; rfl
    · have hex : ∃ k, k <:+ p.norm ∧ t.file? k ≠ none := by
        by_contra hall
        exact hnot ⟨hn, fun k hk => by_contra fun hf => hall ⟨k, hk, hf⟩⟩
      rw [hbad hex]
      exact ⟨_, rfl⟩
  · rw [if_neg hn]
    exact ⟨fun h => absurd h.1 hn, fun _ => ⟨_, rfl⟩⟩

theorem accepts_createDirAll : ((createDirAll p : FsM ε Unit) t).2.accepts = t.accepts := by
  rcases createDirAll_snd (ε := ε) (p := p) (t := t) with h | h <;> rw [h]
  exact mkdirs_accepts

theorem createDirAll_error {e : ε} (h : (createDirAll p : FsM ε Unit) t = (.error e, t')) :
    ∃ e', e = OfOs.ofOs e' := by
  unfold createDirAll at h
  split at h
  · obtain ⟨h, -⟩ := Prod.mk.inj h
    cases hm : (mkdirs t [] p).1 with
    | ok => rw [hm] at h; cases h
    | error e' =>
      rw [hm] at h
      cases h
      exact ⟨e', rfl⟩
  · obtain ⟨h, -⟩ := Prod.mk.inj h
    exact ⟨_, (Except.error.inj h).symm⟩

theorem createDirAll_of_isDir (h : t.resolve p = .ok l) (hd : t.IsDir l) :
    (createDirAll p : FsM ε Unit) t = (.ok (), t) := by
  obtain ⟨hn, hw⟩ := Tree.resolve_ok.1 h
  have key : ∀ (q : PathBuf) (k : Loc), t.walk k q = .ok l → mkdirs t k q = (.ok (), t) := by
    intro q
    induction q with
    | nil => intro k _; rfl
    | cons c cs ih =>
      intro k hk
      simp only [Tree.walk] at hk
      split at hk
      · have hdir : t.entry (stepTo k c) = some .dir := by
          cases cs with
          | nil =>
            simp only [Tree.walk, Except.ok.injEq] at hk
            exact hk ▸ hd
          | cons c' cs' =>
            simp only [Tree.walk] at hk
            split at hk
            · assumption
            all_goals cases hk
        simp only [mkdirs, hdir]
        exact ih _ hk
      all_goals cases hk
  rw [createDirAll, if_pos hn, key p [] hw]
  rfl

end Success

/-! ### Loops that write one file -/

section Loops

variable {ε : Type} {p : PathBuf} {t t' : Tree} {l : Loc} {b : Bytes}

theorem writeAll_putFile {b' : Bytes} (h : t.place p = .ok l) :
    (File.writeAll l b' : FsM ε Unit) (t.putFile l b) = (.ok (), t.putFile l (b ++ b')) := by
  obtain ⟨hr, hl⟩ := Tree.place_ok.1 h
  rw [File.writeAll, Tree.file?_putFile_self (Tree.resolve_isDir_tail hr) hl,
    Tree.putFile_putFile]
  rfl

/-- A loop each of whose rounds adds to the same file, if it gets through. -/
theorem forEach_append_ok {α : Type} {f : α → FsM ε Unit} {val : α → Bytes} {as : List α}
    (hf : ∀ a ∈ as, ∀ c t'', f a (t.putFile l c) = (.ok (), t'') →
      t'' = t.putFile l (c ++ val a))
    (h : FsM.forEach f as (t.putFile l b) = (.ok (), t')) :
    t' = t.putFile l (b ++ as.flatMap val) := by
  induction as generalizing b with
  | nil =>
    obtain ⟨-, rfl⟩ := Prod.mk.inj h
    rw [List.flatMap_nil, List.append_nil]
  | cons a as ih =>
    obtain ⟨_, t₁, h₁, h₂⟩ := FsM.bind_ok.1 h
    obtain rfl := hf a List.mem_cons_self b t₁ h₁
    rw [ih (fun x hx => hf x (List.mem_cons_of_mem _ hx)) h₂, List.flatMap_cons, List.append_assoc]

theorem forEach_append {α : Type} {f : α → FsM ε Unit} {val : α → Bytes} {as : List α}
    (hf : ∀ a ∈ as, ∀ c, f a (t.putFile l c) = (.ok (), t.putFile l (c ++ val a))) :
    FsM.forEach f as (t.putFile l b) = (.ok (), t.putFile l (b ++ as.flatMap val)) := by
  induction as generalizing b with
  | nil => rw [List.flatMap_nil, List.append_nil]; rfl
  | cons a as ih =>
    rw [FsM.forEach, FsM.bind_of_ok (hf a List.mem_cons_self b),
      ih fun x hx => hf x (List.mem_cons_of_mem _ hx), List.flatMap_cons, List.append_assoc]

theorem forEach_each_ok {α : Type} {f : α → FsM ε Unit} {as : List α}
    (h : FsM.forEach f as t = (.ok (), t')) :
    ∀ a ∈ as, ∃ t₁ t₂, f a t₁ = (.ok (), t₂) := by
  induction as generalizing t with
  | nil => simp
  | cons a as ih =>
    obtain ⟨_, t₁, h₁, h₂⟩ := FsM.bind_ok.1 h
    intro x hx
    rcases List.mem_cons.1 hx with rfl | hx
    · exact ⟨t, t₁, h₁⟩
    · exact ih h₂ x hx

end Loops

/-! ### What a program leaves alone -/

/-- From `t` to `t'` no file outside `S` has changed, and no directory is gone. -/
structure Frame (S : Set Loc) (t t' : Tree) : Prop where
  file? : ∀ l, l ∉ S → t'.file? l = t.file? l
  grows : t.Grows t'

namespace Frame

variable {S S' : Set Loc} {t t' t'' : Tree}

@[refl] theorem refl (t : Tree) : Frame S t t := ⟨fun _ _ => rfl, .refl t⟩

theorem trans (h : Frame S t t') (h' : Frame S t' t'') : Frame S t t'' :=
  ⟨fun l hl => (h'.file? l hl).trans (h.file? l hl), h.grows.trans h'.grows⟩

theorem mono (h : Frame S t t') (hS : S ⊆ S') : Frame S' t t' :=
  ⟨fun l hl => h.file? l fun hm => hl (hS hm), h.grows⟩

theorem putFile (t : Tree) (l : Loc) (b : Bytes) : Frame {l} t (t.putFile l b) := by
  refine ⟨fun k hk => ?_, Tree.grows_putFile⟩
  rw [Tree.file?, Tree.file?, Tree.entry_putFile_of_ne (by simpa using hk)]

theorem remove (t : Tree) (l : Loc) : Frame {l} t (t.remove l) := by
  refine ⟨fun k hk => ?_, Tree.grows_remove⟩
  rw [Tree.file?, Tree.file?, Tree.entry_remove_of_ne (by simpa using hk)]

end Frame

namespace FsM

variable {ε ε' α β : Type} {S S' : Set Loc}

/-- The program writes no file outside `S` and removes no directory. -/
def Touches (S : Set Loc) (m : FsM ε α) : Prop := ∀ t, Frame S t (m t).2

theorem Touches.mono {m : FsM ε α} (h : Touches S m) (hS : S ⊆ S') : Touches S' m :=
  fun t => (h t).mono hS

theorem touches_pure (a : α) : Touches S (pure a : FsM ε α) := fun t => .refl t

theorem touches_fail (e : ε) : Touches S (fail e : FsM ε α) := fun t => .refl t

theorem touches_ofExcept (x : Except ε α) : Touches S (ofExcept x) := fun t => .refl t

theorem Touches.bind {x : FsM ε α} {f : α → FsM ε β} (hx : Touches S x)
    (hf : ∀ a, Touches S (f a)) : Touches S (x >>= f) := by
  intro t
  have h := hx t
  rw [bind_apply]
  split
  · rename_i a t' heq
    rw [heq] at h
    exact h.trans (hf a t')
  · rename_i e t' heq
    rwa [heq] at h

theorem Touches.forEach {f : α → FsM ε Unit} {as : List α} (h : ∀ a ∈ as, Touches S (f a)) :
    Touches S (forEach f as) := by
  induction as with
  | nil => exact touches_pure ()
  | cons a as ih =>
    exact (h a List.mem_cons_self).bind fun _ => ih fun b hb => h b (List.mem_cons_of_mem _ hb)

end FsM

/-! ### Programs that keep what holds -/

namespace FsM

variable {ε α β : Type} {I : Tree → Prop} {S : Set Loc}

/-- What holds of the tree holds of it afterwards, whether the program succeeds or not. -/
def Preserves (I : Tree → Prop) (m : FsM ε α) : Prop := ∀ t, I t → I (m t).2

theorem preserves_pure (a : α) : Preserves I (pure a : FsM ε α) := fun _ ht => ht

theorem Preserves.bind {x : FsM ε α} {f : α → FsM ε β} (hx : Preserves I x)
    (hf : ∀ a, Preserves I (f a)) : Preserves I (x >>= f) := by
  intro t ht
  have h := hx t ht
  rw [bind_apply]
  split
  · rename_i a t' heq
    rw [heq] at h
    exact hf a t' h
  · rename_i e t' heq
    rwa [heq] at h

theorem Preserves.forEach {f : α → FsM ε Unit} {as : List α} (h : ∀ a ∈ as, Preserves I (f a)) :
    Preserves I (forEach f as) := by
  induction as with
  | nil => exact preserves_pure ()
  | cons a as ih =>
    exact (h a List.mem_cons_self).bind fun _ => ih fun b hb => h b (List.mem_cons_of_mem _ hb)

theorem Touches.preserves {m : FsM ε α} (h : Touches S m)
    (hI : ∀ t t', Frame S t t' → I t → I t') : Preserves I m := fun t ht => hI t _ (h t) ht

end FsM

/-! ### Programs that only look -/

namespace FsM

variable {ε α β : Type}

/-- The program leaves the tree as it is. -/
def Inert (m : FsM ε α) : Prop := ∀ t, (m t).2 = t

theorem inert_pure (a : α) : Inert (pure a : FsM ε α) := fun _ => rfl

theorem inert_fail (e : ε) : Inert (fail e : FsM ε α) := fun _ => rfl

theorem inert_ofExcept (x : Except ε α) : Inert (ofExcept x) := fun _ => rfl

theorem Inert.bind {x : FsM ε α} {f : α → FsM ε β} (hx : Inert x) (hf : ∀ a, Inert (f a)) :
    Inert (x >>= f) := by
  intro t
  have h := hx t
  rw [bind_apply]
  split
  · rename_i a t' heq
    rw [heq] at h
    exact (hf a t').trans h
  · rename_i e t' heq
    rwa [heq] at h

theorem Inert.touches {S : Set Loc} {m : FsM ε α} (h : Inert m) : Touches S m := by
  intro t
  rw [h t]

end FsM

section Inert

open FsM

variable {ε : Type} {p : PathBuf}

theorem inert_read [OfOs ε] : Inert (read p : FsM ε Bytes) := by
  intro t
  unfold read
  split
  · rfl
  · split <;> rfl

theorem inert_readEntry [OfOs ε] {name : String} : Inert (readEntry p name : FsM ε Bytes) := by
  intro t
  unfold readEntry
  split
  · rfl
  · split <;> rfl

theorem inert_pathExists : Inert (pathExists p : FsM ε Bool) := by
  intro t
  unfold pathExists
  split <;> rfl

theorem inert_pathIsDir : Inert (pathIsDir p : FsM ε Bool) := by
  intro t
  unfold pathIsDir
  split <;> rfl

theorem inert_readDir [OfOs ε] {order : Finset String → List String} :
    Inert (readDir order p : FsM ε (List String)) := by
  intro t
  unfold readDir
  split
  · rfl
  · split <;> rfl

end Inert

/-! ### Where a path leads -/

namespace Tree

/-- The path leads to a directory. -/
def HasDir (t : Tree) (p : PathBuf) : Prop := t.resolve p = .ok p.norm ∧ t.IsDir p.norm

/-- The path leads to a file with the content `b`. -/
def HasFile (t : Tree) (p : PathBuf) (b : Bytes) : Prop :=
  t.resolve p = .ok p.norm ∧ t.file? p.norm = some b

variable {t t' : Tree} {p q : PathBuf} {b b' : Bytes} {S : Set Loc}

theorem HasDir.grows (h : t.HasDir p) (hg : t.Grows t') : t'.HasDir p :=
  ⟨hg.resolve h.1, hg.isDir h.2⟩

theorem HasFile.frame (h : t.HasFile p b) (hf : Frame S t t') (hp : p.norm ∉ S) :
    t'.HasFile p b :=
  ⟨hf.grows.resolve h.1, (hf.file? _ hp).trans h.2⟩

theorem HasFile.unique (h : t.HasFile p b) (h' : t.HasFile p b') : b = b' :=
  Option.some.inj (h.2.symm.trans h'.2)

end Tree

namespace Tree

/-- A file stands where its path leads, if the path leads downwards. -/
theorem hasFile_join_iff {t : Tree} {p : PathBuf} {s : String} {b : Bytes}
    (hp : PathBuf.Downward p) (hs : '/' ∉ s.toList) (hs' : Plain s) :
    t.HasFile (p.join s) b ↔
      t.named p = true ∧ t.accepts s = true ∧ t.file? (s :: p.norm) = some b := by
  rw [HasFile, PathBuf.norm_join hs hs', resolve_join_iff hp hs hs']
  constructor
  · rintro ⟨⟨hn, ha, -, -⟩, hf⟩
    exact ⟨hn, ha, hf⟩
  · rintro ⟨hn, ha, hf⟩
    have hentry := file?_eq_some.1 hf
    exact ⟨⟨hn, ha, isDir_of_entry (by rw [hentry]; simp), rfl⟩, hf⟩

end Tree

section Replace

open FsM

variable {ε : Type} [OfOs ε] {p tmp dst : PathBuf} {b : Bytes} {t t' : Tree}

theorem read_eq_ok : (read p : FsM ε Bytes) t = (.ok b, t') ↔ t' = t ∧ t.HasFile p b := by
  rw [read_ok]
  refine and_congr_right fun _ => ?_
  constructor
  · rintro ⟨l, hl, he⟩
    obtain rfl := Tree.resolve_norm hl
    exact ⟨hl, Tree.file?_eq_some.2 he⟩
  · rintro ⟨hl, hf⟩
    exact ⟨_, hl, Tree.file?_eq_some.1 hf⟩

theorem toOption_read_eq_some :
    ((read p : FsM ε Bytes) t).1.toOption = some b ↔ t.HasFile p b := by
  constructor
  · intro h
    cases hr : (read p : FsM ε Bytes) t with
    | mk res t' =>
    rw [hr] at h
    cases res with
    | error e => cases h
    | ok b' =>
      obtain rfl := Option.some.inj h
      exact (read_eq_ok.1 hr).2
  · intro h
    rw [read_eq_ok.2 ⟨rfl, h⟩]
    rfl

theorem read_of_hasFile (h : t.HasFile p b) : (read p : FsM ε Bytes) t = (.ok b, t) :=
  read_eq_ok.2 ⟨rfl, h⟩

omit [OfOs ε] in
theorem isDir_of_pathIsDir (h : ((pathIsDir p : FsM ε Bool) t).1 = .ok true) :
    t.named p = true ∧ t.IsDir p.norm := by
  unfold pathIsDir at h
  cases hr : t.resolve p with
  | ok l =>
    rw [hr] at h
    obtain rfl := Tree.resolve_norm hr
    exact ⟨(Tree.resolve_ok.1 hr).1, of_decide_eq_true (Except.ok.inj h)⟩
  | error e =>
    rw [hr] at h
    cases h

theorem hasDir_of_createDirAll (h : (createDirAll p : FsM ε Unit) t = (.ok (), t')) :
    t'.HasDir p := createDirAll_ok h

theorem createDirAll_of_hasDir (h : t.HasDir p) : (createDirAll p : FsM ε Unit) t = (.ok (), t) :=
  createDirAll_of_isDir h.1 h.2

theorem hasFile_putFile {l : Loc} (h : t.place p = .ok l) : (t.putFile l b).HasFile p b := by
  obtain ⟨hr, hl⟩ := Tree.place_ok.1 h
  obtain rfl := Tree.resolve_norm hr
  exact ⟨Tree.grows_putFile.resolve hr,
    Tree.file?_putFile_self (Tree.resolve_isDir_tail hr) hl⟩

theorem hasFile_of_write (h : (write p b : FsM ε Unit) t = (.ok (), t')) : t'.HasFile p b := by
  obtain ⟨l, hl, rfl⟩ := write_ok.1 h
  exact hasFile_putFile hl

/-- **Replacing a file.**  It succeeds with the new content in place, or leaves the place alone. -/
theorem replaceFile_cases {r : Except ε Unit}
    (h : replaceFile tmp dst b t = (r, t')) :
    (r = .ok () ∧ t'.HasFile dst b ∧ Frame {tmp.norm, dst.norm} t t') ∨
      ((∃ e, r = .error (OfOs.ofOs e)) ∧ Frame {tmp.norm} t t') := by
  rw [replaceFile, bind_apply] at h
  unfold write at h
  cases hp : t.place tmp with
  | error e =>
    rw [hp] at h
    obtain ⟨rfl, rfl⟩ := Prod.mk.inj h
    exact .inr ⟨⟨e, rfl⟩, .refl _⟩
  | ok l =>
    rw [hp] at h
    have hl := Tree.place_norm hp
    have hframe : Frame {tmp.norm} t (t.putFile l b) := hl ▸ Frame.putFile t _ b
    have htmp : (t.putFile l b).HasFile tmp b := hasFile_putFile hp
    simp only [rename, htmp.1, Tree.file?_eq_some.1 htmp.2] at h
    cases hd : (t.putFile l b).place dst with
    | error e =>
      rw [hd] at h
      obtain ⟨rfl, rfl⟩ := Prod.mk.inj h
      exact .inr ⟨⟨e, rfl⟩, hframe⟩
    | ok l' =>
      rw [hd] at h
      obtain ⟨rfl, rfl⟩ := Prod.mk.inj h
      obtain ⟨hr, hnd⟩ := Tree.place_ok.1 hd
      have hplace : ((t.putFile l b).remove tmp.norm).place dst = .ok l' :=
        Tree.place_ok.2 ⟨Tree.grows_remove.resolve hr, fun h => hnd (Tree.isDir_remove.1 h)⟩
      refine .inl ⟨rfl, hasFile_putFile hplace, ?_⟩
      obtain rfl := Tree.place_norm hplace
      exact ((hframe.mono (by simp)).trans ((Frame.remove _ _).mono (by simp))).trans
        ((Frame.putFile _ _ _).mono (by simp))

theorem file?_tmp_of_replaceFile (h : (replaceFile tmp dst b : FsM ε Unit) t = (.ok (), t'))
    (hne : tmp.norm ≠ dst.norm) : t'.file? tmp.norm = none := by
  obtain ⟨_, t₁, -, hrename⟩ := bind_ok.1 h
  obtain ⟨l, c, l', hl, -, hl', rfl⟩ := rename_ok.1 hrename
  obtain rfl := Tree.resolve_norm hl
  obtain rfl := Tree.place_norm hl'
  rw [Tree.file?_putFile_of_ne hne, Tree.file?_remove_self]

theorem sameDirs_write : t.SameDirs ((write p b : FsM ε Unit) t).2 := by
  unfold write
  split
  · rfl
  · exact Tree.sameDirs_putFile

theorem sameDirs_rename : t.SameDirs ((rename tmp dst : FsM ε Unit) t).2 := by
  unfold rename
  split
  · rfl
  · split
    · rfl
    · rfl
    · split
      · rfl
      · exact Tree.sameDirs_remove.trans Tree.sameDirs_putFile

theorem sameDirs_of_replaceFile {r : Except ε Unit} (h : replaceFile tmp dst b t = (r, t')) :
    t.SameDirs t' := by
  suffices t.SameDirs ((replaceFile tmp dst b : FsM ε Unit) t).2 by rwa [h] at this
  have hw : t.SameDirs ((write tmp b : FsM ε Unit) t).2 := sameDirs_write
  rw [replaceFile, bind_apply]
  split
  · rename_i t₁ h
    rw [h] at hw
    exact hw.trans sameDirs_rename
  · rename_i h
    rwa [h] at hw

/-- Whether a file can be replaced does not depend on the new content. -/
theorem replaceFile_ok_congr {b' : Bytes}
    (h : ((replaceFile tmp dst b : FsM ε Unit) t).1 = .ok ()) :
    ((replaceFile tmp dst b' : FsM ε Unit) t).1 = .ok () := by
  obtain ⟨_, t₁, hwrite, hrename⟩ := bind_ok.1 (Prod.ext h rfl)
  obtain ⟨l, hl, rfl⟩ := write_ok.1 hwrite
  obtain ⟨-, -, l', -, -, hdst, -⟩ := rename_ok.1 hrename
  have hwrite' : (write tmp b' : FsM ε Unit) t = (.ok (), t.putFile l b') :=
    write_ok.2 ⟨l, hl, rfl⟩
  have hfile : (t.putFile l b').HasFile tmp b' := hasFile_of_write hwrite'
  have hsame : (t.putFile l b).SameDirs (t.putFile l b') :=
    Tree.sameDirs_putFile.symm.trans Tree.sameDirs_putFile
  have hrename' := (rename_ok (ε := ε)).2
    ⟨_, _, l', hfile.1, Tree.file?_eq_some.1 hfile.2, hsame.place hdst, rfl⟩
  rw [replaceFile, bind_of_ok hwrite', hrename']

end Replace

/-! ### Errors that do not occur -/

namespace FsM

variable {ε α β : Type} {e : ε}

/-- The program never ends with the error `e`. -/
def Avoids (e : ε) (m : FsM ε α) : Prop := ∀ t, (m t).1 ≠ .error e

theorem avoids_pure (a : α) : Avoids e (pure a : FsM ε α) := fun _ => by simp

theorem avoids_fail {e' : ε} (h : e' ≠ e) : Avoids e (fail e' : FsM ε α) :=
  fun _ he => h (Except.error.inj he)

theorem avoids_ofExcept {x : Except ε α} (h : x ≠ .error e) : Avoids e (ofExcept x) := fun _ => h

theorem Avoids.bind {x : FsM ε α} {f : α → FsM ε β} (hx : Avoids e x)
    (hf : ∀ a, Avoids e (f a)) : Avoids e (x >>= f) := by
  intro t
  have h := hx t
  rw [bind_apply]
  split
  · exact hf _ _
  · rename_i e' t' heq
    rw [heq] at h
    exact fun he => h (congrArg _ (Except.error.inj he))

theorem Avoids.forEach {f : α → FsM ε Unit} {as : List α} (h : ∀ a ∈ as, Avoids e (f a)) :
    Avoids e (forEach f as) := by
  induction as with
  | nil => exact avoids_pure ()
  | cons a as ih =>
    exact (h a List.mem_cons_self).bind fun _ => ih fun b hb => h b (List.mem_cons_of_mem _ hb)

section System

variable [OfOs ε] {p src dst : PathBuf} {b : Bytes}

theorem avoids_read (h : ∀ o, OfOs.ofOs o ≠ e) : Avoids e (read p : FsM ε Bytes) := by
  intro t
  unfold read
  split
  · exact fun he => h _ (Except.error.inj he)
  · split
    · simp
    · exact fun he => h _ (Except.error.inj he)
    · exact fun he => h _ (Except.error.inj he)

theorem avoids_readEntry {name : String} (h : ∀ o, OfOs.ofOs o ≠ e) :
    Avoids e (readEntry p name : FsM ε Bytes) := by
  intro t
  unfold readEntry
  split
  · exact fun he => h _ (Except.error.inj he)
  · split
    · simp
    · exact fun he => h _ (Except.error.inj he)
    · exact fun he => h _ (Except.error.inj he)

theorem avoids_readDir {order : Finset String → List String} (h : ∀ o, OfOs.ofOs o ≠ e) :
    Avoids e (readDir order p : FsM ε (List String)) := by
  intro t
  unfold readDir
  split
  · exact fun he => h _ (Except.error.inj he)
  · split
    · simp
    · exact fun he => h _ (Except.error.inj he)

omit [OfOs ε] in
theorem avoids_pathExists : Avoids e (pathExists p : FsM ε Bool) := by
  intro t
  unfold pathExists
  split <;> simp

omit [OfOs ε] in
theorem avoids_pathIsDir : Avoids e (pathIsDir p : FsM ε Bool) := by
  intro t
  unfold pathIsDir
  split <;> simp

theorem avoids_write (h : ∀ o, OfOs.ofOs o ≠ e) : Avoids e (write p b : FsM ε Unit) := by
  intro t
  unfold write
  split
  · exact fun he => h _ (Except.error.inj he)
  · simp

theorem avoids_create (h : ∀ o, OfOs.ofOs o ≠ e) : Avoids e (File.create p : FsM ε Loc) := by
  intro t
  unfold File.create
  split
  · exact fun he => h _ (Except.error.inj he)
  · simp

theorem avoids_createDirAll (h : ∀ o, OfOs.ofOs o ≠ e) :
    Avoids e (createDirAll p : FsM ε Unit) := by
  intro t he
  obtain ⟨o, ho⟩ := createDirAll_error (Prod.ext he rfl)
  exact h o ho.symm

theorem avoids_replaceFile (h : ∀ o, OfOs.ofOs o ≠ e) :
    Avoids e (replaceFile src dst b : FsM ε Unit) := by
  intro t he
  rcases replaceFile_cases (Prod.ext he rfl) with ⟨hok, -⟩ | ⟨⟨o, ho⟩, -⟩
  · cases hok
  · exact h o (Except.error.inj ho).symm

end System

end FsM

section Touches

open FsM

variable {ε : Type} [OfOs ε] {p src dst : PathBuf} {b : Bytes} {S : Set Loc}

theorem touches_write : Touches {p.norm} (write p b : FsM ε Unit) := by
  intro t
  unfold write
  split
  · rfl
  · rename_i l h
    exact Tree.place_norm h ▸ Frame.putFile t l b

theorem touches_append : Touches {p.norm} (append p b : FsM ε Unit) := by
  intro t
  unfold append
  split
  · rfl
  · rename_i l h
    exact Tree.place_norm h ▸ Frame.putFile t l _

theorem touches_rename : Touches {src.norm, dst.norm} (rename src dst : FsM ε Unit) := by
  intro t
  unfold rename
  split
  · rfl
  · rename_i l hl
    split
    · rfl
    · rfl
    · rename_i data _
      split
      · rfl
      · rename_i l' hl'
        obtain rfl := Tree.resolve_norm hl
        obtain rfl := Tree.place_norm hl'
        exact ((Frame.remove t _).mono (by simp)).trans
          ((Frame.putFile _ _ _).mono (by simp))

theorem touches_replaceFile {tmp dst : PathBuf} :
    Touches {tmp.norm, dst.norm} (replaceFile tmp dst b : FsM ε Unit) :=
  (touches_write.mono (by simp)).bind fun _ => touches_rename

theorem touches_createDirAll : Touches S (createDirAll p : FsM ε Unit) := by
  intro t
  rcases createDirAll_snd (ε := ε) (p := p) (t := t) with h | h <;> rw [h]
  exact ⟨fun l _ => mkdirs_file?, grows_mkdirs t.isDir_root⟩

omit [OfOs ε] in
theorem touches_writeAll {f : Loc} : Touches {f} (File.writeAll f b : FsM ε Unit) :=
  fun t => Frame.putFile t f _

omit [OfOs ε] in
theorem touches_len {f : Loc} : Touches S (File.len f : FsM ε ℕ) := fun _ => .refl _

/-- A file is only ever created at the place its path names, so whatever is done with it
afterwards may be framed there. -/
theorem touches_create_bind {α : Type} {f : Loc → FsM ε α} (hp : p.norm ∈ S)
    (hf : Touches S (f p.norm)) : Touches S (File.create p >>= f) := by
  intro t
  rw [bind_apply]
  unfold File.create
  split <;> rename_i h
  · split at h
    · cases h
    · rename_i l hl
      cases h
      obtain rfl := Tree.place_norm hl
      exact ((Frame.putFile t _ []).mono (by simpa using hp)).trans (hf _)
  · split at h
    · cases h; rfl
    · cases h

end Touches

end FileTree
