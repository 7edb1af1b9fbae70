import Mathlib.Data.Finmap
import Mathlib.Data.Finset.Image
import Mathlib.Data.List.Infix
import Neonet.Lib.Codec

/-!
# File trees and paths

A tree of directories and files without links, and the path arithmetic of POSIX on it.

* `Loc` : a place in the tree, as its component names from the innermost outwards, so that the
  directory of `c :: l` is `l` and "beneath `d`" is "has the suffix `d`".
* `Tree` : a finite map from places to entries whose root is a directory and in which whatever
  exists stands in a directory.  Both facts are fields, so no operation can break them.
* `PathBuf` : a path as written, with `.`, `..` and empty components kept; `PathBuf.join` is
  the join that lets an absolute right side replace the left one.
* `PathBuf.norm` : the place a path names when every component is followed blindly.
  `Tree.resolve` follows the path through the tree and fails where a directory is missing; when
  it succeeds it ends at `norm` (`Tree.resolve_norm`).
* `PathBuf.Downward` : a path without `..`, which only depends on what stands above its end.
-/

namespace FileTree

/-- A place in the tree: component names, the innermost first. -/
abbrev Loc := List String

/-- What stands at a place. -/
inductive Entry
  | dir
  | file (data : Bytes)
  deriving DecidableEq

/-- Why the operating system refuses a path. -/
inductive OsError
  | notFound
  | notADirectory
  | isADirectory
  | invalidName
  deriving DecidableEq

/-- A file tree.  `accepts` tells which names the file system takes for an entry (on a real one
neither a NUL nor more than so many bytes). -/
structure Tree where
  /-- What stands where. -/
  entries : Finmap fun _ : Loc => Entry
  /-- The names the file system takes. -/
  accepts : String → Bool
  /-- The root is a directory. -/
  root_dir : entries.lookup [] = some .dir
  /-- Whatever exists stands in a directory. -/
  parent_dir : ∀ {c l}, entries.lookup (c :: l) ≠ none → entries.lookup l = some .dir

namespace Tree

/-- What stands at `l`. -/
def entry (t : Tree) (l : Loc) : Option Entry := t.entries.lookup l

/-- A directory stands at `l`. -/
def IsDir (t : Tree) (l : Loc) : Prop := t.entry l = some .dir

instance (t : Tree) (l : Loc) : Decidable (t.IsDir l) :=
  inferInstanceAs (Decidable (t.entry l = some .dir))

/-- Only the root. -/
def bare (accepts : String → Bool) : Tree where
  entries := Finmap.singleton [] .dir
  accepts := accepts
  root_dir := Finmap.lookup_singleton_eq
  parent_dir := fun {c l} h => by
    rw [ne_eq, Finmap.lookup_eq_none, not_not, Finmap.mem_singleton] at h
    cases h

/-- The content of the file at `l`. -/
def file? (t : Tree) (l : Loc) : Option Bytes :=
  match t.entry l with
  | some (.file data) => some data
  | _ => none

/-- The names that stand in the directory `l`. -/
def children (t : Tree) (l : Loc) : Finset String :=
  (t.entries.keys.filter fun k => k ≠ [] ∧ k.tail = l).image fun k => k.headD ""

theorem ext_entry {t t' : Tree} (he : ∀ l, t.entry l = t'.entry l)
    (ha : t.accepts = t'.accepts) : t = t' := by
  obtain ⟨e, a, _, _⟩ := t
  obtain ⟨e', a', _, _⟩ := t'
  have h : e = e' := Finmap.ext_lookup he
  subst h
  cases ha
  rfl

variable {t : Tree} {l l' d : Loc} {b : Bytes}

theorem IsDir.entry (h : t.IsDir l) : t.entry l = some .dir := h

theorem IsDir.ne_none (h : t.IsDir l) : t.entry l ≠ none := by rw [h.entry]; simp

@[simp] theorem isDir_root (t : Tree) : t.IsDir [] := t.root_dir

theorem isDir_of_entry {c : String} (h : t.entry (c :: l) ≠ none) : t.IsDir l := t.parent_dir h

theorem IsDir.tail (h : t.IsDir l) : t.IsDir l.tail := by
  cases l with
  | nil => exact h
  | cons c l => exact isDir_of_entry h.ne_none

theorem isDir_of_suffix (h : t.entry l ≠ none) (hd : d <:+ l) (hne : d ≠ l) : t.IsDir d := by
  induction l with
  | nil => exact absurd (List.suffix_nil.1 hd) hne
  | cons c l ih =>
    rcases List.suffix_cons_iff.1 hd with rfl | hd
    · exact absurd rfl hne
    · by_cases hdl : d = l
      · exact hdl ▸ isDir_of_entry h
      · exact ih (isDir_of_entry h).ne_none hd hdl

theorem IsDir.of_suffix (h : t.IsDir l) (hd : d <:+ l) : t.IsDir d := by
  by_cases hdl : d = l
  · exact hdl ▸ h
  · exact isDir_of_suffix h.ne_none hd hdl

theorem file?_eq_some : t.file? l = some b ↔ t.entry l = some (.file b) := by
  unfold file?
  split <;> simp_all

theorem file?_eq_none : t.file? l = none ↔ ∀ b, t.entry l ≠ some (.file b) := by
  unfold file?
  split <;> simp_all

theorem mem_children {c : String} : c ∈ t.children l ↔ t.entry (c :: l) ≠ none := by
  simp only [children, Finset.mem_image, Finset.mem_filter, Finmap.mem_keys, entry, ne_eq,
    Finmap.lookup_eq_none, not_not]
  constructor
  · rintro ⟨k, ⟨hk, hne, htl⟩, hc⟩
    obtain ⟨x, k, rfl⟩ := List.exists_cons_of_ne_nil hne
    simp only [List.tail_cons, List.headD_cons] at htl hc
    subst htl hc
    exact hk
  · exact fun h => ⟨c :: l, ⟨h, by simp, rfl⟩, rfl⟩

theorem entry_bare_cons {accepts : String → Bool} {c : String} :
    (bare accepts).entry (c :: l) = none := by
  rw [entry, bare, Finmap.lookup_eq_none, Finmap.mem_singleton]
  simp

/-! ### Changing one place -/

theorem ne_cons_self {c : String} (l : Loc) : l ≠ c :: l := fun h => by
  simpa using congrArg List.length h

theorem ne_of_isDir (hl : t.IsDir l) (hl' : ¬ t.IsDir l') : l ≠ l' := by
  rintro rfl
  exact hl' hl

/-- The tree with a file of content `b` at `l`.  It changes nothing where a file cannot stand:
outside a directory, or in the place of one. -/
def putFile (t : Tree) (l : Loc) (b : Bytes) : Tree :=
  if h : t.IsDir l.tail ∧ ¬ t.IsDir l then
    { entries := t.entries.insert l (.file b)
      accepts := t.accepts
      root_dir := by
        rw [Finmap.lookup_insert_of_ne _ (ne_of_isDir t.isDir_root h.2)]
        exact t.root_dir
      parent_dir := fun {c k} hk => by
        by_cases hkl : k = l
        · subst hkl
          rw [Finmap.lookup_insert_of_ne _ (ne_cons_self k).symm] at hk
          exact absurd (t.parent_dir hk) h.2
        · rw [Finmap.lookup_insert_of_ne _ hkl]
          by_cases hc : c :: k = l
          · subst hc; exact h.1
          · exact t.parent_dir (by rwa [Finmap.lookup_insert_of_ne _ hc] at hk) }
  else t

/-- The tree with a new directory at `l`.  It changes nothing where something stands already or
the directory above is missing. -/
def mkdir (t : Tree) (l : Loc) : Tree :=
  if h : t.IsDir l.tail ∧ t.entry l = none then
    { entries := t.entries.insert l .dir
      accepts := t.accepts
      root_dir := by
        by_cases hl : l = []
        · rw [hl, Finmap.lookup_insert]
        · rw [Finmap.lookup_insert_of_ne _ (Ne.symm hl)]; exact t.root_dir
      parent_dir := fun {c k} hk => by
        by_cases hkl : k = l
        · rw [hkl, Finmap.lookup_insert]
        · rw [Finmap.lookup_insert_of_ne _ hkl]
          by_cases hc : c :: k = l
          · subst hc; exact h.1
          · exact t.parent_dir (by rwa [Finmap.lookup_insert_of_ne _ hc] at hk) }
  else t

/-- The tree without the file at `l`. -/
def remove (t : Tree) (l : Loc) : Tree :=
  if h : ¬ t.IsDir l then
    { entries := t.entries.erase l
      accepts := t.accepts
      root_dir := by
        rw [Finmap.lookup_erase_ne (ne_of_isDir t.isDir_root h)]; exact t.root_dir
      parent_dir := fun {c k} hk => by
        have hne : t.entries.lookup (c :: k) ≠ none := by
          by_cases hc : c :: k = l
          · rw [hc, Finmap.lookup_erase] at hk; exact absurd rfl hk
          · rwa [Finmap.lookup_erase_ne hc] at hk
        have hk' : t.IsDir k := t.parent_dir hne
        rw [Finmap.lookup_erase_ne (ne_of_isDir hk' h)]
        exact hk' }
  else t

@[simp] theorem accepts_putFile : (t.putFile l b).accepts = t.accepts := by
  unfold putFile; split <;> rfl

@[simp] theorem accepts_mkdir : (t.mkdir l).accepts = t.accepts := by
  unfold mkdir; split <;> rfl

@[simp] theorem accepts_remove : (t.remove l).accepts = t.accepts := by
  unfold remove; split <;> rfl

theorem entry_putFile_of_ne (h : l' ≠ l) : (t.putFile l b).entry l' = t.entry l' := by
  unfold putFile
  split
  · exact Finmap.lookup_insert_of_ne _ h
  · rfl

theorem entry_mkdir_of_ne (h : l' ≠ l) : (t.mkdir l).entry l' = t.entry l' := by
  unfold mkdir
  split
  · exact Finmap.lookup_insert_of_ne _ h
  · rfl

theorem entry_remove_of_ne (h : l' ≠ l) : (t.remove l).entry l' = t.entry l' := by
  unfold remove
  split
  · exact Finmap.lookup_erase_ne h
  · rfl

theorem entry_putFile_self (hd : t.IsDir l.tail) (hl : ¬ t.IsDir l) :
    (t.putFile l b).entry l = some (.file b) := by
  unfold putFile
  rw [dif_pos ⟨hd, hl⟩]
  exact Finmap.lookup_insert _

theorem entry_mkdir_self (hd : t.IsDir l.tail) (hl : t.entry l = none) :
    (t.mkdir l).entry l = some .dir := by
  unfold mkdir
  rw [dif_pos ⟨hd, hl⟩]
  exact Finmap.lookup_insert _

theorem entry_remove_self (hl : ¬ t.IsDir l) : (t.remove l).entry l = none := by
  unfold remove
  rw [dif_pos hl]
  exact Finmap.lookup_erase _ _

theorem putFile_putFile {b' : Bytes} : (t.putFile l b).putFile l b' = t.putFile l b' := by
  by_cases h : t.IsDir l.tail ∧ ¬ t.IsDir l
  · have hd : (t.putFile l b).IsDir l.tail := by
      rw [IsDir, entry_putFile_of_ne (ne_of_isDir h.1 h.2)]
      exact h.1
    have hl : ¬ (t.putFile l b).IsDir l := by
      rw [IsDir, entry_putFile_self h.1 h.2]
      simp
    refine ext_entry (fun k => ?_) (by simp)
    by_cases hk : k = l
    · subst hk
      rw [entry_putFile_self hd hl, entry_putFile_self h.1 h.2]
    · rw [entry_putFile_of_ne hk, entry_putFile_of_ne hk, entry_putFile_of_ne hk]
  · have hid : ∀ x, t.putFile l x = t := fun x => dif_neg h
    rw [hid, hid]

theorem file?_putFile_self (hd : t.IsDir l.tail) (hl : ¬ t.IsDir l) :
    (t.putFile l b).file? l = some b :=
  file?_eq_some.2 (entry_putFile_self hd hl)

theorem file?_putFile_of_ne (h : l' ≠ l) : (t.putFile l b).file? l' = t.file? l' := by
  rw [file?, file?, entry_putFile_of_ne h]

theorem file?_remove_of_ne (h : l' ≠ l) : (t.remove l).file? l' = t.file? l' := by
  rw [file?, file?, entry_remove_of_ne h]

theorem file?_remove_self : (t.remove l).file? l = none := by
  by_cases hl : t.IsDir l
  · have hid : t.remove l = t := dif_neg (not_not.2 hl)
    rw [hid, file?, hl.entry]
  · rw [file?, entry_remove_self hl]

theorem isDir_putFile : (t.putFile l b).IsDir l' ↔ t.IsDir l' := by
  by_cases h : l' = l
  · subst h
    by_cases hp : t.IsDir l'.tail ∧ ¬ t.IsDir l'
    · simp [IsDir, entry_putFile_self hp.1 hp.2, show t.entry l' ≠ some .dir from hp.2]
    · unfold putFile; rw [dif_neg hp]
  · rw [IsDir, IsDir, entry_putFile_of_ne h]

theorem isDir_remove : (t.remove l).IsDir l' ↔ t.IsDir l' := by
  by_cases h : l' = l
  · subst h
    by_cases hp : t.IsDir l'
    · unfold remove; rw [dif_neg (not_not.2 hp)]
    · simp [IsDir, entry_remove_self hp, show t.entry l' ≠ some .dir from hp]
  · rw [IsDir, IsDir, entry_remove_of_ne h]

theorem isDir_mkdir_of_isDir (h : t.IsDir l') : (t.mkdir l).IsDir l' := by
  by_cases he : l' = l
  · subst he
    unfold mkdir
    split
    · rename_i hp; exact absurd hp.2 h.ne_none
    · exact h
  · rwa [IsDir, entry_mkdir_of_ne he]

theorem file?_mkdir : (t.mkdir l).file? l' = t.file? l' := by
  unfold file?
  by_cases h : l' = l
  · subst h
    by_cases hp : t.IsDir l'.tail ∧ t.entry l' = none
    · simp [entry_mkdir_self hp.1 hp.2, hp.2]
    · unfold mkdir; rw [dif_neg hp]
  · rw [entry_mkdir_of_ne h]

end Tree

/-! ### Paths -/

/-- An absolute path as it is written: its components from the root on, the empty ones and the
dots included. -/
abbrev PathBuf := List String

/-- The components of a string, cut at every slash. -/
def components (s : String) : List String := (s.toList.splitOn '/').map String.ofList

/-- `c` names an entry of its directory; the other components lead to the directory itself or
to the one above. -/
def Plain (c : String) : Prop := c ≠ "" ∧ c ≠ "." ∧ c ≠ ".."

instance (c : String) : Decidable (Plain c) := inferInstanceAs (Decidable (_ ∧ _ ∧ _))

/-- Follow one component. -/
def stepTo (l : Loc) (c : String) : Loc :=
  if c = "" ∨ c = "." then l else if c = ".." then l.tail else c :: l

theorem stepTo_of_plain {l : Loc} {c : String} (h : Plain c) : stepTo l c = c :: l := by
  simp [stepTo, h.1, h.2.1, h.2.2]

theorem components_of_no_slash {s : String} (h : '/' ∉ s.toList) : components s = [s] := by
  simp [components, List.splitOn_eq_singleton h]

namespace PathBuf

/-- Append a string to a path; an absolute string replaces it. -/
def join (p : PathBuf) (s : String) : PathBuf :=
  if s.toList.head? = some '/' then components s else p ++ components s

/-- The place a path names when each of its components is followed. -/
def norm (p : PathBuf) : Loc := p.foldl stepTo []

theorem norm_append (p q : PathBuf) : norm (p ++ q) = q.foldl stepTo (norm p) :=
  List.foldl_append

theorem join_of_no_slash {p : PathBuf} {s : String} (h : '/' ∉ s.toList) :
    p.join s = p ++ [s] := by
  have hne : s.toList.head? ≠ some '/' := fun e => h (List.mem_of_head? e)
  rw [join, if_neg hne, components_of_no_slash h]

theorem norm_join {p : PathBuf} {s : String} (h : '/' ∉ s.toList) (hp : Plain s) :
    norm (p.join s) = s :: norm p := by
  rw [join_of_no_slash h, norm_append]
  exact stepTo_of_plain hp

/-- No component leads upwards. -/
def Downward (p : PathBuf) : Prop := ∀ c ∈ p, c ≠ ".."

instance (p : PathBuf) : Decidable (Downward p) :=
  inferInstanceAs (Decidable (∀ c ∈ p, c ≠ ".."))

theorem Downward.join {p : PathBuf} {s : String} (hp : Downward p) (h : '/' ∉ s.toList)
    (hs : Plain s) : Downward (p.join s) := by
  rw [join_of_no_slash h]
  intro c hc
  rcases List.mem_append.1 hc with hc | hc
  · exact hp c hc
  · rw [List.mem_singleton.1 hc]
    exact hs.2.2

theorem norm_reverse {l : Loc} (h : ∀ c ∈ l, Plain c) : norm l.reverse = l := by
  induction l with
  | nil => rfl
  | cons c l ih =>
    rw [List.reverse_cons, norm_append, ih fun x hx => h x (List.mem_cons_of_mem _ hx)]
    exact stepTo_of_plain (h c List.mem_cons_self)

end PathBuf

namespace Tree

variable {t t' : Tree} {l l' : Loc} {p q : PathBuf}

/-- Follow a path from `l`: every place that is left must be a directory. -/
def walk (t : Tree) (l : Loc) : PathBuf → Except OsError Loc
  | [] => .ok l
  | c :: cs =>
    match t.entry l with
    | some .dir => walk t (stepTo l c) cs
    | some (.file _) => .error .notADirectory
    | none => .error .notFound

/-- The file system takes every name of the path. -/
def named (t : Tree) (p : PathBuf) : Bool := p.all fun c => !decide (Plain c) || t.accepts c

/-- The place a path leads to.  It need not exist, but the directory it stands in does. -/
def resolve (t : Tree) (p : PathBuf) : Except OsError Loc :=
  if t.named p then t.walk [] p else .error .invalidName

/-- The place of a path at which a file can be created. -/
def place (t : Tree) (p : PathBuf) : Except OsError Loc :=
  match t.resolve p with
  | .error e => .error e
  | .ok l => if t.IsDir l then .error .isADirectory else .ok l

theorem walk_norm (h : t.walk l p = .ok l') : l' = p.foldl stepTo l := by
  induction p generalizing l with
  | nil => simpa [walk] using h.symm
  | cons c cs ih =>
    simp only [walk] at h
    split at h
    · exact ih h
    all_goals cases h

theorem walk_isDir_tail (hl : t.IsDir l.tail) (h : t.walk l p = .ok l') : t.IsDir l'.tail := by
  induction p generalizing l with
  | nil =>
    simp only [walk, Except.ok.injEq] at h
    exact h ▸ hl
  | cons c cs ih =>
    simp only [walk] at h
    split at h
    · rename_i hd
      refine ih ?_ h
      unfold stepTo
      split_ifs
      · exact hl
      · exact hl.tail
      · exact hd
    all_goals cases h

theorem walk_append : t.walk l (p ++ q) = (t.walk l p).bind fun k => t.walk k q := by
  induction p generalizing l with
  | nil => rfl
  | cons c cs ih =>
    simp only [List.cons_append, walk]
    split
    · exact ih
    all_goals rfl

@[simp] theorem named_append : t.named (p ++ q) = (t.named p && t.named q) := by
  simp [named]

theorem resolve_ok : t.resolve p = .ok l ↔ t.named p = true ∧ t.walk [] p = .ok l := by
  unfold resolve
  split <;> simp_all

theorem resolve_norm (h : t.resolve p = .ok l) : l = p.norm := walk_norm (resolve_ok.1 h).2

theorem resolve_isDir_tail (h : t.resolve p = .ok l) : t.IsDir l.tail :=
  walk_isDir_tail (l := []) t.isDir_root (resolve_ok.1 h).2

theorem place_ok : t.place p = .ok l ↔ t.resolve p = .ok l ∧ ¬ t.IsDir l := by
  unfold place
  split
  · rename_i h; simp [h]
  · rename_i l₁ h
    simp only [h, Except.ok.injEq]
    split
    · rename_i hd; constructor
      · intro h'; cases h'
      · rintro ⟨rfl, hn⟩; exact absurd hd hn
    · rename_i hd; constructor
      · intro h'; cases h'; exact ⟨rfl, hd⟩
      · rintro ⟨rfl, _⟩; rfl

theorem place_norm (h : t.place p = .ok l) : l = p.norm := resolve_norm (place_ok.1 h).1

theorem resolve_join {d : Loc} {s : String} (h : t.resolve p = .ok d) (hd : t.IsDir d)
    (hs : '/' ∉ s.toList) (hp : Plain s) (ha : t.accepts s = true) :
    t.resolve (p.join s) = .ok (s :: d) := by
  obtain ⟨hn, hw⟩ := resolve_ok.1 h
  rw [PathBuf.join_of_no_slash hs, resolve_ok, walk_append, hw]
  refine ⟨?_, ?_⟩
  · rw [named_append, hn]
    simp [named, ha]
  · simp [Except.bind, walk, hd.entry, stepTo_of_plain hp]

theorem resolve_of_join {s : String} (h : t.resolve (p.join s) = .ok l) (hs : '/' ∉ s.toList)
    (hp : Plain s) :
    ∃ d, l = s :: d ∧ t.resolve p = .ok d ∧ t.IsDir d ∧ t.accepts s = true := by
  rw [PathBuf.join_of_no_slash hs, resolve_ok, walk_append] at h
  obtain ⟨hn, hw⟩ := h
  rw [named_append, Bool.and_eq_true] at hn
  cases hwp : t.walk [] p with
  | error e => rw [hwp] at hw; cases hw
  | ok d =>
    rw [hwp] at hw
    simp only [Except.bind, walk] at hw
    split at hw
    · rename_i hd
      rw [stepTo_of_plain hp, Except.ok.injEq] at hw
      exact ⟨d, hw.symm, resolve_ok.2 ⟨hn.1, hwp⟩, hd, by simpa [named, hp] using hn.2⟩
    all_goals cases hw

/-! ### Paths that only lead downwards -/

theorem suffix_foldl_stepTo (hp : PathBuf.Downward p) (l : Loc) : l <:+ p.foldl stepTo l := by
  induction p generalizing l with
  | nil => exact List.suffix_rfl
  | cons c cs ih =>
    have hcs : PathBuf.Downward cs := fun x hx => hp x (List.mem_cons_of_mem _ hx)
    have hstep : l <:+ stepTo l c := by
      unfold stepTo
      split_ifs with h₁ h₂
      · exact List.suffix_rfl
      · exact absurd h₂ (hp c List.mem_cons_self)
      · exact List.suffix_cons c l
    exact hstep.trans (ih hcs _)

theorem norm_suffix_of_prefix (hp : PathBuf.Downward p) (hq : q <+: p) : q.norm <:+ p.norm := by
  obtain ⟨r, rfl⟩ := hq
  rw [PathBuf.norm_append]
  exact suffix_foldl_stepTo (fun c hc => hp c (List.mem_append_right _ hc)) _

theorem resolve_of_isDir (hp : PathBuf.Downward p) (hn : t.named p = true) (hd : t.IsDir p.norm) :
    t.resolve p = .ok p.norm := by
  have key : ∀ (q : PathBuf) (l : Loc), PathBuf.Downward q → t.IsDir (q.foldl stepTo l) →
      t.walk l q = .ok (q.foldl stepTo l) := by
    intro q
    induction q with
    | nil => exact fun l _ _ => rfl
    | cons c cs ih =>
      intro l hq hdir
      have hl : t.IsDir l := hdir.of_suffix (suffix_foldl_stepTo hq l)
      simp only [walk, hl.entry]
      exact ih _ (fun x hx => hq x (List.mem_cons_of_mem _ hx)) hdir
  exact resolve_ok.2 ⟨hn, key p [] hp hd⟩

theorem resolve_join_iff {s : String} (hp : PathBuf.Downward p) (hs : '/' ∉ s.toList)
    (hs' : Plain s) :
    t.resolve (p.join s) = .ok l ↔
      t.named p = true ∧ t.accepts s = true ∧ t.IsDir p.norm ∧ l = s :: p.norm := by
  constructor
  · intro h
    obtain ⟨d, rfl, hd, hdir, ha⟩ := resolve_of_join h hs hs'
    obtain rfl := resolve_norm hd
    exact ⟨(resolve_ok.1 hd).1, ha, hdir, rfl⟩
  · rintro ⟨hn, ha, hd, rfl⟩
    exact resolve_join (resolve_of_isDir hp hn hd) hd hs hs' ha

/-! ### Growing trees -/

/-- `t'` still has every directory of `t` and takes the same names: what file operations do. -/
structure Grows (t t' : Tree) : Prop where
  isDir : ∀ {l}, t.IsDir l → t'.IsDir l
  accepts : t'.accepts = t.accepts

@[refl] theorem Grows.refl (t : Tree) : t.Grows t := ⟨fun h => h, rfl⟩

theorem Grows.trans {t₁ t₂ t₃ : Tree} (h : t₁.Grows t₂) (h' : t₂.Grows t₃) : t₁.Grows t₃ :=
  ⟨fun hl => h'.isDir (h.isDir hl), h'.accepts.trans h.accepts⟩

theorem Grows.walk (hg : t.Grows t') (h : t.walk l p = .ok l') : t'.walk l p = .ok l' := by
  induction p generalizing l with
  | nil => exact h
  | cons c cs ih =>
    simp only [Tree.walk] at h ⊢
    split at h
    · rename_i hd
      rw [(hg.isDir hd).entry]
      exact ih h
    all_goals cases h

theorem Grows.resolve (hg : t.Grows t') (h : t.resolve p = .ok l) : t'.resolve p = .ok l := by
  obtain ⟨hn, hw⟩ := resolve_ok.1 h
  exact resolve_ok.2 ⟨by simpa [named, hg.accepts] using hn, hg.walk hw⟩

theorem grows_putFile {b : Bytes} : t.Grows (t.putFile l b) :=
  ⟨fun h => isDir_putFile.2 h, accepts_putFile⟩

theorem grows_mkdir : t.Grows (t.mkdir l) := ⟨isDir_mkdir_of_isDir, accepts_mkdir⟩

theorem grows_remove : t.Grows (t.remove l) := ⟨fun h => isDir_remove.2 h, accepts_remove⟩

/-- `t'` has exactly the directories of `t`: what operations on files do. -/
structure SameDirs (t t' : Tree) : Prop where
  isDir : ∀ l, t'.IsDir l ↔ t.IsDir l
  accepts : t'.accepts = t.accepts

@[refl] theorem SameDirs.refl (t : Tree) : t.SameDirs t := ⟨fun _ => Iff.rfl, rfl⟩

theorem SameDirs.symm (h : t.SameDirs t') : t'.SameDirs t :=
    ⟨fun l => (h.isDir l).symm, h.accepts.symm⟩

theorem SameDirs.trans {t₁ t₂ t₃ : Tree} (h : t₁.SameDirs t₂) (h' : t₂.SameDirs t₃) :
    t₁.SameDirs t₃ :=
  ⟨fun l => (h'.isDir l).trans (h.isDir l), h'.accepts.trans h.accepts⟩

theorem SameDirs.grows (h : t.SameDirs t') : t.Grows t' := ⟨fun hl => (h.isDir _).2 hl, h.accepts⟩

/-- Where a file can be created depends on the directories only. -/
theorem SameDirs.place (h : t.SameDirs t') (hp : t.place p = .ok l) : t'.place p = .ok l := by
  obtain ⟨hr, hl⟩ := place_ok.1 hp
  exact place_ok.2 ⟨h.grows.resolve hr, fun hd => hl ((h.isDir l).1 hd)⟩

theorem sameDirs_putFile {b : Bytes} : t.SameDirs (t.putFile l b) :=
  ⟨fun _ => isDir_putFile, accepts_putFile⟩

theorem sameDirs_remove : t.SameDirs (t.remove l) := ⟨fun _ => isDir_remove, accepts_remove⟩

end Tree

end FileTree
