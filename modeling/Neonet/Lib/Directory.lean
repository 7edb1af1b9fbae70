import Mathlib.Logic.Function.Basic
import Neonet.Lib.FileOps

/-!
# A directory as a map from names to contents

A directory without subdirectories is a map from names to byte strings, and the file operations in
it are updates of that map.

* `Tree.Lists t p f` : what stands in the directory of `p` are the files of `f`.
* `Tree.putFiles`, `contents` : a directory with some files.
* `Lists.write`, `Lists.replaceFile`, `Lists.createDirAll` : a successful operation updates `f`.
* `Lists.hasFile`, `Lists.readEntry`, `Lists.readDir` : what is read is what `f` says.
-/

namespace FileTree

open FsM

/-- What stands in the directory of `p` are the files of `f`, under names that the file system
takes. -/
structure Tree.Lists (t : Tree) (p : PathBuf) (f : String → Option Bytes) : Prop where
  entry : ∀ c, t.entry (c :: p.norm) = (f c).map Entry.file
  accepted : ∀ c, f c ≠ none → t.accepts c = true

/-- The tree with these files in a directory. -/
def Tree.putFiles (t : Tree) (d : Loc) (files : List (String × Bytes)) : Tree :=
  files.foldl (fun t c => t.putFile (c.1 :: d) c.2) t

theorem Tree.grows_putFiles {t : Tree} (d : Loc) (files : List (String × Bytes)) :
    t.Grows (t.putFiles d files) := by
  induction files generalizing t with
  | nil => exact Tree.Grows.refl t
  | cons file files ih => exact (grows_putFile (l := file.1 :: d) (b := file.2)).trans ih

theorem Tree.entry_putFiles {t : Tree} {d l : Loc} {files : List (String × Bytes)}
    (h : ∀ c, l ≠ c :: d) : (t.putFiles d files).entry l = t.entry l := by
  induction files generalizing t with
  | nil => rfl
  | cons file files ih => exact ih.trans (entry_putFile_of_ne (h file.1))

/-- The names and contents of these files. -/
def contents (files : List (String × Bytes)) (f : String → Option Bytes) : String → Option Bytes :=
  files.foldl (fun f c => Function.update f c.1 (some c.2)) f

theorem contents_ne_none {files : List (String × Bytes)} {f : String → Option Bytes} {c : String} :
    contents files f c ≠ none ↔ c ∈ files.map Prod.fst ∨ f c ≠ none := by
  induction files generalizing f with
  | nil => simp [contents]
  | cons file files ih =>
    have hstep : contents (file :: files) f =
        contents files (Function.update f file.1 (some file.2)) := rfl
    rw [hstep, ih, List.map_cons, List.mem_cons]
    by_cases hc : c = file.1
    · rw [hc, Function.update_self]
      simp
    · rw [Function.update_of_ne hc]
      simp [hc]

namespace Tree.Lists

variable {ε : Type} [OfOs ε] {t t' : Tree} {p : PathBuf} {f : String → Option Bytes} {b : Bytes}
  {s s' : String}

omit [OfOs ε] in
theorem putFile (h : t.Lists p f) (hd : t.IsDir p.norm) (ha : t.accepts s = true) :
    (t.putFile (s :: p.norm) b).Lists p (Function.update f s (some b)) := by
  have hnot : ¬ t.IsDir (s :: p.norm) := by
    rw [IsDir, h.entry]
    cases f s <;> simp
  refine ⟨fun c => ?_, fun c hc => ?_⟩
  · by_cases hcs : c = s
    · subst hcs
      rw [entry_putFile_self hd hnot, Function.update_self]
      rfl
    · rw [entry_putFile_of_ne (by simpa using hcs), h.entry, Function.update_of_ne hcs]
  · rw [accepts_putFile]
    by_cases hcs : c = s
    · exact hcs ▸ ha
    · rw [Function.update_of_ne hcs] at hc
      exact h.accepted c hc

omit [OfOs ε] in
theorem putFiles (h : t.Lists p f) (files : List (String × Bytes)) (hd : t.IsDir p.norm)
    (ha : ∀ c ∈ files, t.accepts c.1 = true) :
    (t.putFiles p.norm files).Lists p (contents files f) := by
  induction files generalizing t f with
  | nil => exact h
  | cons file files ih =>
    refine ih (h.putFile hd (ha file List.mem_cons_self)) (Tree.isDir_putFile.2 hd) fun c hc => ?_
    rw [accepts_putFile]
    exact ha c (List.mem_cons_of_mem _ hc)

omit [OfOs ε] in
theorem remove (h : t.Lists p f) : (t.remove (s :: p.norm)).Lists p (Function.update f s none) := by
  have hnot : ¬ t.IsDir (s :: p.norm) := by
    rw [IsDir, h.entry]
    cases f s <;> simp
  refine ⟨fun c => ?_, fun c hc => ?_⟩
  · by_cases hcs : c = s
    · subst hcs
      rw [entry_remove_self hnot, Function.update_self]
      rfl
    · rw [entry_remove_of_ne (by simpa using hcs), h.entry, Function.update_of_ne hcs]
  · rw [accepts_remove]
    by_cases hcs : c = s
    · rw [hcs, Function.update_self] at hc
      exact absurd rfl hc
    · rw [Function.update_of_ne hcs] at hc
      exact h.accepted c hc

/-- A file is written. -/
theorem write (h : t.Lists p f) (hs : '/' ∉ s.toList) (hs' : Plain s)
    (hw : (write (p.join s) b : FsM ε Unit) t = (.ok (), t')) :
    t'.Lists p (Function.update f s (some b)) := by
  obtain ⟨l, hl, rfl⟩ := write_ok.1 hw
  obtain ⟨d, rfl, hd, hdir, ha⟩ := resolve_of_join (place_ok.1 hl).1 hs hs'
  obtain rfl := resolve_norm hd
  exact h.putFile hdir ha

theorem rename (h : t.Lists p f) (hs : '/' ∉ s.toList) (hs' : Plain s) (hd : '/' ∉ s'.toList)
    (hd' : Plain s') (hr : (rename (p.join s) (p.join s') : FsM ε Unit) t = (.ok (), t')) :
    t'.Lists p (Function.update (Function.update f s none) s' (f s)) := by
  obtain ⟨l, b, l', hl, hentry, hl', rfl⟩ := rename_ok.1 hr
  obtain ⟨d, rfl, hld, hdir, -⟩ := resolve_of_join hl hs hs'
  obtain rfl := resolve_norm hld
  obtain ⟨d', rfl, hld', -, ha⟩ := resolve_of_join (place_ok.1 hl').1 hd hd'
  obtain rfl := resolve_norm hld'
  have hb : f s = some b := by
    rw [h.entry] at hentry
    simpa using hentry
  rw [hb]
  exact h.remove.putFile (isDir_remove.2 hdir) (by rw [accepts_remove]; exact ha)

/-- A file is replaced by way of a temporary one. -/
theorem replaceFile (h : t.Lists p f) (hs : '/' ∉ s.toList) (hs' : Plain s)
    {tmp : String} (htmp : '/' ∉ tmp.toList) (htmp' : Plain tmp)
    (hr : (replaceFile (p.join tmp) (p.join s) b : FsM ε Unit) t = (.ok (), t')) :
    t'.Lists p (Function.update (Function.update f tmp none) s (some b)) := by
  obtain ⟨_, t₁, hw, hren⟩ := bind_ok.1 hr
  have h₂ := (h.write htmp htmp' hw).rename htmp htmp' hs hs' hren
  rwa [Function.update_self, Function.update_idem] at h₂

omit [OfOs ε] in
theorem hasFile (h : t.Lists p f) (hd : t.HasDir p) (hs : '/' ∉ s.toList) (hs' : Plain s)
    (hf : f s = some b) : t.HasFile (p.join s) b := by
  rw [HasFile, PathBuf.norm_join hs hs']
  refine ⟨resolve_join hd.1 hd.2 hs hs' (h.accepted s (by rw [hf]; simp)), ?_⟩
  rw [file?_eq_some, h.entry, hf]
  rfl

theorem write_accepted (h : t.Lists p f) (hd : t.HasDir p) (hs : '/' ∉ s.toList) (hs' : Plain s)
    (ha : t.accepts s = true) :
    ∃ t', (FileTree.write (p.join s) b : FsM ε Unit) t = (.ok (), t') := by
  have hnot : ¬ t.IsDir (s :: p.norm) := by
    rw [IsDir, h.entry]
    cases f s <;> simp
  have hplace : t.place (p.join s) = .ok (s :: p.norm) :=
    place_ok.2 ⟨resolve_join hd.1 hd.2 hs hs' ha, hnot⟩
  rw [FileTree.write, hplace]
  exact ⟨_, rfl⟩

theorem rename_accepted (h : t.Lists p f) (hd : t.HasDir p) (hs : '/' ∉ s.toList) (hs' : Plain s)
    (hn : '/' ∉ s'.toList) (hn' : Plain s') (hf : f s = some b) (ha : t.accepts s' = true) :
    ∃ t', (FileTree.rename (p.join s) (p.join s') : FsM ε Unit) t = (.ok (), t') := by
  have hfile := h.hasFile hd hs hs' hf
  have hnot : ¬ t.IsDir (s' :: p.norm) := by
    rw [IsDir, h.entry]
    cases f s' <;> simp
  refine ⟨_, rename_ok.2 ⟨_, b, s' :: p.norm, hfile.1, file?_eq_some.1 hfile.2, ?_, rfl⟩⟩
  exact place_ok.2 ⟨resolve_join hd.1 hd.2 hn hn' ha, hnot⟩

theorem replaceFile_accepted {tmp : String} (h : t.Lists p f) (hd : t.HasDir p)
    (hs : '/' ∉ s.toList) (hs' : Plain s) (htmp : '/' ∉ tmp.toList) (htmp' : Plain tmp)
    (ha : t.accepts s = true) (ha' : t.accepts tmp = true) :
    ∃ t', (FileTree.replaceFile (p.join tmp) (p.join s) b : FsM ε Unit) t = (.ok (), t') := by
  obtain ⟨t₁, hwrite⟩ := h.write_accepted (ε := ε) (b := b) hd htmp htmp' ha'
  have hgrows := (touches_write (ε := ε) (p := p.join tmp) (b := b) t).grows
  rw [hwrite] at hgrows
  obtain ⟨t₂, hrename⟩ := (h.write htmp htmp' hwrite).rename_accepted (ε := ε) (b := b)
    (hd.grows hgrows) htmp htmp' hs hs' (Function.update_self ..) (by rw [hgrows.accepts]; exact ha)
  exact ⟨t₂, by rw [FileTree.replaceFile, bind_of_ok hwrite, hrename]⟩

/-- Creating the directory, which may exist already, does not fill it. -/
theorem createDirAll (h : t.Lists p f) (hp : p.Downward)
    (hc : (createDirAll p : FsM ε Unit) t = (.ok (), t')) : t'.Lists p f ∧ t'.HasDir p := by
  refine ⟨⟨fun c => ?_, fun c hf => ?_⟩, hasDir_of_createDirAll hc⟩
  · obtain ⟨hok, hbad⟩ := createDirAll_downward (ε := ε) (t := t) hp
    by_cases hcond : t.named p = true ∧ ∀ k, k <:+ p.norm → t.file? k = none
    · have hentry := (hok hcond).2 (c :: p.norm)
      rw [hc] at hentry
      rw [hentry, if_neg, h.entry]
      intro hsuffix
      have := hsuffix.length_le
      rw [List.length_cons] at this
      omega
    · obtain ⟨e, he⟩ := hbad hcond
      rw [he] at hc
      cases hc
  · have := accepts_createDirAll (ε := ε) (p := p) (t := t)
    rw [hc] at this
    rw [this]
    exact h.accepted c hf

theorem readEntry (h : t.Lists p f) (hd : t.HasDir p) (hf : f s = some b) :
    (readEntry p s : FsM ε Bytes) t = (.ok b, t) := by
  unfold FileTree.readEntry
  rw [hd.1]
  dsimp only
  rw [h.entry, hf]
  rfl

omit [OfOs ε] in
theorem coe_children (h : t.Lists p f) : (t.children p.norm : Set String) = {c | f c ≠ none} := by
  ext c
  rw [Finset.mem_coe, mem_children, h.entry, Set.mem_ofPred_eq]
  cases f c <;> simp

/-- A listing names each file once. -/
theorem readDir (h : t.Lists p f) (hd : t.HasDir p) {order : Finset String → List String}
    (horder : ListsAll order) :
    ∃ names, (readDir order p : FsM ε (List String)) t = (.ok names, t) ∧ names.Nodup ∧
      ∀ c, c ∈ names ↔ f c ≠ none := by
  refine ⟨order (t.children p.norm), ?_, (horder _).1, fun c => ?_⟩
  · unfold FileTree.readDir
    rw [hd.1]
    dsimp only
    rw [if_pos hd.2]
  · rw [(horder _).2, mem_children, h.entry]
    cases f c <;> simp

end Tree.Lists

end FileTree
