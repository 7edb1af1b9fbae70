import Neonet.Lib.Codec
import Neonet.Lib.FileOps

/-!
# Values that are kept in files

* `Tree.content` : the content of the file that a path leads to.
* `Tree.content_append` : **what is appended stands at the end of it.**
* `saved` : the value that is kept at a path, if one can be decoded.
* `saved_replaceFile` : what was written last is what is kept.
* `saved_of_frame` : a program that writes elsewhere leaves it alone, and
  `saved_of_replaceFile_error` a replacement that failed.
* `keepIn` : a value is kept in a directory, which is created if it is missing.
* `keepIn_ok_iff` : **this succeeds iff nothing is in the way**, and `keeps_keepIn_iff` as often as
  it is done.
* `Tree.Calm` : what puts nothing in the way of it.
-/

namespace FileTree

open FsM

variable {ε : Type} [OfOs ε] {α : Type*} {C : Codec α} {a : α} {p q tmp : PathBuf} {s : String}
  {t t' : Tree} {b : Bytes} {S : Set Loc}

/-- The content of the file that the path leads to. -/
def Tree.content (t : Tree) (p : PathBuf) : Option Bytes :=
  match t.resolve p with
  | .ok l => t.file? l
  | .error _ => none

theorem Tree.content_eq_some : t.content p = some b ↔ t.HasFile p b := by
  rw [Tree.content, Tree.HasFile]
  cases h : t.resolve p with
  | error e => simp
  | ok l =>
    obtain rfl := Tree.resolve_norm h
    simp

theorem toOption_read : ((read p : FsM ε Bytes) t).1.toOption = t.content p :=
  Option.ext fun _ => toOption_read_eq_some.trans Tree.content_eq_some.symm

theorem Tree.content_join_congr (hp : PathBuf.Downward p) (hs : '/' ∉ s.toList) (hs' : Plain s)
    (ha : t'.accepts = t.accepts) (hf : t'.file? (p.join s).norm = t.file? (p.join s).norm) :
    t'.content (p.join s) = t.content (p.join s) := by
  rw [PathBuf.norm_join hs hs'] at hf
  refine Option.ext fun b => ?_
  rw [content_eq_some, content_eq_some, hasFile_join_iff hp hs hs', hasFile_join_iff hp hs hs',
    Tree.named, Tree.named, ha, hf]

theorem Tree.content_of_frame (h : Frame S t t') (hp : PathBuf.Downward p) (hs : '/' ∉ s.toList)
    (hs' : Plain s) (hS : (p.join s).norm ∉ S) : t'.content (p.join s) = t.content (p.join s) :=
  content_join_congr hp hs hs' h.grows.accepts (h.file? _ hS)

/-- What is appended stands at the end. -/
theorem Tree.content_append (h : (append p b : FsM ε Unit) t = (.ok (), t')) :
    t'.content p = some ((t.content p).getD [] ++ b) := by
  rw [append] at h
  split at h
  · cases h
  · rename_i l hl
    obtain ⟨-, rfl⟩ := Prod.mk.inj h
    rw [content_eq_some.2 (hasFile_putFile hl), content, (place_ok.1 hl).1]

/-- The value that is kept at the path. -/
def saved (C : Codec α) (p : PathBuf) (t : Tree) : Option α :=
  (t.content p).bind fun b => (C.decode b).toOption

theorem saved_of_hasFile (h : t.HasFile p (C.encode a)) : saved C p t = some a := by
  rw [saved, Tree.content_eq_some.2 h, Option.bind_some, C.decode_encode]
  rfl

/-- **What was written last is what is kept.** -/
theorem saved_replaceFile (h : replaceFile tmp p (C.encode a) t = ((.ok () : Except ε Unit), t')) :
    saved C p t' = some a := by
  rcases replaceFile_cases h with ⟨-, hfile, -⟩ | ⟨⟨e, he⟩, -⟩
  · exact saved_of_hasFile hfile
  · cases he

/-- What is written elsewhere does not change it. -/
theorem saved_of_frame (h : Frame S t t') (hp : PathBuf.Downward p) (hs : '/' ∉ s.toList)
    (hs' : Plain s) (hS : (p.join s).norm ∉ S) : saved C (p.join s) t' = saved C (p.join s) t := by
  rw [saved, saved, Tree.content_of_frame h hp hs hs' hS]

/-- A file that could not be replaced is what it was. -/
theorem saved_of_replaceFile_error {e : ε} (hp : PathBuf.Downward p) (hs : '/' ∉ s.toList)
    (hs' : Plain s) (hne : tmp.norm ≠ (p.join s).norm)
    (h : replaceFile tmp (p.join s) b t = (.error e, t')) :
    saved C (p.join s) t' = saved C (p.join s) t := by
  rcases replaceFile_cases h with ⟨hok, -⟩ | ⟨-, hframe⟩
  · cases hok
  · exact saved_of_frame hframe hp hs hs' fun hmem => hne (Set.mem_singleton_iff.1 hmem).symm

/-! ### A file in a directory of its own -/

/-- The directory is created if it is missing, and the file replaced by way of a temporary one. -/
def keepIn (p : PathBuf) (tmp s : String) (b : Bytes) : FsM ε Unit := do
  createDirAll p
  replaceFile (p.join tmp) (p.join s) b

/-- Nothing is in the way of the directory and the two files. -/
structure Tree.Keeps (t : Tree) (p : PathBuf) (tmp s : String) : Prop where
  named : t.named p = true
  free : ∀ k, k <:+ p.norm → t.file? k = none
  accepts_tmp : t.accepts tmp = true
  accepts : t.accepts s = true
  not_isDir_tmp : ¬ t.IsDir (tmp :: p.norm)
  not_isDir : ¬ t.IsDir (s :: p.norm)

/-- From `t` to `t'` nothing gets into the way of what is written beneath `d`: no file on the way to
`d`, and no directory elsewhere. -/
structure Tree.Calm (d : Loc) (t t' : Tree) : Prop where
  accepts : t'.accepts = t.accepts
  file? : ∀ k, k <:+ d → t'.file? k = t.file? k
  isDir : ∀ l, ¬ l <:+ d → t'.IsDir l → t.IsDir l

theorem Tree.Calm.trans {d : Loc} {t'' : Tree} (h : Tree.Calm d t t') (h' : Tree.Calm d t' t'') :
    Tree.Calm d t t'' where
  accepts := h'.accepts.trans h.accepts
  file? k hk := (h'.file? k hk).trans (h.file? k hk)
  isDir l hl hd := h.isDir l hl (h'.isDir l hl hd)

theorem Tree.calm_createDirAll {d : Loc} (hp : PathBuf.Downward p) (hd : p.norm <:+ d) :
    Tree.Calm d t ((createDirAll p : FsM ε Unit) t).2 where
  accepts := accepts_createDirAll
  file? k _ := (touches_createDirAll (S := ∅) t).file? k (Set.notMem_empty _)
  isDir l hl hdir := by
    rcases createDirAll_entry (ε := ε) (t := t) (p := p) l with h | ⟨-, -, q, hq, rfl⟩
    · rwa [Tree.IsDir, h] at hdir
    · exact absurd ((Tree.norm_suffix_of_prefix hp hq).trans hd) hl

theorem Tree.calm_of_sameDirs {d : Loc} (hf : Frame S t t') (hdirs : t.SameDirs t')
    (hS : ∀ k, k <:+ d → k ∉ S) : Tree.Calm d t t' where
  accepts := hdirs.accepts
  file? k hk := hf.file? k (hS k hk)
  isDir _ _ h := (hdirs.isDir _).1 h

theorem Tree.Keeps.calm {d : Loc} {tmp : String} (h : t.Keeps p tmp s) (hc : Tree.Calm d t t')
    (hp : p.norm <:+ d) (htmp : ¬ tmp :: p.norm <:+ d) (hs : ¬ s :: p.norm <:+ d) :
    t'.Keeps p tmp s where
  named := by
    rw [Tree.named, hc.accepts]
    exact h.named
  free k hk := (hc.file? k (hk.trans hp)).trans (h.free k hk)
  accepts_tmp := hc.accepts ▸ h.accepts_tmp
  accepts := hc.accepts ▸ h.accepts
  not_isDir_tmp hd := h.not_isDir_tmp (hc.isDir _ htmp hd)
  not_isDir hd := h.not_isDir (hc.isDir _ hs hd)

theorem replaceFile_ok_iff : ((replaceFile tmp p b : FsM ε Unit) t).1 = .ok () ↔
    (∃ l, t.place tmp = .ok l) ∧ ∃ l, t.place p = .ok l := by
  constructor
  · intro h
    obtain ⟨_, t₁, hwrite, hrename⟩ := bind_ok.1 (Prod.ext h rfl)
    obtain ⟨l, hl, rfl⟩ := write_ok.1 hwrite
    obtain ⟨-, -, l', -, -, hdst, -⟩ := rename_ok.1 hrename
    exact ⟨⟨l, hl⟩, l', Tree.sameDirs_putFile.symm.place hdst⟩
  · rintro ⟨⟨l, hl⟩, l', hl'⟩
    have hwrite : (write tmp b : FsM ε Unit) t = (.ok (), t.putFile l b) :=
      write_ok.2 ⟨l, hl, rfl⟩
    have hfile : (t.putFile l b).HasFile tmp b := hasFile_of_write hwrite
    have hrename := (rename_ok (ε := ε)).2
      ⟨_, _, l', hfile.1, Tree.file?_eq_some.1 hfile.2, Tree.sameDirs_putFile.place hl', rfl⟩
    rw [replaceFile, bind_of_ok hwrite, hrename]

section KeepIn

variable {tmp s : String} (hp : PathBuf.Downward p) (hs : '/' ∉ s.toList) (hs' : Plain s)
  (htmp : '/' ∉ tmp.toList) (htmp' : Plain tmp)

theorem touches_keepIn :
    Touches {(p.join tmp).norm, (p.join s).norm} (keepIn p tmp s b : FsM ε Unit) :=
  touches_createDirAll.bind fun _ => touches_replaceFile

theorem isDir_createDirAll_cons (hp : PathBuf.Downward p) :
    ((createDirAll p : FsM ε Unit) t).2.IsDir (s :: p.norm) ↔ t.IsDir (s :: p.norm) := by
  obtain ⟨hok, hbad⟩ := createDirAll_downward (ε := ε) (t := t) hp
  by_cases hcond : t.named p = true ∧ ∀ k, k <:+ p.norm → t.file? k = none
  · rw [Tree.IsDir, (hok hcond).2, if_neg, Tree.IsDir]
    intro hsuffix
    have hlen := hsuffix.length_le
    rw [List.length_cons] at hlen
    omega
  · obtain ⟨e, he⟩ := hbad hcond
    rw [he]

include hs hs' in
/-- A file of a directory can be created if nothing is in its way. -/
theorem place_join_iff (hd : t.HasDir p) :
    (∃ l, t.place (p.join s) = .ok l) ↔ t.accepts s = true ∧ ¬ t.IsDir (s :: p.norm) := by
  constructor
  · rintro ⟨l, hl⟩
    obtain ⟨hr, hdir⟩ := Tree.place_ok.1 hl
    obtain ⟨d, rfl, hd', -, ha⟩ := Tree.resolve_of_join hr hs hs'
    exact ⟨ha, Tree.resolve_norm hd' ▸ hdir⟩
  · rintro ⟨ha, hdir⟩
    exact ⟨_, Tree.place_ok.2 ⟨Tree.resolve_join hd.1 hd.2 hs hs' ha, hdir⟩⟩

include hp hs hs' htmp htmp'

/-- **A file is kept iff nothing is in the way.** -/
theorem keepIn_ok_iff : ((keepIn p tmp s b : FsM ε Unit) t).1 = .ok () ↔ t.Keeps p tmp s := by
  obtain ⟨hok, hbad⟩ := createDirAll_downward (ε := ε) (t := t) hp
  by_cases hcond : t.named p = true ∧ ∀ k, k <:+ p.norm → t.file? k = none
  · have hcreate : (createDirAll p : FsM ε Unit) t =
        (.ok (), ((createDirAll p : FsM ε Unit) t).2) := Prod.ext (hok hcond).1 rfl
    rw [keepIn, bind_of_ok hcreate, replaceFile_ok_iff,
      place_join_iff htmp htmp' (hasDir_of_createDirAll hcreate),
      place_join_iff hs hs' (hasDir_of_createDirAll hcreate), isDir_createDirAll_cons hp,
      isDir_createDirAll_cons hp, accepts_createDirAll]
    exact ⟨fun h => ⟨hcond.1, hcond.2, h.1.1, h.2.1, h.1.2, h.2.2⟩,
      fun h => ⟨⟨h.accepts_tmp, h.not_isDir_tmp⟩, h.accepts, h.not_isDir⟩⟩
  · obtain ⟨e, he⟩ := hbad hcond
    rw [keepIn, bind_of_error he]
    exact iff_of_false (by simp) fun h => hcond ⟨h.named, h.free⟩

/-- Keeping a file puts nothing in the way, nor out of it. -/
theorem keeps_keepIn_iff :
    ((keepIn p tmp s b : FsM ε Unit) t).2.Keeps p tmp s ↔ t.Keeps p tmp s := by
  have hframe : Frame {(p.join tmp).norm, (p.join s).norm} t
      ((keepIn p tmp s b : FsM ε Unit) t).2 := touches_keepIn t
  have hfile : ∀ k, k <:+ p.norm → ((keepIn p tmp s b : FsM ε Unit) t).2.file? k = t.file? k := by
    intro k hk
    refine hframe.file? k ?_
    rw [PathBuf.norm_join htmp htmp', PathBuf.norm_join hs hs']
    have hlen := hk.length_le
    rintro (rfl | rfl) <;> rw [List.length_cons] at hlen <;> omega
  have hdir : ∀ c, ((keepIn p tmp s b : FsM ε Unit) t).2.IsDir (c :: p.norm) ↔
      t.IsDir (c :: p.norm) := by
    intro c
    have hcreated := isDir_createDirAll_cons (ε := ε) (t := t) (s := c) hp
    cases hcreate : (createDirAll p : FsM ε Unit) t with
    | mk r t₁ =>
    rw [hcreate] at hcreated
    rw [keepIn, ← hcreated]
    cases r with
    | error e => rw [bind_of_error hcreate]
    | ok u =>
      rw [bind_of_ok hcreate]
      exact (sameDirs_of_replaceFile rfl).isDir _
  have haccepts := hframe.grows.accepts
  have hnamed : ((keepIn p tmp s b : FsM ε Unit) t).2.named p = t.named p := by
    rw [Tree.named, haccepts, Tree.named]
  constructor
  · intro h
    exact ⟨hnamed ▸ h.named, fun k hk => hfile k hk ▸ h.free k hk, haccepts ▸ h.accepts_tmp,
      haccepts ▸ h.accepts, fun hd => h.not_isDir_tmp ((hdir _).2 hd),
      fun hd => h.not_isDir ((hdir _).2 hd)⟩
  · intro h
    exact ⟨hnamed.trans h.named, fun k hk => (hfile k hk).trans (h.free k hk),
      haccepts ▸ h.accepts_tmp, haccepts ▸ h.accepts, fun hd => h.not_isDir_tmp ((hdir _).1 hd),
      fun hd => h.not_isDir ((hdir _).1 hd)⟩

theorem Tree.calm_keepIn {d : Loc} (hd : p.norm <:+ d) (htmpd : ¬ tmp :: p.norm <:+ d)
    (hsd : ¬ s :: p.norm <:+ d) : Tree.Calm d t ((keepIn p tmp s b : FsM ε Unit) t).2 := by
  have hcalm : Tree.Calm d t ((createDirAll p : FsM ε Unit) t).2 := Tree.calm_createDirAll hp hd
  cases hcreate : (createDirAll p : FsM ε Unit) t with
  | mk u t₁ =>
  rw [hcreate] at hcalm
  cases u with
  | error e =>
    rw [keepIn, bind_of_error hcreate]
    exact hcalm
  | ok u =>
    rw [keepIn, bind_of_ok hcreate]
    refine hcalm.trans (Tree.calm_of_sameDirs (touches_replaceFile t₁) (sameDirs_of_replaceFile rfl)
      fun k hk => ?_)
    rintro (rfl | rfl)
    · exact htmpd (PathBuf.norm_join htmp htmp' ▸ hk)
    · exact hsd (PathBuf.norm_join hs hs' ▸ hk)

/-- **The new value is kept.** -/
theorem saved_keepIn (h : t.Keeps p tmp s) :
    saved C (p.join s) ((keepIn p tmp s (C.encode a) : FsM ε Unit) t).2 = some a := by
  have hok := (keepIn_ok_iff (ε := ε) (b := C.encode a) hp hs hs' htmp htmp').2 h
  obtain ⟨_, t₁, -, hreplace⟩ := bind_ok.1 (Prod.ext hok rfl)
  exact saved_replaceFile hreplace

theorem saved_keepIn_of_not (hne : tmp ≠ s) (h : ¬ t.Keeps p tmp s) :
    saved C (p.join s) ((keepIn p tmp s b : FsM ε Unit) t).2 = saved C (p.join s) t := by
  have hbad := fun hok => h ((keepIn_ok_iff (ε := ε) (b := b) hp hs hs' htmp htmp').1 hok)
  have hcreated : saved C (p.join s) ((createDirAll p : FsM ε Unit) t).2 =
      saved C (p.join s) t :=
    saved_of_frame (touches_createDirAll (S := ∅) t) hp hs hs' (Set.notMem_empty _)
  cases hcreate : (createDirAll p : FsM ε Unit) t with
  | mk r t₁ =>
  rw [hcreate] at hcreated
  cases r with
  | error e =>
    rw [keepIn, bind_of_error hcreate]
    exact hcreated
  | ok u =>
    rw [keepIn, bind_of_ok hcreate] at hbad ⊢
    cases hreplace : (replaceFile (p.join tmp) (p.join s) b : FsM ε Unit) t₁ with
    | mk r t₂ =>
    cases r with
    | ok u =>
      rw [hreplace] at hbad
      exact absurd rfl hbad
    | error e =>
      refine (saved_of_replaceFile_error hp hs hs' ?_ hreplace).trans hcreated
      rw [PathBuf.norm_join htmp htmp', PathBuf.norm_join hs hs']
      exact fun heq => hne (List.cons.inj heq).1

end KeepIn

end FileTree
