import Neonet.Lib.FileOps

/-!
# Programs that only see part of a tree

Two runs of a program on trees that agree on one directory, for statements of the form "what
happens elsewhere makes no difference".

* `Agree d A t u` : the trees have the same entries at and beneath `d`, and the same files above
  `d` and at the places `A`.
* `FsM.Alike d A m` : on trees that agree, `m` succeeds alike and leaves trees that agree.  The
  operations on paths downwards to `d` or beneath are alike, and so is their composition.
* `Agree.read_join`, `Agree.readDir`, … : what is read beneath `d` is the same on both trees.
* `FsM.SameOn t u m` : `m` only looks, and returns the same on both trees.
* `FsM.Within S m` : `m` changes no entry outside `S`, so that agreement on other places is kept.
-/

namespace FileTree

/-- `t` and `u` have the same entries at and beneath `d`, and the same files above `d` and at the
places `A`. -/
structure Agree (d : Loc) (A : Set Loc) (t u : Tree) : Prop where
  accepts : t.accepts = u.accepts
  beneath : ∀ l, d <:+ l → t.entry l = u.entry l
  file? : ∀ l, l <:+ d ∨ l ∈ A → t.file? l = u.file? l

namespace FsM

variable {ε α β : Type} {d : Loc} {A : Set Loc}

/-- On trees that agree the program succeeds alike, and leaves trees that agree. -/
def Alike (d : Loc) (A : Set Loc) (m : FsM ε α) : Prop :=
  ∀ t u, Agree d A t u → (m t).1.toOption = (m u).1.toOption ∧ Agree d A (m t).2 (m u).2

theorem alike_pure (a : α) : Alike d A (pure a : FsM ε α) := fun _ _ h => ⟨rfl, h⟩

theorem Alike.bind {x : FsM ε α} {f : α → FsM ε β} (hx : Alike d A x)
    (hf : ∀ a, Alike d A (f a)) : Alike d A (x >>= f) := by
  intro t u h
  obtain ⟨hres, hagree⟩ := hx t u h
  rw [bind_apply, bind_apply]
  cases ht : x t with
  | mk r t' =>
  cases hu : x u with
  | mk r' u' =>
  rw [ht, hu] at hres hagree
  cases r with
  | error e =>
    cases r' with
    | error e' => exact ⟨rfl, hagree⟩
    | ok b => cases hres
  | ok a =>
    cases r' with
    | error e' => cases hres
    | ok b =>
      obtain rfl : a = b := Option.some.inj hres
      exact hf a t' u' hagree

theorem Alike.forEach {f : α → FsM ε Unit} {as : List α} (h : ∀ a ∈ as, Alike d A (f a)) :
    Alike d A (forEach f as) := by
  induction as with
  | nil => exact alike_pure ()
  | cons a as ih =>
    exact (h a List.mem_cons_self).bind fun _ => ih fun b hb => h b (List.mem_cons_of_mem _ hb)

/-- The program leaves both trees as they are and returns the same on them. -/
structure SameOn (t u : Tree) (m : FsM ε α) : Prop where
  left : (m t).2 = t
  right : (m u).2 = u
  result : (m t).1 = (m u).1

variable {t u : Tree}

theorem Inert.sameOn {m : FsM ε α} (h : Inert m) (he : (m t).1 = (m u).1) : SameOn t u m :=
  ⟨h t, h u, he⟩

theorem sameOn_pure (a : α) : SameOn t u (pure a : FsM ε α) := ⟨rfl, rfl, rfl⟩

theorem sameOn_fail (e : ε) : SameOn t u (fail e : FsM ε α) := ⟨rfl, rfl, rfl⟩

theorem sameOn_ofExcept (x : Except ε α) : SameOn t u (ofExcept x) := ⟨rfl, rfl, rfl⟩

theorem SameOn.bind {x : FsM ε α} {f : α → FsM ε β} (hx : SameOn t u x)
    (hf : ∀ a, (x t).1 = .ok a → SameOn t u (f a)) : SameOn t u (x >>= f) := by
  obtain ⟨hleft, hright, hresult⟩ := hx
  cases ht : x t with
  | mk r t' =>
  cases hu : x u with
  | mk r' u' =>
  rw [ht] at hleft hresult hf
  rw [hu] at hright hresult
  obtain rfl : t' = t := hleft
  obtain rfl : u' = u := hright
  obtain rfl : r = r' := hresult
  cases r with
  | error e => exact ⟨by rw [bind_of_error ht], by rw [bind_of_error hu],
      by rw [bind_of_error ht, bind_of_error hu]⟩
  | ok a =>
    obtain ⟨hl, hr, he⟩ := hf a rfl
    exact ⟨by rw [bind_of_ok ht, hl], by rw [bind_of_ok hu, hr],
      by rw [bind_of_ok ht, bind_of_ok hu, he]⟩

end FsM

namespace Agree

variable {ε : Type} {d : Loc} {A : Set Loc} {t u t' : Tree} {root : PathBuf} {s : String}

theorem symm (h : Agree d A t u) : Agree d A u t :=
  ⟨h.accepts.symm, fun l hl => (h.beneath l hl).symm, fun l hl => (h.file? l hl).symm⟩

theorem isDir (h : Agree d A t u) {l : Loc} (hl : d <:+ l) : t.IsDir l ↔ u.IsDir l := by
  rw [Tree.IsDir, Tree.IsDir, h.beneath l hl]

theorem named (h : Agree d A t u) (p : PathBuf) : t.named p = u.named p := by
  rw [Tree.named, Tree.named, h.accepts]

theorem file?_of_suffix (h : Agree d A t u) {k l : Loc} (hd : d <:+ l) (hk : k <:+ l) :
    t.file? k = u.file? k := by
  rcases List.suffix_or_suffix_of_suffix hd hk with hle | hle
  · rw [Tree.file?, Tree.file?, h.beneath k hle]
  · exact h.file? k (.inl hle)

/-- Changes elsewhere to one of the trees do not matter. -/
theorem of_changed (h : Agree d A t u) (ha : t'.accepts = t.accepts)
    (hb : ∀ l, d <:+ l → t'.entry l = t.entry l)
    (hf : ∀ l, l <:+ d ∨ l ∈ A → t'.file? l = t.file? l) : Agree d A t' u :=
  ⟨ha.trans h.accepts, fun l hl => (hb l hl).trans (h.beneath l hl),
    fun l hl => (hf l hl).trans (h.file? l hl)⟩

theorem putFile (h : Agree d A t u) {l : Loc} {b : Bytes} (hl : d <:+ l.tail)
    (hdir : t.IsDir l.tail) (hnot : ¬ t.IsDir l) : Agree d A (t.putFile l b) (u.putFile l b) := by
  have hdir' : u.IsDir l.tail := (h.isDir hl).1 hdir
  have hnot' : ¬ u.IsDir l := fun hu => hnot ((h.isDir (hl.trans (List.tail_suffix l))).2 hu)
  have hself : (t.putFile l b).entry l = (u.putFile l b).entry l := by
    rw [Tree.entry_putFile_self hdir hnot, Tree.entry_putFile_self hdir' hnot']
  refine ⟨by rw [Tree.accepts_putFile, Tree.accepts_putFile, h.accepts], fun k hk => ?_,
    fun k hk => ?_⟩
  · by_cases hkl : k = l
    · rw [hkl, hself]
    · rw [Tree.entry_putFile_of_ne hkl, Tree.entry_putFile_of_ne hkl, h.beneath k hk]
  · by_cases hkl : k = l
    · rw [hkl, Tree.file?, Tree.file?, hself]
    · rw [Tree.file?_putFile_of_ne hkl, Tree.file?_putFile_of_ne hkl, h.file? k hk]

theorem remove (h : Agree d A t u) {l : Loc} (hl : d <:+ l) (hnot : ¬ t.IsDir l) :
    Agree d A (t.remove l) (u.remove l) := by
  have hnot' : ¬ u.IsDir l := fun hu => hnot ((h.isDir hl).2 hu)
  have hself : (t.remove l).entry l = (u.remove l).entry l := by
    rw [Tree.entry_remove_self hnot, Tree.entry_remove_self hnot']
  refine ⟨by rw [Tree.accepts_remove, Tree.accepts_remove, h.accepts], fun k hk => ?_,
    fun k hk => ?_⟩
  · by_cases hkl : k = l
    · rw [hkl, hself]
    · rw [Tree.entry_remove_of_ne hkl, Tree.entry_remove_of_ne hkl, h.beneath k hk]
  · by_cases hkl : k = l
    · rw [hkl, Tree.file?, Tree.file?, hself]
    · rw [Tree.file?_remove_of_ne hkl, Tree.file?_remove_of_ne hkl, h.file? k hk]

/-! ### Paths to `d` and beneath -/

section Join

variable (hroot : root.Downward) (hd : d <:+ root.norm) (hs : '/' ∉ s.toList) (hs' : Plain s)
include hroot hd hs hs'

/-- A path leads to the same place in both trees, or to none in either. -/
theorem resolve_join (h : Agree d A t u) :
    (t.resolve (root.join s) = .ok (s :: root.norm) ∧
        u.resolve (root.join s) = .ok (s :: root.norm) ∧ t.IsDir root.norm) ∨
      ((∃ e, t.resolve (root.join s) = .error e) ∧ ∃ e, u.resolve (root.join s) = .error e) := by
  have hiff : ∀ l, t.resolve (root.join s) = .ok l ↔ u.resolve (root.join s) = .ok l := fun l => by
    rw [Tree.resolve_join_iff hroot hs hs', Tree.resolve_join_iff hroot hs hs', h.named, h.accepts,
      h.isDir hd]
  cases ht : t.resolve (root.join s) with
  | ok l =>
    have hu := (hiff l).1 ht
    obtain ⟨-, -, hdir, rfl⟩ := (Tree.resolve_join_iff hroot hs hs').1 ht
    exact .inl ⟨rfl, hu, hdir⟩
  | error e =>
    cases hu : u.resolve (root.join s) with
    | ok l => rw [(hiff l).2 hu] at ht; cases ht
    | error e' => exact .inr ⟨⟨e, rfl⟩, e', rfl⟩

theorem pathExists_join (h : Agree d A t u) :
    ((pathExists (root.join s) : FsM ε Bool) t).1 =
        ((pathExists (root.join s) : FsM ε Bool) u).1 := by
  unfold pathExists
  rcases h.resolve_join hroot hd hs hs' with ⟨ht, hu, -⟩ | ⟨⟨e, ht⟩, e', hu⟩
  · rw [ht, hu]
    dsimp only
    rw [h.beneath _ (hd.trans (List.suffix_cons _ _))]
  · rw [ht, hu]

variable [OfOs ε]

theorem toOption_read_join (h : Agree d A t u) :
    ((read (root.join s) : FsM ε Bytes) t).1.toOption =
      ((read (root.join s) : FsM ε Bytes) u).1.toOption := by
  unfold read
  rcases h.resolve_join hroot hd hs hs' with ⟨ht, hu, -⟩ | ⟨⟨e, ht⟩, e', hu⟩
  · rw [ht, hu]
    dsimp only
    rw [h.beneath _ (hd.trans (List.suffix_cons _ _))]
    split <;> rfl
  · rw [ht, hu]
    rfl

/-- What is read, the error included, if the path leads to something. -/
theorem read_join (h : Agree d A t u)
    (hexists : ((pathExists (root.join s) : FsM ε Bool) t).1 = .ok true) :
    ((read (root.join s) : FsM ε Bytes) t).1 = ((read (root.join s) : FsM ε Bytes) u).1 := by
  unfold read
  rcases h.resolve_join hroot hd hs hs' with ⟨ht, hu, -⟩ | ⟨⟨e, ht⟩, e', hu⟩
  · rw [ht, hu]
    dsimp only
    rw [h.beneath _ (hd.trans (List.suffix_cons _ _))]
    split <;> rfl
  · rw [pathExists, ht] at hexists
    cases hexists

theorem alike_write {b : Bytes} : FsM.Alike d A (write (root.join s) b : FsM ε Unit) := by
  intro t u h
  have hl : d <:+ s :: root.norm := hd.trans (List.suffix_cons _ _)
  unfold write Tree.place
  rcases h.resolve_join hroot hd hs hs' with ⟨ht, hu, hdir⟩ | ⟨⟨e, ht⟩, e', hu⟩
  · rw [ht, hu]
    dsimp only
    by_cases hl' : t.IsDir (s :: root.norm)
    · rw [if_pos hl', if_pos ((h.isDir hl).1 hl')]
      exact ⟨rfl, h⟩
    · rw [if_neg hl', if_neg fun hu => hl' ((h.isDir hl).2 hu)]
      exact ⟨rfl, h.putFile hd hdir hl'⟩
  · rw [ht, hu]
    exact ⟨rfl, h⟩

theorem alike_rename {s₂ : String} (hs₂ : '/' ∉ s₂.toList) (hs₂' : Plain s₂) :
    FsM.Alike d A (rename (root.join s) (root.join s₂) : FsM ε Unit) := by
  intro t u h
  have hl : d <:+ s :: root.norm := hd.trans (List.suffix_cons _ _)
  have hl₂ : d <:+ s₂ :: root.norm := hd.trans (List.suffix_cons _ _)
  unfold rename Tree.place
  rcases h.resolve_join hroot hd hs hs' with ⟨ht, hu, hdir⟩ | ⟨⟨e, ht⟩, e', hu⟩
  swap
  · rw [ht, hu]
    exact ⟨rfl, h⟩
  rw [ht, hu]
  dsimp only
  rw [← h.beneath _ hl]
  cases hentry : t.entry (s :: root.norm) with
  | none => exact ⟨rfl, h⟩
  | some entry =>
  cases entry with
  | dir => exact ⟨rfl, h⟩
  | file b =>
  dsimp only
  rcases h.resolve_join hroot hd hs₂ hs₂' with ⟨ht₂, hu₂, -⟩ | ⟨⟨e, ht₂⟩, e', hu₂⟩
  swap
  · rw [ht₂, hu₂]
    exact ⟨rfl, h⟩
  rw [ht₂, hu₂]
  dsimp only
  by_cases hl' : t.IsDir (s₂ :: root.norm)
  · rw [if_pos hl', if_pos ((h.isDir hl₂).1 hl')]
    exact ⟨rfl, h⟩
  · rw [if_neg hl', if_neg fun hu => hl' ((h.isDir hl₂).2 hu)]
    have hnot : ¬ t.IsDir (s :: root.norm) := by
      rw [Tree.IsDir, hentry]
      simp
    exact ⟨rfl, (h.remove hl hnot).putFile hd (Tree.isDir_remove.2 hdir)
      fun hdir' => hl' (Tree.isDir_remove.1 hdir')⟩

theorem alike_replaceFile {s₂ : String} {b : Bytes} (hs₂ : '/' ∉ s₂.toList) (hs₂' : Plain s₂) :
    FsM.Alike d A (replaceFile (root.join s) (root.join s₂) b : FsM ε Unit) :=
  (alike_write hroot hd hs hs').bind fun _ => alike_rename hroot hd hs hs' hs₂ hs₂'

end Join

section Root

variable (hroot : root.Downward) (hd : d <:+ root.norm)
include hroot hd

theorem pathIsDir (h : Agree d A t u) :
    ((FileTree.pathIsDir root : FsM ε Bool) t).1 =
        ((FileTree.pathIsDir root : FsM ε Bool) u).1 := by
  have key : ∀ v : Tree, ((FileTree.pathIsDir root : FsM ε Bool) v).1 =
      .ok (v.named root && decide (v.IsDir root.norm)) := by
    intro v
    unfold FileTree.pathIsDir
    cases hv : v.resolve root with
    | ok l =>
      obtain rfl := Tree.resolve_norm hv
      rw [(Tree.resolve_ok.1 hv).1]
      rfl
    | error e =>
      have hnot : ¬ (v.named root = true ∧ v.IsDir root.norm) := by
        rintro ⟨hn, hdir⟩
        rw [Tree.resolve_of_isDir hroot hn hdir] at hv
        cases hv
      by_cases hn : v.named root = true
      · rw [hn, Bool.true_and, decide_eq_false fun hdir => hnot ⟨hn, hdir⟩]
      · rw [Bool.eq_false_iff.2 hn, Bool.false_and]
  rw [key, key, h.named, decide_eq_decide.2 (h.isDir hd)]

variable [OfOs ε]

theorem alike_createDirAll : FsM.Alike d A (createDirAll root : FsM ε Unit) := by
  intro t u h
  obtain ⟨hok, hbad⟩ := createDirAll_downward (ε := ε) (t := t) hroot
  obtain ⟨hok', hbad'⟩ := createDirAll_downward (ε := ε) (t := u) hroot
  have hiff : (t.named root = true ∧ ∀ k, k <:+ root.norm → t.file? k = none) ↔
      (u.named root = true ∧ ∀ k, k <:+ root.norm → u.file? k = none) := by
    rw [h.named]
    refine and_congr_right fun _ => forall₂_congr fun k hk => ?_
    rw [h.file?_of_suffix hd hk]
  by_cases hcond : t.named root = true ∧ ∀ k, k <:+ root.norm → t.file? k = none
  · obtain ⟨hres, hentry⟩ := hok hcond
    obtain ⟨hres', hentry'⟩ := hok' (hiff.1 hcond)
    refine ⟨by rw [hres, hres'], ?_, fun l hl => ?_, fun l hl => ?_⟩
    · rw [accepts_createDirAll, accepts_createDirAll, h.accepts]
    · rw [hentry, hentry', h.beneath l hl]
    · have hframe := (touches_createDirAll (ε := ε) (p := root) (S := ∅) t).file? l (by simp)
      have hframe' := (touches_createDirAll (ε := ε) (p := root) (S := ∅) u).file? l (by simp)
      rw [hframe, hframe', h.file? l hl]
  · obtain ⟨e, he⟩ := hbad hcond
    obtain ⟨e', he'⟩ := hbad' fun hu => hcond (hiff.2 hu)
    rw [he, he']
    exact ⟨rfl, h⟩

/-- The names in a directory, if it is one. -/
theorem readDir (h : Agree d A t u) {order : Finset String → List String}
    (hdir : ((FileTree.pathIsDir root : FsM ε Bool) t).1 = .ok true) :
    ((FileTree.readDir order root : FsM ε (List String)) t).1 =
      ((FileTree.readDir order root : FsM ε (List String)) u).1 := by
  obtain ⟨hn, hd₁⟩ := isDir_of_pathIsDir hdir
  have hd₂ := (h.isDir hd).1 hd₁
  have hn₂ : u.named root = true := by rw [← h.named, hn]
  have hchildren : t.children root.norm = u.children root.norm := by
    ext c
    rw [Tree.mem_children, Tree.mem_children, h.beneath _ (hd.trans (List.suffix_cons _ _))]
  unfold FileTree.readDir
  rw [Tree.resolve_of_isDir hroot hn hd₁, Tree.resolve_of_isDir hroot hn₂ hd₂]
  dsimp only
  rw [if_pos hd₁, if_pos hd₂, hchildren]

theorem readEntry (h : Agree d A t u) {name : String}
    (hdir : ((FileTree.pathIsDir root : FsM ε Bool) t).1 = .ok true) :
    ((FileTree.readEntry root name : FsM ε Bytes) t).1 =
      ((FileTree.readEntry root name : FsM ε Bytes) u).1 := by
  obtain ⟨hn, hd₁⟩ := isDir_of_pathIsDir hdir
  have hd₂ := (h.isDir hd).1 hd₁
  have hn₂ : u.named root = true := by rw [← h.named, hn]
  unfold FileTree.readEntry
  rw [Tree.resolve_of_isDir hroot hn hd₁, Tree.resolve_of_isDir hroot hn₂ hd₂]
  dsimp only
  rw [h.beneath _ (hd.trans (List.suffix_cons _ _))]
  split <;> rfl

end Root

end Agree

/-! ### Changes that stay within some places -/

namespace FsM

variable {ε α β : Type} {S S' : Set Loc}

/-- The program changes no entry outside `S`. -/
def Within (S : Set Loc) (m : FsM ε α) : Prop := ∀ t l, l ∉ S → (m t).2.entry l = t.entry l

theorem Within.mono {m : FsM ε α} (h : Within S m) (hS : S ⊆ S') : Within S' m :=
  fun t l hl => h t l fun hm => hl (hS hm)

theorem Inert.within {m : FsM ε α} (h : Inert m) : Within S m := fun t l _ => by rw [h t]

theorem Within.bind {x : FsM ε α} {f : α → FsM ε β} (hx : Within S x)
    (hf : ∀ a, Within S (f a)) : Within S (x >>= f) := by
  intro t l hl
  have h := hx t l hl
  rw [bind_apply]
  split
  · rename_i a t' heq
    rw [heq] at h
    exact (hf a t' l hl).trans h
  · rename_i e t' heq
    rwa [heq] at h

theorem Within.forEach {f : α → FsM ε Unit} {as : List α} (h : ∀ a ∈ as, Within S (f a)) :
    Within S (forEach f as) := by
  induction as with
  | nil => exact fun _ _ _ => rfl
  | cons a as ih =>
    exact (h a List.mem_cons_self).bind fun _ => ih fun b hb => h b (List.mem_cons_of_mem _ hb)

end FsM

section Within

open FsM

variable {ε : Type} [OfOs ε] {p src dst : PathBuf} {b : Bytes}

theorem within_write : Within {p.norm} (write p b : FsM ε Unit) := by
  intro t l hl
  unfold write
  split
  · rfl
  · rename_i k hk
    obtain rfl := Tree.place_norm hk
    exact Tree.entry_putFile_of_ne hl

theorem within_rename : Within {src.norm, dst.norm} (rename src dst : FsM ε Unit) := by
  intro t l hl
  rw [Set.mem_insert_iff, Set.mem_singleton_iff, not_or] at hl
  unfold rename
  split
  · rfl
  · rename_i k hk
    split
    · rfl
    · rfl
    · split
      · rfl
      · rename_i k' hk'
        obtain rfl := Tree.resolve_norm hk
        obtain rfl := Tree.place_norm hk'
        exact (Tree.entry_putFile_of_ne hl.2).trans (Tree.entry_remove_of_ne hl.1)

theorem within_replaceFile {tmp : PathBuf} :
    Within {tmp.norm, dst.norm} (replaceFile tmp dst b : FsM ε Unit) :=
  (within_write.mono (by simp)).bind fun _ => within_rename

theorem within_createDirAll (hp : p.Downward) :
    Within {l | l <:+ p.norm} (createDirAll p : FsM ε Unit) := by
  intro t l hl
  rcases createDirAll_entry (ε := ε) (p := p) (t := t) l with h | ⟨-, -, q, hq, rfl⟩
  · exact h
  · exact absurd (Tree.norm_suffix_of_prefix hp hq) hl

end Within

end FileTree
