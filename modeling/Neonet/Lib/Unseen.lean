import Neonet.Lib.Agree

/-!
# Programs that do not see some places

Two trees that differ at places `S` only, for statements of the form "what is there makes no
difference": `Agree` says what a program may depend on, this says what it does not depend on.

* `Outside S t u` : the trees have the same entries outside `S`.
* `FsM.Blind S m` : on such trees `m` returns the same, and leaves such trees.  The operations on
  paths that never enter `S` are blind, and so is their composition.
-/

namespace FileTree

/-- The trees have the same entries outside `S`. -/
structure Outside (S : Set Loc) (t u : Tree) : Prop where
  accepts : t.accepts = u.accepts
  entry : ∀ l ∉ S, t.entry l = u.entry l

/-- No place on the way of the path is in `S`. -/
def PathBuf.Clear (S : Set Loc) (p : PathBuf) : Prop := ∀ q : PathBuf, q <+: p → q.norm ∉ S

namespace FsM

variable {ε α β : Type} {S : Set Loc}

/-- On trees that differ in `S` only, the program returns the same and leaves such trees. -/
def Blind (S : Set Loc) (m : FsM ε α) : Prop :=
  ∀ t u, Outside S t u → (m t).1 = (m u).1 ∧ Outside S (m t).2 (m u).2

theorem Blind.bind {x : FsM ε α} {f : α → FsM ε β} (hx : Blind S x) (hf : ∀ a, Blind S (f a)) :
    Blind S (x >>= f) := by
  intro t u h
  obtain ⟨hres, hout⟩ := hx t u h
  rw [bind_apply, bind_apply]
  cases ht : x t with
  | mk r t' =>
  cases hu : x u with
  | mk r' u' =>
  rw [ht, hu] at hres hout
  obtain rfl : r = r' := hres
  cases r with
  | error e => exact ⟨rfl, hout⟩
  | ok a => exact hf a t' u' hout

end FsM

namespace Outside

variable {S : Set Loc} {t u : Tree} {l : Loc} {p src dst : PathBuf}

theorem isDir (h : Outside S t u) (hl : l ∉ S) : t.IsDir l ↔ u.IsDir l := by
  rw [Tree.IsDir, Tree.IsDir, h.entry l hl]

theorem walk (h : Outside S t u) (hp : ∀ q, q <+: p → q.foldl stepTo l ∉ S) :
    t.walk l p = u.walk l p := by
  induction p generalizing l with
  | nil => rfl
  | cons c cs ih =>
    have hl : l ∉ S := hp [] (List.nil_prefix)
    have hrest : t.walk (stepTo l c) cs = u.walk (stepTo l c) cs :=
      ih fun q hq => hp (c :: q) ((List.prefix_cons_inj c).2 hq)
    rw [Tree.walk, Tree.walk, h.entry l hl, hrest]

theorem resolve (h : Outside S t u) (hp : p.Clear S) : t.resolve p = u.resolve p := by
  have hwalk : t.walk [] p = u.walk [] p := h.walk hp
  rw [Tree.resolve, Tree.resolve, Tree.named, Tree.named, h.accepts, hwalk]

theorem norm_notMem (hp : p.Clear S) : p.norm ∉ S := hp p List.prefix_rfl

theorem place (h : Outside S t u) (hp : p.Clear S) : t.place p = u.place p := by
  rw [Tree.place, Tree.place, ← h.resolve hp]
  cases hr : t.resolve p with
  | error e => rfl
  | ok l =>
    obtain rfl := Tree.resolve_norm hr
    dsimp only
    rw [if_congr (h.isDir (norm_notMem hp)) rfl rfl]

theorem putFile {b : Bytes} (h : Outside S t u) (hp : p.Clear S) (hl : t.place p = .ok l) :
    Outside S (t.putFile l b) (u.putFile l b) := by
  obtain ⟨ht, hnot⟩ := Tree.place_ok.1 hl
  obtain ⟨hu, hnot'⟩ := Tree.place_ok.1 ((h.place hp).symm.trans hl)
  refine ⟨by rw [Tree.accepts_putFile, Tree.accepts_putFile, h.accepts], fun k hk => ?_⟩
  by_cases hkl : k = l
  · rw [hkl, Tree.entry_putFile_self (Tree.resolve_isDir_tail ht) hnot,
      Tree.entry_putFile_self (Tree.resolve_isDir_tail hu) hnot']
  · rw [Tree.entry_putFile_of_ne hkl, Tree.entry_putFile_of_ne hkl, h.entry k hk]

theorem remove (h : Outside S t u) (hl : l ∉ S) (hnot : ¬ t.IsDir l) :
    Outside S (t.remove l) (u.remove l) := by
  have hnot' : ¬ u.IsDir l := fun hu => hnot ((h.isDir hl).2 hu)
  refine ⟨by rw [Tree.accepts_remove, Tree.accepts_remove, h.accepts], fun k hk => ?_⟩
  by_cases hkl : k = l
  · rw [hkl, Tree.entry_remove_self hnot, Tree.entry_remove_self hnot']
  · rw [Tree.entry_remove_of_ne hkl, Tree.entry_remove_of_ne hkl, h.entry k hk]

end Outside

section Operations

open FsM

variable {ε : Type} [OfOs ε] {S : Set Loc} {p src dst : PathBuf} {b : Bytes}

theorem blind_read (hp : p.Clear S) : Blind S (read p : FsM ε Bytes) := by
  intro t u h
  unfold read
  rw [← h.resolve hp]
  cases hr : t.resolve p with
  | error e => exact ⟨rfl, h⟩
  | ok l =>
    obtain rfl := Tree.resolve_norm hr
    dsimp only
    rw [← h.entry _ (Outside.norm_notMem hp)]
    split <;> exact ⟨rfl, h⟩

theorem blind_write (hp : p.Clear S) : Blind S (write p b : FsM ε Unit) := by
  intro t u h
  unfold write
  rw [← h.place hp]
  cases hl : t.place p with
  | error e => exact ⟨rfl, h⟩
  | ok l => exact ⟨rfl, h.putFile hp hl⟩

theorem blind_rename (hsrc : src.Clear S) (hdst : dst.Clear S) :
    Blind S (rename src dst : FsM ε Unit) := by
  intro t u h
  unfold rename
  rw [← h.resolve hsrc]
  cases hr : t.resolve src with
  | error e => exact ⟨rfl, h⟩
  | ok l =>
    obtain rfl := Tree.resolve_norm hr
    have hl : src.norm ∉ S := Outside.norm_notMem hsrc
    dsimp only
    rw [← h.entry _ hl, ← h.place hdst]
    cases hentry : t.entry src.norm with
    | none => exact ⟨rfl, h⟩
    | some e =>
      cases e with
      | dir => exact ⟨rfl, h⟩
      | file b =>
        have hnot : ¬ t.IsDir src.norm := by
          rw [Tree.IsDir, hentry]
          simp
        cases hplace : t.place dst with
        | error e => exact ⟨rfl, h⟩
        | ok l' =>
          -- after the removal the destination is as free as before
          obtain ⟨hres, hfree⟩ := Tree.place_ok.1 hplace
          have hplace' : (t.remove src.norm).place dst = .ok l' :=
            Tree.place_ok.2 ⟨Tree.grows_remove.resolve hres, fun hd =>
                hfree (Tree.isDir_remove.1 hd)⟩
          exact ⟨rfl, (h.remove hl hnot).putFile hdst hplace'⟩

theorem blind_replaceFile {tmp : PathBuf} (htmp : tmp.Clear S) (hdst : dst.Clear S) :
    Blind S (replaceFile tmp dst b : FsM ε Unit) :=
  (blind_write htmp).bind fun _ => blind_rename htmp hdst

/-- A path downwards never enters the places beneath `d` if it does not end there. -/
theorem PathBuf.clear_of_downward {d : Loc} (hp : p.Downward) (h : ¬ d <:+ p.norm) :
    p.Clear {l | d <:+ l} :=
  fun _ hq hmem => h (hmem.trans (Tree.norm_suffix_of_prefix hp hq))

end Operations

end FileTree
