import Neonet.Lib.Directory

/-!
# Crashes between and within file operations

A program that changes the files of one directory is a list of operations.  After a crash the first
of them were carried out, and of a file that was being written there is the beginning.  Only what is
renamed takes its place in one piece.

* `DirOp` : the operations; `runAll` : to carry them out; `applyAll` : what they make of the files.
* `Crash` : the trees that a crash may leave; `CrashFiles` : the files, in the abstract.
* `Tree.Lists.runAll`, `Tree.Lists.crash` : **the trees hold the files.**
* `Tree.Lists.runAll_fits` : operations succeed if the file system takes the names.
-/

namespace FileTree

open FsM

/-- An operation on the files of a directory. -/
inductive DirOp
  /-- Create the directory, with those above it, if it does not exist. -/
  | create
  | write (name : String) (content : Bytes)
  | rename (src dst : String)

namespace DirOp

/-- Carry out an operation in the directory of a path. -/
def run (ε : Type) [OfOs ε] (p : PathBuf) : DirOp → FsM ε Unit
  | create => createDirAll p
  | write s b => FileTree.write (p.join s) b
  | rename s s' => FileTree.rename (p.join s) (p.join s')

/-- What an operation makes of the files. -/
def apply (f : String → Option Bytes) : DirOp → String → Option Bytes
  | create => f
  | write s b => Function.update f s (some b)
  | rename s s' => Function.update (Function.update f s none) s' (f s)

/-- The operation names files as they are named in a directory. -/
def Named : DirOp → Prop
  | create => True
  | write s _ => '/' ∉ s.toList ∧ Plain s
  | rename s s' => ('/' ∉ s.toList ∧ Plain s) ∧ '/' ∉ s'.toList ∧ Plain s'

/-- The file that is renamed is there, and the new names are accepted. -/
def Fits (accepts : String → Bool) (f : String → Option Bytes) : DirOp → Prop
  | create => True
  | write s _ => accepts s = true
  | rename s s' => f s ≠ none ∧ accepts s' = true

/-- Each operation fits the files that it finds. -/
def AllFit (accepts : String → Bool) : (String → Option Bytes) → List DirOp → Prop
  | _, [] => True
  | f, op :: ops => op.Fits accepts f ∧ AllFit accepts (op.apply f) ops

/-- Carry out operations one after the other. -/
def runAll (ε : Type) [OfOs ε] (p : PathBuf) (ops : List DirOp) : FsM ε Unit :=
  forEach (run ε p) ops

/-- What operations make of the files. -/
def applyAll (f : String → Option Bytes) (ops : List DirOp) : String → Option Bytes :=
  ops.foldl apply f

/-- A crash: some operations were carried out, and the next one is not begun, or has written a
part of its file.  (Creating a directory that exists has no parts.) -/
def Crash (ε : Type) [OfOs ε] (p : PathBuf) (ops : List DirOp) (t t' : Tree) : Prop :=
  ∃ pre post t₁, ops = pre ++ post ∧ runAll ε p pre t = (.ok (), t₁) ∧
    (t' = t₁ ∨ ∃ s b rest part, post = write s b :: rest ∧ part <+: b ∧
      (FileTree.write (p.join s) part : FsM ε Unit) t₁ = (.ok (), t'))

/-- What a crash may make of the files. -/
def CrashFiles (ops : List DirOp) (f f' : String → Option Bytes) : Prop :=
  ∃ pre post, ops = pre ++ post ∧ (f' = applyAll f pre ∨
    ∃ s b rest part, post = write s b :: rest ∧ part <+: b ∧
      f' = Function.update (applyAll f pre) s (some part))

end DirOp

variable {ε : Type} [OfOs ε] {t t' : Tree} {p : PathBuf} {f f' : String → Option Bytes}
  {op : DirOp} {ops ops' : List DirOp}

namespace DirOp

theorem runAll_append :
    runAll ε p (ops ++ ops') = (runAll ε p ops >>= fun _ => runAll ε p ops') := by
  induction ops with
  | nil => rfl
  | cons op ops ih =>
    have hcons : ∀ l, runAll ε p (op :: l) = (run ε p op >>= fun _ => runAll ε p l) := fun _ => rfl
    rw [List.cons_append, hcons, hcons, ih]
    funext t
    simp only [bind_apply]
    cases run ε p op t with
    | mk res t₁ => cases res <;> rfl

omit [OfOs ε] in
theorem applyAll_append : applyAll f (ops ++ ops') = applyAll (applyAll f ops) ops' :=
  List.foldl_append ..

theorem grows_run : t.Grows (run ε p op t).2 := by
  cases op with
  | create => exact (touches_createDirAll (S := ∅) t).grows
  | write s b => exact (touches_write t).grows
  | rename s s' => exact (touches_rename t).grows

theorem accepts_of_run {r : Except ε Unit} (h : run ε p op t = (r, t')) :
    t'.accepts = t.accepts := by
  have hgrows : t.Grows (DirOp.run ε p op t).2 := grows_run
  rw [h] at hgrows
  exact hgrows.accepts

omit [OfOs ε] in
theorem allFit_append {acc : String → Bool} :
    AllFit acc f (ops ++ ops') ↔ AllFit acc f ops ∧ AllFit acc (applyAll f ops) ops' := by
  induction ops generalizing f with
  | nil => simp [AllFit, applyAll]
  | cons op ops ih => simp only [List.cons_append, AllFit, ih, and_assoc]; rfl

/-- The names that an operation changes the files of. -/
def names : DirOp → List String
  | create => []
  | write s _ => [s]
  | rename s s' => [s, s']

omit [OfOs ε] in
theorem applyAll_of_not_named {c : String} (h : ∀ op ∈ ops, c ∉ op.names) :
    applyAll f ops c = f c := by
  induction ops generalizing f with
  | nil => rfl
  | cons op ops ih =>
    have hop : op.apply f c = f c := by
      have hc := h op List.mem_cons_self
      cases op with
      | create => rfl
      | write s b => exact Function.update_of_ne (by simpa [names] using hc) _ _
      | rename s s' =>
        have hc' : c ≠ s ∧ c ≠ s' := by simpa [names] using hc
        rw [apply, Function.update_of_ne hc'.2, Function.update_of_ne hc'.1]
    exact (ih fun op hop => h op (List.mem_cons_of_mem _ hop)).trans hop

theorem touches_run {N : Set String} (hn : op.Named) (hN : ∀ c ∈ op.names, c ∈ N) :
    Touches {l | ∃ c ∈ N, l = c :: p.norm} (run ε p op) := by
  cases op with
  | create => exact touches_createDirAll
  | write s b =>
    refine touches_write.mono ?_
    rintro l rfl
    exact ⟨s, hN s (by simp [names]), PathBuf.norm_join hn.1 hn.2⟩
  | rename s s' =>
    refine touches_rename.mono ?_
    rintro l (rfl | rfl)
    · exact ⟨s, hN s (by simp [names]), PathBuf.norm_join hn.1.1 hn.1.2⟩
    · exact ⟨s', hN s' (by simp [names]), PathBuf.norm_join hn.2.1 hn.2.2⟩

theorem Crash.frame {N : Set String} (hn : ∀ op ∈ ops, op.Named)
    (hN : ∀ op ∈ ops, ∀ c ∈ op.names, c ∈ N) (h : Crash ε p ops t t') :
    Frame {l | ∃ c ∈ N, l = c :: p.norm} t t' := by
  obtain ⟨pre, post, t₁, rfl, hr, hrest⟩ := h
  have hpre : Touches {l | ∃ c ∈ N, l = c :: p.norm} (runAll ε p pre) :=
    Touches.forEach fun op hop => touches_run (hn op (List.mem_append_left _ hop))
      (hN op (List.mem_append_left _ hop))
  have hframe := hpre t
  rw [hr] at hframe
  rcases hrest with rfl | ⟨s, b, rest, part, rfl, -, hw⟩
  · exact hframe
  · have hop : write s b ∈ pre ++ write s b :: rest := by simp
    have hnamed : (write s part).Named := hn (write s b) hop
    have hwritten := touches_run (ε := ε) (p := p) (N := N) hnamed (hN (write s b) hop) t₁
    rw [run, hw] at hwritten
    exact hframe.trans hwritten

end DirOp

namespace Tree.Lists

open DirOp

/-- An operation does to the tree what it does to the files. -/
theorem run (h : t.Lists p f) (hd : t.HasDir p) (hn : op.Named)
    (hr : DirOp.run ε p op t = (.ok (), t')) : t'.Lists p (op.apply f) ∧ t'.HasDir p := by
  have hd' : t'.HasDir p := by
    have hgrows : t.Grows (DirOp.run ε p op t).2 := grows_run
    rw [hr] at hgrows
    exact hd.grows hgrows
  refine ⟨?_, hd'⟩
  cases op with
  | create =>
    rw [DirOp.run, createDirAll_of_hasDir hd] at hr
    obtain ⟨-, rfl⟩ := Prod.mk.inj hr
    exact h
  | write s b => exact h.write hn.1 hn.2 hr
  | rename s s' => exact h.rename hn.1.1 hn.1.2 hn.2.1 hn.2.2 hr

/-- **The tree holds what the operations make of the files.** -/
theorem runAll (h : t.Lists p f) (hd : t.HasDir p) (hn : ∀ op ∈ ops, op.Named)
    (hr : DirOp.runAll ε p ops t = (.ok (), t')) :
    t'.Lists p (applyAll f ops) ∧ t'.HasDir p := by
  induction ops generalizing t f with
  | nil =>
    obtain ⟨-, rfl⟩ := Prod.mk.inj hr
    exact ⟨h, hd⟩
  | cons op ops ih =>
    obtain ⟨_, t₁, hop, hrest⟩ := bind_ok.1 hr
    obtain ⟨h₁, hd₁⟩ := h.run hd (hn op List.mem_cons_self) hop
    exact ih h₁ hd₁ (fun op hop => hn op (List.mem_cons_of_mem _ hop)) hrest

theorem run_fits (h : t.Lists p f) (hd : t.HasDir p) (hn : op.Named)
    (hfits : op.Fits t.accepts f) : ∃ t', DirOp.run ε p op t = (.ok (), t') := by
  cases op with
  | create => exact ⟨t, createDirAll_of_hasDir hd⟩
  | write s b => exact h.write_accepted hd hn.1 hn.2 hfits
  | rename s s' =>
    obtain ⟨b, hb⟩ := Option.ne_none_iff_exists'.1 hfits.1
    exact h.rename_accepted hd hn.1.1 hn.1.2 hn.2.1 hn.2.2 hb hfits.2

/-- **Operations that fit succeed.** -/
theorem runAll_fits (h : t.Lists p f) (hd : t.HasDir p) (hn : ∀ op ∈ ops, op.Named)
    (hfits : AllFit t.accepts f ops) : ∃ t', DirOp.runAll ε p ops t = (.ok (), t') := by
  induction ops generalizing t f with
  | nil => exact ⟨t, rfl⟩
  | cons op ops ih =>
    obtain ⟨t₁, hop⟩ := h.run_fits (ε := ε) hd (hn op List.mem_cons_self) hfits.1
    obtain ⟨h₁, hd₁⟩ := h.run hd (hn op List.mem_cons_self) hop
    obtain ⟨t', hrest⟩ := ih h₁ hd₁ (fun op hop => hn op (List.mem_cons_of_mem _ hop))
      (by rw [accepts_of_run hop]; exact hfits.2)
    exact ⟨t', bind_ok.2 ⟨(), t₁, hop, hrest⟩⟩

/-- **The tree holds what a crash makes of the files.** -/
theorem crash (h : t.Lists p f) (hd : t.HasDir p) (hn : ∀ op ∈ ops, op.Named)
    (hc : Crash ε p ops t t') : ∃ f', CrashFiles ops f f' ∧ t'.Lists p f' ∧ t'.HasDir p := by
  obtain ⟨pre, post, t₁, rfl, hr, hrest⟩ := hc
  obtain ⟨h₁, hd₁⟩ := h.runAll hd (fun op hop => hn op (List.mem_append_left _ hop)) hr
  rcases hrest with rfl | ⟨s, b, rest, part, rfl, hpart, hw⟩
  · exact ⟨_, ⟨pre, post, rfl, .inl rfl⟩, h₁, hd₁⟩
  · have hnamed : (DirOp.write s part).Named := hn (.write s b) (by simp)
    obtain ⟨h₂, hd₂⟩ := Tree.Lists.run h₁ hd₁ hnamed hw
    exact ⟨_, ⟨pre, _, rfl, .inr ⟨s, b, rest, part, rfl, hpart, rfl⟩⟩, h₂, hd₂⟩

end Tree.Lists

end FileTree
