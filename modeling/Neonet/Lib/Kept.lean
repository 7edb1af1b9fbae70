import Neonet.Lib.Crash
import Neonet.Lib.Lts
import Neonet.Lib.Saved

/-!
# Values that outlive crashes

A program keeps a value in a file.  It reads the file, and writes the next value to a temporary file
that it renames.  It is run again and again; a run may crash at any point, and between the runs
other programs do what they like to other files.

* `Cell` : the file in the abstract, and what was handed out; `Cell.Move` : what a run does to it.
* `Cell.ordered` : **if each value is below the one after it, what is handed out goes up.**
* `Keeper` : a program that keeps a value; `Keeper.life` : its runs and crashes, and what goes on in
  between.
* `CrashDirs` : a crash while directories are created; `content_of_crash` : **a crash leaves the old
  content or the new one.**
* `Keeper.Keeps.moves` : **the tree refines the cell.**
-/

namespace FileTree

open FsM

/-! ### The cell -/

/-- The content of a file, and the values that were handed out, the last one first. -/
structure Cell (α : Type*) where
  content : Option Bytes
  handed : List α

namespace Cell

variable {ι α : Type*} (enc : α → Bytes) (next : Option Bytes → ι → Option α)

/-- A run keeps the next value and hands it out, or crashes before it is handed out, or does
nothing. -/
inductive Move : Cell α → Cell α → Prop
  | hand {c : Cell α} {i : ι} {a : α} (h : next c.content i = some a) :
      Move c ⟨some (enc a), a :: c.handed⟩
  | lose {c : Cell α} {i : ι} {a : α} (h : next c.content i = some a) :
      Move c ⟨some (enc a), c.handed⟩
  | same (c : Cell α) : Move c c

variable {enc next} {R : α → α → Prop} {c c' : Cell α}

/-- What was handed out is in order, and below the value that is kept. -/
structure Ordered (enc : α → Bytes) (R : α → α → Prop) (c : Cell α) : Prop where
  pairwise : c.handed.Pairwise fun later earlier => R earlier later
  kept : ∀ a ∈ c.handed, ∃ b, c.content = some (enc b) ∧ (a = b ∨ R a b)

theorem Ordered.below_next (h : c.Ordered enc R)
    (hnext : ∀ a i b, next (some (enc a)) i = some b → R a b)
    (htrans : ∀ a b d, R a b → R b d → R a d) {i : ι} {b : α} (hb : next c.content i = some b) :
    ∀ a ∈ c.handed, R a b := by
  intro a ha
  obtain ⟨d, hd, had⟩ := h.kept a ha
  have hdb : R d b := hnext d i b (hd ▸ hb)
  rcases had with rfl | had
  · exact hdb
  · exact htrans _ _ _ had hdb

theorem Ordered.move (h : c.Ordered enc R)
    (hnext : ∀ a i b, next (some (enc a)) i = some b → R a b)
    (htrans : ∀ a b d, R a b → R b d → R a d) (hmove : Move enc next c c') :
    c'.Ordered enc R := by
  cases hmove with
  | same => exact h
  | hand hb =>
    have hbelow := h.below_next hnext htrans hb
    refine ⟨List.pairwise_cons.2 ⟨hbelow, h.pairwise⟩, fun a ha => ⟨_, rfl, ?_⟩⟩
    rcases List.mem_cons.1 ha with rfl | ha
    · exact .inl rfl
    · exact .inr (hbelow a ha)
  | lose hb =>
    exact ⟨h.pairwise, fun a ha => ⟨_, rfl, .inr (h.below_next hnext htrans hb a ha)⟩⟩

/-- **If each value is below the one after it, what is handed out goes up.** -/
theorem ordered {content : Option Bytes} (hnext : ∀ a i b, next (some (enc a)) i = some b → R a b)
    (htrans : ∀ a b d, R a b → R b d → R a d)
    (h : Relation.ReflTransGen (Move enc next) ⟨content, []⟩ c) : c.Ordered enc R := by
  induction h with
  | refl => exact ⟨List.Pairwise.nil, fun a ha => absurd ha List.not_mem_nil⟩
  | tail _ hmove ih => exact ih.move hnext htrans hmove

theorem content_above {a : α} (hnext : ∀ a i b, next (some (enc a)) i = some b → R a b)
    (htrans : ∀ a b d, R a b → R b d → R a d) (h : Relation.ReflTransGen (Move enc next) c c')
    (hc : c.content = some (enc a)) : ∃ b, c'.content = some (enc b) ∧ (a = b ∨ R a b) := by
  induction h with
  | refl => exact ⟨a, hc, .inl rfl⟩
  | @tail d d' _ hmove ih =>
    obtain ⟨b, hb, hab⟩ := ih
    have habove : ∀ {i : ι} {e : α}, next d.content i = some e → R a e := by
      intro i e he
      have hbe : R b e := hnext b i e (hb ▸ he)
      rcases hab with rfl | hab
      · exact hbe
      · exact htrans _ _ _ hab hbe
    cases hmove with
    | same => exact ⟨b, hb, hab⟩
    | hand he => exact ⟨_, rfl, .inr (habove he)⟩
    | lose he => exact ⟨_, rfl, .inr (habove he)⟩

theorem content_cases (h : Relation.ReflTransGen (Move enc next) c c') :
    c'.content = c.content ∨ ∃ a, c'.content = some (enc a) := by
  induction h with
  | refl => exact .inl rfl
  | tail _ hmove ih =>
    cases hmove with
    | same => exact ih
    | hand hb => exact .inr ⟨_, rfl⟩
    | lose hb => exact .inr ⟨_, rfl⟩

end Cell

/-! ### What a crash leaves -/

section Crashes

variable {ε : Type} [OfOs ε] {t t' : Tree} {p : PathBuf} {s tmp : String} {b : Bytes}

/-- A crash while a directory is created: of those above it the first ones are there. -/
def CrashDirs (ε : Type) [OfOs ε] (p : PathBuf) (t t' : Tree) : Prop :=
  ∃ q, q <+: p ∧ t' = ((createDirAll q : FsM ε Unit) t).2

theorem CrashDirs.frame (h : CrashDirs ε p t t') : Frame ∅ t t' := by
  obtain ⟨q, -, rfl⟩ := h
  exact touches_createDirAll t

/-- The operations of a replacement. -/
def replaceOps (tmp s : String) (b : Bytes) : List DirOp := [.write tmp b, .rename tmp s]

theorem runAll_replaceOps :
    DirOp.runAll ε p (replaceOps tmp s b) = replaceFile (p.join tmp) (p.join s) b := by
  funext t
  simp only [replaceOps, DirOp.runAll, forEach, DirOp.run, replaceFile, bind_apply]
  cases (write (p.join tmp) b : FsM ε Unit) t with
  | mk res t₁ =>
  cases res with
  | error e => rfl
  | ok =>
    dsimp only
    cases (rename (p.join tmp) (p.join s) : FsM ε Unit) t₁ with
    | mk res t₂ => cases res <;> rfl

/-- **A crash leaves the old content or the new one.** -/
theorem content_of_crash (hp : p.Downward) (hs : '/' ∉ s.toList) (hs' : Plain s)
    (htmp : '/' ∉ tmp.toList) (htmp' : Plain tmp) (hne : tmp ≠ s)
    (h : DirOp.Crash ε p (replaceOps tmp s b) t t') :
    t'.content (p.join s) = t.content (p.join s) ∨ t'.content (p.join s) = some b := by
  have hwrite : ∀ {c : Bytes} {t₁ t₂ : Tree},
      (write (p.join tmp) c : FsM ε Unit) t₁ = (.ok (), t₂) →
        t₂.content (p.join s) = t₁.content (p.join s) := by
    intro c t₁ t₂ hw
    have hframe := touches_write (ε := ε) (p := p.join tmp) (b := c) t₁
    rw [hw] at hframe
    refine Tree.content_of_frame hframe hp hs hs' ?_
    rw [PathBuf.norm_join hs hs', PathBuf.norm_join htmp htmp']
    exact fun heq => hne (List.cons.inj heq).1.symm
  obtain ⟨pre, post, t₁, hops, hr, hrest⟩ := h
  rcases pre with - | ⟨op, - | ⟨op', - | ⟨op'', pre⟩⟩⟩
  · obtain ⟨-, rfl⟩ := Prod.mk.inj hr
    rcases hrest with rfl | ⟨c, d, rest, part, hpost, -, hw⟩
    · exact .inl rfl
    · -- a part of the temporary file
      obtain ⟨hop, -⟩ := List.cons.inj (hops.trans hpost)
      obtain ⟨rfl, rfl⟩ := DirOp.write.inj hop
      exact .inl (hwrite hw)
  · -- the temporary file is there
    obtain ⟨hop, hpost⟩ := List.cons.inj hops
    subst hop
    obtain ⟨_, t₂, hw, hnil⟩ := bind_ok.1 hr
    obtain ⟨-, rfl⟩ := Prod.mk.inj hnil
    rcases hrest with rfl | ⟨c, d, rest, part, hwpost, -, -⟩
    · exact .inl (hwrite hw)
    · cases hpost.trans hwpost
  · -- the file is replaced
    obtain ⟨rfl, htail⟩ := List.cons.inj hops
    obtain ⟨rfl, hpost⟩ := List.cons.inj htail
    obtain rfl : post = [] := hpost.symm
    rcases hrest with rfl | ⟨c, d, rest, part, hwpost, -, -⟩
    · rw [← replaceOps, runAll_replaceOps] at hr
      obtain ⟨-, hfile, -⟩ | ⟨⟨e, he⟩, -⟩ := replaceFile_cases hr
      · exact .inr (Tree.content_eq_some.2 hfile)
      · cases he
    · cases hwpost
  · cases (List.cons.inj (List.cons.inj hops).2).2

end Crashes

/-! ### Programs that keep a value -/

/-- A program that keeps a value in a file. -/
structure Keeper (ε ι α : Type) where
  dir : PathBuf
  name : String
  /-- A run, which hands out a value. -/
  run : ι → FsM ε α
  /-- What a crash may leave. -/
  crash : ι → Tree → Tree → Prop

namespace Keeper

/-- What happens. -/
inductive Event (ι : Type)
  | run (i : ι)
  | crash (i : ι)
  | other

variable {ε ι α : Type} (k : Keeper ε ι α)

/-- The file. -/
def path : PathBuf := k.dir.join k.name

/-- What was handed out after a run. -/
def handedAfter (os : List α) : Except ε α → List α
  | .ok a => a :: os
  | .error _ => os

/-- Runs and crashes, and what other programs do to other files.  Of the values that were handed out
the last one stands first. -/
def life : Lts (Tree × List α) (Event ι) where
  init s := s.2 = []
  step s e s' :=
    match e with
    | .run i => s' = ((k.run i s.1).2, handedAfter s.2 (k.run i s.1).1)
    | .crash i => k.crash i s.1 s'.1 ∧ s'.2 = s.2
    | .other => Frame {l | l ≠ k.path.norm} s.1 s'.1 ∧ s'.2 = s.2

/-- A run that succeeds keeps the next value, one that fails keeps nothing new, and a crash leaves
the old value or the next one. -/
structure Keeps (enc : α → Bytes) (next : Option Bytes → ι → Option α) : Prop where
  downward : k.dir.Downward
  noSlash : '/' ∉ k.name.toList
  plain : Plain k.name
  ok : ∀ {t t' i a}, k.run i t = (.ok a, t') →
    next (t.content k.path) i = some a ∧ t'.content k.path = some (enc a)
  error : ∀ {t t' i e}, k.run i t = (.error e, t') → t'.content k.path = t.content k.path
  crash : ∀ {t t' i}, k.crash i t t' → t'.content k.path = t.content k.path ∨
    ∃ a, next (t.content k.path) i = some a ∧ t'.content k.path = some (enc a)

variable {k} {enc : α → Bytes} {next : Option Bytes → ι → Option α} {t t' : Tree}
  {os os' : List α} {R : α → α → Prop}

theorem step_run {i : ι} {a : α} (h : (k.run i t).1 = .ok a) :
    k.life.step (t, os) (.run i) ((k.run i t).2, a :: os) := by
  simp only [life, h, handedAfter]

/-- A step of the tree is a move of the cell. -/
theorem Keeps.move (h : k.Keeps enc next) {e : Event ι} (hstep : k.life.step (t, os) e (t', os')) :
    Cell.Move enc next ⟨t.content k.path, os⟩ ⟨t'.content k.path, os'⟩ := by
  cases e with
  | run i =>
    obtain ⟨rfl, rfl⟩ := Prod.mk.inj hstep
    dsimp only
    cases hrun : k.run i t with
    | mk res t₁ =>
    cases res with
    | ok a =>
      obtain ⟨hnext, hcontent⟩ := h.ok hrun
      rw [hcontent]
      exact .hand hnext
    | error e =>
      rw [h.error hrun]
      exact .same _
  | crash i =>
    obtain ⟨hcrash, hos⟩ := hstep
    obtain rfl : os' = os := hos
    rcases h.crash hcrash with hcontent | ⟨a, hnext, hcontent⟩
    · rw [hcontent]
      exact .same _
    · rw [hcontent]
      exact .lose hnext
  | other =>
    obtain ⟨hframe, hos⟩ := hstep
    obtain rfl : os' = os := hos
    have hcontent : t'.content k.path = t.content k.path :=
      Tree.content_of_frame hframe h.downward h.noSlash h.plain fun hne => hne rfl
    rw [hcontent]
    exact .same _

/-- **The tree refines the cell.** -/
theorem Keeps.moves (h : k.Keeps enc next) {s s' : Tree × List α} (hlife : k.life.Leads s s') :
    Relation.ReflTransGen (Cell.Move enc next) ⟨s.1.content k.path, s.2⟩
      ⟨s'.1.content k.path, s'.2⟩ := by
  induction hlife with
  | refl => exact .refl
  | tail _ hstep ih =>
    obtain ⟨e, hstep⟩ := hstep
    exact ih.tail (h.move hstep)

theorem Keeps.ordered (h : k.Keeps enc next)
    (hnext : ∀ a i b, next (some (enc a)) i = some b → R a b)
    (htrans : ∀ a b d, R a b → R b d → R a d) (hlife : k.life.Leads (t, []) (t', os)) :
    Cell.Ordered enc R ⟨t'.content k.path, os⟩ :=
  Cell.ordered hnext htrans (h.moves hlife)

end Keeper

end FileTree
