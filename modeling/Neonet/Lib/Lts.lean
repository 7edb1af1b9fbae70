import Mathlib.Logic.Relation

/-!
# Transition systems and machines

Two ways to run a system, shared by every model of this development:

* `Lts S L` : a labelled transition relation with a set of initial states, for parties whose
  steps interleave.  `Lts.Leads s s'` is the reflexive–transitive closure of its moves, and
  `Lts.Reachable.invariant` the induction principle for safety.  `Lts.restrict` keeps the steps
  that meet a condition on the state before them, and `Lts.Deadlock` says that some steps,
  say those of one party, are all disabled.
* `Machine S A O` : a deterministic machine that answers each action with an output, for a
  component that handles one request after the other.  `Machine.transcript` pairs each action
  of a run with its answer, and `Machine.Along P` says that every step of a run meets `P`.
-/

/-- A labelled transition system. -/
structure Lts (S : Type*) (L : Type*) where
  /-- The states a run may begin in. -/
  init : S → Prop
  /-- `step s l s'` : doing `l` in `s` may end in `s'`. -/
  step : S → L → S → Prop

namespace Lts

variable {S L : Type*} (A : Lts S L)

/-- One move, whatever its label. -/
def Move (s s' : S) : Prop := ∃ l, A.step s l s'

/-- `s'` can be reached from `s` by zero or more moves. -/
def Leads (s s' : S) : Prop := Relation.ReflTransGen A.Move s s'

/-- `s` occurs in some run. -/
def Reachable (s : S) : Prop := ∃ s₀, A.init s₀ ∧ A.Leads s₀ s

variable {A}

@[refl] theorem Leads.refl (s : S) : A.Leads s s := Relation.ReflTransGen.refl

theorem Leads.trans {s₁ s₂ s₃ : S} (h : A.Leads s₁ s₂) (h' : A.Leads s₂ s₃) : A.Leads s₁ s₃ :=
  Relation.ReflTransGen.trans h h'

theorem Leads.step {s s' s'' : S} {l : L} (h : A.Leads s s') (h' : A.step s' l s'') :
    A.Leads s s'' :=
  Relation.ReflTransGen.tail h ⟨l, h'⟩

theorem Leads.of_step {s s' : S} {l : L} (h : A.step s l s') : A.Leads s s' :=
  (Leads.refl s).step h

/-- What every step preserves, every run preserves. -/
theorem Leads.preserves {I : S → Prop} {s s' : S} (h : A.Leads s s') (hs : I s)
    (hstep : ∀ s l s', I s → A.step s l s' → I s') : I s' := by
  induction h with
  | refl => exact hs
  | tail _ hmove ih =>
    obtain ⟨l, hl⟩ := hmove
    exact hstep _ l _ ih hl

theorem Reachable.of_init {s : S} (h : A.init s) : A.Reachable s := ⟨s, h, Leads.refl s⟩

theorem Reachable.leads {s s' : S} (h : A.Reachable s) (h' : A.Leads s s') : A.Reachable s' := by
  obtain ⟨s₀, h₀, hs⟩ := h
  exact ⟨s₀, h₀, hs.trans h'⟩

theorem Reachable.step {s s' : S} {l : L} (h : A.Reachable s) (h' : A.step s l s') :
    A.Reachable s' :=
  h.leads (Leads.of_step h')

/-- **Safety.**  A predicate that holds initially and that every step preserves holds in every
reachable state. -/
theorem Reachable.invariant {I : S → Prop} {s : S} (h : A.Reachable s)
    (hinit : ∀ s, A.init s → I s) (hstep : ∀ s l s', I s → A.step s l s' → I s') : I s := by
  obtain ⟨s₀, h₀, hs⟩ := h
  exact hs.preserves (hinit s₀ h₀) hstep

/-! ### Restricted systems -/

variable (A) (P : S → L → Prop)

/-- The system with only those steps that meet `P`. -/
def restrict : Lts S L where
  init := A.init
  step s l s' := A.step s l s' ∧ P s l

/-- None of the steps that meet `P` is enabled in `s`. -/
def Deadlock (s : S) : Prop := ∀ l s', P s l → ¬ A.step s l s'

end Lts

/-- A deterministic machine: each action is answered and leads to one next state. -/
structure Machine (S : Type*) (A : Type*) (O : Type*) where
  /-- The answer to an action and the state after it. -/
  step : S → A → O × S

namespace Machine

variable {S A O : Type*} (M : Machine S A O)

/-- The state after a list of actions. -/
def after (s : S) : List A → S
  | [] => s
  | a :: as => after (M.step s a).2 as

/-- The actions of a run, each with its answer. -/
def transcript (s : S) : List A → List (A × O)
  | [] => []
  | a :: as => (a, (M.step s a).1) :: transcript (M.step s a).2 as

/-- Every step of the run meets `P`, a condition on the state before it and the action. -/
def Along (P : S → A → Prop) (s : S) : List A → Prop
  | [] => True
  | a :: as => P s a ∧ Along P (M.step s a).2 as

variable {M}

@[simp] theorem after_nil (s : S) : M.after s [] = s := rfl

@[simp] theorem after_cons (s : S) (a : A) (as : List A) :
    M.after s (a :: as) = M.after (M.step s a).2 as := rfl

theorem after_append (s : S) (as bs : List A) :
    M.after s (as ++ bs) = M.after (M.after s as) bs := by
  induction as generalizing s with
  | nil => rfl
  | cons a as ih => exact ih _

theorem along_append {P : S → A → Prop} {s : S} {as bs : List A} :
    M.Along P s (as ++ bs) ↔ M.Along P s as ∧ M.Along P (M.after s as) bs := by
  induction as generalizing s with
  | nil => simp [Along]
  | cons a as ih => simp only [List.cons_append, Along, after_cons, ih, and_assoc]

theorem Along.and_forall {P : S → A → Prop} {Q : A → Prop} {s : S} {as : List A}
    (h : M.Along P s as) (hQ : ∀ a ∈ as, Q a) : M.Along (fun s a => P s a ∧ Q a) s as := by
  induction as generalizing s with
  | nil => trivial
  | cons a as ih =>
    exact ⟨⟨h.1, hQ a List.mem_cons_self⟩, ih h.2 fun x hx => hQ x (List.mem_cons_of_mem _ hx)⟩

/-- A predicate that every step meeting `P` preserves holds after every run along `P`. -/
theorem Along.invariant {P : S → A → Prop} {I : S → Prop} {s : S} {as : List A}
    (h : M.Along P s as) (hs : I s) (hstep : ∀ s a, P s a → I s → I (M.step s a).2) :
    I (M.after s as) := by
  induction as generalizing s with
  | nil => exact hs
  | cons a as ih => exact ih h.2 (hstep s a h.1 hs)

/-- The answers of a run are all such that `Q` iff every step meets what makes them so. -/
theorem along_answer_iff {P : S → A → Prop} {Q : O → Prop} {s : S} {as : List A}
    (h : ∀ s a, Q (M.step s a).1 ↔ P s a) :
    (∀ e ∈ M.transcript s as, Q e.2) ↔ M.Along P s as := by
  induction as generalizing s with
  | nil => simp [transcript, Along]
  | cons a as ih => rw [transcript, List.forall_mem_cons, ih, Along, h]

/-- A predicate holds throughout a run iff every step meets what preserves it. -/
theorem along_invariant_iff {P : S → A → Prop} {I : S → Prop} {s : S} {as : List A} (hs : I s)
    (hstep : ∀ s a, I s → (I (M.step s a).2 ↔ P s a)) :
    (∀ pre, pre <+: as → I (M.after s pre)) ↔ M.Along P s as := by
  induction as generalizing s with
  | nil =>
    refine iff_of_true (fun pre hpre => ?_) trivial
    rw [List.prefix_nil.1 hpre]
    exact hs
  | cons a as ih =>
    rw [Along, ← hstep s a hs]
    constructor
    · intro h
      have hnext : I (M.step s a).2 := h [a] (List.cons_prefix_cons.2 ⟨rfl, List.nil_prefix⟩)
      exact ⟨hnext, (ih hnext).1 fun pre hpre => h (a :: pre) (List.cons_prefix_cons.2 ⟨rfl, hpre⟩)⟩
    · rintro ⟨hnext, hrest⟩ pre hpre
      cases pre with
      | nil => exact hs
      | cons b pre =>
        obtain ⟨rfl, hlater⟩ := List.cons_prefix_cons.1 hpre
        exact (ih hnext).2 hrest pre hlater

end Machine
