import Mathlib.Data.Fintype.Pigeonhole
import Mathlib.Order.WellFounded
import Mathlib.Order.Monotone.Basic

/-!
# Endless runs of a relation

* `IsRun r f` : `f` goes on forever along `r`.
* `IsRun.transGen` : what comes later in a run is reached from what comes before.
* `exists_isRun_of_cycle` : a cycle can be run through forever.
* `IsRun.exists_eq` : an endless run in a finite type comes back to where it was.
* `mem_of_reflTransGen` : a relation that does not lead out of a set reaches nothing outside it.
-/

open Relation

variable {α : Type*} {r : α → α → Prop} {f : ℕ → α} {a : α}

/-- Every step of `f` is one of `r`. -/
def IsRun (r : α → α → Prop) (f : ℕ → α) : Prop := ∀ i, r (f i) (f (i + 1))

theorem IsRun.transGen (h : IsRun r f) {i j : ℕ} (hij : i < j) : TransGen r (f i) (f j) := by
  have : IsTrans α (TransGen r) := ⟨fun _ _ _ => TransGen.trans⟩
  exact Nat.rel_of_forall_rel_succ_of_lt (TransGen r) (fun n => .single (h n)) hij

/-- A cycle can be run through forever. -/
theorem exists_isRun_of_cycle (h : TransGen r a a) : ∃ f : ℕ → α, f 0 = a ∧ IsRun r f := by
  by_contra hno
  have hacc : Acc (flip r) a := by
    by_contra hn
    obtain ⟨f, h0, hf⟩ := not_acc_iff_exists_descending_chain.1 hn
    exact hno ⟨f, h0, hf⟩
  have hself : TransGen (flip r) a a := transGen_swap.1 h
  exact not_acc_iff_exists_descending_chain.2 ⟨fun _ => a, rfl, fun _ => hself⟩
    (acc_transGen_iff.2 hacc)

/-- An endless run in a finite type comes back to where it was. -/
theorem IsRun.exists_eq [Finite α] (f : ℕ → α) : ∃ i j, i < j ∧ f i = f j := by
  obtain ⟨i, j, hne, heq⟩ := Finite.exists_ne_map_eq_of_infinite f
  rcases Nat.lt_or_gt_of_ne hne with h | h
  · exact ⟨i, j, h, heq⟩
  · exact ⟨j, i, h, heq.symm⟩

/-- What does not lead out of a set reaches nothing outside it. -/
theorem mem_of_reflTransGen {S : α → Prop} {b : α} (h : ReflTransGen r a b) (ha : S a)
    (hr : ∀ n n', S n → r n n' → S n') : S b := by
  induction h with
  | refl => exact ha
  | tail _ hstep ih => exact hr _ _ ih hstep
