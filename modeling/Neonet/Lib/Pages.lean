import Mathlib.Algebra.BigOperators.Group.List.Basic
import Mathlib.Algebra.GroupWithZero.Nat
import Mathlib.Data.List.TakeDrop
import Mathlib.Data.Nat.Find
import Mathlib.Order.Monotone.Basic

/-!
# Pages of a list

A list is given out page by page.  A page takes the first element that is left, whatever its size,
and as many of the following as a budget allows.

* `page`, `ends` : a page, and where the pages of a list end.
* `page_ne_nil`, `page_fits` : a page is not empty, and is a single element or within the budget.
* `ends_length` : **after as many pages as there are elements, all of them were given out.**
* `End` : a page ends there; `end_length` : one ends at the end of the list.
-/

namespace Pages

variable {α : Type*} (size : α → ℕ)

/-- As many elements as the budget allows, the first of all whatever it costs. -/
def takeUnder (first : Bool) (budget : ℕ) : List α → List α
  | [] => []
  | a :: l =>
    if first = false ∧ budget < size a then [] else a :: takeUnder false (budget - size a) l

variable (budget : ℕ)

/-- The first page of a list. -/
def page (l : List α) : List α := takeUnder size true budget l

/-- How many elements the first pages hold. -/
def ends (l : List α) : ℕ → ℕ
  | 0 => 0
  | j + 1 => ends l j + (page size budget (l.drop (ends l j))).length

/-- A page of the list ends after so many elements. -/
def End (l : List α) (n : ℕ) : Prop := ∃ j, ends size budget l j = n

variable {size budget} {l : List α} {j n : ℕ}

theorem takeUnder_prefix {first : Bool} : takeUnder size first budget l <+: l := by
  induction l generalizing first budget with
  | nil => exact List.prefix_rfl
  | cons a l ih =>
    rw [takeUnder]
    split
    · exact List.nil_prefix
    · exact (List.prefix_cons_inj a).2 ih

theorem page_eq_take : page size budget l = l.take (page size budget l).length :=
  List.prefix_iff_eq_take.1 takeUnder_prefix

theorem page_sublist : (page size budget l).Sublist l := List.IsPrefix.sublist takeUnder_prefix

/-- The first element is always taken. -/
theorem page_ne_nil (h : l ≠ []) : page size budget l ≠ [] := by
  cases l with
  | nil => exact absurd rfl h
  | cons a l => simp [page, takeUnder]

theorem length_page_pos (h : l ≠ []) : 0 < (page size budget l).length :=
  List.length_pos_of_ne_nil (page_ne_nil h)

theorem sum_takeUnder (budget : ℕ) (l : List α) :
    ((takeUnder size false budget l).map size).sum ≤ budget := by
  induction l generalizing budget with
  | nil => simp [takeUnder]
  | cons a l ih =>
    rw [takeUnder]
    split
    · simp
    · rename_i hsize
      have hrest := ih (budget - size a)
      have hle : size a ≤ budget := by simpa using hsize
      rw [List.map_cons, List.sum_cons]
      omega

/-- A page is a single element, or within the budget. -/
theorem page_fits (hsize : ∀ a ∈ l, 0 < size a) :
    (page size budget l).length ≤ 1 ∨ ((page size budget l).map size).sum ≤ budget := by
  cases l with
  | nil => simp [page, takeUnder]
  | cons a l =>
    have hpage : page size budget (a :: l) = a :: takeUnder size false (budget - size a) l := by
      simp [page, takeUnder]
    have hsum : ((takeUnder size false (budget - size a) l).map size).sum ≤ budget - size a :=
      sum_takeUnder _ _
    rw [hpage]
    by_cases hle : size a ≤ budget
    · right
      rw [List.map_cons, List.sum_cons]
      omega
    · left
      -- nothing is left of the budget, and every element costs something
      have hnone : takeUnder size false (budget - size a) l = [] := by
        cases l with
        | nil => rfl
        | cons b l =>
          have hb := hsize b (by simp)
          rw [takeUnder, if_pos ⟨rfl, by omega⟩]
      rw [hnone]
      simp

@[simp] theorem ends_zero : ends size budget l 0 = 0 := rfl

theorem ends_succ :
    ends size budget l (j + 1) =
      ends size budget l j + (page size budget (l.drop (ends size budget l j))).length := rfl

theorem take_ends_succ :
    l.take (ends size budget l (j + 1)) =
      l.take (ends size budget l j) ++ page size budget (l.drop (ends size budget l j)) := by
  rw [ends_succ, List.take_add, ← page_eq_take]

theorem ends_le : ends size budget l j ≤ l.length := by
  induction j with
  | zero => simp
  | succ j ih =>
    have hle : (page size budget (l.drop (ends size budget l j))).length ≤
        (l.drop (ends size budget l j)).length := page_sublist.length_le
    rw [List.length_drop] at hle
    rw [ends_succ]
    omega

theorem ends_lt_succ (h : ends size budget l j < l.length) :
    ends size budget l j < ends size budget l (j + 1) := by
  have hpos : 0 < (page size budget (l.drop (ends size budget l j))).length :=
    length_page_pos (by simpa [List.drop_eq_nil_iff] using h)
  rw [ends_succ]
  omega

theorem monotone_ends : Monotone (ends size budget l) :=
  monotone_nat_of_le_succ fun j => by
    rw [ends_succ]
    omega

theorem le_ends (h : j ≤ l.length) : j ≤ ends size budget l j := by
  induction j with
  | zero => simp
  | succ j ih =>
    have hj := ih (by omega)
    by_cases hlt : ends size budget l j < l.length
    · have hnext := ends_lt_succ hlt
      omega
    · have hle : ends size budget l j ≤ ends size budget l (j + 1) := monotone_ends (Nat.le_succ j)
      omega

/-- **After as many pages as there are elements**, nothing is left. -/
theorem ends_length : ends size budget l l.length = l.length :=
  le_antisymm ends_le (le_ends le_rfl)

theorem not_end_of_between (h : ends size budget l j < n) (h' : n < ends size budget l (j + 1)) :
    ¬ End size budget l n := by
  rintro ⟨i, rfl⟩
  rcases Nat.lt_or_ge j i with hi | hi
  · exact absurd (monotone_ends hi) (Nat.not_le.2 h')
  · exact absurd (monotone_ends hi) (Nat.not_le.2 h)

theorem end_zero : End size budget l 0 := ⟨0, rfl⟩

theorem exists_first_end : ∃ j, j ≤ l.length ∧ ends size budget l j = l.length ∧
    ∀ i < j, ends size budget l i < l.length := by
  have hex : ∃ j, ends size budget l j = l.length := ⟨l.length, ends_length⟩
  exact ⟨Nat.find hex, Nat.find_min' hex ends_length, Nat.find_spec hex, fun i hi =>
    lt_of_le_of_ne ends_le (Nat.find_min hex hi)⟩

/-- A page ends at the end of the list. -/
theorem end_length : End size budget l l.length := ⟨l.length, ends_length⟩

end Pages
