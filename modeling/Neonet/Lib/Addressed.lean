import Mathlib.Data.Set.Function
import Mathlib.Logic.Function.Basic

/-!
# Content-addressed stores

A store in which each content stands under its own address, so that two stores can only differ in
what they have.

* `Addressed addr` : such a store.  That each content stands under its address is a field.
* `Addressed.put` : a content is added unless there is one under its address.
* `Addressed.pull` : the contents that another store has under some addresses are added.
* `Addressed.get_pull_eq_some_iff` : **a store that pulls all that it misses has the union of
  both**, if no two of the contents share an address.
* `Addressed.get_putAll_eq_some_iff` : **contents that are put one after the other are added to
  those that were there**, if no two of all these share an address.
-/

/-- A store in which each content stands under its address. -/
structure Addressed {κ β : Type*} (addr : β → κ) where
  get : κ → Option β
  /-- Each content stands under its address. -/
  addressed : ∀ k b, get k = some b → addr b = k

namespace Addressed

variable {κ β : Type*} {addr : β → κ} {s t : Addressed addr} {b b' : β} {j k : κ} {ks : List κ}

/-- A store without contents. -/
def empty : Addressed addr := ⟨fun _ => none, fun _ _ h => nomatch h⟩

@[simp] theorem get_empty : (empty : Addressed addr).get k = none := rfl

theorem ext_get (h : ∀ k, s.get k = t.get k) : s = t := by
  obtain ⟨f, hf⟩ := s
  obtain ⟨g, hg⟩ := t
  obtain rfl : f = g := funext h
  rfl

/-- The contents of a store. -/
def held (s : Addressed addr) : Set β := {b | ∃ k, s.get k = some b}

theorem mem_held (h : s.get k = some b) : b ∈ s.held := ⟨k, h⟩

/-- No two contents of the stores share an address. -/
def Disjoint (s t : Addressed addr) : Prop :=
  ∀ k b b', s.get k = some b → t.get k = some b' → b = b'

theorem Disjoint.symm (h : s.Disjoint t) : t.Disjoint s := fun k b b' hb hb' =>
  (h k b' b hb' hb).symm

/-- **The union of two stores** that have the same wherever both have something. -/
theorem or_eq_some_iff (h : s.Disjoint t) :
    (s.get k).or (t.get k) = some b ↔ s.get k = some b ∨ t.get k = some b := by
  cases hs : s.get k with
  | none => simp
  | some c =>
    rw [Option.some_or]
    constructor
    · exact .inl
    · rintro (hb | hb)
      · exact hb
      · rw [h k c b hs hb]

variable [DecidableEq κ]

/-- The content is added under its address, unless there is one. -/
def put (s : Addressed addr) (b : β) : Addressed addr where
  get := Function.update s.get (addr b) ((s.get (addr b)).or (some b))
  addressed k c h := by
    by_cases hk : k = addr b
    · subst hk
      rw [Function.update_self] at h
      cases hs : s.get (addr b) with
      | none =>
        rw [hs] at h
        rw [← Option.some.inj h]
      | some d =>
        rw [hs] at h
        rw [← Option.some.inj h]
        exact s.addressed _ _ hs
    · rw [Function.update_of_ne hk] at h
      exact s.addressed _ _ h

/-- What the other store has under these addresses is added, one after the other. -/
def pull (s t : Addressed addr) (ks : List κ) : Addressed addr :=
  (ks.filterMap t.get).foldl put s

theorem get_put : (s.put b).get k = if k = addr b then (s.get k).or (some b) else s.get k := by
  by_cases hk : k = addr b
  · rw [if_pos hk, hk]
    exact Function.update_self ..
  · rw [if_neg hk]
    exact Function.update_of_ne hk ..

theorem pull_nil : s.pull t [] = s := rfl

theorem pull_cons_none (h : t.get k = none) : s.pull t (k :: ks) = s.pull t ks := by
  rw [pull, List.filterMap_cons_none h, pull]

theorem pull_cons_some (h : t.get k = some b) : s.pull t (k :: ks) = (s.put b).pull t ks := by
  rw [pull, List.filterMap_cons_some h, List.foldl_cons, pull]

/-- **What a store has after a pull**: what it had, and under the others of these addresses what
the other store has. -/
theorem get_pull : (s.pull t ks).get j =
    (s.get j).or (if j ∈ ks then t.get j else none) := by
  induction ks generalizing s with
  | nil => simp [pull_nil]
  | cons k ks ih =>
    cases hk : t.get k with
    | none =>
      rw [pull_cons_none hk, ih]
      by_cases hj : j = k
      · simp [hj, hk]
      · simp [hj]
    | some b =>
      -- the content that is added stands under the address it was asked for
      have haddr : addr b = k := t.addressed k b hk
      rw [pull_cons_some hk, ih, get_put, haddr]
      by_cases hj : j = k
      · subst hj
        simp [hk]
      · simp [hj]

/-- **A store that pulls all that it misses** has what either has. -/
theorem get_pull_eq_some_iff (h : s.Disjoint t)
    (hks : ∀ k, s.get k = none → t.get k ≠ none → k ∈ ks) :
    (s.pull t ks).get k = some b ↔ s.get k = some b ∨ t.get k = some b := by
  rw [← or_eq_some_iff h, get_pull]
  by_cases hk : k ∈ ks
  · rw [if_pos hk]
  · rw [if_neg hk]
    cases hs : s.get k with
    | some c => rw [Option.some_or, Option.some_or]
    | none =>
      have ht : t.get k = none := by
        by_contra hne
        exact hk (hks k hs hne)
      rw [ht]

/-! ### Contents one after the other -/

/-- Contents are put, one after the other. -/
def putAll (s : Addressed addr) (bs : List β) : Addressed addr := bs.foldl put s

@[simp] theorem putAll_nil : s.putAll [] = s := rfl

@[simp] theorem putAll_cons {bs : List β} : s.putAll (b :: bs) = (s.put b).putAll bs := rfl

theorem putAll_append {bs bs' : List β} : s.putAll (bs ++ bs') = (s.putAll bs).putAll bs' :=
  List.foldl_append

/-- A content that collides with none is what stands under its address. -/
theorem get_put_of_injOn (h : Set.InjOn addr (insert b s.held)) :
    (s.put b).get k = if k = addr b then some b else s.get k := by
  rw [get_put]
  split
  · rename_i hk
    subst hk
    cases hs : s.get (addr b) with
    | none => rfl
    | some c =>
      have hc : c = b := h (.inr (mem_held hs)) (.inl rfl) (s.addressed _ _ hs)
      rw [hc, Option.some_or]
  · rfl

theorem get_put_eq_some_iff (h : Set.InjOn addr (insert b s.held)) :
    (s.put b).get k = some b' ↔ s.get k = some b' ∨ b' = b ∧ addr b' = k := by
  rw [get_put_of_injOn h]
  split
  · rename_i hk
    subst hk
    constructor
    · rintro ⟨⟩
      exact .inr ⟨rfl, rfl⟩
    · rintro (hs | ⟨rfl, -⟩)
      · rw [h (.inr (mem_held hs)) (.inl rfl) (s.addressed _ _ hs)]
      · rfl
  · rename_i hk
    constructor
    · exact .inl
    · rintro (hs | ⟨rfl, haddr⟩)
      · exact hs
      · exact absurd haddr.symm hk

theorem held_put_subset : (s.put b).held ⊆ insert b s.held := by
  rintro c ⟨k, hc⟩
  rw [get_put] at hc
  split at hc
  · rcases Option.or_eq_some_iff.1 hc with hs | ⟨-, hb⟩
    · exact .inr (mem_held hs)
    · exact .inl (Option.some.inj hb).symm
  · exact .inr (mem_held hc)

theorem held_putAll_subset {bs : List β} : (s.putAll bs).held ⊆ s.held ∪ {b | b ∈ bs} := by
  induction bs generalizing s with
  | nil => exact Set.subset_union_left
  | cons b bs ih =>
    intro c hc
    rcases ih hc with hput | hrest
    · rcases held_put_subset hput with rfl | hs
      · exact .inr List.mem_cons_self
      · exact .inl hs
    · exact .inr (List.mem_cons_of_mem _ hrest)

/-- **Contents that are put one after the other** are added to those that were there. -/
theorem get_putAll_eq_some_iff {bs : List β} (h : Set.InjOn addr (s.held ∪ {b | b ∈ bs})) :
    (s.putAll bs).get k = some b' ↔ s.get k = some b' ∨ b' ∈ bs ∧ addr b' = k := by
  induction bs generalizing s with
  | nil => simp
  | cons b bs ih =>
    have hfirst : insert b s.held ⊆ s.held ∪ {c | c ∈ b :: bs} := by
      rintro c (rfl | hc)
      · exact .inr List.mem_cons_self
      · exact .inl hc
    have hrest : (s.put b).held ∪ {c | c ∈ bs} ⊆ s.held ∪ {c | c ∈ b :: bs} := by
      rintro c (hc | hc)
      · exact hfirst (held_put_subset hc)
      · exact .inr (List.mem_cons_of_mem _ hc)
    rw [putAll_cons, ih (h.mono hrest), get_put_eq_some_iff (h.mono hfirst), List.mem_cons,
      or_assoc, or_and_right]

end Addressed
