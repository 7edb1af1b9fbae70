import Mathlib.Data.List.Nodup
import Mathlib.Data.List.Sublists

/-!
# Lists in which a new entry replaces those it clashes with

* `supersede`, `survivors` : one entry, and one after the other.
* `mem_survivors`, `pair_sublist_survivors` : **an entry stays iff nothing that comes after it
  clashes with it**, and those that stay are in the order in which they came.
* `pairwise_survivors` : no two of them clash.
* `getLast?_filter_survivor` : an entry that stays is the last one with its key.
* `find?_eq_some_iff_pair` : what is found first.
-/

namespace Superseding

variable {α κ : Type*} (clash : α → α → Prop) [DecidableRel clash]

/-- The new entry comes last, and what it clashes with goes. -/
def supersede (l : List α) (a : α) : List α := l.filter (fun b => ¬ clash b a) ++ [a]

/-- The entries come one after the other. -/
def survivors (as : List α) : List α := as.foldl (supersede clash) []

variable {clash} {a b c : α} {l as : List α}

theorem mem_supersede : b ∈ supersede clash l a ↔ b ∈ l ∧ ¬ clash b a ∨ b = a := by
  simp [supersede]

@[simp] theorem survivors_nil : survivors clash [] = [] := rfl

@[simp] theorem survivors_concat :
    survivors clash (as ++ [a]) = supersede clash (survivors clash as) a := by
  rw [survivors, survivors, List.foldl_append, List.foldl_cons, List.foldl_nil]

theorem append_singleton_eq_iff {pre post : List α} : as ++ [a] = pre ++ b :: post ↔
    (as = pre ∧ a = b ∧ post = []) ∨ ∃ post', as = pre ++ b :: post' ∧ post = post' ++ [a] := by
  constructor
  · intro h
    induction post using List.reverseRecOn with
    | nil =>
      obtain ⟨hpre, hb⟩ := List.append_inj' h rfl
      exact .inl ⟨hpre, List.head_eq_of_cons_eq hb, rfl⟩
    | append_singleton post' z _ =>
      rw [← List.cons_append, ← List.append_assoc] at h
      obtain ⟨hpre, hz⟩ := List.append_inj' h rfl
      exact .inr ⟨post', hpre, by rw [List.head_eq_of_cons_eq hz]⟩
  · rintro (⟨rfl, rfl, rfl⟩ | ⟨post', rfl, rfl⟩)
    · rfl
    · rw [List.append_assoc, List.cons_append]

/-- **An entry stays iff nothing after it clashes with it.** -/
theorem mem_survivors : b ∈ survivors clash as ↔
    ∃ pre post, as = pre ++ b :: post ∧ ∀ c ∈ post, ¬ clash b c := by
  induction as using List.reverseRecOn with
  | nil => simp
  | append_singleton as a ih =>
    rw [survivors_concat, mem_supersede, ih]
    constructor
    · rintro (⟨⟨pre, post, rfl, hpost⟩, hba⟩ | rfl)
      · refine ⟨pre, post ++ [a], by simp, fun c hc => ?_⟩
        rcases List.mem_append.1 hc with hc | hc
        · exact hpost c hc
        · exact List.mem_singleton.1 hc ▸ hba
      · exact ⟨as, [], rfl, by simp⟩
    · rintro ⟨pre, post, hsplit, hpost⟩
      rcases append_singleton_eq_iff.1 hsplit with ⟨-, rfl, -⟩ | ⟨post', rfl, rfl⟩
      · exact .inr rfl
      · exact .inl ⟨⟨pre, post', rfl, fun c hc => hpost c (List.mem_append_left _ hc)⟩,
          hpost a (by simp)⟩

theorem mem_of_mem_survivors (h : b ∈ survivors clash as) : b ∈ as := by
  obtain ⟨pre, post, rfl, -⟩ := mem_survivors.1 h
  simp

/-- **No two of those that stay clash.** -/
theorem pairwise_survivors : (survivors clash as).Pairwise fun b c => ¬ clash b c := by
  induction as using List.reverseRecOn with
  | nil => simp
  | append_singleton as a ih =>
    rw [survivors_concat, supersede, List.pairwise_append]
    refine ⟨ih.filter _, List.pairwise_singleton .., fun b hb c hc => ?_⟩
    rw [List.mem_singleton.1 hc]
    exact of_decide_eq_true (List.mem_filter.1 hb).2

theorem pair_sublist_concat : [b, c].Sublist (l ++ [a]) ↔ [b, c].Sublist l ∨ b ∈ l ∧ c = a := by
  rw [← List.reverse_sublist, List.reverse_concat, ← @List.reverse_sublist _ [b, c] l,
    List.sublist_cons_iff]
  refine or_congr_right ⟨?_, ?_⟩
  · rintro ⟨r, hr, hsub⟩
    obtain ⟨hca, rfl⟩ : c = a ∧ [b] = r := by simpa using hr
    exact ⟨by simpa using hsub, hca⟩
  · rintro ⟨hb, rfl⟩
    exact ⟨[b], rfl, by simpa using hb⟩

theorem pair_sublist_filter {p : α → Bool} :
    [b, c].Sublist (l.filter p) ↔ [b, c].Sublist l ∧ p b = true ∧ p c = true := by
  constructor
  · intro h
    have hmem : ∀ d ∈ [b, c], p d = true := fun d hd => (List.mem_filter.1 (h.subset hd)).2
    exact ⟨h.trans List.filter_sublist, hmem b (by simp), hmem c (by simp)⟩
  · rintro ⟨h, hb, hc⟩
    have hboth : [b, c].filter p = [b, c] := by simp [hb, hc]
    exact hboth ▸ h.filter p

/-- Two entries stay, in their order, iff nothing after each clashes with it. -/
theorem pair_sublist_survivors : [b, c].Sublist (survivors clash as) ↔
    ∃ pre mid post, as = pre ++ b :: mid ++ c :: post ∧
      (∀ d ∈ mid ++ c :: post, ¬ clash b d) ∧ ∀ d ∈ post, ¬ clash c d := by
  induction as using List.reverseRecOn with
  | nil => simp
  | append_singleton as a ih =>
    rw [survivors_concat, supersede, pair_sublist_concat, pair_sublist_filter, ih, List.mem_filter,
      mem_survivors, decide_eq_true_eq, decide_eq_true_eq]
    constructor
    · rintro (⟨⟨pre, mid, post, rfl, hb, hc⟩, hba, hca⟩ | ⟨⟨⟨pre, mid, rfl, hb⟩, hba⟩, rfl⟩)
      · refine ⟨pre, mid, post ++ [a], by simp, fun d hd => ?_, fun d hd => ?_⟩
        · rw [← List.cons_append, ← List.append_assoc, List.mem_append, List.mem_singleton] at hd
          exact hd.elim (hb d) fun hda => hda ▸ hba
        · rw [List.mem_append, List.mem_singleton] at hd
          exact hd.elim (hc d) fun hda => hda ▸ hca
      · refine ⟨pre, mid, [], rfl, fun d hd => ?_, by simp⟩
        rw [List.mem_append, List.mem_singleton] at hd
        exact hd.elim (hb d) fun hda => hda ▸ hba
    · rintro ⟨pre, mid, post, hsplit, hb, hc⟩
      rcases append_singleton_eq_iff.1 hsplit with ⟨rfl, rfl, rfl⟩ | ⟨post', rfl, rfl⟩
      · exact .inr ⟨⟨⟨pre, mid, rfl, fun d hd => hb d (List.mem_append_left _ hd)⟩,
          hb a (by simp)⟩, rfl⟩
      · refine .inl ⟨⟨pre, mid, post', rfl, fun d hd => hb d ?_, fun d hd => hc d ?_⟩,
          hb a (by simp), hc a (by simp)⟩
        · rcases List.mem_append.1 hd with hd | hd
          · exact List.mem_append_left _ hd
          · exact List.mem_append_right _ (List.mem_append_left [a] hd)
        · exact List.mem_append_left _ hd

/-- An entry that stays is the last one of its key, if equal keys clash. -/
theorem getLast?_filter_survivor [DecidableEq κ] (key : α → κ)
    (hkey : ∀ b c, key b = key c → clash b c) (h : b ∈ survivors clash as) :
    (as.filter fun c => key c = key b).getLast? = some b := by
  obtain ⟨pre, post, rfl, hpost⟩ := mem_survivors.1 h
  have hnone : post.filter (fun c => key c = key b) = [] := by
    rw [List.filter_eq_nil_iff]
    intro c hc hsame
    exact hpost c hc (hkey b c (of_decide_eq_true hsame).symm)
  rw [List.filter_append, List.filter_cons_of_pos (by simp), hnone, List.getLast?_append_cons,
    List.getLast?_singleton]

/-- In a list without repetitions, what satisfies `p` is found iff nothing before it does. -/
theorem find?_eq_some_iff_pair {p : α → Bool} (hl : l.Nodup) (ha : a ∈ l) (hp : p a = true) :
    l.find? p = some a ↔ ∀ b, [b, a].Sublist l → p b = false := by
  obtain ⟨xs, ys, rfl⟩ := List.append_of_mem ha
  obtain ⟨hxs, hys⟩ : a ∉ xs ∧ a ∉ ys := by
    rw [List.nodup_middle, List.nodup_cons, List.mem_append, not_or] at hl
    exact hl.1
  have hbefore : ∀ b, [b, a].Sublist (xs ++ a :: ys) ↔ b ∈ xs := by
    intro b
    constructor
    · intro hsub
      obtain ⟨l₁, l₂, hl, h₁, h₂⟩ := List.sublist_append_iff.1 hsub
      cases l₁ with
      | nil =>
        obtain rfl : [b, a] = l₂ := hl
        rcases List.sublist_cons_iff.1 h₂ with h₂ | ⟨r, hr, h₂⟩
        · exact absurd (h₂.subset (by simp)) hys
        · obtain ⟨-, rfl⟩ := List.cons.inj hr
          exact absurd (h₂.subset (List.mem_singleton_self a)) hys
      | cons x l₁ =>
        obtain ⟨rfl, -⟩ := List.cons.inj hl
        exact h₁.subset List.mem_cons_self
    · intro hb
      exact (List.singleton_sublist.2 hb).append (List.singleton_sublist.2 List.mem_cons_self)
  simp only [hbefore]
  rw [List.find?_append, List.find?_cons_of_pos hp]
  constructor
  · intro h b hb
    cases hfind : xs.find? p with
    | none => exact Bool.eq_false_iff.2 (List.find?_eq_none.1 hfind b hb)
    | some c =>
      obtain rfl : c = a := by simpa [hfind] using h
      exact absurd (List.mem_of_find?_eq_some hfind) hxs
  · intro h
    have hnone : xs.find? p = none := List.find?_eq_none.2 fun b hb => by simp [h b hb]
    rw [hnone, Option.none_or]

end Superseding
