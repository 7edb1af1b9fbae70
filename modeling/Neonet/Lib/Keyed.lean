import Mathlib.Data.List.Induction
import Mathlib.Data.List.Nodup
import Mathlib.Data.List.TakeWhile

/-!
# Lists of records with a key

A record takes the place of the first one with its key, or stands last if there is none.

* `Keyed.put`, `Keyed.putAll` : one record, and one after the other.
* `Keyed.find?_put`, `Keyed.filter_put` : **a record is found under its key**, and the records with
  other keys stay where they are.
* `Keyed.keys_putAll` : each key is there once, where it first came.
* `Keyed.find?_putAll` : the latest record of a key is found under it.
* `Keyed.getLast?_putAll_iff` : the record that was put last stands last **iff all other keys came
  before its own did**.
-/

namespace Keyed

variable {α κ : Type*} [DecidableEq κ] (key : α → κ)

/-- The record replaces the first one with its key, or is appended. -/
def put (a : α) (l : List α) : List α :=
  match l.findIdx? fun b => key b = key a with
  | some i => l.set i a
  | none => l ++ [a]

/-- Records are put one after the other. -/
def putAll (l as : List α) : List α := as.foldl (fun l a => put key a l) l

variable {key} {a b : α} {l as bs : List α} {k : κ}

/-! ### One record -/

theorem put_nil : put key a [] = [a] := rfl

theorem put_cons : put key a (b :: l) = if key b = key a then a :: l else b :: put key a l := by
  rw [put, List.findIdx?_cons]
  by_cases h : key b = key a
  · simp [h]
  · simp only [h, decide_false, Bool.false_eq_true, if_false]
    rw [put]
    cases l.findIdx? fun b => key b = key a <;> rfl

theorem keys_put : (put key a l).map key =
    if key a ∈ l.map key then l.map key else l.map key ++ [key a] := by
  induction l with
  | nil => rfl
  | cons b l ih =>
    rw [put_cons]
    by_cases h : key b = key a
    · simp [h]
    · rw [if_neg h, List.map_cons, ih]
      by_cases ha : key a ∈ l.map key
      · rw [if_pos ha, List.map_cons, if_pos (List.mem_cons_of_mem _ ha)]
      · rw [if_neg ha, List.map_cons, if_neg, List.cons_append]
        rw [List.mem_cons]
        exact fun hmem => hmem.elim (Ne.symm h) ha

/-- **The record is found under its key**, and under any other what was there. -/
theorem find?_put : (put key a l).find? (fun b => key b = k) =
    if key a = k then some a else l.find? fun b => key b = k := by
  induction l with
  | nil => by_cases hk : key a = k <;> simp [put_nil, hk]
  | cons b l ih =>
    rw [put_cons]
    by_cases h : key b = key a
    · rw [if_pos h, List.find?_cons, List.find?_cons, h]
      by_cases hk : key a = k <;> simp [hk]
    · rw [if_neg h, List.find?_cons, List.find?_cons, ih]
      by_cases hk : key b = k
      · simp [hk, Ne.symm (hk ▸ h)]
      · simp [hk]

/-- The records with other keys stay where they are. -/
theorem filter_put (h : key a = k) : (put key a l).filter (fun b => key b ≠ k) =
    l.filter fun b => key b ≠ k := by
  induction l with
  | nil => simp [put_nil, h]
  | cons b l ih =>
    rw [put_cons]
    by_cases hb : key b = key a
    · rw [if_pos hb, List.filter_cons, List.filter_cons, hb]
      simp [h]
    · rw [if_neg hb, List.filter_cons, List.filter_cons, ih]

theorem put_of_find? (h : l.find? (fun b => key b = key a) = some a) : put key a l = l := by
  induction l with
  | nil => cases h
  | cons b l ih =>
    rw [put_cons]
    rw [List.find?_cons] at h
    by_cases hb : key b = key a
    · rw [if_pos hb]
      simp only [hb, decide_true, Option.some.injEq] at h
      rw [h]
    · rw [if_neg hb, ih]
      simpa [hb] using h

theorem nodup_put (h : (l.map key).Nodup) : ((put key a l).map key).Nodup := by
  rw [keys_put]
  split
  · exact h
  · rename_i hnew
    exact List.nodup_append'.2 ⟨h, List.nodup_singleton _, by simpa using hnew⟩

/-! ### One after the other -/

@[simp] theorem putAll_nil : putAll key l [] = l := rfl

theorem putAll_cons : putAll key l (a :: as) = putAll key (put key a l) as := rfl

theorem putAll_append : putAll key l (as ++ bs) = putAll key (putAll key l as) bs :=
  List.foldl_append

theorem nodup_putAll (h : (l.map key).Nodup) : ((putAll key l as).map key).Nodup := by
  induction as generalizing l with
  | nil => exact h
  | cons a as ih => exact ih (nodup_put h)

/-- **The keys are those that were there, and the new ones after them.** -/
theorem keys_putAll (key : α → κ) (l as : List α) :
    ∃ new, (putAll key l as).map key = l.map key ++ new ∧
      ∀ k, k ∈ new ↔ k ∈ as.map key ∧ k ∉ l.map key := by
  induction as generalizing l with
  | nil => exact ⟨[], by simp, by simp⟩
  | cons a as ih =>
    obtain ⟨new, hkeys, hnew⟩ := ih (put key a l)
    rw [putAll_cons, hkeys, keys_put]
    by_cases ha : key a ∈ l.map key
    · refine ⟨new, by rw [if_pos ha], fun k => ?_⟩
      rw [hnew, keys_put, if_pos ha, List.map_cons, List.mem_cons]
      constructor
      · exact fun h => ⟨.inr h.1, h.2⟩
      · rintro ⟨rfl | hk, hno⟩
        · exact absurd ha hno
        · exact ⟨hk, hno⟩
    · refine ⟨key a :: new, by simp [ha], fun k => ?_⟩
      rw [List.mem_cons, hnew, keys_put, if_neg ha, List.map_cons, List.mem_cons,
        List.mem_append, List.mem_singleton]
      by_cases hk : k = key a
      · simp [hk, ha]
      · simp [hk]

theorem mem_keys_putAll : k ∈ (putAll key l as).map key ↔ k ∈ l.map key ∨ k ∈ as.map key := by
  obtain ⟨new, hkeys, hnew⟩ := keys_putAll key l as
  rw [hkeys, List.mem_append, hnew]
  by_cases hk : k ∈ l.map key <;> simp [hk]

/-- **The latest record of a key is found under it.** -/
theorem find?_putAll : (putAll key [] as).find? (fun b => key b = k) =
    (as.filter fun b => key b = k).getLast? := by
  induction as using List.reverseRecOn with
  | nil => rfl
  | append_singleton as a ih =>
    rw [putAll_append, putAll_cons, putAll_nil, find?_put, ih, List.filter_append]
    by_cases h : key a = k <;> simp [h]

theorem eq_of_mem_putAll (hb : b ∈ putAll key [] (as ++ [a])) (h : key b = key a) : b = a := by
  have hfound : (putAll key [] (as ++ [a])).find? (fun c => key c = key a) = some a := by
    rw [find?_putAll, List.filter_append]
    simp
  have hnodup : ((putAll key [] (as ++ [a])).map key).Nodup := nodup_putAll List.nodup_nil
  exact List.inj_on_of_nodup_map hnodup hb (List.mem_of_find?_eq_some hfound) h

/-- The last key says whether the record that was put last stands last. -/
theorem getLast?_putAll_concat : (putAll key [] (as ++ [a])).getLast? = some a ↔
    ((putAll key [] (as ++ [a])).map key).getLast? = some (key a) := by
  rw [List.getLast?_map]
  constructor
  · intro h
    rw [h, Option.map_some]
  · intro h
    obtain ⟨b, hb, hkey⟩ := Option.map_eq_some_iff.1 h
    rw [hb, eq_of_mem_putAll (List.mem_of_getLast? hb) hkey]

theorem getLast?_keys_putAll {p q : List α} {c : α} (hc : key c ∉ p.map key) :
    ((putAll key [] (p ++ c :: q)).map key).getLast? = some (key c) ↔
      ∀ b ∈ q, key b = key c ∨ key b ∈ p.map key := by
  have hall : p ++ c :: q = (p ++ [c]) ++ q := by simp
  obtain ⟨new, hkeys, hnew⟩ := keys_putAll key (putAll key [] (p ++ [c])) q
  have hold : ∀ k, k ∈ (putAll key [] (p ++ [c])).map key ↔ k = key c ∨ k ∈ p.map key := by
    intro k
    rw [mem_keys_putAll, List.map_append, List.mem_append, List.map_singleton,
      List.mem_singleton]
    simp [or_comm]
  have hfirst : (putAll key [] (p ++ [c])).map key = (putAll key [] p).map key ++ [key c] := by
    rw [putAll_append, putAll_cons, putAll_nil, keys_put, if_neg]
    rw [mem_keys_putAll]
    simpa using hc
  rw [hall, putAll_append, hkeys]
  constructor
  · intro hend b hb
    by_contra hno
    have hmem : key b ∈ new :=
      (hnew _).2 ⟨List.mem_map_of_mem hb, fun h => hno ((hold _).1 h)⟩
    rw [List.getLast?_append_of_ne_nil _ (List.ne_nil_of_mem hmem)] at hend
    exact ((hnew _).1 (List.mem_of_getLast? hend)).2 ((hold _).2 (.inl rfl))
  · intro h
    have hnone : new = [] := by
      refine List.eq_nil_iff_forall_not_mem.2 fun k hk => ?_
      obtain ⟨hkq, hkold⟩ := (hnew k).1 hk
      obtain ⟨b, hb, rfl⟩ := List.mem_map.1 hkq
      exact hkold ((hold _).2 (h b hb))
    rw [hnone, List.append_nil, hfirst, List.getLast?_concat]

/-- The record that was put last stands last iff all other keys came before its own did. -/
theorem getLast?_putAll_concat_iff : (putAll key [] (as ++ [a])).getLast? = some a ↔
    ∀ b ∈ as, key b = key a ∨ key b ∈ (as.takeWhile fun c => key c ≠ key a).map key := by
  rw [getLast?_putAll_concat]
  generalize hp : (as.takeWhile fun c => key c ≠ key a) = p
  have hsplit : p ++ as.dropWhile (fun c => key c ≠ key a) = as :=
    hp ▸ List.takeWhile_append_dropWhile
  have hpa : key a ∉ p.map key := by
    intro hmem
    obtain ⟨c, hc, hkey⟩ := List.mem_map.1 hmem
    subst hp
    exact absurd hkey (by simpa using List.mem_takeWhile_imp hc)
  cases hq : as.dropWhile (fun c => key c ≠ key a) with
  | nil =>
    -- its key comes with it
    rw [hq, List.append_nil] at hsplit
    subst hsplit
    rw [getLast?_keys_putAll hpa]
    exact iff_of_true (by simp) fun b hb => .inr (List.mem_map_of_mem hb)
  | cons c q =>
    -- its key came with `c`
    have hc : key c = key a := by
      have hhead := List.head_dropWhile_not (fun c => decide (key c ≠ key a)) (l := as)
        (by rw [hq]; exact List.cons_ne_nil _ _)
      simp only [hq, List.head_cons] at hhead
      simpa using hhead
    rw [hq] at hsplit
    have hall : as ++ [a] = p ++ c :: (q ++ [a]) := by
      rw [← hsplit]
      simp
    rw [hall, ← hc, getLast?_keys_putAll (hc ▸ hpa), ← hsplit]
    constructor
    · intro h b hb
      rcases List.mem_append.1 hb with hb | hb
      · exact .inr (List.mem_map_of_mem hb)
      · rcases List.mem_cons.1 hb with rfl | hb
        · exact .inl rfl
        · exact h b (List.mem_append_left _ hb)
    · intro h b hb
      rcases List.mem_append.1 hb with hb | hb
      · exact h b (List.mem_append_right _ (List.mem_cons_of_mem _ hb))
      · rw [List.mem_singleton.1 hb]
        exact .inl hc.symm

/-- **The record that was put last stands last iff all other keys came before its own did.** -/
theorem getLast?_putAll_iff (h : as.getLast? = some a) : (putAll key [] as).getLast? = some a ↔
    ∀ b ∈ as, key b = key a ∨ key b ∈ (as.takeWhile fun c => key c ≠ key a).map key := by
  obtain ⟨bs, rfl⟩ := List.getLast?_eq_some_iff.1 h
  have htake : ∀ cs : List α, (cs ++ [a]).takeWhile (fun c => key c ≠ key a) =
      cs.takeWhile fun c => key c ≠ key a := by
    intro cs
    induction cs with
    | nil => simp
    | cons c cs ih => rw [List.cons_append, List.takeWhile_cons, List.takeWhile_cons, ih]
  rw [getLast?_putAll_concat_iff, htake, List.forall_mem_append]
  refine (and_iff_left ?_).symm
  simp

end Keyed
