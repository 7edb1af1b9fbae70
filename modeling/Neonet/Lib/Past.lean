import Mathlib.Data.List.DropRight
import Neonet.Lib.Lts

/-!
# What has happened

The events of a run so far, oldest first, and what can be said about them.

* `Since φ ψ h` : an event that meets `φ`, and after it none that meets `ψ`.
* `First φ ψ h` : an event that meets `φ`, and before it none that meets `ψ`.
* `latest p h` : what the last event says of those that say something.
* `sinceLast p h` : the events after the last one that meets `p`.
* `Machine.Along.history` : the rule for an invariant of the history and the state together.
* `Machine.trace` : the actions of a run, each with the state before it.
-/

section Past

variable {α β : Type*} {φ ψ : α → Prop} {p : α → Option β} {h : List α} {a : α} {b : β}

/-- An event of `h` meets `φ`, and no event after it meets `ψ`. -/
def Since (φ ψ : α → Prop) (h : List α) : Prop :=
  ∃ pre a post, h = pre ++ a :: post ∧ φ a ∧ ∀ b ∈ post, ¬ ψ b

theorem not_since_nil : ¬ Since φ ψ [] := by
  rintro ⟨pre, a, post, h, -⟩
  simp at h

/-- One event more: it is the one that meets `φ`, or it is not one that meets `ψ`. -/
theorem since_concat : Since φ ψ (h ++ [a]) ↔ φ a ∨ ¬ ψ a ∧ Since φ ψ h := by
  constructor
  · rintro ⟨pre, x, post, heq, hx, hpost⟩
    rcases List.eq_nil_or_concat post with rfl | ⟨post, y, rfl⟩
    · obtain ⟨-, hlast⟩ := List.append_inj' heq rfl
      exact .inl (List.singleton_injective hlast ▸ hx)
    · rw [List.concat_eq_append] at heq hpost
      rw [← List.cons_append, ← List.append_assoc] at heq
      obtain ⟨hinit, hlast⟩ := List.append_inj' heq rfl
      obtain rfl := List.singleton_injective hlast
      exact .inr ⟨hpost a (by simp), pre, x, post, hinit, hx, fun z hz => hpost z (by simp [hz])⟩
  · rintro (ha | ⟨ha, pre, x, post, rfl, hx, hpost⟩)
    · exact ⟨h, a, [], rfl, ha, by simp⟩
    · refine ⟨pre, x, post ++ [a], by simp, hx, fun z hz => ?_⟩
      rcases List.mem_append.1 hz with hz | hz
      · exact hpost z hz
      · rwa [List.mem_singleton.1 hz]

/-- An event of `h` meets `φ`, and no event before it meets `ψ`. -/
def First (φ ψ : α → Prop) (h : List α) : Prop :=
  ∃ pre a post, h = pre ++ a :: post ∧ φ a ∧ ∀ b ∈ pre, ¬ ψ b

theorem not_first_nil : ¬ First φ ψ [] := by
  rintro ⟨pre, a, post, h, -⟩
  simp at h

/-- One event more: it was another one, or it is this one. -/
theorem first_concat : First φ ψ (h ++ [a]) ↔ First φ ψ h ∨ φ a ∧ ∀ b ∈ h, ¬ ψ b := by
  constructor
  · rintro ⟨pre, x, post, heq, hx, hpre⟩
    rcases List.eq_nil_or_concat post with rfl | ⟨post, y, rfl⟩
    · obtain ⟨rfl, hlast⟩ := List.append_inj' heq rfl
      exact .inr ⟨List.singleton_injective hlast ▸ hx, hpre⟩
    · rw [List.concat_eq_append, ← List.cons_append, ← List.append_assoc] at heq
      exact .inl ⟨pre, x, post, (List.append_inj' heq rfl).1, hx, hpre⟩
  · rintro (⟨pre, x, post, rfl, hx, hpre⟩ | ⟨ha, hall⟩)
    · exact ⟨pre, x, post ++ [a], by simp, hx, hpre⟩
    · exact ⟨h, a, [], rfl, ha, hall⟩

/-- What the last event says of those that say something. -/
def latest (p : α → Option β) (h : List α) : Option β := h.reverse.findSome? p

theorem latest_concat : latest p (h ++ [a]) = (p a).or (latest p h) := by
  rw [latest, List.reverse_append, List.reverse_singleton, List.singleton_append,
    List.findSome?_cons]
  cases p a <;> rfl

theorem latest_concat_of_none (ha : p a = none) : latest p (h ++ [a]) = latest p h := by
  rw [latest_concat, ha, Option.none_or]

theorem latest_concat_of_some (ha : p a = some b) : latest p (h ++ [a]) = some b := by
  rw [latest_concat, ha, Option.some_or]

theorem latest_map {γ : Type*} {f : γ → α} {g : List γ} :
    latest (fun c => p (f c)) g = latest p (g.map f) := by
  rw [latest, latest, ← List.map_reverse, List.findSome?_map]
  rfl

theorem latest_eq_some :
    latest p h = some b ↔ ∃ pre a post, h = pre ++ a :: post ∧ p a = some b ∧ ∀ c ∈ post,
      p c = none := by
  rw [latest, List.findSome?_eq_some_iff]
  constructor
  · rintro ⟨post, a, pre, heq, ha, hpost⟩
    refine ⟨pre.reverse, a, post.reverse, ?_, ha, fun c hc => hpost c (List.mem_reverse.1 hc)⟩
    rw [← List.reverse_reverse h, heq, List.reverse_append, List.reverse_cons, List.append_assoc,
      List.singleton_append]
  · rintro ⟨pre, a, post, rfl, ha, hpost⟩
    refine ⟨post.reverse, a, pre.reverse, by simp, ha, fun c hc => ?_⟩
    exact hpost c (List.mem_reverse.1 hc)

variable {q : α → Bool}

/-- The events after the last one that meets `q`. -/
def sinceLast (q : α → Bool) (h : List α) : List α := h.rtakeWhile fun a => !q a

@[simp] theorem sinceLast_nil : sinceLast q [] = [] := rfl

theorem sinceLast_concat : sinceLast q (h ++ [a]) = if q a then [] else sinceLast q h ++ [a] := by
  rw [sinceLast, List.rtakeWhile_concat]
  cases q a <;> rfl

/-- What comes before the last `n` makes no difference to the last `n`. -/
theorem rtake_append_rtake {n : ℕ} {g : List α} : (h.rtake n ++ g).rtake n = (h ++ g).rtake n := by
  rw [List.rtake_eq_reverse_take_reverse, List.rtake_eq_reverse_take_reverse,
    List.rtake_eq_reverse_take_reverse, List.reverse_append, List.reverse_append,
    List.reverse_reverse, List.take_append, List.take_append, List.take_take,
    Nat.min_eq_left (Nat.sub_le n _)]

end Past

namespace Machine

variable {S A O : Type*} {M : Machine S A O} {s : S} {as bs : List A}

theorem transcript_append :
    M.transcript s (as ++ bs) = M.transcript s as ++ M.transcript (M.after s as) bs := by
  induction as generalizing s with
  | nil => rfl
  | cons a as ih =>
    rw [List.cons_append, transcript, transcript, ih]
    rfl

theorem after_concat {a : A} : M.after s (as ++ [a]) = (M.step (M.after s as) a).2 :=
  after_append s as [a]

theorem fst_mem_of_mem_transcript {e : A × O} (h : e ∈ M.transcript s as) : e.1 ∈ as := by
  induction as generalizing s with
  | nil => cases h
  | cons a as ih =>
    rcases List.mem_cons.1 h with rfl | h
    · exact List.mem_cons_self
    · exact List.mem_cons_of_mem _ (ih h)

theorem map_fst_transcript : (M.transcript s as).map Prod.fst = as := by
  induction as generalizing s with
  | nil => rfl
  | cons a as ih => rw [transcript, List.map_cons, ih]

theorem along_of_forall {P : S → A → Prop} (h : ∀ s a, a ∈ as → P s a) : M.Along P s as := by
  induction as generalizing s with
  | nil => trivial
  | cons a as ih =>
    exact ⟨h s a List.mem_cons_self, ih fun s x hx => h s x (List.mem_cons_of_mem _ hx)⟩

theorem Along.exists_of_mem {P : S → A → Prop} {a : A} (h : M.Along P s as) (ha : a ∈ as) :
    ∃ s', P s' a := by
  induction as generalizing s with
  | nil => cases ha
  | cons b as ih =>
    rcases List.mem_cons.1 ha with rfl | ha
    · exact ⟨s, h.1⟩
    · exact ih h.2 ha

theorem along_iff {P : S → A → Prop} :
    M.Along P s as ↔ ∀ pre a post, as = pre ++ a :: post → P (M.after s pre) a := by
  constructor
  · rintro h pre a post rfl
    exact (along_append.1 h).2.1
  · intro h
    induction as generalizing s with
    | nil => trivial
    | cons a as ih =>
      refine ⟨h [] a as rfl, ih fun pre b post heq => ?_⟩
      exact h (a :: pre) b post (by rw [heq, List.cons_append])

/-- **Invariants of the history.**  What holds of the empty history and the first state, and is kept
when a step adds its action and answer, holds of the transcript of every run along `P` and the state
after it. -/
theorem Along.history {P : S → A → Prop} {I : List (A × O) → S → Prop} (h : M.Along P s as)
    (h₀ : I [] s)
    (hstep : ∀ past s a, P s a → I past s → I (past ++ [(a, (M.step s a).1)]) (M.step s a).2) :
    I (M.transcript s as) (M.after s as) := by
  have hgen : ∀ past s, M.Along P s as → I past s →
      I (past ++ M.transcript s as) (M.after s as) := by
    clear h h₀
    induction as with
    | nil => exact fun past s _ hI => by rwa [transcript, List.append_nil]
    | cons a as ih =>
      intro past s h hI
      have hnext := ih _ _ h.2 (hstep past s a h.1 hI)
      rwa [List.append_assoc, List.singleton_append] at hnext
  simpa using hgen [] s h h₀

variable (M) in
/-- The actions of a run, each with the state before it. -/
def trace (s : S) : List A → List (S × A)
  | [] => []
  | a :: as => (s, a) :: trace (M.step s a).2 as

theorem trace_concat {a : A} : M.trace s (as ++ [a]) = M.trace s as ++ [(M.after s as, a)] := by
  induction as generalizing s with
  | nil => rfl
  | cons b as ih =>
    rw [List.cons_append, trace, ih]
    rfl

theorem trace_invariant {I : List (S × A) → S → Prop} (h₀ : I [] s)
    (hstep : ∀ past s a, I past s → I (past ++ [(s, a)]) (M.step s a).2) :
    I (M.trace s as) (M.after s as) := by
  induction as using List.reverseRecOn with
  | nil => exact h₀
  | append_singleton as a ih =>
    rw [trace_concat, after_concat]
    exact hstep _ _ a ih

end Machine
