import Mathlib.Data.Finset.Basic
import Mathlib.Logic.Function.Basic
import Neonet.Lib.Lts

/-!
# A source that relays what it publishes

The source keeps a log of what it publishes, and sends it to its followers, each of which logs what
reaches it.  What is sent to one follower reaches it in order.

* `Relay` : the parties, and what the source and the followers write in their logs.
* `Relay.system` : publications and deliveries, in any order.
* `Relay.follower_log` : **a follower has logged what was published, apart from what is under way.**
* `Relay.source_log` : the source has logged what it published, if it does not follow itself.
* `Relay.agree_iff` : **once everything is delivered, all the logs agree iff what a follower writes
  is what the source writes, and the source does not follow itself.**
-/

variable {ι T E : Type*} [DecidableEq ι]

/-- The parties, and what they write in their logs. -/
structure Relay (ι T E : Type*) where
  source : ι
  followers : Finset ι
  /-- What the source writes. -/
  own : T → E
  /-- What a follower writes. -/
  copy : T → E

namespace Relay

/-- What was published so far, the logs, and what is under way to each follower. -/
structure State (ι T E : Type*) where
  published : List T
  logs : ι → List E
  queues : ι → List T

/-- What happens. -/
inductive Label (ι T : Type*)
  | publish (t : T)
  | deliver (i : ι)

variable (R : Relay ι T E)

/-- The source logs something and sends it to the followers. -/
def publish (s : State ι T E) (t : T) : State ι T E where
  published := s.published ++ [t]
  logs := Function.update s.logs R.source (s.logs R.source ++ [R.own t])
  queues i := if i ∈ R.followers then s.queues i ++ [t] else s.queues i

/-- Something reaches a follower, which logs it. -/
def deliver (s : State ι T E) (i : ι) (t : T) (rest : List T) : State ι T E where
  published := s.published
  logs := Function.update s.logs i (s.logs i ++ [R.copy t])
  queues := Function.update s.queues i rest

/-- Publications and deliveries, in any order. -/
def system (logs : ι → List E) : Lts (State ι T E) (Label ι T) where
  init s := s = ⟨[], logs, fun _ => []⟩
  step s l s' :=
    match l with
    | .publish t => s' = R.publish s t
    | .deliver i => i ∈ R.followers ∧ ∃ t rest, s.queues i = t :: rest ∧ s' = R.deliver s i t rest

variable {R} {logs : ι → List E} {s : State ι T E} {i : ι}

/-- **A follower has logged what was published**, apart from what is under way. -/
theorem follower_log (h : (R.system logs).Reachable s) (hi : i ∈ R.followers)
    (hne : i ≠ R.source) :
    s.logs i ++ (s.queues i).map R.copy = logs i ++ s.published.map R.copy := by
  refine h.invariant (I := fun s => s.logs i ++ (s.queues i).map R.copy =
    logs i ++ s.published.map R.copy) ?_ fun s l s' ih hstep => ?_
  · rintro s rfl
    rfl
  · cases l with
    | publish t =>
      obtain rfl : s' = _ := hstep
      dsimp only [publish]
      rw [Function.update_of_ne hne, if_pos hi, List.map_append, List.map_append,
        ← List.append_assoc, ih, List.append_assoc]
    | deliver j =>
      obtain ⟨-, t, rest, hqueue, rfl⟩ := hstep
      dsimp only [deliver]
      by_cases hj : i = j
      · subst hj
        rw [Function.update_self, Function.update_self, ← ih, hqueue, List.append_assoc]
        rfl
      · rw [Function.update_of_ne hj, Function.update_of_ne hj, ih]

/-- The source has logged what it published, if it does not follow itself. -/
theorem source_log (h : (R.system logs).Reachable s) (hno : R.source ∉ R.followers) :
    s.logs R.source = logs R.source ++ s.published.map R.own := by
  refine h.invariant (I := fun s => s.logs R.source = logs R.source ++ s.published.map R.own) ?_
    fun s l s' ih hstep => ?_
  · rintro s rfl
    exact (List.append_nil _).symm
  · cases l with
    | publish t =>
      obtain rfl : s' = _ := hstep
      dsimp only [publish]
      rw [Function.update_self, ih, List.map_append, List.append_assoc]
      rfl
    | deliver j =>
      obtain ⟨hj, t, rest, -, rfl⟩ := hstep
      dsimp only [deliver]
      have hne : R.source ≠ j := fun heq => hno (heq.symm ▸ hj)
      rw [Function.update_of_ne hne, ih]

/-- A source that follows itself logs everything twice. -/
theorem length_source_log (h : (R.system logs).Reachable s) (hself : R.source ∈ R.followers) :
    (s.logs R.source).length + (s.queues R.source).length =
      (logs R.source).length + 2 * s.published.length := by
  refine h.invariant (I := fun s => (s.logs R.source).length + (s.queues R.source).length =
    (logs R.source).length + 2 * s.published.length) ?_ fun s l s' ih hstep => ?_
  · rintro s rfl
    rfl
  · cases l with
    | publish t =>
      obtain rfl : s' = _ := hstep
      dsimp only [publish]
      rw [Function.update_self, if_pos hself]
      simp only [List.length_append, List.length_singleton]
      omega
    | deliver j =>
      obtain ⟨-, t, rest, hqueue, rfl⟩ := hstep
      dsimp only [deliver]
      by_cases hj : R.source = j
      · subst hj
        rw [hqueue, List.length_cons] at ih
        rw [Function.update_self, Function.update_self, List.length_append, List.length_singleton]
        omega
      · rwa [Function.update_of_ne hj, Function.update_of_ne hj]

theorem logs_of_published_nil (h : (R.system logs).Reachable s) (hnil : s.published = []) :
    s.logs = logs := by
  have hkeep : s.published = [] → s.logs = logs ∧ ∀ i, s.queues i = [] := by
    refine h.invariant (I := fun s => s.published = [] → s.logs = logs ∧ ∀ i, s.queues i = []) ?_
      fun s l s' ih hstep => ?_
    · rintro s rfl -
      exact ⟨rfl, fun _ => rfl⟩
    · cases l with
      | publish t =>
        obtain rfl : s' = _ := hstep
        exact fun hnil => absurd hnil (List.append_ne_nil_of_right_ne_nil _ (List.cons_ne_nil _ _))
      | deliver j =>
        obtain ⟨-, t, rest, hqueue, rfl⟩ := hstep
        intro hnil
        have hempty := (ih hnil).2 j
        rw [hqueue] at hempty
        cases hempty
  exact (hkeep hnil).1

variable (R) in
/-- Each log has gained exactly what the source writes of what was published. -/
def Agree (logs : ι → List E) (s : State ι T E) : Prop :=
  ∀ i, i = R.source ∨ i ∈ R.followers → s.logs i = logs i ++ s.published.map R.own

/-- **When all the logs agree**, once everything is delivered. -/
theorem agree_iff (h : (R.system logs).Reachable s) (hdone : ∀ i ∈ R.followers, s.queues i = [])
    (hsome : s.published ≠ [] → R.followers.Nonempty) :
    R.Agree logs s ↔ ∀ t ∈ s.published, R.own t = R.copy t ∧ R.source ∉ R.followers := by
  by_cases hnil : s.published = []
  · refine iff_of_true (fun i _ => ?_) (by simp [hnil])
    rw [logs_of_published_nil h hnil, hnil, List.map_nil, List.append_nil]
  by_cases hself : R.source ∈ R.followers
  · refine iff_of_false (fun hagree => hnil ?_) fun hall => ?_
    -- the log of the source has gained twice as many
    · have hlength := length_source_log h hself
      have hgained := congrArg List.length (hagree _ (.inl rfl))
      rw [hdone _ hself, List.length_nil, Nat.add_zero] at hlength
      rw [List.length_append, List.length_map] at hgained
      exact List.length_eq_zero_iff.1 (by omega)
    · obtain ⟨t, ht⟩ := List.exists_mem_of_ne_nil _ hnil
      exact (hall t ht).2 hself
  · have hcopy : ∀ i ∈ R.followers, s.logs i = logs i ++ s.published.map R.copy := by
      intro i hi
      have hlog := follower_log h hi fun heq => hself (heq ▸ hi)
      rwa [hdone i hi, List.map_nil, List.append_nil] at hlog
    constructor
    · obtain ⟨i, hi⟩ := hsome hnil
      intro hagree t ht
      have hmap := List.append_cancel_left ((hcopy i hi).symm.trans (hagree i (.inr hi)))
      exact ⟨(List.map_inj_left.1 hmap t ht).symm, hself⟩
    · rintro hall i (rfl | hi)
      · exact source_log h hself
      · rw [hcopy i hi]
        exact congrArg _ (List.map_inj_left.2 fun t ht => (hall t ht).1.symm)

end Relay
