import Neonet.Transport.Handshake

/-!
# Negotiation from both sides

Each side of a handshake computes the protocol from its own Hello and that of the other one.

* `NegotiatesAlike` : both sides come to the same protocol with the common features, or both refuse.
* `negotiatesAlike_iff` : **they do iff the common features are listed as often on either side**,
  since a feature that a Hello repeats is repeated by the side that sent it only.
-/

namespace Neonet

/-- The two sides of a connection agree: both find that the major versions differ, or both come to
one protocol with the lesser minor version and exactly the common features. -/
def NegotiatesAlike (v : ProtocolVersion) (features : List String) (v' : ProtocolVersion)
    (features' : List String) : Prop :=
  (negotiate v features v' features' = .error (.majorMismatch v.major v'.major) ∧
    negotiate v' features' v features = .error (.majorMismatch v'.major v.major)) ∨
  ∃ n, negotiate v features v' features' = .ok n ∧ negotiate v' features' v features = .ok n ∧
    n.version = ⟨v.major, min v.minor v'.minor⟩ ∧ ∀ f, f ∈ n.features ↔ f ∈ features ∧ f ∈ features'

variable {v v' : ProtocolVersion} {features features' : List String}

theorem min_minor_comm (a b : UInt16) : min a b = min b a := by
  show (if a ≤ b then a else b) = if b ≤ a then b else a
  split_ifs with hab hba hba
  · exact UInt16.le_antisymm hab hba
  · rfl
  · rfl
  · exact absurd (UInt16.le_total a b) (not_or.2 ⟨hab, hba⟩)

theorem count_common {f : String} :
    (features.filter fun g => g ∈ features').count f =
      if f ∈ features' then features.count f else 0 := by
  split
  · rename_i hmem
    exact List.count_filter (by simpa using hmem)
  · rename_i hmem
    refine List.count_eq_zero_of_not_mem fun hf => hmem ?_
    simpa using List.of_mem_filter hf

/-- Both sides list the same features iff each common one is as often on either side. -/
theorem sorted_common_eq_iff :
    ((features.filter fun f => f ∈ features').insertionSort (· ≤ ·) =
        (features'.filter fun f => f ∈ features).insertionSort (· ≤ ·)) ↔
      ∀ f ∈ features, f ∈ features' → features.count f = features'.count f := by
  have hsort : ∀ l : List String, (l.insertionSort (· ≤ ·)).Perm l := List.perm_insertionSort _
  constructor
  · intro h f hf hf'
    have hperm := (hsort (features.filter fun f => f ∈ features')).count_eq f
    rw [h, (hsort _).count_eq, count_common, count_common, if_pos hf', if_pos hf] at hperm
    exact hperm.symm
  · intro h
    have hperm : (features.filter fun f => f ∈ features').Perm
        (features'.filter fun f => f ∈ features) := by
      refine List.perm_iff_count.2 fun f => ?_
      rw [count_common, count_common]
      by_cases hf : f ∈ features
      · by_cases hf' : f ∈ features'
        · rw [if_pos hf', if_pos hf, h f hf hf']
        · rw [if_neg hf', if_pos hf, List.count_eq_zero_of_not_mem hf']
      · rw [if_neg hf, List.count_eq_zero_of_not_mem hf, ite_self]
    exact (((hsort _).trans hperm).trans (hsort _).symm).eq_of_pairwise'
      (List.pairwise_insertionSort ..) (List.pairwise_insertionSort ..)

theorem negotiate_of_major (hmajor : v.major = v'.major) :
    negotiate v features v' features' = .ok ⟨⟨v.major, min v.minor v'.minor⟩,
      (features.filter fun f => f ∈ features').insertionSort (· ≤ ·)⟩ := by
  rw [negotiate, if_neg (not_not.2 hmajor)]

theorem negotiatesAlike_of_major (hmajor : v.major = v'.major) :
    NegotiatesAlike v features v' features' ↔
      (features.filter fun f => f ∈ features').insertionSort (· ≤ ·) =
        (features'.filter fun f => f ∈ features).insertionSort (· ≤ ·) := by
  rw [NegotiatesAlike, negotiate_of_major hmajor, negotiate_of_major hmajor.symm, ← hmajor,
    min_minor_comm v'.minor v.minor]
  constructor
  · rintro (⟨h, -⟩ | ⟨n, h, h', -⟩)
    · cases h
    · exact congrArg NegotiatedProtocol.features (Except.ok.inj (h.trans h'.symm))
  · intro h
    refine .inr ⟨_, rfl, by rw [h], rfl, fun f => ?_⟩
    rw [(List.perm_insertionSort (· ≤ ·) _).mem_iff]
    simp

/-- **Both sides negotiate the same** exactly when their major versions differ, or each common
feature is listed as often by one as by the other. -/
theorem negotiatesAlike_iff (v : ProtocolVersion) (features : List String) (v' : ProtocolVersion)
    (features' : List String) :
    NegotiatesAlike v features v' features' ↔
      (v.major = v'.major →
        ∀ f ∈ features, f ∈ features' → features.count f = features'.count f) := by
  by_cases hmajor : v.major = v'.major
  · rw [negotiatesAlike_of_major hmajor, sorted_common_eq_iff]
    exact ⟨fun h _ => h, fun h => h hmajor⟩
  · refine iff_of_true (.inl ⟨?_, ?_⟩) fun h => absurd h hmajor
    · rw [negotiate, if_pos hmajor]
    · rw [negotiate, if_pos (Ne.symm hmajor)]

/-- The side that hears a feature twice has it once, and the other one twice. -/
theorem not_negotiatesAlike :
    ¬ ∀ v features v' features', NegotiatesAlike v features v' features' := by
  intro h
  have hsame := (negotiatesAlike_of_major rfl).1 (h ⟨1, 0⟩ ["relay"] ⟨1, 0⟩ ["relay", "relay"])
  have hcount := sorted_common_eq_iff.1 hsame "relay" (by simp) (by simp)
  simp at hcount

end Neonet
