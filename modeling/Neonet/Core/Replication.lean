import Neonet.Lib.Addressed
import Neonet.Storage.Integrity

/-!
# Reconciling two cores

Each core has an index of chunks under their hashes.  A core plans which of the hashes of another
one it misses, and the chunks are copied.

* `ChunkIndex` : the index, whose chunks stand under their own hashes.
* `plan`, `reconcile` : the hashes that are missing, and their chunks copied.
* `Exchange` : both sides reconcile, one after the other or at once.
* `exchange_spec` : **both sides end with the chunks of either, nothing is refused or overwritten,
  and nothing is missing any more.**
-/

namespace Neonet

/-- `ChunkIndex`: an entry is made by `insert` only, so each chunk stands under its hash. -/
abbrev ChunkIndex (K : Primitives) := Addressed K.hash

/-- `ReconcilePlan`. -/
structure ReconcilePlan where
  missing : List Digest
  deriving DecidableEq

section Operations

variable {K : Primitives}

/-- `ChunkIndex::insert`. -/
def ChunkIndex.insert (s : ChunkIndex K) (hash : Digest) (data : Bytes) : Bool × ChunkIndex K :=
  if K.hash data ≠ hash then (false, s) else (true, s.put data)

/-- An index after some calls of `insert`. -/
def ChunkIndex.built (K : Primitives) (calls : List (Digest × Bytes)) : ChunkIndex K :=
  calls.foldl (fun s call => (ChunkIndex.insert s call.1 call.2).2) .empty

/-- `plan`. -/
def plan (s : ChunkIndex K) (remoteHashes : List Digest) : ReconcilePlan :=
  ⟨remoteHashes.filter fun hash => (s.get hash).isNone⟩

/-- The data that the other side has for these hashes is inserted; also what `insert` says. -/
def copyChunks (other : ChunkIndex K) : List Digest → ChunkIndex K → List Bool × ChunkIndex K
  | [], s => ([], s)
  | hash :: hashes, s =>
    match other.get hash with
    | none => copyChunks other hashes s
    | some data =>
      let inserted := ChunkIndex.insert s hash data
      let rest := copyChunks other hashes inserted.2
      (inserted.1 :: rest.1, rest.2)

/-- The plan is executed. -/
def reconcile (s other : ChunkIndex K) (remoteHashes : List Digest) : List Bool × ChunkIndex K :=
  copyChunks other (plan s remoteHashes).missing s

/-- The hashes of an index, in any order and as often as one likes. -/
def ChunkIndex.Lists (s : ChunkIndex K) (hashes : List Digest) : Prop :=
  ∀ hash, hash ∈ hashes ↔ s.get hash ≠ none

/-- **Both sides reconcile**: what `insert` says, and the two indices afterwards. -/
inductive Exchange (a b : ChunkIndex K) : List Bool → ChunkIndex K → ChunkIndex K → Prop
  | leftFirst {hashes hashes' : List Digest} (lists : ChunkIndex.Lists b hashes)
      (lists' : ChunkIndex.Lists (reconcile a b hashes).2 hashes') :
      Exchange a b ((reconcile a b hashes).1 ++ (reconcile b (reconcile a b hashes).2 hashes').1)
        (reconcile a b hashes).2 (reconcile b (reconcile a b hashes).2 hashes').2
  | rightFirst {hashes hashes' : List Digest} (lists : ChunkIndex.Lists a hashes)
      (lists' : ChunkIndex.Lists (reconcile b a hashes).2 hashes') :
      Exchange a b ((reconcile b a hashes).1 ++ (reconcile a (reconcile b a hashes).2 hashes').1)
        (reconcile a (reconcile b a hashes).2 hashes').2 (reconcile b a hashes).2
  | crosswise {hashes hashes' : List Digest} (lists : ChunkIndex.Lists b hashes)
      (lists' : ChunkIndex.Lists a hashes') :
      Exchange a b ((reconcile a b hashes).1 ++ (reconcile b a hashes').1) (reconcile a b hashes).2
        (reconcile b a hashes').2

/-- What becomes of the two sides. -/
structure Reconciled (a b : ChunkIndex K) (results : List Bool) (a' b' : ChunkIndex K) : Prop where
  /-- No insert is refused. -/
  accepted : ∀ r ∈ results, r = true
  /-- Both sides have exactly the chunks of either. -/
  left : ∀ hash data, a'.get hash = some data ↔ a.get hash = some data ∨ b.get hash = some data
  right : ∀ hash data, b'.get hash = some data ↔ a.get hash = some data ∨ b.get hash = some data
  /-- Nothing is overwritten. -/
  kept : ∀ hash data, a.get hash = some data → a'.get hash = some data
  kept' : ∀ hash data, b.get hash = some data → b'.get hash = some data
  /-- Nothing is missing on either side. -/
  settled : ∀ hashes, ChunkIndex.Lists b' hashes → plan a' hashes = ⟨[]⟩
  settled' : ∀ hashes, ChunkIndex.Lists a' hashes → plan b' hashes = ⟨[]⟩

end Operations

variable {K : Primitives} {s t a b a' b' : ChunkIndex K} {hashes : List Digest} {data : Bytes}
  {results : List Bool} {calls calls' : List (Digest × Bytes)}

/-! ### One side -/

theorem insert_addressed : ChunkIndex.insert s (K.hash data) data = (true, s.put data) :=
  if_neg (not_not.2 rfl)

/-- **Copying pulls**, and no insert is refused: the other side has the data under its hash. -/
theorem copyChunks_eq (s t : ChunkIndex K) (hashes : List Digest) :
    (copyChunks t hashes s).2 = s.pull t hashes ∧
    ∀ r ∈ (copyChunks t hashes s).1, r = true := by
  induction hashes generalizing s with
  | nil => exact ⟨rfl, by simp [copyChunks]⟩
  | cons hash hashes ih =>
    rw [copyChunks]
    cases hget : t.get hash with
    | none =>
      rw [Addressed.pull_cons_none hget]
      exact ih s
    | some data =>
      obtain rfl := t.addressed _ _ hget
      obtain ⟨hpull, hresults⟩ := ih (s.put data)
      dsimp only
      rw [insert_addressed, Addressed.pull_cons_some hget]
      exact ⟨hpull, fun r hr => (List.mem_cons.1 hr).elim id (hresults r)⟩

/-- **One plan, executed**: the index has what either has, and no insert is refused. -/
theorem reconcile_spec (hdisjoint : s.Disjoint t) (hlists : ChunkIndex.Lists t hashes) :
    (∀ hash data, (reconcile s t hashes).2.get hash = some data ↔
        s.get hash = some data ∨ t.get hash = some data) ∧
      ∀ r ∈ (reconcile s t hashes).1, r = true := by
  obtain ⟨hpull, hresults⟩ := copyChunks_eq s t (plan s hashes).missing
  refine ⟨fun hash data => ?_, hresults⟩
  rw [reconcile, hpull]
  refine Addressed.get_pull_eq_some_iff hdisjoint fun k hs ht => ?_
  exact List.mem_filter.2 ⟨(hlists k).2 ht, by rw [hs]; rfl⟩

theorem plan_eq_nil (h : ∀ hash data, t.get hash = some data → s.get hash = some data)
    (hlists : ChunkIndex.Lists t hashes) : plan s hashes = ⟨[]⟩ := by
  refine congrArg ReconcilePlan.mk (List.filter_eq_nil_iff.2 fun hash hhash => ?_)
  obtain ⟨data, hdata⟩ := Option.ne_none_iff_exists'.1 ((hlists hash).1 hhash)
  rw [h hash data hdata]
  simp

/-! ### Both sides -/

/-- Two sides with the chunks of either are reconciled. -/
theorem Reconciled.of_union (haccepted : ∀ r ∈ results, r = true)
    (hleft : ∀ hash data, a'.get hash = some data ↔ a.get hash = some data ∨ b.get hash = some data)
    (hright : ∀ hash data,
      b'.get hash = some data ↔ a.get hash = some data ∨ b.get hash = some data) :
    Reconciled a b results a' b' where
  accepted := haccepted
  left := hleft
  right := hright
  kept hash data h := (hleft hash data).2 (.inl h)
  kept' hash data h := (hright hash data).2 (.inr h)
  settled _ := plan_eq_nil fun hash data h => (hleft hash data).2 ((hright hash data).1 h)
  settled' _ := plan_eq_nil fun hash data h => (hright hash data).2 ((hleft hash data).1 h)

theorem disjoint_of_union (hdisjoint : a.Disjoint b)
    (h : ∀ hash data, a'.get hash = some data → a.get hash = some data ∨ b.get hash = some data) :
    b.Disjoint a' := by
  intro hash data data' hb ha'
  rcases h hash data' ha' with ha | hb'
  · exact (hdisjoint hash data' data ha hb).symm
  · exact Option.some.inj (hb.symm.trans hb')

/-- **Every exchange** between indices that agree. -/
theorem Exchange.reconciled (hdisjoint : a.Disjoint b) (h : Exchange a b results a' b') :
    Reconciled a b results a' b' := by
  have hresults : ∀ rs rs' : List Bool, (∀ r ∈ rs, r = true) → (∀ r ∈ rs', r = true) →
      ∀ r ∈ rs ++ rs', r = true := fun rs rs' hrs hrs' r hr =>
    (List.mem_append.1 hr).elim (hrs r) (hrs' r)
  cases h with
  | leftFirst lists lists' =>
    obtain ⟨hleft, hrs⟩ := reconcile_spec hdisjoint lists
    have hagree := disjoint_of_union hdisjoint fun hash data => (hleft hash data).1
    obtain ⟨hright, hrs'⟩ := reconcile_spec hagree lists'
    refine .of_union (hresults _ _ hrs hrs') hleft fun hash data => ?_
    rw [hright, hleft, or_comm, or_assoc, or_self]
  | rightFirst lists lists' =>
    obtain ⟨hright, hrs⟩ := reconcile_spec hdisjoint.symm lists
    have hagree := disjoint_of_union hdisjoint.symm fun hash data => (hright hash data).1
    obtain ⟨hleft, hrs'⟩ := reconcile_spec hagree lists'
    refine .of_union (hresults _ _ hrs hrs') (fun hash data => ?_) fun hash data => ?_
    · rw [hleft, hright, or_comm, or_assoc, or_self, or_comm]
    · rw [hright, or_comm]
  | crosswise lists lists' =>
    obtain ⟨hleft, hrs⟩ := reconcile_spec hdisjoint lists
    obtain ⟨hright, hrs'⟩ := reconcile_spec hdisjoint.symm lists'
    refine .of_union (hresults _ _ hrs hrs') hleft fun hash data => ?_
    rw [hright, or_comm]

/-! ### Indices that are built by inserting -/

theorem built_concat {call : Digest × Bytes} :
    ChunkIndex.built K (calls ++ [call]) =
      (ChunkIndex.insert (.built K calls) call.1 call.2).2 := by
  rw [ChunkIndex.built, List.foldl_append]
  rfl

theorem mem_of_get_built {hash : Digest} (h : (ChunkIndex.built K calls).get hash = some data) :
    (hash, data) ∈ calls := by
  induction calls using List.reverseRecOn with
  | nil => cases h
  | append_singleton calls call ih =>
    rw [List.mem_append, List.mem_singleton]
    rw [built_concat, ChunkIndex.insert] at h
    split_ifs at h with hhash
    · exact .inl (ih h)
    · rw [Addressed.get_put] at h
      split_ifs at h with hkey
      · rcases Option.or_eq_some_iff.1 h with hold | ⟨-, hnew⟩
        · exact .inl (ih hold)
        · exact .inr (Prod.ext (hkey.trans (not_not.1 hhash)) (Option.some.inj hnew).symm)
      · exact .inl (ih h)

theorem lists_built :
    ChunkIndex.Lists (.built K calls)
      ((calls.filter fun call => K.hash call.2 = call.1).map Prod.fst) := by
  intro hash
  induction calls using List.reverseRecOn with
  | nil => simp [ChunkIndex.built]
  | append_singleton calls call ih =>
    rw [List.filter_append, List.map_append, List.mem_append, ih, built_concat, ChunkIndex.insert]
    by_cases hhash : K.hash call.2 = call.1
    · rw [if_neg (not_not.2 hhash), Addressed.get_put]
      by_cases hkey : hash = call.1
      · simp [hkey, hhash]
      · simp [hkey, hhash, eq_comm]
    · rw [if_pos hhash]
      simp [hhash]

theorem disjoint_built (h : NoCollision K ((calls ++ calls').map Prod.snd)) :
    (ChunkIndex.built K calls).Disjoint (ChunkIndex.built K calls') := by
  intro hash data data' hget hget'
  have hmem : ∀ {d}, (hash, d) ∈ calls ++ calls' → d ∈ (calls ++ calls').map Prod.snd := fun hd =>
    List.mem_map_of_mem hd
  refine h data (hmem (List.mem_append_left _ (mem_of_get_built hget))) data'
    (hmem (List.mem_append_right _ (mem_of_get_built hget'))) ?_
  rw [Addressed.addressed _ _ _ hget, Addressed.addressed _ _ _ hget']

/-- **Two cores that exchange what they miss** have the chunks of both, whatever was inserted into
either and in whatever order they ask. -/
theorem exchange_spec (hcollision : NoCollision K ((calls ++ calls').map Prod.snd))
    (h : Exchange (.built K calls) (.built K calls') results a' b') :
    Reconciled (.built K calls) (.built K calls') results a' b' :=
  h.reconciled (disjoint_built hcollision)

namespace Replicas

/-- One core was given a chunk, and another one under a wrong hash. -/
def first : List (Digest × Bytes) := [(polyHash [1], [1]), (polyHash [1], [2])]

/-- The other one has a chunk twice, and the chunk of the first one. -/
def second : List (Digest × Bytes) :=
  [(polyHash [3], [3]), (polyHash [1], [1]), (polyHash [3], [3])]

end Replicas

open Replicas in
/-- Two cores that ask each other at once. -/
theorem exchange_spec_crosswise :
    ∃ results a' b', Exchange (.built .sample first) (.built .sample second) results a' b' ∧
      Reconciled (.built .sample first) (.built .sample second) results a' b' :=
  have h := Exchange.crosswise (a := .built .sample first) (b := .built .sample second)
    lists_built lists_built
  ⟨_, _, _, h, exchange_spec (by decide +kernel) h⟩

end Neonet
