import Neonet.Storage.Paging

/-!
# Pulling from any core

The core may answer the calls of `pull_chunks` as it likes.  The loop counts against the first
manifest that it is sent, so it has no bound before it has one, and none if that asks for nothing.

* `endless` : a core that replies without end; `pulled` : what the client has before a call.
* `Sparing` : the loop stops, and collects no more than one page beyond the manifest's count.
* `pullLoop_stops` : **a manifest of some chunks bounds the calls**, whatever is replied.
* `sparing_iff` : **the loop is sparing exactly if the pages without a manifest end**, with a
  manifest that asks for as many chunks as came before it and for one at least.
* `not_sparing` : page after page without a manifest.
-/

namespace Neonet

/-- A core that gives a reply to each call, whatever it is asked. -/
def endless (replies : ℕ → Except IoError Reply) : Server ℕ where
  step i _ := (replies i, i + 1)

/-- The manifest and the chunks in a reply, if it is a page. -/
def pageIn : Except IoError Reply → Option (Option FileManifest × List EncryptedChunk)
  | .ok ⟨some (.storedChunks _ manifest page), _⟩ => some (manifest, page)
  | _ => none

section Loop

variable (replies : ℕ → Except IoError Reply)

/-- What the client has after the reply to a call. -/
def answered (p : Pulled) (i : ℕ) : Option (Pulled × List EncryptedChunk) :=
  (pageIn (replies i)).map fun r => (p.add r.1 r.2, r.2)

/-- What the client has before a call, if it makes that call. -/
def pulled : ℕ → Option Pulled
  | 0 => some ⟨none, [], 0⟩
  | i + 1 =>
    (pulled i).bind fun p =>
      (answered replies p i).bind fun a => if a.1.stops a.2 then none else some a.1

/-- The pages, apart from empty ones, in the replies to the first calls. -/
def pagesBefore (i : ℕ) : List (List EncryptedChunk) :=
  ((List.range i).filterMap fun j => (pageIn (replies j)).map Prod.snd).filter (· ≠ [])

/-- The loop stops, and at any time, if it has a manifest, what it had collected before the last
page is no more than the chunks of the manifest. -/
structure Sparing : Prop where
  stops : ∀ fileId, ∃ fuel r, (pullChunks (endless replies) fileId fuel 0).1 = some r
  collects : ∀ i p a m, pulled replies i = some p → answered replies p i = some a →
    a.1.manifest = some m → (pagesBefore replies (i + 1)).dropLast.flatten.length ≤ m.chunks.length

/-- The reply is a page of some chunks without a manifest. -/
def Anonymous (i : ℕ) : Prop := ∃ page, page ≠ [] ∧ pageIn (replies i) = some (none, page)

/-- The reply is a page of some chunks. -/
def SomePage (i : ℕ) : Prop := ∃ mo page, page ≠ [] ∧ pageIn (replies i) = some (mo, page)

/-- After pages without a manifest comes something else.  If that has a manifest, it asks for no
less than what came before the last page, and for one chunk at least, unless it is no page of some
chunks, or no such page follows. -/
def Announced : Prop :=
  ∃ k, (∀ i < k, Anonymous replies i) ∧ ¬ Anonymous replies k ∧
    ∀ m page, pageIn (replies k) = some (some m, page) →
      (pagesBefore replies (k + 1)).dropLast.flatten.length ≤ m.chunks.length ∧
        (0 < m.chunks.length ∨ ¬ SomePage replies k ∨ ¬ SomePage replies (k + 1))

end Loop

variable {replies : ℕ → Except IoError Reply} {σ : Type} {S : Server σ} {s : σ} {fileId : String}
  {p q : Pulled} {mo : Option FileManifest} {page : List EncryptedChunk} {m : FileManifest}
  {fuel i k : ℕ}

/-! ### One call -/

theorem manifest_add : (p.add mo page).manifest = p.manifest.or mo := rfl

theorem length_collected_add :
    (p.add mo page).collected.length = p.collected.length + page.length := List.length_append

theorem stops_eq_true :
    (p.add mo page).stops page = true ↔
      (∃ m, (p.add mo page).manifest = some m ∧ 0 < m.chunks.length ∧
        m.chunks.length ≤ p.collected.length + page.length) ∨ page = [] := by
  simp only [Pulled.stops, length_collected_add, Bool.or_eq_true, decide_eq_true_eq,
    List.isEmpty_iff]
  refine or_congr_left ?_
  cases (p.add mo page).manifest with
  | none => simp
  | some m => simp

theorem pulled_succ :
    pulled replies (i + 1) = some q ↔ ∃ p mo page, pulled replies i = some p ∧
      pageIn (replies i) = some (mo, page) ∧ (p.add mo page).stops page = false ∧
        q = p.add mo page := by
  rw [pulled]
  constructor
  · intro h
    obtain ⟨p, hp, h⟩ := Option.bind_eq_some_iff.1 h
    obtain ⟨a, ha, h⟩ := Option.bind_eq_some_iff.1 h
    obtain ⟨⟨mo, page⟩, hpage, rfl⟩ := Option.map_eq_some_iff.1 ha
    dsimp only at h
    split at h
    · cases h
    · rename_i hstops
      exact ⟨p, mo, page, hp, hpage, Bool.eq_false_iff.2 hstops, (Option.some.inj h).symm⟩
  · rintro ⟨p, mo, page, hp, hpage, hstops, rfl⟩
    simp [hp, answered, hpage, hstops]

theorem pulled_eq_none_of_le (h : pulled replies i = none) (hik : i ≤ k) :
    pulled replies k = none := by
  induction k, hik using Nat.le_induction with
  | base => exact h
  | succ k hk ih => rw [pulled, ih, Option.bind_none]

theorem pullLoop_endless (h : pulled replies i = some p) :
    (pullLoop (endless replies) fileId fuel p i).1 = none ↔ pulled replies (i + fuel) ≠ none := by
  induction fuel generalizing i p with
  | zero => simp [pullLoop, h]
  | succ fuel ih =>
    have hshift : i + (fuel + 1) = i + 1 + fuel := by omega
    have hstep : ∀ offset, (endless replies).step i (.fetchChunks fileId offset) =
        (replies i, i + 1) := fun _ => rfl
    -- a reply that is no page ends the loop
    have hends : pageIn (replies i) = none → pulled replies (i + 1 + fuel) = none := fun hnone =>
      pulled_eq_none_of_le (i := i + 1) (by simp [pulled, h, answered, hnone]) (by omega)
    rw [hshift, pullLoop, hstep]
    cases hreply : replies i with
    | error e => simpa using hends (by rw [hreply]; rfl)
    | ok reply =>
      obtain ⟨frame, debug⟩ := reply
      cases frame with
      | none => simpa using hends (by rw [hreply]; rfl)
      | some frame =>
      cases frame with
      | storedChunks f mo page =>
        have hpage : pageIn (replies i) = some (mo, page) := by rw [hreply]; rfl
        dsimp only
        split
        · rename_i hstops
          have hnone : pulled replies (i + 1) = none := by
            simp [pulled, h, answered, hpage, hstops]
          simp [pulled_eq_none_of_le hnone (Nat.le_add_right (i + 1) fuel)]
        · rename_i hstops
          exact ih (pulled_succ.2 ⟨p, mo, page, h, hpage, Bool.eq_false_iff.2 hstops, rfl⟩)
      | storeChunks | storeAck | fetchChunks | error =>
        simpa using hends (by rw [hreply]; rfl)

/-! ### What is collected -/

theorem pagesBefore_succ (h : pageIn (replies i) = some (mo, page)) :
    pagesBefore replies (i + 1) = pagesBefore replies i ++ [page].filter (· ≠ []) := by
  simp [pagesBefore, List.range_succ, h]

theorem collected_pulled (h : pulled replies i = some p) :
    p.collected = (pagesBefore replies i).flatten := by
  induction i generalizing p with
  | zero =>
    obtain rfl := Option.some.inj h
    rfl
  | succ i ih =>
    obtain ⟨q, mo, page, hq, hpage, -, rfl⟩ := pulled_succ.1 h
    rw [pagesBefore_succ hpage, List.flatten_append, ← ih hq, Pulled.add]
    by_cases hnil : page = []
    · simp [hnil]
    · simp [hnil]

/-- Pages without a manifest keep the loop going. -/
theorem pulled_of_anonymous (h : ∀ i < k, Anonymous replies i) :
    ∃ p, pulled replies k = some p ∧ p.manifest = none := by
  induction k with
  | zero => exact ⟨_, rfl, rfl⟩
  | succ k ih =>
    obtain ⟨p, hp, hm⟩ := ih fun i hi => h i (by omega)
    obtain ⟨page, hne, hpage⟩ := h k (Nat.lt_succ_self k)
    have hm' : (p.add none page).manifest = none := by rw [manifest_add, hm]; rfl
    refine ⟨p.add none page, pulled_succ.2 ⟨p, none, page, hp, hpage, ?_, rfl⟩, hm'⟩
    rw [Bool.eq_false_iff, ne_eq, stops_eq_true, hm']
    simp [hne]

/-! ### What stops the loop -/

/-- **A manifest of some chunks bounds the calls**, whatever the server. -/
theorem pullLoop_stops (hm : p.manifest = some m) (hn : 0 < m.chunks.length) (hpos : 0 < fuel)
    (hfuel : m.chunks.length ≤ fuel + p.collected.length) :
    ∃ r, (pullLoop S fileId fuel p s).1 = some r := by
  induction fuel generalizing p s with
  | zero => omega
  | succ fuel ih =>
    rw [pullLoop]
    split
    · exact ⟨_, rfl⟩
    · split
      · rename_i mo page _
        have hm' : (p.add mo page).manifest = some m := by rw [manifest_add, hm]; rfl
        split
        · exact ⟨_, rfl⟩
        · rename_i hgoes
          rw [stops_eq_true, not_or, hm'] at hgoes
          have hlt : p.collected.length + page.length < m.chunks.length := by
            by_contra hge
            exact hgoes.1 ⟨m, rfl, hn, Nat.le_of_not_lt hge⟩
          have hpage : 0 < page.length := List.length_pos_of_ne_nil hgoes.2
          have hlength : (p.add mo page).collected.length = p.collected.length + page.length :=
            length_collected_add
          exact ih hm' (by omega) (by omega)
      · exact ⟨_, rfl⟩
      · exact ⟨_, rfl⟩

theorem pulled_succ_of_not_somePage (h : ¬ SomePage replies i) : pulled replies (i + 1) = none := by
  by_contra hne
  obtain ⟨q, hq⟩ := Option.ne_none_iff_exists'.1 hne
  obtain ⟨p, mo, page, -, hpage, hstops, -⟩ := pulled_succ.1 hq
  refine h ⟨mo, page, ?_, hpage⟩
  rintro rfl
  rw [stops_eq_true.2 (.inr rfl)] at hstops
  cases hstops

/-- A loop that goes on has not reached the count of the manifest. -/
theorem collected_lt (h : pulled replies (i + 1) = some p) (hm : p.manifest = some m)
    (hn : 0 < m.chunks.length) : p.collected.length < m.chunks.length := by
  obtain ⟨q, mo, page, -, -, hstops, rfl⟩ := pulled_succ.1 h
  rw [Bool.eq_false_iff, ne_eq, stops_eq_true, not_or] at hstops
  by_contra hge
  refine hstops.1 ⟨m, hm, hn, ?_⟩
  rw [length_collected_add] at hge
  exact Nat.le_of_not_lt hge

theorem manifest_of_le (h : pulled replies i = some p) (hm : p.manifest = some m) (hik : i ≤ k)
    (hq : pulled replies k = some q) : q.manifest = some m := by
  induction k, hik using Nat.le_induction generalizing q with
  | base =>
    obtain rfl := Option.some.inj (h.symm.trans hq)
    exact hm
  | succ k hk ih =>
    obtain ⟨r, mo, page, hr, -, -, rfl⟩ := pulled_succ.1 hq
    rw [manifest_add, ih hr]
    rfl

theorem length_dropLast_le (h : pageIn (replies i) = some (mo, page)) :
    (pagesBefore replies (i + 1)).dropLast.flatten.length ≤
      (pagesBefore replies i).flatten.length := by
  rw [pagesBefore_succ h]
  by_cases hnil : page = []
  · have hsub := List.dropLast_sublist (pagesBefore replies i)
    simpa [hnil] using hsub.flatten.length_le
  · simp [hnil]

/-! ### Sparing loops -/

theorem stops_of_pulled (h : pulled replies k = none) :
    ∃ fuel r, (pullChunks (endless replies) fileId fuel 0).1 = some r := by
  refine ⟨k, Option.ne_none_iff_exists'.1 fun hnone => ?_⟩
  rw [pullChunks, pullLoop_endless (i := 0) rfl, Nat.zero_add] at hnone
  exact hnone h

theorem announced_of_sparing (h : Sparing replies) : Announced replies := by
  classical
  have hex : ∃ k, ¬ Anonymous replies k := by
    by_contra hnone
    obtain ⟨fuel, r, hr⟩ := h.stops ""
    obtain ⟨p, hp, -⟩ := pulled_of_anonymous (k := fuel) fun i _ =>
      not_not.1 fun hi => hnone ⟨i, hi⟩
    have hrunning : (pullLoop (endless replies) "" fuel ⟨none, [], 0⟩ 0).1 = none :=
      (pullLoop_endless rfl).2 (by rw [Nat.zero_add, hp]; simp)
    rw [pullChunks, hrunning] at hr
    cases hr
  obtain ⟨k, hk, hmin⟩ : ∃ k, ¬ Anonymous replies k ∧ ∀ i < k, Anonymous replies i :=
    ⟨Nat.find hex, Nat.find_spec hex, fun i hi => not_not.1 (Nat.find_min hex hi)⟩
  refine ⟨k, hmin, hk, fun m page hpage => ?_⟩
  obtain ⟨p, hp, hnone⟩ := pulled_of_anonymous hmin
  have hm : (p.add (some m) page).manifest = some m := by rw [manifest_add, hnone]; rfl
  refine ⟨h.collects k p _ m hp (by rw [answered, hpage]; rfl) hm, ?_⟩
  by_contra hor
  rw [not_or, not_or, not_not, not_not] at hor
  obtain ⟨hzero, ⟨_, page₁, hne, hpage₁⟩, mo', page', hne', hpage'⟩ := hor
  obtain ⟨-, rfl⟩ := Prod.mk.inj (Option.some.inj (hpage.symm.trans hpage₁))
  -- the loop goes on, as if there were no manifest
  have hp' : pulled replies (k + 1) = some (p.add (some m) page) := by
    refine pulled_succ.2 ⟨p, some m, page, hp, hpage, ?_, rfl⟩
    rw [Bool.eq_false_iff, ne_eq, stops_eq_true, not_or]
    refine ⟨?_, hne⟩
    rintro ⟨m', hm', hpos, -⟩
    rw [hm] at hm'
    exact hzero (Option.some.inj hm' ▸ hpos)
  have hm' : ((p.add (some m) page).add mo' page').manifest = some m := by
    rw [manifest_add, hm]
    rfl
  have hmore := h.collects (k + 1) _ (_, page') m hp' (by rw [answered, hpage']; rfl) hm'
  rw [pagesBefore_succ hpage', pagesBefore_succ hpage] at hmore
  have hlong : 0 < page.length := List.length_pos_of_ne_nil hne
  simp [hne, hne'] at hmore
  omega

/-- The first page that is not anonymous lets the loop go on only with a manifest and some
chunks. -/
theorem page_of_goes_on (hbefore : ∀ i < k, Anonymous replies i) (hnot : ¬ Anonymous replies k)
    (hq : pulled replies (k + 1) = some q) :
    ∃ m page, page ≠ [] ∧ pageIn (replies k) = some (some m, page) ∧ q.manifest = some m := by
  obtain ⟨p, hp, hnone⟩ := pulled_of_anonymous hbefore
  obtain ⟨p', mo, page, hp', hpage, hstops, rfl⟩ := pulled_succ.1 hq
  obtain rfl := Option.some.inj (hp.symm.trans hp')
  rw [Bool.eq_false_iff, ne_eq, stops_eq_true, not_or] at hstops
  cases mo with
  | none => exact absurd ⟨page, hstops.2, hpage⟩ hnot
  | some m => exact ⟨m, page, hstops.2, hpage, by rw [manifest_add, hnone]; rfl⟩

theorem stops_of_announced (h : Announced replies) (fileId : String) :
    ∃ fuel r, (pullChunks (endless replies) fileId fuel 0).1 = some r := by
  obtain ⟨k, hbefore, hnot, hfirst⟩ := h
  cases hq : pulled replies (k + 1) with
  | none => exact stops_of_pulled hq
  | some q =>
  obtain ⟨m, page, hne, hpage, hm⟩ := page_of_goes_on hbefore hnot hq
  rcases (hfirst m page hpage).2 with hpos | hempty | hempty
  · obtain ⟨r, hr⟩ :
        ∃ r, (pullLoop (endless replies) fileId m.chunks.length q (k + 1)).1 = some r :=
      pullLoop_stops hm hpos hpos (Nat.le_add_right ..)
    have hstopped : pulled replies (k + 1 + m.chunks.length) = none := by
      by_contra hne
      rw [(pullLoop_endless hq).2 hne] at hr
      cases hr
    exact stops_of_pulled hstopped
  · exact absurd ⟨_, page, hne, hpage⟩ hempty
  · exact stops_of_pulled (pulled_succ_of_not_somePage hempty)

/-- A page after the one with the manifest comes only before all chunks of the manifest are
there. -/
theorem collects_of_later (hbefore : ∀ i < k, Anonymous replies i) (hnot : ¬ Anonymous replies k)
    (hfirst : ∀ m page, pageIn (replies k) = some (some m, page) →
      (pagesBefore replies (k + 1)).dropLast.flatten.length ≤ m.chunks.length ∧
        (0 < m.chunks.length ∨ ¬ SomePage replies k ∨ ¬ SomePage replies (k + 1)))
    (hki : k ≤ i) (hp : pulled replies (i + 1) = some p)
    (hpage : pageIn (replies (i + 1)) = some (mo, page))
    (hm : (p.add mo page).manifest = some m) :
    (pagesBefore replies (i + 1 + 1)).dropLast.flatten.length ≤ m.chunks.length := by
  obtain ⟨q, hq⟩ : ∃ q, pulled replies (k + 1) = some q := by
    refine Option.ne_none_iff_exists'.1 fun hstopped => ?_
    rw [pulled_eq_none_of_le hstopped (by omega)] at hp
    cases hp
  obtain ⟨m', page', hne, hpage', hm'⟩ := page_of_goes_on hbefore hnot hq
  have hmanifest := manifest_of_le hq hm' (by omega) hp
  rw [manifest_add, hmanifest] at hm
  obtain rfl : m' = m := Option.some.inj hm
  rcases (hfirst m' page' hpage').2 with hpos | hempty | hempty
  · have hlt := collected_lt hp hmanifest hpos
    rw [collected_pulled hp] at hlt
    have := length_dropLast_le hpage
    omega
  · exact absurd ⟨_, page', hne, hpage'⟩ hempty
  · -- this is the next call, and it brings nothing
    have hstopped := pulled_succ_of_not_somePage hempty
    obtain rfl : i = k := by
      by_contra hik
      rw [pulled_eq_none_of_le hstopped (by omega)] at hp
      cases hp
    have hnil : page = [] := by
      by_contra hne'
      exact hempty ⟨mo, page, hne', hpage⟩
    have hbound := (hfirst m' page' hpage').1
    rw [pagesBefore_succ hpage, hnil]
    simpa using hbound

theorem sparing_of_announced (h : Announced replies) : Sparing replies := by
  refine ⟨stops_of_announced h, fun i p a m hp ha hm => ?_⟩
  obtain ⟨k, hbefore, hnot, hfirst⟩ := h
  obtain ⟨⟨mo, page⟩, hpage, rfl⟩ := Option.map_eq_some_iff.1 ha
  dsimp only at hm
  rcases Nat.lt_trichotomy i k with hik | rfl | hik
  · -- there is no manifest yet
    obtain ⟨page', -, hpage'⟩ := hbefore i hik
    obtain ⟨rfl, rfl⟩ := Prod.mk.inj (Option.some.inj (hpage.symm.trans hpage'))
    obtain ⟨q, hq, hnone⟩ := pulled_of_anonymous (k := i) fun j hj => hbefore j (by omega)
    obtain rfl := Option.some.inj (hp.symm.trans hq)
    rw [manifest_add, hnone] at hm
    cases hm
  · obtain ⟨q, hq, hnone⟩ := pulled_of_anonymous hbefore
    obtain rfl := Option.some.inj (hp.symm.trans hq)
    rw [manifest_add, hnone] at hm
    obtain rfl : mo = some m := hm
    exact (hfirst m page hpage).1
  · obtain ⟨i, rfl⟩ : ∃ j, i = j + 1 := ⟨i - 1, by omega⟩
    exact collects_of_later hbefore hnot hfirst (by omega) hp hpage hm

/-- **The loop is sparing exactly if the pages without a manifest end**, with a manifest that is
not too small. -/
theorem sparing_iff (replies : ℕ → Except IoError Reply) : Sparing replies ↔ Announced replies :=
  ⟨announced_of_sparing, sparing_of_announced⟩

/-! ### Page after page -/

/-- A page of one chunk without a manifest. -/
def nameless : Reply := ⟨some (.storedChunks "f" none [Cabinet.blob]), "reply"⟩

/-- **The client collects without end** if no reply has a manifest. -/
theorem not_sparing : ¬ ∀ replies : ℕ → Except IoError Reply, Sparing replies := by
  intro h
  obtain ⟨k, -, hnot, -⟩ := announced_of_sparing (h fun _ => .ok nameless)
  exact hnot ⟨[Cabinet.blob], by simp, rfl⟩

end Neonet
