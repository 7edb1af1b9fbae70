import Neonet.Node.Forwarding

/-!
# A mesh of cores

Every core dials every other core and every edge dials one core, so between two cores there are
two connections, and each of the two uses the one it set up last.

* `Delivers` : whatever the order in which relays are iterated, every message of an edge to an edge
  arrives.
* `delivers_iff` : **this holds iff of any two edges at different cores these are the only cores,
  and the core of the sender uses the connection that the other one dialled.**
* `not_delivers` : two cores, each of which uses the connection it dialled itself: the other drops
  what it forwards.
-/

namespace Neonet

open Relation

/-- A network of cores that dial each other and edges that dial one core each; no two nodes have
the same identity. -/
structure Mesh (N : Type) [DecidableEq N] extends Topology N where
  core : N → Bool
  /-- The core that an edge dials. -/
  home : N → N
  core_home : ∀ e, core e = false → core (home e) = true
  self_injective : Function.Injective self
  dialled : ∀ a b, (ends a).count ⟨b, .dialer⟩ =
    if (core a = true ∧ core b = true ∧ a ≠ b) ∨ (core a = false ∧ b = home a) then 1 else 0

section Delivery

variable {N : Type} [DecidableEq N] (M : Mesh N)

/-- Every message of an edge to another edge arrives there, if its frame is not too large. -/
def Delivers : Prop :=
  ∀ order, M.Iterates order → ∀ e f, M.core e = false → M.core f = false → e ≠ f →
    ∀ m : Message, m.sender = M.self e → m.recipient = M.self f →
        m.validateSize .postcard = .ok () →
      FrameFits .postcard m → ReflTransGen (M.Hop .postcard order m) e f

/-- The cores of `e` and `f` are the only ones, and that of `e` uses the connection that the other
one dialled. -/
def Mesh.Crosses (e f : N) : Prop :=
  (∀ c, M.core c = true → c = M.home e ∨ c = M.home f) ∧
    current M.self (M.ends (M.home e)) (M.self (M.home f)) = some ⟨M.home f, .acceptor⟩

variable {M} {a b c e f n : N} {x : PublicIdentity} {l : LinkEnd N}
    {order : N → List PublicIdentity}

theorem Mesh.mem_ends_dialer : ⟨b, .dialer⟩ ∈ M.ends a ↔
    (M.core a = true ∧ M.core b = true ∧ a ≠ b) ∨ (M.core a = false ∧ b = M.home a) := by
  rw [← List.count_pos_iff, M.dialled]
  split <;> rename_i h <;> simp [h]

theorem Mesh.mem_ends_acceptor : ⟨b, .acceptor⟩ ∈ M.ends a ↔
    (M.core b = true ∧ M.core a = true ∧ b ≠ a) ∨ (M.core b = false ∧ a = M.home b) := by
  rw [← List.count_pos_iff, M.matched, List.count_pos_iff]
  exact mem_ends_dialer

theorem Mesh.ends_edge (he : M.core e = false) (hl : l ∈ M.ends e) : l = ⟨M.home e, .dialer⟩ := by
  obtain ⟨p, side⟩ := l
  cases side with
  | dialer =>
    rcases mem_ends_dialer.1 hl with ⟨hc, -⟩ | ⟨-, rfl⟩
    · rw [he] at hc
      cases hc
    · rfl
  | acceptor =>
    rcases mem_ends_acceptor.1 hl with ⟨-, hc, -⟩ | ⟨hp, rfl⟩
    · rw [he] at hc
      cases hc
    · rw [M.core_home p hp] at he
      cases he

theorem Mesh.ends_core (ha : M.core a = true) (hl : l ∈ M.ends a) :
    (M.core l.peer = true ∧ l.peer ≠ a) ∨
      (M.core l.peer = false ∧ M.home l.peer = a ∧ l.side = .acceptor) := by
  obtain ⟨p, side⟩ := l
  cases side with
  | dialer =>
    rcases mem_ends_dialer.1 hl with ⟨-, hp, hne⟩ | ⟨hc, -⟩
    · exact .inl ⟨hp, hne.symm⟩
    · rw [ha] at hc
      cases hc
  | acceptor =>
    rcases mem_ends_acceptor.1 hl with ⟨hp, -, hne⟩ | ⟨hp, rfl⟩
    · exact .inl ⟨hp, hne⟩
    · exact .inr ⟨hp, rfl, rfl⟩

/-! ### Where the messages go -/

theorem Mesh.not_local (h : a ≠ f) : ¬ M.Local a (M.self f) := fun hl =>
  h (M.self_injective hl.2).symm

theorem Mesh.next_edge (ho : M.Iterates order) (he : M.core e = false)
    (hx : x ≠ M.self (M.home e)) : M.next (order e) x e = some ⟨M.home e, .dialer⟩ := by
  have hmem : (⟨M.home e, .dialer⟩ : LinkEnd N) ∈ M.ends e := mem_ends_dialer.2 (.inr ⟨he, rfl⟩)
  have hnone : current M.self (M.ends e) x = none := by
    rw [current_eq_none]
    rintro l hl rfl
    rw [M.ends_edge he hl] at hx
    exact hx rfl
  have hcore : current M.self (M.ends e) (M.self (M.home e)) = some ⟨M.home e, .dialer⟩ := by
    cases hcur : current M.self (M.ends e) (M.self (M.home e)) with
    | none => exact absurd rfl (current_eq_none.1 hcur _ hmem)
    | some l => rw [M.ends_edge he (mem_of_current hcur).1]
  have horder : order e = [M.self (M.home e)] := by
    refine ho.eq_singleton fun y => ?_
    rw [Topology.mem_relays_router]
    constructor
    · rintro ⟨l, hl, -, rfl⟩
      rw [M.ends_edge he hl]
    · rintro rfl
      exact ⟨_, hmem, rfl, rfl⟩
  simp only [Topology.next, hnone, horder, List.findSome?_cons, hcore]

theorem Mesh.next_home (hf : M.core f = false) (ys : List PublicIdentity) :
    M.next ys (M.self f) (M.home f) = some ⟨f, .acceptor⟩ := by
  have hmem : (⟨f, .acceptor⟩ : LinkEnd N) ∈ M.ends (M.home f) :=
    mem_ends_acceptor.2 (.inr ⟨hf, rfl⟩)
  cases hcur : current M.self (M.ends (M.home f)) (M.self f) with
  | none => exact absurd rfl (current_eq_none.1 hcur _ hmem)
  | some l =>
    obtain ⟨hl, hpeer⟩ := mem_of_current hcur
    obtain rfl := M.self_injective hpeer
    rcases M.ends_core (M.core_home _ hf) hl with ⟨hc, -⟩ | ⟨-, -, hside⟩
    · rw [hf] at hc
      cases hc
    · obtain ⟨p, side⟩ := l
      obtain rfl := hside
      simp only [Topology.next, hcur]

theorem Mesh.current_away (ha : M.core a = true) (hf : M.core f = false) (hne : M.home f ≠ a) :
    current M.self (M.ends a) (M.self f) = none := by
  rw [current_eq_none]
  intro l hl hpeer
  obtain rfl := M.self_injective hpeer
  rcases M.ends_core ha hl with ⟨hc, -⟩ | ⟨-, hhome, -⟩
  · rw [hf] at hc
    cases hc
  · exact hne hhome

theorem Mesh.next_away (ys : List PublicIdentity) (ha : M.core a = true) (hf : M.core f = false)
    (hne : M.home f ≠ a) (hc : M.core c = true) (hca : a ≠ c) :
    ∃ l, M.next (M.self c :: ys) (M.self f) a = some l ∧ l.peer = c ∧
      current M.self (M.ends a) (M.self c) = some l := by
  have hmem : (⟨c, .dialer⟩ : LinkEnd N) ∈ M.ends a := mem_ends_dialer.2 (.inl ⟨ha, hc, hca⟩)
  cases hcur : current M.self (M.ends a) (M.self c) with
  | none => exact absurd rfl (current_eq_none.1 hcur _ hmem)
  | some l =>
    refine ⟨l, ?_, M.self_injective (mem_of_current hcur).2, rfl⟩
    simp only [Topology.next, M.current_away ha hf hne, List.findSome?_cons, hcur]

theorem Mesh.mem_relays (ha : M.core a = true) :
    x ∈ (M.router a).relays ↔ ∃ c, M.core c = true ∧ a ≠ c ∧ M.self c = x := by
  rw [Topology.mem_relays_router]
  constructor
  · rintro ⟨⟨p, side⟩, hl, hside, rfl⟩
    obtain rfl := hside
    rcases mem_ends_dialer.1 hl with ⟨-, hp, hne⟩ | ⟨hc, -⟩
    · exact ⟨p, hp, hne, rfl⟩
    · rw [ha] at hc
      cases hc
  · rintro ⟨c, hc, hne, rfl⟩
    exact ⟨_, mem_ends_dialer.2 (.inl ⟨ha, hc, hne⟩), rfl, rfl⟩

/-! ### When they arrive -/

theorem Mesh.ne_of_core (ha : M.core a = true) (hf : M.core f = false) : a ≠ f := by
  rintro rfl
  rw [ha] at hf
  cases hf

section Message

variable {m : Message}

theorem Mesh.hop_edge (ho : M.Iterates order) (he : M.core e = false) (hf : M.core f = false)
    (hef : e ≠ f) (hs : m.sender = M.self e) (hr : m.recipient = M.self f)
    (hv : m.validateSize .postcard = .ok ()) (hm : FrameFits .postcard m) :
    M.Hop .postcard order m e (M.home e) := by
  have hx : M.self f ≠ M.self (M.home e) := fun h =>
    M.ne_of_core (M.core_home e he) hf (M.self_injective h).symm
  refine (Topology.hop_iff hv hm).2 ⟨?_, ⟨M.home e, .dialer⟩, ?_, rfl, .inr hs⟩
  · rw [hr]
    exact M.not_local hef
  · rw [hr]
    exact M.next_edge ho he hx

theorem Mesh.hop_home (hf : M.core f = false) (hr : m.recipient = M.self f)
    (hv : m.validateSize .postcard = .ok ()) (hm : FrameFits .postcard m) :
    M.Hop .postcard order m (M.home f) f := by
  refine (Topology.hop_iff hv hm).2 ⟨?_, ⟨f, .acceptor⟩, ?_, rfl, .inl rfl⟩
  · rw [hr]
    exact M.not_local (M.ne_of_core (M.core_home f hf) hf)
  · rw [hr]
    exact M.next_home hf _

theorem Mesh.hop_crosses (ho : M.Iterates order) (he : M.core e = false) (hf : M.core f = false)
    (hne : M.home e ≠ M.home f) (hc : M.Crosses e f) (hr : m.recipient = M.self f)
    (hv : m.validateSize .postcard = .ok ()) (hm : FrameFits .postcard m) :
    M.Hop .postcard order m (M.home e) (M.home f) := by
  have hA := M.core_home e he
  have hB := M.core_home f hf
  have horder : order (M.home e) = [M.self (M.home f)] := by
    refine ho.eq_singleton fun y => ?_
    rw [M.mem_relays hA]
    constructor
    · rintro ⟨c, hcore, hca, rfl⟩
      rcases hc.1 c hcore with rfl | rfl
      · exact absurd rfl hca
      · rfl
    · rintro rfl
      exact ⟨_, hB, hne, rfl⟩
  refine (Topology.hop_iff hv hm).2 ⟨?_, ⟨M.home f, .acceptor⟩, ?_, rfl, .inl rfl⟩
  · rw [hr]
    exact M.not_local (M.ne_of_core hA hf)
  · obtain ⟨l, hnext, -, hcur⟩ := M.next_away [] hA hf hne.symm hB hne
    rw [hr, horder, hnext, ← hcur, hc.2]

end Message

theorem Mesh.exists_iterates (M : Mesh N) (first : N → N) :
    ∃ order, M.Iterates order ∧ ∀ a, M.core a = true → M.core (first a) = true → a ≠ first a →
      ∃ ys, order a = M.self (first a) :: ys := by
  refine ⟨fun n =>
    if M.self (first n) ∈ (M.router n).relays then
      M.self (first n) :: ((M.router n).relays.erase (M.self (first n))).toList
    else (M.router n).relays.toList, fun n => ?_, fun a ha hc hne => ?_⟩
  · dsimp only
    split
    · rename_i h
      refine ⟨List.nodup_cons.2 ⟨by simp, Finset.nodup_toList _⟩, fun x => ?_⟩
      by_cases hx : x = M.self (first n)
      · simp [hx, h]
      · simp [hx]
    · exact ⟨Finset.nodup_toList _, fun x => Finset.mem_toList⟩
  · have hmem : M.self (first a) ∈ (M.router a).relays := (M.mem_relays ha).2 ⟨_, hc, hne, rfl⟩
    exact ⟨_, if_pos hmem⟩

theorem Mesh.onward_edge (ho : M.Iterates order) (he : M.core e = false)
    (hx : x ≠ M.self (M.home e)) (h : M.Onward order (M.self e) x e n) : n = M.home e := by
  obtain ⟨-, l, hnext, rfl, -⟩ := h
  rw [M.next_edge ho he hx] at hnext
  rw [← Option.some.inj hnext]

theorem Mesh.onward_away {ys : List PublicIdentity} (ha : M.core a = true) (he : M.core e = false)
    (hf : M.core f = false) (hne : M.home f ≠ a) (hc : M.core c = true) (hac : a ≠ c)
    (hfirst : order a = M.self c :: ys) (h : M.Onward order (M.self e) (M.self f) a n) :
    n = c ∧ current M.self (M.ends a) (M.self c) = some ⟨c, .acceptor⟩ := by
  obtain ⟨-, l, hnext, rfl, haccept⟩ := h
  obtain ⟨l', hnext', hpeer, hcur⟩ := M.next_away ys ha hf hne hc hac
  rw [hfirst] at hnext
  obtain rfl := Option.some.inj (hnext.symm.trans hnext')
  refine ⟨hpeer, ?_⟩
  rcases haccept with hside | hself
  · obtain ⟨p, side⟩ := l
    obtain rfl := hside
    obtain rfl := hpeer
    exact hcur
  · exact absurd (M.self_injective hself).symm (M.ne_of_core ha he)

/-- What is for an edge of another core stays where the routes take it. -/
theorem Delivers.reach (h : Delivers M) (ho : M.Iterates order) (he : M.core e = false)
    (hf : M.core f = false) (hef : e ≠ f) :
    ReflTransGen (M.Onward order (M.self e) (M.self f)) e f := by
  have hv : (emptyMessage (M.self e) (M.self f)).validateSize .postcard = .ok () :=
    validateSize_emptyMessage
  have hreach := h order ho e f he hf hef _ rfl rfl hv frameFits_emptyMessage
  exact ReflTransGen.mono (fun _ _ hop => hop.onward) _ _ hreach

/-- If messages arrive, there is no third core: the sender's and the third one would send to each
other. -/
theorem Delivers.cores (h : Delivers M) (he : M.core e = false) (hf : M.core f = false)
    (hne : M.home e ≠ M.home f) (hc : M.core c = true) : c = M.home e ∨ c = M.home f := by
  by_contra hno
  obtain ⟨hcA, hcB⟩ := not_or.1 hno
  have hA := M.core_home e he
  obtain ⟨order, ho, hfirst⟩ := M.exists_iterates fun n => if n = c then M.home e else c
  obtain ⟨ys, hys⟩ := hfirst (M.home e) hA (by rwa [if_neg (Ne.symm hcA)])
    (by rw [if_neg (Ne.symm hcA)]; exact Ne.symm hcA)
  obtain ⟨zs, hzs⟩ := hfirst c hc (by rwa [if_pos rfl]) (by rwa [if_pos rfl])
  rw [if_neg (Ne.symm hcA)] at hys
  rw [if_pos rfl] at hzs
  have hef : e ≠ f := fun hef => hne (hef ▸ rfl)
  have hx : M.self f ≠ M.self (M.home e) := fun h =>
    M.ne_of_core hA hf (M.self_injective h).symm
  have hstay := mem_of_reflTransGen (S := fun n => n = e ∨ n = M.home e ∨ n = c)
    (h.reach ho he hf hef) (.inl rfl) ?_
  · rcases hstay with h | h | h
    · exact hef h.symm
    · exact M.ne_of_core hA hf h.symm
    · exact M.ne_of_core hc hf h.symm
  · rintro n n' (rfl | rfl | rfl) hn
    · exact .inr (.inl (M.onward_edge ho he hx hn))
    · exact .inr (.inr (M.onward_away hA he hf hne.symm hc (Ne.symm hcA) hys hn).1)
    · exact .inr (.inl (M.onward_away hc he hf (Ne.symm hcB) hA hcA hzs hn).1)

/-- If messages arrive, the sender's core uses the connection that the other one dialled: on its
own one, the other one lets through only what it sends itself. -/
theorem Delivers.current (h : Delivers M) (he : M.core e = false) (hf : M.core f = false)
    (hne : M.home e ≠ M.home f) :
    current M.self (M.ends (M.home e)) (M.self (M.home f)) = some ⟨M.home f, .acceptor⟩ := by
  by_contra hno
  have hA := M.core_home e he
  have hB := M.core_home f hf
  obtain ⟨order, ho, hfirst⟩ := M.exists_iterates fun _ => M.home f
  obtain ⟨ys, hys⟩ := hfirst (M.home e) hA hB hne
  have hef : e ≠ f := fun hef => hne (hef ▸ rfl)
  have hx : M.self f ≠ M.self (M.home e) := fun h =>
    M.ne_of_core hA hf (M.self_injective h).symm
  have hstay := mem_of_reflTransGen (S := fun n => n = e ∨ n = M.home e)
    (h.reach ho he hf hef) (.inl rfl) ?_
  · rcases hstay with h | h
    · exact hef h.symm
    · exact M.ne_of_core hA hf h.symm
  · rintro n n' (rfl | rfl) hn
    · exact .inr (M.onward_edge ho he hx hn)
    · exact absurd (M.onward_away hA he hf hne.symm hB hne hys hn).2 hno

end Delivery

/-- **The messages between edges arrive, whatever the order in which relays are iterated, iff any
two edges at different cores have the only cores there are, and that of the sender uses the
connection that the other one dialled.** -/
theorem delivers_iff {N : Type} [DecidableEq N] (M : Mesh N) :
    Delivers M ↔ ∀ e f, M.core e = false → M.core f = false →
      M.home e = M.home f ∨ M.Crosses e f := by
  constructor
  · intro h e f he hf
    by_cases hne : M.home e = M.home f
    · exact .inl hne
    · exact .inr ⟨fun c hc => h.cores he hf hne hc, h.current he hf hne⟩
  · intro h order ho e f he hf hef m hs hr hv hm
    have hfirst := M.hop_edge ho he hf hef hs hr hv hm
    have hlast : M.Hop .postcard order m (M.home f) f := M.hop_home hf hr hv hm
    by_cases hne : M.home e = M.home f
    · exact .tail (.single (hne ▸ hfirst)) hlast
    · have hcross := (h e f he hf).resolve_left hne
      exact .tail (.tail (.single hfirst) (M.hop_crosses ho he hf hne hcross hr hv hm)) hlast

/-! ### Two cores with an edge each -/

namespace Letter

/-- A key for each of the nodes. -/
def nodeKey : Bool × Bool → UInt8
  | (true, false) => 1
  | (true, true) => 2
  | (false, false) => 3
  | (false, true) => 4

/-- Two cores and an edge of each.  Each core set up the connection it dialled itself last. -/
def uncrossed : Mesh (Bool × Bool) where
  self n := ⟨List.Vector.replicate 32 (nodeKey n)⟩
  ends
    | (true, b) => [⟨(true, !b), .acceptor⟩, ⟨(true, !b), .dialer⟩, ⟨(false, b), .acceptor⟩]
    | (false, b) => [⟨(true, b), .dialer⟩]
  matched := by
    rintro ⟨_ | _, _ | _⟩ ⟨_ | _, _ | _⟩ side <;> cases side <;> decide
  registered _ := true
  queue _ := router.offline
  core n := n.1
  home n := (true, n.2)
  core_home _ _ := rfl
  self_injective := by
    rintro ⟨_ | _, _ | _⟩ ⟨_ | _, _ | _⟩ h <;> first | rfl | exact absurd h (by decide)
  dialled := by
    rintro ⟨_ | _, _ | _⟩ ⟨_ | _, _ | _⟩ <;> decide

end Letter

open Letter in
/-- The core of each edge drops what the other core forwards. -/
theorem not_delivers :
    ¬ ∀ (N : Type) [DecidableEq N] (M : Mesh N), Delivers M := by
  intro h
  have hcur := (h _ uncrossed).current (e := (false, false))
      (f := (false, true)) rfl rfl (by decide)
  exact absurd hcur (by decide)

end Neonet
