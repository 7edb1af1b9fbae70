import Neonet.Messaging.Offline

/-!
# Whether a destination is reachable

`Router::reachable` is asked before a message is sent.  It looks at the next hop of the destination
and at the relays; `Router::send` looks at the local recipients, at the next hop, and at the next
hops of the relays.

* `ReachableSends` : what `reachable` says of a destination is what becomes of its messages.
* `RoutesMatch` : the tables give both the same answer.
* `reachableSends_iff` : **in every state whose channels are open and have room, `reachable` is
  right exactly if they do.**
-/

namespace Neonet

section Spec

variable (s : RouterState)

/-- The channels that the tables name are open and have room. -/
def RouterState.Ready : Prop :=
  ∀ x i, s.router.peers x = some i ∨ s.router.nextHops x = some i →
    (s.chans i).isOpen = true ∧ (s.chans i).full = false

/-- A delivery puts the message into a channel, and nothing in the offline queues. -/
def HandsOver (order : List PublicIdentity) (m : Message) : Prop :=
  ∃ r' i, s.router.send .postcard s.chans order m =
      .done r' (Function.update s.chans i ((s.chans i).push m)) none ∧
    (s.chans i).full = false ∧ r'.offline = s.router.offline

/-- The destination is called reachable iff a message for it is handed to a channel, in whatever
order the relays are tried. -/
def ReachableSends (d : PublicIdentity) : Prop :=
  ∀ order m, (∀ x, x ∈ order ↔ x ∈ s.router.relays) → m.recipient = d →
    m.validateSize .postcard = .ok () → (s.router.reachable d = true ↔ HandsOver s order m)

/-- A recipient that is local has a next hop as well, or there is a relay; and if there is a relay,
the recipient is local, or has a next hop, or some relay has one. -/
def RoutesMatch (r : Router) (d : PublicIdentity) : Prop :=
  (r.peers d ≠ none → r.nextHops d ≠ none ∨ r.relays.Nonempty) ∧
    (r.relays.Nonempty →
      r.peers d ≠ none ∨ r.nextHops d ≠ none ∨ ∃ x ∈ r.relays, r.nextHops x ≠ none)

end Spec

variable {s : RouterState} {order : List PublicIdentity} {m : Message} {d : PublicIdentity}

theorem update_push_ne {cs : Chans} {i : ChanId} (h : (cs i).full = false) :
    Function.update cs i ((cs i).push m) ≠ cs := by
  intro hsame
  have hsent := congrArg Channel.sent (congrFun hsame i)
  rw [Function.update_self, Channel.sent_push h] at hsent
  simp at hsent

/-- **A delivery is handed over iff there is a route**, if all of them are ready. -/
theorem handsOver_iff (hready : s.Ready) (hsize : m.validateSize .postcard = .ok ()) :
    HandsOver s order m ↔ s.router.routes order m ≠ [] := by
  have hopen : s.router.openRoute s.chans order m = none ↔ s.router.routes order m = [] := by
    rw [Router.openRoute, List.find?_eq_none]
    constructor
    · intro hall
      refine List.eq_nil_iff_forall_not_mem.2 fun i hi => hall i hi ?_
      simp only [Router.routes, List.mem_append, Option.mem_toList, List.mem_filterMap] at hi
      rcases hi with hpeer | hhop | ⟨x, -, hrelay⟩
      · exact (hready _ i (.inl hpeer)).1
      · exact (hready _ i (.inr hhop)).1
      · exact (hready x i (.inr hrelay)).1
    · intro hnil i hi
      rw [hnil] at hi
      cases hi
  rw [ne_eq, ← hopen]
  have hplaced : Router.Placed s.router s.chans m (s.router.openRoute s.chans order m)
      (s.router.send .postcard s.chans order m) := Router.placed_send hsize
  cases hroute : s.router.openRoute s.chans order m with
  | none =>
    -- nothing is put into any channel
    refine iff_of_false ?_ fun h => h rfl
    rintro ⟨r', i, hsend, hroom, -⟩
    rw [hroute, hsend] at hplaced
    generalize hcs : Function.update s.chans i ((s.chans i).push m) = cs at hplaced
    generalize hev : (none : Option Message) = ev at hplaced
    cases hplaced
    exact update_push_ne hroom hcs
  | some i =>
    refine iff_of_true ?_ fun h => by cases h
    rw [hroute] at hplaced
    generalize hsend : s.router.send .postcard s.chans order m = sending at hplaced
    cases hplaced with
    | delivered forgets same room => exact ⟨_, i, hsend, room, same⟩
    | waits full =>
      -- a route that is ready has room
      have hmem : i ∈ s.router.routes order m := List.mem_of_find?_eq_some hroute
      simp only [Router.routes, List.mem_append, Option.mem_toList, List.mem_filterMap] at hmem
      rcases hmem with hpeer | hhop | ⟨x, -, hrelay⟩
      · exact absurd full (Bool.eq_false_iff.1 (hready _ i (.inl hpeer)).2)
      · exact absurd full (Bool.eq_false_iff.1 (hready _ i (.inr hhop)).2)
      · exact absurd full (Bool.eq_false_iff.1 (hready x i (.inr hrelay)).2)

theorem routes_ne_nil_iff (horder : ∀ x, x ∈ order ↔ x ∈ s.router.relays)
    (hd : m.recipient = d) :
    s.router.routes order m ≠ [] ↔ s.router.peers d ≠ none ∨ s.router.nextHops d ≠ none ∨
      ∃ x ∈ s.router.relays, s.router.nextHops x ≠ none := by
  subst hd
  have hrelays : order.filterMap s.router.nextHops = [] ↔
      ¬ ∃ x ∈ s.router.relays, s.router.nextHops x ≠ none := by
    rw [List.filterMap_eq_nil_iff]
    simp only [horder, not_exists, not_and, not_not]
  rw [Router.routes, ne_eq, List.append_eq_nil_iff, List.append_eq_nil_iff, hrelays,
    Option.toList_eq_nil_iff, Option.toList_eq_nil_iff, not_and_or, not_and_or, not_not]

theorem exists_message (d : PublicIdentity) :
    ∃ m : Message, m.recipient = d ∧ m.validateSize .postcard = .ok () := by
  refine ⟨⟨List.Vector.replicate 16 0, d, d, []⟩, rfl, validateSize_ok.2 ?_⟩
  have hempty : (Wire.bytes.write []).length = 1 := by decide
  rw [Message.length_encode, hempty]
  decide

/-- **What is said of a destination is right** exactly if the tables give both the same answer. -/
theorem reachableSends_of_ready (hready : s.Ready) (d : PublicIdentity) :
    ReachableSends s d ↔ RoutesMatch s.router d := by
  have hreach : s.router.reachable d = true ↔
      s.router.nextHops d ≠ none ∨ s.router.relays.Nonempty := by
    rw [Router.reachable, Bool.or_eq_true, decide_eq_true_iff, Option.isSome_iff_ne_none]
  constructor
  · intro h
    obtain ⟨m, hd, hsize⟩ := exists_message d
    have horder : ∀ x, x ∈ s.router.relays.toList ↔ x ∈ s.router.relays := fun x =>
      Finset.mem_toList
    have hboth := h _ m horder hd hsize
    rw [hreach, handsOver_iff hready hsize, routes_ne_nil_iff horder hd] at hboth
    exact ⟨fun hpeer => hboth.2 (.inl hpeer), fun hrelay => hboth.1 (.inr hrelay)⟩
  · rintro ⟨hlocal, hrelay⟩ order m horder hd hsize
    rw [hreach, handsOver_iff hready hsize, routes_ne_nil_iff horder hd]
    constructor
    · rintro (hhop | hset)
      · exact .inr (.inl hhop)
      · exact hrelay hset
    · rintro (hpeer | hhop | ⟨x, hx, -⟩)
      · exact hlocal hpeer
      · exact .inl hhop
      · exact .inr ⟨x, hx⟩

/-- **`reachable` is right**, in every state that a router comes to and in which all channels are
open and have room, exactly about the destinations whose routes are in all tables that are asked. -/
theorem reachableSends_iff {c : ℕ} {r : Router} (_h : Router.new c = .ok r)
    (events : List RouterEvent)
    (hready : ((routerRun .postcard).after ⟨r, fun _ => .gone, 0⟩ events).Ready)
    (d : PublicIdentity) :
    ReachableSends ((routerRun .postcard).after ⟨r, fun _ => .gone, 0⟩ events) d ↔
      RoutesMatch ((routerRun .postcard).after ⟨r, fun _ => .gone, 0⟩ events).router d :=
  reachableSends_of_ready hready d

/-- A core, and someone behind it. -/
def gateway : PublicIdentity := ⟨List.Vector.replicate 32 1⟩

def behind : PublicIdentity := ⟨List.Vector.replicate 32 2⟩

/-- A router that nobody has used. -/
def unused : Router :=
  { peers := fun _ => none, nextHops := fun _ => none, relays := ∅,
    offline := .empty 1 Nat.one_pos }

theorem reachableSends_iff_dialled :
    ReachableSends ((routerRun .postcard).after ⟨unused, fun _ => .gone, 0⟩
      [.opened 1, .setRelay gateway, .setNextHop gateway 0]) behind := by
  refine (reachableSends_iff (c := 1) (r := unused) rfl
    [.opened 1, .setRelay gateway, .setNextHop gateway 0] ?_ behind).2 ?_
  · rintro x i (hpeer | hhop)
    · cases hpeer
    · obtain rfl : i = 0 := by
        change Function.update (fun _ => none) gateway (some 0) x = some i at hhop
        rw [Function.update_apply] at hhop
        split at hhop
        · exact (Option.some.inj hhop).symm
        · cases hhop
      exact ⟨rfl, rfl⟩
  · refine ⟨fun h => absurd rfl h, fun _ => .inr (.inr ⟨gateway, ?_, ?_⟩)⟩
    · exact Finset.mem_insert_self ..
    · show Function.update (fun _ => none) gateway (some 0) gateway ≠ none
      rw [Function.update_self]
      exact Option.some_ne_none _

/-- A core is dialled, goes away, and a message for someone behind it is sent. -/
def dialledAndLost : List RouterEvent :=
  [.opened 1, .setRelay gateway, .setNextHop gateway 0, .dropped 0,
    .send [gateway] ⟨List.Vector.replicate 16 0, gateway, behind, []⟩]

/-- The relay is still one, but the way to it is forgotten: **the next message is called
deliverable, and goes to the offline queue.** -/
theorem not_reachableSends :
    ¬ ∀ (c : ℕ) (r : Router), Router.new c = .ok r → ∀ (events : List RouterEvent),
      ((routerRun .postcard).after ⟨r, fun _ => .gone, 0⟩ events).Ready →
        ∀ d, ReachableSends ((routerRun .postcard).after ⟨r, fun _ => .gone, 0⟩ events) d := by
  intro h
  generalize hs : (routerRun .postcard).after ⟨unused, fun _ => .gone, 0⟩ dialledAndLost = s
  have hpeers : s.router.peers = fun _ => none := by rw [← hs]; rfl
  have hrelays : s.router.relays = {gateway} := by rw [← hs]; rfl
  have hhops : s.router.nextHops = fun _ => none := by
    rw [← hs]
    show Function.update (Function.update (fun _ => none) gateway (some 0)) gateway none = _
    rw [Function.update_idem, Function.update_eq_self_iff]
  have hready : s.Ready := by
    rintro x i (hpeer | hhop)
    · rw [hpeers] at hpeer
      cases hpeer
    · rw [hhops] at hhop
      cases hhop
  have hboth := h 1 unused rfl dialledAndLost (hs ▸ hready) behind
  rw [hs, reachableSends_of_ready hready] at hboth
  rcases hboth.2 (by rw [hrelays]; exact Finset.singleton_nonempty _) with
    hpeer | hhop | ⟨x, -, hhop⟩
  · exact hpeer (by rw [hpeers])
  · exact hhop (by rw [hhops])
  · exact hhop (by rw [hhops])

end Neonet
