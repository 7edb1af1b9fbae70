import Neonet.Lib.Runs
import Neonet.Node.Topology

/-!
# Whether a message comes to rest

A message keeps no count of its hops and no trace of where it was, so what ends its journey is the
routes of the nodes and what their readers let through.

* `Terminates` : no message that a node sends is handed on forever.
* `terminates_iff` : **in a finite network this holds iff no node's own message can come back to
  it.**
* `not_terminates` : two cores dial each other, and each uses the connection that the other one
  dialled.  A message for somebody unknown goes back and forth.
-/

namespace Neonet

open Relation

section Forwarding

variable {N : Type} [DecidableEq N] (T : Topology N) (order : N → List PublicIdentity)

/-- The routes take a message of `sender` for `x` from `n` on to `n'`: over a connection that `n'`
dialled, or any if `n` is the sender. -/
def Topology.Onward (sender x : PublicIdentity) (n n' : N) : Prop :=
  ¬ T.Local n x ∧ ∃ e, T.next (order n) x n = some e ∧ e.peer = n' ∧
    (e.side = .acceptor ∨ sender = T.self n)

/-- No message that a node sends is handed on forever. -/
def Terminates : Prop :=
  ∀ n (m : Message), m.sender = T.self n →
    ¬ ∃ run : ℕ → N, run 0 = n ∧ IsRun (T.Hop .postcard order m) run

/-- No node's own message comes back to it: there is no closed way from a node over connections
which, but for those it sends on itself, were dialled by the node they lead to. -/
def NoReturn : Prop := ∀ n x, ¬ TransGen (T.Onward order (T.self n) x) n n

variable {T order} {n n' : N} {m : Message} {x y : PublicIdentity}

theorem Topology.Hop.onward (h : T.Hop .postcard order m n n') :
    T.Onward order m.sender m.recipient n n' := by
  have h' := h
  obtain ⟨valid, foreign, pick, atEnd, peer, encode, accept⟩ := h
  exact (hop_iff valid (frameFits_of_encode encode).1).1 h'

/-- Someone the message is not from lets a message on only over connections the next node
dialled. -/
theorem Topology.Onward.of_ne (h : T.Onward order y x n n') (hy : y ≠ T.self n)
    (z : PublicIdentity) : T.Onward order z x n n' :=
  let ⟨hl, e, hnext, hpeer, haccept⟩ := h
  ⟨hl, e, hnext, hpeer, .inl (haccept.resolve_right hy)⟩

/-- An empty message. -/
def emptyMessage (sender recipient : PublicIdentity) : Message :=
  ⟨List.Vector.replicate 16 0, sender, recipient, []⟩

theorem length_encode_emptyMessage :
    (MessageCodecs.postcard.message.encode (emptyMessage x y)).length = 81 := by
  rw [Message.length_encode, Wire.length_bytes]
  rfl

theorem validateSize_emptyMessage : (emptyMessage x y).validateSize .postcard = .ok () :=
  validateSize_ok.2 (length_encode_emptyMessage.trans_le (by decide))

theorem frameFits_emptyMessage : FrameFits .postcard (emptyMessage x y) := by
  rw [FrameFits, MessagingFrame.length_encode, length_encode_emptyMessage]
  decide

theorem hop_emptyMessage (h : T.Onward order x y n n') :
    T.Hop .postcard order (emptyMessage x y) n n' :=
  (Topology.hop_iff validateSize_emptyMessage frameFits_emptyMessage).2 h

/-- A node whose message comes back to it sends one that is handed on forever. -/
theorem not_terminates_of_return (h : TransGen (T.Onward order (T.self n) x) n n) :
    ¬ Terminates T order := by
  intro ht
  have hcycle : TransGen (T.Hop .postcard order (emptyMessage (T.self n) x)) n n :=
    TransGen.mono (fun _ _ => hop_emptyMessage) _ _ h
  exact ht n _ rfl (exists_isRun_of_cycle hcycle)

/-- A run that comes back to where it was passes the sender, or would come back whoever sent the
message. -/
theorem exists_return {run : ℕ → N} (hrun : IsRun (T.Onward order y x) run) {i j : ℕ}
    (hij : i < j) (heq : run i = run j) : ∃ n, TransGen (T.Onward order (T.self n) x) n n := by
  by_cases hs : ∃ k, i ≤ k ∧ k < j ∧ y = T.self (run k)
  · obtain ⟨k, hik, hkj, rfl⟩ := hs
    refine ⟨run k, ?_⟩
    have hround : TransGen (T.Onward order (T.self (run k)) x) (run k) (run i) :=
      heq ▸ hrun.transGen hkj
    rcases Nat.eq_or_lt_of_le hik with rfl | hlt
    · exact hround
    · exact hround.trans (hrun.transGen hlt)
  · refine ⟨run i, ?_⟩
    -- without the sender, every connection on the way was dialled by the node it leads to
    have hfree : ∀ k, i < k → k ≤ j →
        TransGen (T.Onward order (T.self (run i)) x) (run i) (run k) := by
      intro k hik
      induction k, hik using Nat.le_induction with
      | base => exact fun hk => .single ((hrun i).of_ne (fun hy => hs ⟨i, le_rfl, hk, hy⟩) _)
      | succ k hik ih =>
        intro hk
        have hik' : i ≤ k := Nat.le_of_succ_le hik
        exact (ih (Nat.le_of_succ_le hk)).tail
          ((hrun k).of_ne (fun hy => hs ⟨k, hik', hk, hy⟩) _)
    exact heq ▸ hfree j hij le_rfl

end Forwarding

/-- **In a finite network every message comes to rest iff no node's own message comes back to
it.** -/
theorem terminates_iff {N : Type} [DecidableEq N] [Fintype N] (T : Topology N)
    (order : N → List PublicIdentity) : Terminates T order ↔ NoReturn T order := by
  constructor
  · intro h n x hreturn
    exact not_terminates_of_return hreturn h
  · rintro h n m - ⟨run, -, hrun⟩
    obtain ⟨i, j, hij, heq⟩ := IsRun.exists_eq run
    obtain ⟨n', hreturn⟩ := exists_return (fun k => (hrun k).onward) hij heq
    exact h n' _ hreturn

/-! ### Two cores that dial each other -/

namespace Letter

/-- A device that is connected nowhere. -/
def carol : PublicIdentity := ⟨List.Vector.replicate 32 3⟩

/-- Alice's node and Bob's dialled each other, and each set up its own connection first. -/
def crossed : Topology Bool where
  self b := if b then bob else alice
  ends b := [⟨!b, .dialer⟩, ⟨!b, .acceptor⟩]
  matched := by
    intro n n' side
    cases n <;> cases n' <;> cases side <;> decide
  registered _ := true
  queue _ := router.offline

/-- Each has the other as its only relay. -/
def relayOrder (b : Bool) : List PublicIdentity := [crossed.self (!b)]

theorem iterates_relayOrder : crossed.Iterates relayOrder := by
  intro b
  refine ⟨List.nodup_singleton _, fun x => ?_⟩
  rw [Topology.mem_relays_router, relayOrder, List.mem_singleton]
  constructor
  · rintro rfl
    exact ⟨⟨!b, .dialer⟩, List.mem_cons_self, rfl, rfl⟩
  · rintro ⟨e, he, hside, rfl⟩
    rcases List.mem_pair.1 he with rfl | rfl
    · rfl
    · cases hside

theorem onward_crossed (b : Bool) (y : PublicIdentity) :
    crossed.Onward relayOrder y carol b (!b) := by
  refine ⟨?_, ⟨!b, .acceptor⟩, ?_, rfl, .inl rfl⟩
  · rintro ⟨-, h⟩
    cases b <;> exact absurd h (by decide)
  · cases b <;> decide

theorem return_crossed :
    Relation.TransGen (crossed.Onward relayOrder (crossed.self false) carol) false false :=
  .tail (.single (onward_crossed false _)) (onward_crossed true _)

end Letter

open Letter in
/-- A message of Alice to Carol goes back and forth between Alice's node and Bob's. -/
theorem not_terminates :
    ¬ ∀ (N : Type) [DecidableEq N] [Fintype N] (T : Topology N) (order : N → List PublicIdentity),
      T.Iterates order → Terminates T order := by
  intro h
  exact not_terminates_of_return return_crossed (h Bool crossed relayOrder iterates_relayOrder)

end Neonet
