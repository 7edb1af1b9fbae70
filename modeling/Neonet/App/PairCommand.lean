import Neonet.App.Tokens

/-!
# The pair command

`neonet pair` issues its token in the state directory, and the node that it runs looks for the token
in the directory of the identity's key.

* `Home.ofNode` : where `Node::new` keeps what it has to remember.
* `Presented` : a token that the command printed is presented to the node that it runs.
* `not_honoured` : **it is refused, whoever presents it.**
-/

namespace Neonet

open FileTree FsM

section Command

variable (root : Home)

/-- `load_identity`: the directory of the identity. -/
def identityDir : PathBuf := root.path.join "identity"

/-- `Node::new`: the state directory of the node is the one with the identity's key. -/
def Home.ofNode : Home where
  loc := "identity" :: root.loc
  plain := List.forall_mem_cons.2 ⟨by decide, root.plain⟩

variable (V : AppEnv)

/-- The node that the command runs. -/
def AppEnv.pairing : AppEnv := { V with home := root.ofNode }

/-- `Command::Pair`: a token is issued, and the node is made. -/
def pairCommand (raw : ByteArr 16) (ttl : Option UInt64) (now : UInt64) : FsM IoError String := do
  let token ← issueToken V.token root raw ttl now
  createDirAll root.ofNode.path
  return token

/-- `paired_devices`, which `Command::Pairs` prints. -/
def pairedDevices (L : Codec (List PairedDevice)) (t : Tree) : List PairedDevice :=
  (pairLedger L root t).insertionSort fun a b => a.pairedAt ≤ b.pairedAt

/-- The message is a frame of the pairing, or it leaves the token of the node alone. -/
def LeavesToken (s : AppState) (a : Draws × Message) : Prop :=
  match AppFrame.decode V.frames a.2.payload with
  | .pair _ => True
  | f => (pendingPath V.home).norm ∉ framePlaces V a.2.sender s.disk f

variable (raw : ByteArr 16) (ttl : Option UInt64) (now : UInt64) (s : AppState)
  (before : List (Draws × Message)) (d : Draws) (request : Message)

/-- The node that the command runs, when the message arrives. -/
def pairState : AppState :=
  (app (V.pairing root)).after { s with disk := (pairCommand root V raw ttl now s.disk).2 } before

/-- The command prints a token, and a peer presents it in time to the node. -/
structure Presented : Prop where
  printed : (pairCommand root V raw ttl now s.disk).1 = .ok (hex raw.toList)
  /-- The token is new. -/
  fresh : ∀ p, pendingToken V.token root.ofNode s.disk = some p → p.token ≠ hex raw.toList
  /-- No newer token is put in its place. -/
  left : (app (V.pairing root)).Along (LeavesToken (V.pairing root))
    { s with disk := (pairCommand root V raw ttl now s.disk).2 } before
  first : ∀ a ∈ before, AppFrame.decode V.frames a.2.payload ≠ .pair (.redeem (hex raw.toList))
  redeem : AppFrame.decode V.frames request.payload = .pair (.redeem (hex raw.toList))
  inTime : (d.clock 0).toNat < now.toNat + (tokenTtl ttl).toNat

/-- The peer is told that it is paired, and `neonet pairs` lists it. -/
def Honoured : Prop :=
  Redeems (V.pairing root) (hex raw.toList) request.sender (.arrived d request,
      ((tokenRun (V.pairing root)).step (pairState root V raw ttl now s before)
        (.arrived d request)).1) ∧
    request.sender.fingerprint V.primitives ∈
      (pairedDevices root V.ledger ((tokenRun (V.pairing root)).step
        (pairState root V raw ttl now s before) (.arrived d request)).2.disk).map (·.fingerprint)

/-- What the command promises. -/
def PairingWorks : Prop :=
  ∀ raw ttl now s before d request, Presented root V raw ttl now s before d request →
    Honoured root V raw ttl now s before d request

end Command

variable {root : Home} {V : AppEnv} {raw : ByteArr 16} {ttl : Option UInt64} {now : UInt64}
  {s : AppState} {before : List (Draws × Message)} {d : Draws} {request : Message} {t : Tree}
  {token : String}

theorem pendingToken_pairCommand {T : Codec PendingToken} :
    pendingToken T root.ofNode (pairCommand root V raw ttl now t).2 =
      pendingToken T root.ofNode t := by
  have htouches : Touches {(pendingTmpPath root).norm, (pendingPath root).norm}
      (pairCommand root V raw ttl now) :=
    (touches_replaceFile.bind fun _ => touches_pure _).bind fun _ =>
      touches_createDirAll.bind fun _ => touches_pure _
  rw [norm_pendingPath, norm_pendingTmpPath] at htouches
  rw [pendingToken_eq_saved, pendingToken_eq_saved, pendingPath,
    saved_of_frame (htouches t) (downward_home _) (by decide) (by decide) ?_]
  rw [← pendingPath, norm_pendingPath]
  rintro (h | h)
  · exact absurd (List.cons.inj h).1 (by decide)
  · exact Tree.ne_cons_self root.loc (List.cons.inj h).2.symm

theorem pendingToken_handlePair {f : PairFrame}
    (h : ∀ p, pendingToken V.token V.home s.disk = some p → p.token ≠ token) :
    ∀ p, pendingToken V.token V.home (V.handlePair d request f s).2.disk = some p →
      p.token ≠ token := by
  cases f with
  | redeemed | error => exact h
  | redeem presented =>
    rw [AppEnv.handlePair]
    cases hrun : consumeToken V.token V.home (d.clock 0) presented s.disk with
    | mk r disk =>
    rcases consumeToken_cases hrun with ⟨rfl, p, hp, -, -, -, hspent, -⟩ | ⟨rfl, rfl⟩ |
      ⟨⟨e, rfl⟩, hkept⟩
    · have hrecord : pendingToken V.token V.home (recordPairing V.ledger V.home (d.clock 1)
          V.primitives request.sender disk).2 = _ := pendingToken_recordPairing
      dsimp only
      rw [AppState.onDisk]
      cases hlist : recordPairing V.ledger V.home (d.clock 1) V.primitives request.sender disk with
      | mk r' disk' =>
      rw [hlist, hspent] at hrecord
      intro q hq
      obtain rfl : { p with used := true } = q := by
        refine Option.some.inj (hrecord.symm.trans ?_)
        cases r' with
        | error e => exact hq
        | ok u => rwa [AppState.replied_disk] at hq
      exact h p hp
    · simpa using h
    · simpa [hkept] using h

theorem pendingToken_handle {a : Draws × Message} (ha : LeavesToken V s a)
    (h : ∀ p, pendingToken V.token V.home s.disk = some p → p.token ≠ token) :
    ∀ p, pendingToken V.token V.home ((app V).step s a).2.disk = some p → p.token ≠ token := by
  have hframe : Frame (framePlaces V a.2.sender s.disk (AppFrame.decode V.frames a.2.payload))
      s.disk ((app V).step s a).2.disk := frame_handle
  rw [LeavesToken] at ha
  split at ha
  · rename_i f hf
    have hstep : (app V).step s a = V.handlePair a.1 a.2 f s := by
      show V.handle a.1 a.2 s = _
      rw [AppEnv.handle, hf]
      rfl
    rw [hstep]
    exact pendingToken_handlePair h
  · rw [pendingToken_eq_saved, pendingPath,
      saved_of_frame hframe (downward_home _) (by decide) (by decide) ha, ← pendingPath,
      ← pendingToken_eq_saved]
    exact h

/-- The node keeps another token than the one that was printed, if any. -/
theorem pendingToken_pairState (h : Presented root V raw ttl now s before d request) :
    ∀ p, pendingToken V.token root.ofNode (pairState root V raw ttl now s before).disk = some p →
      p.token ≠ hex raw.toList := by
  refine h.left.invariant (I := fun s => ∀ p, pendingToken V.token root.ofNode s.disk = some p →
    p.token ≠ hex raw.toList) ?_ ?_
  · intro p hp
    rw [pendingToken_pairCommand] at hp
    exact h.fresh p hp
  · intro s a ha hs
    exact pendingToken_handle (V := V.pairing root) ha hs

/-- **No token is honoured**: the node does not find the one that was printed. -/
theorem not_honoured (h : Presented root V raw ttl now s before d request) :
    ¬ Honoured root V raw ttl now s before d request := by
  rintro ⟨hredeems, -⟩
  rw [tokenRun_arrived (V := V.pairing root) h.redeem, AppEnv.handlePair] at hredeems
  have hother := pendingToken_pairState h
  cases hrun : consumeToken V.token root.ofNode (d.clock 0) (hex raw.toList)
      (pairState root V raw ttl now s before).disk with
  | mk r disk =>
  have hrun' : consumeToken (V.pairing root).token (V.pairing root).home (d.clock 0)
    (hex raw.toList) (pairState root V raw ttl now s before).disk = (r, disk) := hrun
  rw [hrun'] at hredeems
  rcases consumeToken_cases hrun with ⟨-, p, hp, -, -, hsame, -⟩ | ⟨rfl, rfl⟩ | ⟨⟨e, rfl⟩, -⟩
  · exact hother p hp hsame
  · dsimp only at hredeems
    rw [AppState.replied_sent, List.drop_left] at hredeems
    exact not_redeems_of_delivered hredeems
  · dsimp only at hredeems
    rw [AppState.replied_sent, List.drop_left] at hredeems
    exact not_redeems_of_delivered hredeems

namespace Photo

/-- The visitor presents the token that was just printed. -/
theorem presented : Presented device env tokenBytes none 0 settled [] drawn redeeming := by
  have hnone : pendingToken env.token device.ofNode settled.disk = none := by decide +kernel
  refine ⟨by decide +kernel, fun p hp => ?_, trivial, fun a ha => absurd ha List.not_mem_nil,
    decode_sentBy visitor _, by decide⟩
  cases hnone.symm.trans hp

end Photo

open Photo in
/-- The visitor's token. -/
theorem not_honoured_settled : ¬ Honoured device env tokenBytes none 0 settled [] drawn redeeming :=
  not_honoured presented

open Photo in
/-- **The command does not keep its promise**: the visitor gets an error. -/
theorem not_pairingWorks : ¬ PairingWorks device env := by
  intro h
  have hredeems := (h tokenBytes none 0 settled [] drawn redeeming presented).1.2.2
  revert hredeems
  decide +kernel

end Neonet
