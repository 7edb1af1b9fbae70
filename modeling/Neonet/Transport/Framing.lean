import Neonet.Lib.Stream
import Neonet.Transport.Handshake
import Neonet.Node.Pump

/-!
# Messages on a connection

The writer of a connection encodes each message it takes and writes it as a frame behind its
length; the reader of the peer reads frames and decodes them.  The stream between them arrives in
pieces of any size.

* `writeMessages`, `readMessages` : the loops of the two tasks.
* `readMessages_writeMessages` : **wherever the stream is cut, the reader decodes exactly the
  messages whose frame is not too large.**
* `wire_faithful_iff` : the sequence arrives as it was sent iff no frame is too large.
* `not_wire_faithful` : `Router::send` measures the message and not its frame, so it accepts a
  message of just the maximal size; the writer drops it.
-/

namespace Neonet

/-- `write_frame`: the length in four bytes, then the payload. -/
def writeFrameBytes (payload : Bytes) : Except IoError Bytes := do
  writeFrame payload
  return beBytes 4 payload.length ++ payload

/-- What `read_frame` comes to. -/
inductive FrameRead
  /-- Not all of it has arrived. -/
  | waits
  | failed (e : IoError)
  | read (payload : Bytes) (rest : List Bytes)

/-- `read_frame`, from the pieces that arrive. -/
def readFrameBytes (pieces : List Bytes) : FrameRead :=
  match readExact 4 pieces with
  | none => .waits
  | some (len, rest) =>
    if maxFrame < beNat len then .failed (.custom .invalidData "frame too large")
    else
      match readExact (beNat len) rest with
      | none => .waits
      | some (payload, rest) => .read payload rest

theorem flatten_readExact {n : ℕ} {ps rest : List Bytes} {b : Bytes}
    (h : readExact n ps = some (b, rest)) : b.length = n ∧ ps.flatten = b ++ rest.flatten := by
  by_cases hn : n ≤ ps.flatten.length
  · obtain ⟨rest', hread, hrest⟩ := readExact_of_le hn
    obtain ⟨rfl, rfl⟩ := Prod.mk.inj (Option.some.inj (hread.symm.trans h))
    exact ⟨List.length_take_of_le hn, by rw [hrest, List.take_append_drop]⟩
  · rw [readExact_of_lt (Nat.lt_of_not_le hn)] at h
    cases h

theorem length_readFrameBytes {pieces rest : List Bytes} {payload : Bytes}
    (h : readFrameBytes pieces = .read payload rest) :
    rest.flatten.length < pieces.flatten.length := by
  unfold readFrameBytes at h
  split at h
  · cases h
  · rename_i len rest₁ hlen
    split at h
    · cases h
    · split at h
      · cases h
      · rename_i payload' rest₂ hpayload
        obtain ⟨rfl, rfl⟩ := FrameRead.read.inj h
        obtain ⟨h4, hsplit⟩ := flatten_readExact hlen
        obtain ⟨-, hsplit'⟩ := flatten_readExact hpayload
        rw [hsplit, hsplit', List.length_append, List.length_append]
        omega

section Tasks

variable (W : MessageCodecs)

/-- What the writer of a connection writes for the messages it takes. -/
def writeMessages : List Message → Bytes
  | [] => []
  | m :: ms =>
    match (MessagingFrame.message m).encode W with
    | .error _ => writeMessages ms
    | .ok frame =>
      match writeFrameBytes frame with
      | .error _ => []
      | .ok bytes => bytes ++ writeMessages ms

/-- What the reader of a connection decodes from the pieces that arrive. -/
def readMessages (pieces : List Bytes) : List Message :=
  match _h : readFrameBytes pieces with
  | .waits => []
  | .failed _ => []
  | .read payload rest =>
    match MessagingFrame.decode W payload with
    | .ok (.message m) => m :: readMessages rest
    | .error _ => readMessages rest
termination_by pieces.flatten.length
decreasing_by all_goals exact length_readFrameBytes _h

end Tasks

variable {W : MessageCodecs} {m : Message} {ms : List Message}

/-- The frame of the message is not too large. -/
def FrameFits (W : MessageCodecs) (m : Message) : Prop :=
  (W.frame.encode (.message m)).length ≤ maxMessageSize

instance : DecidablePred (FrameFits W) := fun _ => inferInstanceAs (Decidable (_ ≤ _))

theorem writeMessages_of_fits (h : FrameFits W m) :
    writeMessages W (m :: ms) =
      beBytes 4 (W.frame.encode (.message m)).length ++ W.frame.encode (.message m) ++
        writeMessages W ms := by
  have hencode : (MessagingFrame.message m).encode W = .ok (W.frame.encode (.message m)) :=
    if_neg (Nat.not_lt.2 h)
  have hwrite : writeFrameBytes (W.frame.encode (.message m)) =
      .ok (beBytes 4 (W.frame.encode (.message m)).length ++ W.frame.encode (.message m)) := by
    rw [writeFrameBytes, Handshake.writeFrame_ok h]
    rfl
  simp only [writeMessages, hencode, hwrite]

theorem writeMessages_of_not_fits (h : ¬ FrameFits W m) :
    writeMessages W (m :: ms) = writeMessages W ms := by
  have hencode : (MessagingFrame.message m).encode W =
      .error (.custom .invalidInput "message frame too large") := if_pos (Nat.lt_of_not_le h)
  simp only [writeMessages, hencode]

variable {self : PublicIdentity} {allow : AllowList} {s s' : NodeState} {c : ChanId}

theorem frameFits_of_encode {frame : Bytes}
    (h : (MessagingFrame.message m).encode W = .ok frame) :
    FrameFits W m ∧ frame = W.frame.encode (.message m) := by
  unfold MessagingFrame.encode at h
  split at h
  · cases h
  · rename_i hle
    exact ⟨Nat.not_lt.1 hle, (Except.ok.inj h).symm⟩

/-- What the writer of the connection `c` is still to write begins with the frame it writes next. -/
theorem NodeStep.wrote_bytes {frame : Bytes} (h : NodeStep W self allow s (.wrote c frame) s') :
    writeMessages W (s.chans c).waiting =
      beBytes 4 frame.length ++ frame ++ writeMessages W (s'.chans c).waiting := by
  cases h with
  | wrote conn stage recv encode =>
    obtain ⟨hfits, rfl⟩ := frameFits_of_encode encode
    simp only [Function.update_self, Channel.waiting_of_recv recv, writeMessages_of_fits hfits]

theorem NodeStep.skipped_bytes (h : NodeStep W self allow s (.skipped c) s') :
    writeMessages W (s.chans c).waiting = writeMessages W (s'.chans c).waiting := by
  cases h with
  | @skipped _ k r m ch e conn stage recv encode =>
    have hfits : ¬ FrameFits W m := fun hf => by
      cases encode.symm.trans (if_neg (Nat.not_lt.2 hf))
    simp only [Function.update_self, Channel.waiting_of_recv recv, writeMessages_of_not_fits hfits]

/-- **A frame that was written is read back, wherever the stream is cut.** -/
theorem readFrameBytes_append {pieces : List Bytes} {payload later : Bytes}
    (hp : payload.length ≤ maxFrame)
    (h : pieces.flatten = beBytes 4 payload.length ++ payload ++ later) :
    ∃ rest, readFrameBytes pieces = .read payload rest ∧ rest.flatten = later := by
  have hlen : beNat (beBytes 4 payload.length) = payload.length := by
    rw [beNat_beBytes]
    unfold maxFrame at hp
    exact Nat.mod_eq_of_lt (by omega)
  rw [List.append_assoc] at h
  have h4 : 4 ≤ pieces.flatten.length := by simp [h]
  obtain ⟨rest₁, hread₁, hrest₁⟩ := readExact_of_le h4
  rw [h, List.take_left' (length_beBytes ..)] at hread₁
  rw [h, List.drop_left' (length_beBytes ..)] at hrest₁
  have hle : payload.length ≤ rest₁.flatten.length := by simp [hrest₁]
  obtain ⟨rest₂, hread₂, hrest₂⟩ := readExact_of_le hle
  rw [hrest₁, List.take_left] at hread₂
  rw [hrest₁, List.drop_left] at hrest₂
  refine ⟨rest₂, ?_, hrest₂⟩
  simp only [readFrameBytes, hread₁, hlen, hread₂, if_neg (Nat.not_lt.2 hp)]

theorem readMessages_nil {pieces : List Bytes} (h : pieces.flatten = []) :
    readMessages W pieces = [] := by
  have hwaits : readFrameBytes pieces = .waits := by
    rw [readFrameBytes, readExact_of_lt (by simp [h])]
  rw [readMessages]
  split
  · rfl
  · rfl
  · rename_i hread
    cases hwaits.symm.trans hread

/-- **Wherever the stream is cut, the reader decodes exactly the messages whose frame is not too
large, in order.** -/
theorem readMessages_writeMessages {pieces : List Bytes}
    (h : pieces.flatten = writeMessages W ms) :
    readMessages W pieces = ms.filter (FrameFits W) := by
  induction ms generalizing pieces with
  | nil => exact readMessages_nil h
  | cons m ms ih =>
    by_cases hm : FrameFits W m
    · rw [writeMessages_of_fits hm] at h
      obtain ⟨rest, hread, hrest⟩ := readFrameBytes_append hm h
      have hdecode : MessagingFrame.decode W (W.frame.encode (.message m)) = .ok (.message m) :=
        MessagingFrame.decode_of_encode (if_neg (Nat.not_lt.2 hm))
      rw [List.filter_cons_of_pos (by simpa using hm), ← ih hrest, readMessages]
      split <;> rename_i hread' <;> cases hread.symm.trans hread'
      simp only [hdecode]
    · rw [writeMessages_of_not_fits hm] at h
      rw [List.filter_cons_of_neg (by simpa using hm), ih h]

/-- **The messages arrive as they were sent, wherever the stream is cut, iff no frame is too
large.** -/
theorem wire_faithful_iff (W : MessageCodecs) (ms : List Message) :
    (∀ pieces : List Bytes, pieces.flatten = writeMessages W ms → readMessages W pieces = ms) ↔
      ∀ m ∈ ms, FrameFits W m := by
  have hfilter : ms.filter (FrameFits W) = ms ↔ ∀ m ∈ ms, FrameFits W m := by
    simp [List.filter_eq_self]
  constructor
  · intro h
    have hflat : [writeMessages W ms].flatten = writeMessages W ms := List.flatten_singleton
    rw [← hfilter, ← readMessages_writeMessages hflat]
    exact h _ hflat
  · intro h pieces hpieces
    rw [readMessages_writeMessages hpieces, hfilter.2 h]

/-- Of the messages that the router accepts, those of just the maximal size have a frame that is too
large. -/
theorem frameFits_iff (h : m.validateSize .postcard = .ok ()) :
    FrameFits .postcard m ↔ (MessageCodecs.postcard.message.encode m).length ≠ maxMessageSize := by
  have hle := validateSize_ok.1 h
  rw [FrameFits, MessagingFrame.length_encode]
  omega

/-! ### A message of just the maximal size -/

namespace Letter

/-- A message of 1 MiB. -/
def parcel : Message := ⟨List.Vector.replicate 16 0, alice, bob, List.replicate 1048493 0⟩

theorem length_encode_parcel :
    (MessageCodecs.postcard.message.encode parcel).length = maxMessageSize := by
  have hlen : parcel.payload.length = 1048493 := List.length_replicate
  rw [Message.length_encode, Wire.length_bytes, hlen,
      Wire.length_nat_of_three (by decide) (by decide)]
  rfl

theorem validateSize_parcel : parcel.validateSize .postcard = .ok () :=
  validateSize_ok.2 length_encode_parcel.le

end Letter

open Letter in
/-- The router accepts a message of 1 MiB, and the peer never decodes it. -/
theorem not_wire_faithful :
    ¬ ∀ ms : List Message, (∀ m ∈ ms, m.validateSize .postcard = .ok ()) →
      ∀ pieces : List Bytes, pieces.flatten = writeMessages .postcard ms →
        readMessages .postcard pieces = ms := by
  intro h
  have hflat : [writeMessages .postcard [parcel]].flatten = writeMessages .postcard [parcel] :=
    List.flatten_singleton
  have hread := h [parcel] (by simpa using validateSize_parcel) _ hflat
  have hfits : ¬ FrameFits .postcard parcel :=
    fun hf => (frameFits_iff validateSize_parcel).1 hf length_encode_parcel
  rw [readMessages_writeMessages hflat, List.filter_cons_of_neg (by simpa using hfits)] at hread
  cases hread

end Neonet
