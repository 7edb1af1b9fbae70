import Neonet.App.Handle

/-!
# The size of a reply

A reply is sent if it is small enough.  With the serialisation of the program the message of a reply
is some eighty bytes longer than its frame, whatever the request.

* `AppEnv.Postcard` : the serialisations are those of the program.
* `fits_iff` : **whether a reply fits depends on the length of its frame only.**
* `fits_of_length_le` : a short frame fits.
-/

namespace Neonet

/-- Messages and frames are written as the program writes them. -/
structure AppEnv.Postcard (V : AppEnv) : Prop where
  messages : V.messages = .postcard
  frames : V.frames = AppFrame.wire.toCodec

variable {V : AppEnv} {request request' : Message} {frame : AppFrame}

theorem AppEnv.Postcard.length_encode (hV : V.Postcard) (m : Message) :
    (V.messages.message.encode m).length = 80 + (Wire.bytes.write m.payload).length := by
  rw [hV.messages]
  exact Message.length_encode m

theorem AppEnv.Postcard.encode_frame (hV : V.Postcard) (frame : AppFrame) :
    V.frames.encode frame = AppFrame.wire.write frame := by
  rw [hV.frames]
  rfl

/-- **Whether a reply fits** depends on its frame only. -/
theorem fits_iff (hV : V.Postcard) :
    Fits V request frame ↔
      80 + (Wire.bytes.write (AppFrame.wire.write frame)).length ≤ maxMessageSize := by
  rw [Fits, hV.length_encode, hV.encode_frame, Wire.length_bytes, Wire.length_bytes]
  dsimp only [replyMessage]
  omega

/-- A short frame fits. -/
theorem fits_of_length_le (hV : V.Postcard) (h : (AppFrame.wire.write frame).length ≤ 1000) :
    Fits V request frame := by
  have hnum : (Wire.nat.write (AppFrame.wire.write frame).length).length ≤ 2 :=
    Wire.length_nat_le (by omega)
  have hmax : maxMessageSize = 1048576 := rfl
  rw [fits_iff hV, Wire.length_bytes, hmax]
  omega

theorem Wire.length_string_le {s : String} (h : s.utf8ByteSize < 128) :
    (Wire.string.write s).length ≤ 128 := by
  have hnum : (Wire.nat.write s.utf8ByteSize).length ≤ 1 := Wire.length_nat_le (by omega)
  rw [Wire.length_string]
  omega

theorem Wire.length_tag_le {n : ℕ} (h : n < 128) : (Wire.nat.write n).length ≤ 1 :=
  Wire.length_nat_le (by omega)

theorem utf8ByteSize_hex (b : Bytes) : (hex b).utf8ByteSize = 2 * b.length := by
  have hdigit : ∀ n, (hexDigit n).utf8Size = 1 := fun n => by
    have h := hexDigit_mem n
    revert h
    generalize hexDigit n = c
    intro h
    have hall : ("0123456789abcdef".toList.all fun c => c.utf8Size == 1) = true := by decide
    simpa using List.all_eq_true.1 hall c h
  rw [hex]
  induction b with
  | nil => rfl
  | cons x b ih =>
    rw [List.flatMap_cons, hexByte, List.cons_append, List.cons_append, List.nil_append,
      String.ofList_cons, String.ofList_cons, String.utf8ByteSize_append,
      String.utf8ByteSize_append, String.utf8ByteSize_singleton, String.utf8ByteSize_singleton,
      hdigit, hdigit, ih, List.length_cons]
    omega

theorem utf8ByteSize_fingerprint {K : Primitives} (x : PublicIdentity) :
    (x.fingerprint K).utf8ByteSize = 64 := by
  rw [PublicIdentity.fingerprint, Primitives.hexHash, utf8ByteSize_hex, List.Vector.toList_length]

/-- The identifier of a manifest has sixty-four digits. -/
theorem utf8ByteSize_manifestId {K : Primitives} {C : Codec FileManifest} {m : FileManifest} :
    (manifestId K C m).utf8ByteSize = 64 := by
  rw [manifestId, Primitives.hexHash, utf8ByteSize_hex, List.Vector.toList_length]

/-! ### The replies that always fit -/

theorem fits_revokeAck (hV : V.Postcard) {epoch : UInt64} :
    Fits V request (.core (.revokeAck epoch)) := by
  have hframe := Wire.length_tag_le (n := 4) (by omega)
  have hepoch := Wire.length_u64_le epoch
  refine fits_of_length_le hV ?_
  rw [AppFrame.wire, Wire.length_enum, CoreFrame.wire, Wire.length_enum]
  dsimp only
  omega

theorem fits_revokeRefuse (hV : V.Postcard) {epoch : UInt64} {reason : String}
    (h : reason.utf8ByteSize < 128) : Fits V request (.core (.revokeRefuse epoch reason)) := by
  have hframe := Wire.length_tag_le (n := 4) (by omega)
  have hcase := Wire.length_tag_le (n := 5) (by omega)
  have hepoch := Wire.length_u64_le epoch
  have hreason := Wire.length_string_le h
  refine fits_of_length_le hV ?_
  rw [AppFrame.wire, Wire.length_enum, CoreFrame.wire, Wire.length_enum]
  dsimp only [Wire.pair]
  rw [List.length_append]
  omega

theorem fits_redeemed (hV : V.Postcard) {x : PublicIdentity} :
    Fits V request (.pair (.redeemed (x.fingerprint V.primitives))) := by
  have hframe := Wire.length_tag_le (n := 6) (by omega)
  have hcase := Wire.length_tag_le (n := 1) (by omega)
  have hname : (Wire.string.write (x.fingerprint V.primitives)).length ≤ 128 :=
    Wire.length_string_le (by rw [utf8ByteSize_fingerprint]; omega)
  refine fits_of_length_le hV ?_
  rw [AppFrame.wire, Wire.length_enum, PairFrame.wire, Wire.length_enum]
  dsimp only
  omega

theorem fits_registered (hV : V.Postcard) : Fits V request (.rendezvous .registered) := by
  have hframe := Wire.length_tag_le (n := 5) (by omega)
  have hcase := Wire.length_tag_le (n := 1) (by omega)
  refine fits_of_length_le hV ?_
  rw [AppFrame.wire, Wire.length_enum, RendezvousFrame.wire, Wire.length_enum]
  dsimp only [List.length_nil]
  omega

end Neonet
