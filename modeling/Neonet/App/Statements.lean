import Neonet.App.Core
import Neonet.Transport.Handshake

/-!
# What an identity key signs

One key signs challenges, manifests, revocations and addresses, and nothing in the bytes that are
signed says which of them they are.

* `Statement` : what is signed; `Statement.bytes` : the bytes that are signed.
* `bytes_challenge`, `bytes_manifest` : how they begin and end; `le_length_challenge`,
  `le_length_manifest` : how long they are.
* `separated` : **a signature over a statement passes for one over a statement of another kind only
  where `Statement.Ambiguous` says so**; in particular a revocation is neither a challenge nor a
  manifest.
* `not_separated` : a challenge, a manifest and an address of the same bytes.
-/

namespace Neonet

/-- What is signed. -/
inductive Statement
  | challenge (hello : Hello) (challenge : Challenge)
  | manifest (manifest : FileManifest)
  | revocation (epoch : UInt64) (revoked : PublicIdentity)
  | registration (address : String)

/-- What a signature is for. -/
inductive Purpose
  | handshake
  | file
  | revocation
  | registration
  deriving DecidableEq

namespace Statement

/-- What a statement is for. -/
def purpose : Statement → Purpose
  | .challenge _ _ => .handshake
  | .manifest _ => .file
  | .revocation _ _ => .revocation
  | .registration _ => .registration

/-- The bytes that are signed. -/
def bytes : Statement → Bytes
  | .challenge h c => challengePayload .postcard h c
  | .manifest m => m.unsignedBytes FileManifest.wire.toCodec
  | .revocation epoch revoked => revokePayload epoch revoked
  | .registration address => utf8 address

/-- When statements of different purposes may have the same bytes.  A challenge that is a manifest
has nothing but zeros after the first half of the identity in its Hello, and that half is the
second half of the signer's key. -/
def Ambiguous : Statement → Statement → Prop
  | .challenge h c, .manifest m =>
    c.nonce.toList = List.replicate 32 0 ∧ h.sessionId.toList = List.replicate 16 0 ∧
      h.identity.publicKey.toList = m.signer.publicKey.toList.drop 16 ++ List.replicate 16 0
  | .challenge h c, .registration address =>
    83 ≤ address.utf8ByteSize ∧
      h.identity.publicKey.toList ++ (h.sessionId.toList ++ c.nonce.toList) <:+ utf8 address
  | .manifest _, .registration address =>
    101 ≤ address.utf8ByteSize ∧ List.replicate 64 0 <:+ utf8 address
  | .revocation epoch revoked, .registration address =>
    address.utf8ByteSize = 40 ∧ (utf8 address).drop 8 = revoked.publicKey.toList ∧
      (utf8 address).take 8 = leBytes64 epoch
  | _, _ => False

end Statement

variable {h : Hello} {c : Challenge} {m : FileManifest} {p q : Statement}

/-! ### The lengths -/

theorem Wire.length_nat_pos (n : ℕ) : 0 < (Wire.nat.write n).length := by
  simp only [Wire.nat, Wire.writeVarint]
  split
  · exact Nat.one_pos
  · exact Nat.succ_pos _

/-- A challenge begins with the numbers of its Hello and ends with an identity, a session
identifier and a nonce. -/
theorem bytes_challenge (h : Hello) (c : Challenge) : ∃ front : Bytes, 3 ≤ front.length ∧
    (Statement.challenge h c).bytes =
      front ++ (h.identity.publicKey.toList ++ (h.sessionId.toList ++ c.nonce.toList)) := by
  refine ⟨Wire.u16.write h.version.major ++ Wire.u16.write h.version.minor ++
    (Wire.seq Wire.string).write h.features, ?_, ?_⟩
  · have hmajor := Wire.length_nat_pos h.version.major.toNat
    have hminor := Wire.length_nat_pos h.version.minor.toNat
    have hfeatures := Wire.length_nat_pos h.features.length
    simp only [Wire.u16, Wire.comap, Wire.seq, List.length_append]
    omega
  · simp only [Statement.bytes, challengePayload, HandshakeCodecs.postcard, Wire.toCodec,
      Hello.wire, Wire.comap, Wire.pair, PublicIdentity.wire, Wire.array, List.append_assoc]

/-- A manifest begins with its numbers and ends with its signer and an empty signature. -/
theorem bytes_manifest (m : FileManifest) : ∃ front : Bytes, 5 ≤ front.length ∧
    (Statement.manifest m).bytes =
      front ++ (m.signer.publicKey.toList ++ List.replicate 64 0) := by
  refine ⟨Wire.u16.write m.version ++ (Wire.string.write m.name ++ (Wire.u64.write m.totalSize ++
    (Wire.u32.write m.chunkSize ++ (Wire.seq (Wire.array 32)).write m.chunks))), ?_, ?_⟩
  · have hversion := Wire.length_nat_pos m.version.toNat
    have hname := Wire.length_nat_pos m.name.utf8ByteSize
    have hsize := Wire.length_nat_pos m.totalSize.toNat
    have hchunkSize := Wire.length_nat_pos m.chunkSize.toNat
    have hchunks := Wire.length_nat_pos m.chunks.length
    simp only [List.length_append, Wire.length_string]
    simp only [Wire.u16, Wire.u32, Wire.u64, Wire.comap, Wire.seq, List.length_append]
    omega
  · simp only [Statement.bytes, FileManifest.unsignedBytes, FileManifest.wire, Wire.toCodec,
      Wire.comap, Wire.pair, PublicIdentity.wire, List.append_assoc]
    rfl

theorem length_revocation (epoch : UInt64) (x : PublicIdentity) :
    (Statement.revocation epoch x).bytes.length = 40 := by
  rw [Statement.bytes, revokePayload, List.length_append, leBytes64, List.Vector.toList_length,
    List.Vector.toList_length]

theorem length_registration (address : String) :
    (Statement.registration address).bytes.length = address.utf8ByteSize := rfl

theorem le_length_challenge (h : Hello) (c : Challenge) :
    83 ≤ (Statement.challenge h c).bytes.length := by
  obtain ⟨front, hfront, hbytes⟩ := bytes_challenge h c
  rw [hbytes]
  simp only [List.length_append, List.Vector.toList_length]
  omega

theorem le_length_manifest (m : FileManifest) :
    101 ≤ (Statement.manifest m).bytes.length := by
  obtain ⟨front, hfront, hbytes⟩ := bytes_manifest m
  rw [hbytes]
  simp only [List.length_append, List.length_replicate, List.Vector.toList_length]
  omega

/-! ### When two statements have the same bytes -/

theorem ambiguous_of_challenge_eq_manifest
    (he : (Statement.challenge h c).bytes = (Statement.manifest m).bytes) :
    (Statement.challenge h c).Ambiguous (.manifest m) := by
  obtain ⟨front, -, hbytes⟩ := bytes_challenge h c
  obtain ⟨front', -, hbytes'⟩ := bytes_manifest m
  rw [hbytes, hbytes'] at he
  -- both from the middle of the signer's key on
  have hsigner : m.signer.publicKey.toList =
      m.signer.publicKey.toList.take 16 ++ m.signer.publicKey.toList.drop 16 :=
    (List.take_append_drop ..).symm
  have hzeros : (List.replicate 64 0 : Bytes) =
      List.replicate 16 0 ++ (List.replicate 16 0 ++ List.replicate 32 0) := rfl
  rw [hsigner, hzeros] at he
  have hsplit : front ++ (h.identity.publicKey.toList ++ (h.sessionId.toList ++ c.nonce.toList)) =
      (front' ++ m.signer.publicKey.toList.take 16) ++
        ((m.signer.publicKey.toList.drop 16 ++ List.replicate 16 0) ++
          (List.replicate 16 0 ++ List.replicate 32 0)) := by
    simpa only [List.append_assoc] using he
  obtain ⟨-, htail⟩ := List.append_inj' hsplit (by
    simp only [List.length_append, List.length_replicate, List.length_drop,
      List.Vector.toList_length])
  obtain ⟨hidentity, htail⟩ := List.append_inj htail (by
    simp only [List.length_append, List.length_replicate, List.length_drop,
      List.Vector.toList_length])
  obtain ⟨hsession, hnonce⟩ := List.append_inj htail (by
    simp only [List.length_replicate, List.Vector.toList_length])
  exact ⟨hnonce, hsession, hidentity⟩

theorem ambiguous_of_challenge_eq_address {address : String}
    (he : (Statement.challenge h c).bytes = (Statement.registration address).bytes) :
    (Statement.challenge h c).Ambiguous (.registration address) := by
  have hlen := le_length_challenge h c
  rw [he, length_registration] at hlen
  obtain ⟨front, -, hbytes⟩ := bytes_challenge h c
  exact ⟨hlen, front, hbytes.symm.trans he⟩

theorem ambiguous_of_manifest_eq_address {address : String}
    (he : (Statement.manifest m).bytes = (Statement.registration address).bytes) :
    (Statement.manifest m).Ambiguous (.registration address) := by
  have hlen := le_length_manifest m
  rw [he, length_registration] at hlen
  obtain ⟨front, -, hbytes⟩ := bytes_manifest m
  refine ⟨hlen, front ++ m.signer.publicKey.toList, ?_⟩
  rw [List.append_assoc, ← hbytes, he]
  rfl

theorem ambiguous_of_revocation_eq_address {epoch : UInt64} {x : PublicIdentity} {address : String}
    (he : (Statement.revocation epoch x).bytes = (Statement.registration address).bytes) :
    (Statement.revocation epoch x).Ambiguous (.registration address) := by
  have hlen := length_revocation epoch x
  have hepoch : (leBytes64 epoch).length = 8 := List.Vector.toList_length _
  have hbytes : utf8 address = leBytes64 epoch ++ x.publicKey.toList := he.symm
  rw [he, length_registration] at hlen
  refine ⟨hlen, ?_, ?_⟩
  · rw [hbytes, List.drop_left' hepoch]
  · rw [hbytes, List.take_left' hepoch]

/-- **Statements of different purposes with the same bytes.** -/
theorem ambiguous_of_bytes_eq (he : p.bytes = q.bytes) (hne : p.purpose ≠ q.purpose) :
    p.Ambiguous q ∨ q.Ambiguous p := by
  -- A revocation is shorter than every challenge and every manifest.
  have hchallenge : ∀ h c epoch x, (Statement.challenge h c).bytes ≠
      (Statement.revocation epoch x).bytes := fun h c epoch x heq => by
    have hle := le_length_challenge h c
    rw [heq, length_revocation] at hle
    omega
  have hmanifest : ∀ m epoch x, (Statement.manifest m).bytes ≠
      (Statement.revocation epoch x).bytes := fun m epoch x heq => by
    have hle := le_length_manifest m
    rw [heq, length_revocation] at hle
    omega
  cases p with
  | challenge h c =>
    cases q with
    | challenge => exact absurd rfl hne
    | manifest m => exact .inl (ambiguous_of_challenge_eq_manifest he)
    | revocation epoch x => exact absurd he (hchallenge h c epoch x)
    | registration address => exact .inl (ambiguous_of_challenge_eq_address he)
  | manifest m =>
    cases q with
    | challenge h c => exact .inr (ambiguous_of_challenge_eq_manifest he.symm)
    | manifest => exact absurd rfl hne
    | revocation epoch x => exact absurd he (hmanifest m epoch x)
    | registration address => exact .inl (ambiguous_of_manifest_eq_address he)
  | revocation epoch x =>
    cases q with
    | challenge h c => exact absurd he.symm (hchallenge h c epoch x)
    | manifest m => exact absurd he.symm (hmanifest m epoch x)
    | revocation => exact absurd rfl hne
    | registration address => exact .inl (ambiguous_of_revocation_eq_address he)
  | registration address =>
    cases q with
    | challenge h c => exact .inr (ambiguous_of_challenge_eq_address he.symm)
    | manifest m => exact .inr (ambiguous_of_manifest_eq_address he.symm)
    | revocation epoch x => exact .inr (ambiguous_of_revocation_eq_address he.symm)
    | registration => exact absurd rfl hne

/-- **Separation of purposes.**  If the scheme takes a signature over the bytes of one statement
for one over those of another only where these are the same, then outside the ambiguous cases a
signature for one purpose is none for another. -/
theorem separated {K : Primitives} {i : Identity}
    (hbinds : ∀ p q : Statement, K.verify (K.verifyingKey i.signingKey) q.bytes
      (K.sign i.signingKey p.bytes) = true → p.bytes = q.bytes) (p q : Statement)
    (hne : p.purpose ≠ q.purpose) (hpq : ¬ p.Ambiguous q) (hqp : ¬ q.Ambiguous p) :
    p.bytes ≠ q.bytes ∧ K.verify (K.verifyingKey i.signingKey) q.bytes
      (K.sign i.signingKey p.bytes) = false := by
  have hbytes : p.bytes ≠ q.bytes := fun he =>
    (ambiguous_of_bytes_eq he hne).elim hpq hqp
  refine ⟨hbytes, ?_⟩
  rw [Bool.eq_false_iff]
  exact fun hv => hbytes (hbinds p q hv)

namespace Zeros

/-- A key of zeros. -/
def key : PublicIdentity := ⟨List.Vector.replicate 32 0⟩

/-- A Hello with eighteen features without a name. -/
def hello : Hello := ⟨⟨1, 0⟩, List.replicate 18 "", key, List.Vector.replicate 16 0⟩

/-- A challenge. -/
def challenge : Challenge := ⟨List.Vector.replicate 32 0⟩

/-- A manifest of eighteen bytes in no chunks, without a name. -/
def manifest : FileManifest := ⟨1, "", 18, 0, [], key, zeroSignature⟩

/-- An address that nobody listens at. -/
def address : String :=
  String.ofList (Char.ofNat 1 :: Char.ofNat 0 :: Char.ofNat 18 :: List.replicate 98 (Char.ofNat 0))

/-- **A challenge, a manifest and an address of the same bytes.** -/
theorem bytes_hello :
    (Statement.challenge hello challenge).bytes = (Statement.manifest manifest).bytes ∧
      (Statement.manifest manifest).bytes = (Statement.registration address).bytes := by
  decide +kernel

/-- A scheme that takes one signature, which is over the revocation. -/
def scheme : Primitives :=
  { Primitives.sample with
    sign := fun _ b => if b = (Statement.revocation 0 key).bytes then List.Vector.replicate 64 1
      else zeroSignature
    verify := fun _ b s => decide (b = (Statement.revocation 0 key).bytes ∧
      s = List.Vector.replicate 64 1) }

end Zeros

open Zeros in
/-- The revocation is no manifest. -/
theorem separated_zeros :
    (Statement.revocation 0 key).bytes ≠ (Statement.manifest manifest).bytes := by
  refine (separated (K := scheme) (i := ⟨List.Vector.replicate 32 0⟩) (fun p q hv => ?_)
    (.revocation 0 key) (.manifest manifest) (by decide) id id).1
  obtain ⟨hq, hs⟩ := of_decide_eq_true hv
  rw [hq]
  by_contra hp
  have hother : zeroSignature = List.Vector.replicate 64 1 := (if_neg hp).symm.trans hs
  exact absurd hother (by decide)

open Zeros in
/-- The bytes do not tell what a statement is for. -/
theorem not_separated : ¬ ∀ p q : Statement, p.purpose ≠ q.purpose → p.bytes ≠ q.bytes := fun h =>
  h (.challenge hello challenge) (.manifest manifest) (by decide) bytes_hello.1

end Neonet
