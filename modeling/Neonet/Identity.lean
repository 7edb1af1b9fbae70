import Neonet.Lib.FileOps

/-!
# Identities, digests and errors

A device is known by its Ed25519 public key.  The crates that hash and sign are parameters
(`Primitives`); what the program relies on about them is stated where it is used.

* `PublicIdentity.fingerprint` : the hexadecimal digest of the public key.
* `hex` : lower-case hexadecimal, which names the blobs and the files of the stores.  Such a
  name is never empty, a dot name or a path of several components.
* `Home` : the state directory of a device.
* `IoError` : an `io::Error`, from the operating system or with a message of the program.
-/

namespace Neonet

open FileTree

/-- The `ErrorKind`s the program builds errors with. -/
inductive ErrorKind
  | invalidInput
  | invalidData
  | permissionDenied
  | notFound
  | unsupported
  | brokenPipe
  | other
  deriving DecidableEq

/-- An `io::Error`. -/
inductive IoError
  | os (e : OsError)
  | custom (kind : ErrorKind) (message : String)
  deriving DecidableEq

/-- The text of an error of the operating system. -/
def osText : OsError → String
  | .notFound => "No such file or directory (os error 2)"
  | .notADirectory => "Not a directory (os error 20)"
  | .isADirectory => "Is a directory (os error 21)"
  | .invalidName => "file name contained an unexpected NUL byte"

/-- `to_string` of an `io::Error`. -/
def IoError.text : IoError → String
  | .os e => osText e
  | .custom _ message => message

instance : OfOs IoError := ⟨.os⟩

/-- A BLAKE3 digest. -/
abbrev Digest := ByteArr 32

/-- An Ed25519 signature. -/
abbrev Signature := ByteArr 64

/-- The public key of a device. -/
structure PublicIdentity where
  publicKey : ByteArr 32
  deriving DecidableEq

/-- A public key, as it is written. -/
def PublicIdentity.wire : Wire PublicIdentity :=
  (Wire.array 32).comap (·.publicKey) (fun k => .ok ⟨k⟩) fun _ => rfl

/-- A device that holds its signing key. -/
structure Identity where
  signingKey : ByteArr 32
  deriving DecidableEq

/-- The hash and the signature scheme of the crates. -/
structure Primitives where
  /-- `blake3::hash`. -/
  hash : Bytes → Digest
  /-- The verifying key of a signing key. -/
  verifyingKey : ByteArr 32 → ByteArr 32
  /-- `SigningKey::sign`. -/
  sign : ByteArr 32 → Bytes → Signature
  /-- Parse the key, then `VerifyingKey::verify`. -/
  verify : ByteArr 32 → Bytes → Signature → Bool

/-- The digits of `n` to the base 256, the low one first. -/
def digits (width n : ℕ) : ByteArr width :=
  ⟨(List.range width).map fun i => UInt8.ofNat (n / 256 ^ i % 256), by simp⟩

/-- A polynomial hash to compute with. -/
def polyHash (b : Bytes) : Digest :=
  digits 32 (b.foldl (fun n x => (n * 257 + x.toNat + 1) % 2 ^ 256) 0)

/-- A scheme to compute with: a signature is the key and the hash of the text. -/
def Primitives.sample : Primitives where
  hash := polyHash
  verifyingKey k := k
  sign k b := (k ++ polyHash b : ByteArr (32 + 32))
  verify k b s := decide (s = (k ++ polyHash b : ByteArr (32 + 32)))

/-- The public half of an identity. -/
def Identity.pub (K : Primitives) (i : Identity) : PublicIdentity := ⟨K.verifyingKey i.signingKey⟩

/-- The state directory of a device, as a place in the tree. -/
structure Home where
  loc : Loc
  plain : ∀ c ∈ loc, Plain c

theorem Home.plain_core : ∀ c ∈ ["core"], Plain c := by decide

/-- The path of the state directory. -/
def Home.path (home : Home) : PathBuf := home.loc.reverse

@[simp] theorem Home.norm_path (home : Home) : PathBuf.norm home.path = home.loc :=
  PathBuf.norm_reverse home.plain

/-! ### Hexadecimal names -/

/-- The digits, `0` to `f`. -/
def hexDigit (n : ℕ) : Char := "0123456789abcdef".toList.getD n '0'

/-- The two digits of a byte. -/
def hexByte (b : UInt8) : List Char := [hexDigit (b.toNat / 16), hexDigit (b.toNat % 16)]

/-- Lower-case hexadecimal. -/
def hex (b : Bytes) : String := String.ofList (b.flatMap hexByte)

/-- `blake3::hash(..).to_hex()`. -/
def Primitives.hexHash (K : Primitives) (b : Bytes) : String := hex (K.hash b).toList

/-- The fingerprint of a device. -/
def PublicIdentity.fingerprint (K : Primitives) (x : PublicIdentity) : String :=
  K.hexHash x.publicKey.toList

theorem hexDigit_injOn : ∀ m < 16, ∀ n < 16, hexDigit m = hexDigit n → m = n := by decide

theorem hexDigit_mem (n : ℕ) : hexDigit n ∈ "0123456789abcdef".toList := by
  by_cases h : n < 16
  · revert n; decide
  · have h0 : hexDigit n = '0' := by
      rw [hexDigit, List.getD_eq_getElem?_getD, List.getElem?_eq_none (by simpa using h)]
      rfl
    rw [h0]; decide

theorem hexDigit_ne_slash (n : ℕ) : hexDigit n ≠ '/' :=
  fun h => absurd (h ▸ hexDigit_mem n) (by decide)

theorem hexByte_injective : Function.Injective hexByte := by
  intro a b h
  simp only [hexByte, List.cons.injEq, and_true] at h
  have ha := a.toNat_lt
  have hb := b.toNat_lt
  have h1 := hexDigit_injOn _ (by omega) _ (by omega) h.1
  have h2 := hexDigit_injOn _ (by omega) _ (by omega) h.2
  exact UInt8.toNat_inj.1 (by omega)

theorem flatMap_hexByte_injective : Function.Injective fun b : Bytes => b.flatMap hexByte := by
  intro a b h
  induction a generalizing b with
  | nil => cases b with
    | nil => rfl
    | cons y b => simp [hexByte] at h
  | cons x a ih => cases b with
    | nil => simp [hexByte] at h
    | cons y b =>
      simp only [List.flatMap_cons] at h
      obtain ⟨hxy, hab⟩ := List.append_inj h rfl
      rw [hexByte_injective hxy, ih hab]

theorem hex_injective : Function.Injective hex := fun _ _ h =>
  flatMap_hexByte_injective (String.ofList_injective h)

theorem mem_digits_of_mem_hex {b : Bytes} {c : Char} (h : c ∈ (hex b).toList) :
    c ∈ "0123456789abcdef".toList := by
  rw [hex, String.toList_ofList, List.mem_flatMap] at h
  obtain ⟨x, -, hx⟩ := h
  simp only [hexByte, List.mem_cons, List.not_mem_nil, or_false] at hx
  rcases hx with rfl | rfl <;> exact hexDigit_mem _

theorem hex_no_slash (b : Bytes) : '/' ∉ (hex b).toList :=
  fun h => absurd (mem_digits_of_mem_hex h) (by decide)

theorem hex_no_dot (b : Bytes) : '.' ∉ (hex b).toList :=
  fun h => absurd (mem_digits_of_mem_hex h) (by decide)

theorem length_toList_hex (b : Bytes) : (hex b).toList.length = 2 * b.length := by
  rw [hex, String.toList_ofList]
  induction b with
  | nil => rfl
  | cons x b ih => simp [List.flatMap_cons, ih, hexByte]; omega

namespace Primitives

variable (K : Primitives)

@[simp] theorem length_toList_hexHash (b : Bytes) : (K.hexHash b).toList.length = 64 := by
  rw [hexHash, length_toList_hex, List.Vector.toList_length]

theorem hexHash_no_slash (b : Bytes) : '/' ∉ (K.hexHash b).toList := hex_no_slash _

theorem hexHash_ne {b : Bytes} {s : String} (h : s.toList.length ≠ 64) : K.hexHash b ≠ s := by
  rintro rfl
  exact h (K.length_toList_hexHash b)

theorem plain_hexHash (b : Bytes) : Plain (K.hexHash b) :=
  ⟨K.hexHash_ne (by decide), K.hexHash_ne (by decide), K.hexHash_ne (by decide)⟩

variable {K}

theorem hash_of_hexHash {a b : Bytes} (h : K.hexHash a = K.hexHash b) : K.hash a = K.hash b :=
  Subtype.ext (hex_injective h)

end Primitives

end Neonet
