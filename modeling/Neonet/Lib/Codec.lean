import Mathlib.Algebra.Group.Nat.Defs
import Mathlib.Algebra.GroupWithZero.Nat
import Mathlib.Data.Vector.Defs
import Mathlib.Logic.Function.Basic

/-!
# Codecs

* `Codec α` : a way to write an `α` as bytes, whose decoder gives back what was encoded.  The
  law is a field, so a model that takes a serialisation library as a parameter takes with it
  the one thing it relies on.
* `Wire α` : a self-delimiting codec, whose decoder also returns the bytes it did not use.
  Pairs, sequences and sums of self-delimiting codecs are self-delimiting again.
* The wire format of a compact binary serialiser, built from these: integers as base-128
  numerals with the least significant group first, fixed arrays as they are, byte strings,
  texts and sequences behind their length, records as their fields one after the other,
  enumerations behind the number of their case.
-/

/-- Byte strings. -/
abbrev Bytes := List UInt8

/-- Fixed-width byte strings. -/
abbrev ByteArr (n : ℕ) := List.Vector UInt8 n

/-- A serialisation of `α`.  The decoder's error is its message. -/
structure Codec (α : Type*) where
  encode : α → Bytes
  decode : Bytes → Except String α
  /-- Decoding inverts encoding. -/
  decode_encode : ∀ a, decode (encode a) = .ok a

namespace Codec

theorem encode_injective {α : Type*} (C : Codec α) : Function.Injective C.encode := by
  intro a b h
  have := C.decode_encode a
  rw [h, C.decode_encode] at this
  exact (Except.ok.inj this).symm

end Codec

/-- A self-delimiting serialisation of `α`. -/
structure Wire (α : Type*) where
  write : α → Bytes
  read : Bytes → Except String (α × Bytes)
  /-- Reading consumes what was written and nothing else. -/
  read_write : ∀ a rest, read (write a ++ rest) = .ok (a, rest)

namespace Wire

variable {α β γ : Type*}

/-- The codec of a self-delimiting one: bytes after the value are ignored. -/
def toCodec (w : Wire α) : Codec α where
  encode := w.write
  decode b := (w.read b).map Prod.fst
  decode_encode a := by
    have h := w.read_write a []
    rw [List.append_nil] at h
    rw [h]
    rfl

/-- One byte. -/
def byte : Wire UInt8 where
  write b := [b]
  read
    | [] => .error "unexpected end"
    | b :: rest => .ok (b, rest)
  read_write _ _ := rfl

/-- `w` for the images of `f`; `g` undoes `f` where it can. -/
def comap (w : Wire β) (f : α → β) (g : β → Except String α) (h : ∀ a, g (f a) = .ok a) :
    Wire α where
  write a := w.write (f a)
  read b :=
    match w.read b with
    | .error e => .error e
    | .ok (x, rest) => (g x).map fun a => (a, rest)
  read_write a rest := by
    rw [w.read_write]
    simp only [h]
    rfl

/-- One value after the other. -/
def pair (v : Wire α) (w : Wire β) : Wire (α × β) where
  write x := v.write x.1 ++ w.write x.2
  read b :=
    match v.read b with
    | .error e => .error e
    | .ok (x, rest) => (w.read rest).map fun y => ((x, y.1), y.2)
  read_write x rest := by
    rw [List.append_assoc, v.read_write]
    simp only [w.read_write]
    rfl

/-- A base-128 numeral, the low group first; the high bit marks that more follow. -/
def writeVarint : ℕ → ℕ → Bytes
  | 0, _ => []
  | fuel + 1, n =>
    if n < 128 then [UInt8.ofNat n]
    else UInt8.ofNat (n % 128 + 128) :: writeVarint fuel (n / 128)

/-- Read a base-128 numeral. -/
def readVarint : Bytes → Except String (ℕ × Bytes)
  | [] => .error "unexpected end"
  | b :: rest =>
    if b.toNat < 128 then .ok (b.toNat, rest)
    else (readVarint rest).map fun x => (b.toNat - 128 + 128 * x.1, x.2)

theorem readVarint_writeVarint {fuel n : ℕ} (h : n < fuel) (rest : Bytes) :
    readVarint (writeVarint fuel n ++ rest) = .ok (n, rest) := by
  induction fuel generalizing n with
  | zero => omega
  | succ fuel ih =>
    unfold writeVarint
    split
    · rename_i hn
      have hb : (UInt8.ofNat n).toNat = n := by
        rw [UInt8.toNat_ofNat']; omega
      simp [readVarint, hb, hn]
    · rename_i hn
      have hb : (UInt8.ofNat (n % 128 + 128)).toNat = n % 128 + 128 := by
        rw [UInt8.toNat_ofNat']; omega
      simp only [List.cons_append, readVarint, hb, ih (n := n / 128) (by omega), Except.map]
      rw [if_neg (by omega)]
      congr 2
      omega

/-- Natural numbers. -/
def nat : Wire ℕ where
  write n := writeVarint (n + 1) n
  read := readVarint
  read_write n rest := readVarint_writeVarint (Nat.lt_succ_self n) rest

theorem length_nat_pos {n : ℕ} : 0 < (nat.write n).length := by
  simp only [nat, writeVarint]
  split <;> simp

theorem length_nat_of_three {n : ℕ} (h : 2 ^ 14 ≤ n) (h' : n < 2 ^ 21) :
    (nat.write n).length = 3 := by
  obtain ⟨k, rfl⟩ : ∃ k, n = k + 2 := ⟨n - 2, by omega⟩
  have h₁ : ¬ k + 2 < 128 := by omega
  have h₂ : ¬ (k + 2) / 128 < 128 := by omega
  have h₃ : (k + 2) / 128 / 128 < 128 := by omega
  simp only [nat, writeVarint, if_neg h₁, if_neg h₂, if_pos h₃, List.length_cons, List.length_nil]

theorem length_writeVarint_le {fuel n k : ℕ} (h : n < 128 ^ (k + 1)) :
    (writeVarint fuel n).length ≤ k + 1 := by
  induction fuel generalizing n k with
  | zero => exact Nat.zero_le _
  | succ fuel ih =>
    unfold writeVarint
    split
    · exact Nat.succ_le_succ (Nat.zero_le k)
    · rename_i hn
      cases k with
      | zero => exact absurd h hn
      | succ k =>
        have hdiv : n / 128 < 128 ^ (k + 1) := by
          rw [Nat.div_lt_iff_lt_mul (by decide), ← Nat.pow_succ]
          exact h
        exact Nat.succ_le_succ (ih hdiv)

theorem length_nat_le {n k : ℕ} (h : n < 128 ^ (k + 1)) : (nat.write n).length ≤ k + 1 :=
  length_writeVarint_le h

theorem length_writeVarint_mono {fuel fuel' n n' : ℕ} (hfuel : fuel ≤ fuel') (hn : n ≤ n') :
    (writeVarint fuel n).length ≤ (writeVarint fuel' n').length := by
  induction fuel generalizing fuel' n n' with
  | zero => exact Nat.zero_le _
  | succ fuel ih =>
    obtain ⟨k, rfl⟩ : ∃ k, fuel' = k + 1 := ⟨fuel' - 1, by omega⟩
    simp only [writeVarint]
    split <;> split
    · simp
    · simp
    · omega
    · have hrest : (writeVarint fuel (n / 128)).length ≤ (writeVarint k (n' / 128)).length :=
        ih (by omega) (by omega)
      simp only [List.length_cons]
      omega

theorem length_nat_mono {n n' : ℕ} (h : n ≤ n') : (nat.write n).length ≤ (nat.write n').length :=
  length_writeVarint_mono (by omega) h

/-- A natural number below `2 ^ 16`. -/
def u16 : Wire UInt16 :=
  nat.comap UInt16.toNat (fun n => if n < 2 ^ 16 then .ok (UInt16.ofNat n) else .error "overlong")
    fun a => by simp [a.toNat_lt]

/-- A natural number below `2 ^ 32`. -/
def u32 : Wire UInt32 :=
  nat.comap UInt32.toNat (fun n => if n < 2 ^ 32 then .ok (UInt32.ofNat n) else .error "overlong")
    fun a => by simp [a.toNat_lt]

/-- A natural number below `2 ^ 64`. -/
def u64 : Wire UInt64 :=
  nat.comap UInt64.toNat (fun n => if n < 2 ^ 64 then .ok (UInt64.ofNat n) else .error "overlong")
    fun a => by simp [a.toNat_lt]

theorem length_u64_le (n : UInt64) : (u64.write n).length ≤ 10 :=
  length_nat_le (Nat.lt_of_lt_of_le n.toNat_lt (by decide))

/-- Read `n` values. -/
def readMany (w : Wire α) : ℕ → Bytes → Except String (List α × Bytes)
  | 0, b => .ok ([], b)
  | n + 1, b =>
    match w.read b with
    | .error e => .error e
    | .ok (x, rest) => (readMany w n rest).map fun y => (x :: y.1, y.2)

theorem readMany_flatMap (w : Wire α) (as : List α) (rest : Bytes) :
    w.readMany as.length (as.flatMap w.write ++ rest) = .ok (as, rest) := by
  induction as with
  | nil => rfl
  | cons a as ih =>
    simp only [List.length_cons, readMany, List.flatMap_cons, List.append_assoc, w.read_write, ih]
    rfl

/-- Values behind their number. -/
def seq (w : Wire α) : Wire (List α) where
  write as := nat.write as.length ++ as.flatMap w.write
  read b :=
    match nat.read b with
    | .error e => .error e
    | .ok (n, rest) => w.readMany n rest
  read_write as rest := by
    rw [List.append_assoc, nat.read_write]
    exact readMany_flatMap w as rest

theorem length_le_seq {w : Wire α} {a : α} {as : List α} (h : a ∈ as) :
    (w.write a).length ≤ ((seq w).write as).length := by
  obtain ⟨before, after, rfl⟩ := List.append_of_mem h
  rw [seq]
  simp only [List.flatMap_append, List.flatMap_cons, List.length_append]
  omega

theorem length_seq {w : Wire α} {as : List α} :
    ((seq w).write as).length =
      (nat.write as.length).length + (as.map fun a => (w.write a).length).sum := by
  simp [seq, List.length_flatMap]

/-- Exactly `n` bytes, with no length before them. -/
def array (n : ℕ) : Wire (ByteArr n) where
  write v := v.toList
  read b :=
    if h : n ≤ b.length then .ok (⟨b.take n, by simp [h]⟩, b.drop n)
    else .error "unexpected end"
  read_write v rest := by
    have hl : v.toList.length = n := v.toList_length
    have ht : (v.toList ++ rest).take n = v.toList := by
      rw [List.take_append_of_le_length (Nat.le_of_eq hl.symm),
        List.take_of_length_le (Nat.le_of_eq hl)]
    rw [dif_pos (by simp [hl])]
    congr 2
    · exact Subtype.ext ht
    · rw [List.drop_append_of_le_length (Nat.le_of_eq hl.symm),
        List.drop_of_length_le (Nat.le_of_eq hl), List.nil_append]

/-- Byte strings behind their length. -/
def bytes : Wire Bytes := seq byte

theorem length_bytes (b : Bytes) :
    (bytes.write b).length = (nat.write b.length).length + b.length := by
  simp [bytes, seq, byte]

/-- Texts, as their UTF-8 bytes behind their number. -/
def string : Wire String :=
  bytes.comap (fun s => s.toByteArray.data.toList)
    (fun b =>
      match String.fromUTF8? ⟨⟨b⟩⟩ with
      | some s => .ok s
      | none => .error "invalid utf-8")
    fun s => by
      have h : String.fromUTF8? ⟨⟨s.toByteArray.data.toList⟩⟩ = some s := by
        unfold String.fromUTF8?
        rw [dif_pos (show ByteArray.IsValidUTF8 ⟨⟨s.toByteArray.data.toList⟩⟩ from s.isValidUTF8)]
        rfl
      simp only [h]

theorem length_string (s : String) :
    (string.write s).length = (nat.write s.utf8ByteSize).length + s.utf8ByteSize :=
  length_bytes s.toByteArray.data.toList

theorem utf8ByteSize_replicate (n : ℕ) (c : Char) :
    (String.ofList (List.replicate n c)).utf8ByteSize = n * c.utf8Size := by
  induction n with
  | zero => rw [Nat.zero_mul]; rfl
  | succ n ih =>
    rw [List.replicate_succ, String.ofList_cons, String.utf8ByteSize_append,
      String.utf8ByteSize_singleton, ih, Nat.succ_mul, Nat.add_comm]

/-- Nothing. -/
def unit : Wire Unit where
  write _ := []
  read b := .ok ((), b)
  read_write _ _ := rfl

/-- A truth value, as one byte. -/
def bool : Wire Bool :=
  byte.comap (fun x => if x then 1 else 0)
    (fun n => if n = 0 then .ok false else if n = 1 then .ok true else .error "not a bool")
    fun x => by cases x <;> rfl

/-! ### Enumerations -/

/-- Read the data of a case. -/
def case (w : Wire β) (f : β → α) (b : Bytes) : Except String (α × Bytes) :=
  (w.read b).map fun x => (f x.1, x.2)

@[simp] theorem case_write (w : Wire β) (f : β → α) (x : β) (rest : Bytes) :
    w.case f (w.write x ++ rest) = .ok (f x, rest) := by
  rw [case, w.read_write]
  rfl

/-- No such case. -/
def noCase : Except String (α × Bytes) := .error "unknown variant"

/-- The number of the case, then its data. -/
def enum (write : α → ℕ × Bytes) (read : ℕ → Bytes → Except String (α × Bytes))
    (h : ∀ a rest, read (write a).1 ((write a).2 ++ rest) = .ok (a, rest)) : Wire α where
  write a := nat.write (write a).1 ++ (write a).2
  read b :=
    match nat.read b with
    | .error e => .error e
    | .ok (n, rest) => read n rest
  read_write a rest := by
    rw [List.append_assoc, nat.read_write]
    exact h a rest

theorem length_enum {write : α → ℕ × Bytes} {read : ℕ → Bytes → Except String (α × Bytes)}
    {h : ∀ a rest, read (write a).1 ((write a).2 ++ rest) = .ok (a, rest)} (a : α) :
    ((enum write read h).write a).length = (nat.write (write a).1).length + (write a).2.length :=
  List.length_append

/-- A value that may be missing. -/
def option (w : Wire α) : Wire (Option α) :=
  enum
    (fun
      | none => (0, [])
      | some a => (1, w.write a))
    (fun n b =>
      match n with
      | 0 => unit.case (fun _ => none) b
      | 1 => w.case some b
      | _ => noCase)
    fun a rest => by
      cases a with
      | none => rfl
      | some a => exact case_write w some a rest

end Wire
