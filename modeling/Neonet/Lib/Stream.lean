import Mathlib.Tactic.Ring
import Neonet.Lib.Codec

/-!
# Byte streams

* `beBytes`, `beNat` : numerals of a fixed number of bytes, the high byte first.
* `readExact` : read a number of bytes from a stream that arrives in pieces.  Where the stream is
  cut does not matter: `readExact_of_le`, `readExact_of_lt`.
-/

/-- `n` as `k` bytes, the high byte first; what does not fit is cut off. -/
def beBytes : ℕ → ℕ → Bytes
  | 0, _ => []
  | k + 1, n => UInt8.ofNat (n / 256 ^ k) :: beBytes k n

/-- The number whose bytes these are, the high byte first. -/
def beNat (b : Bytes) : ℕ := b.foldl (fun n x => n * 256 + x.toNat) 0

@[simp] theorem length_beBytes (k n : ℕ) : (beBytes k n).length = k := by
  induction k with
  | zero => rfl
  | succ k ih => rw [beBytes, List.length_cons, ih]

theorem foldl_beBytes (k n acc : ℕ) :
    (beBytes k n).foldl (fun n x => n * 256 + x.toNat) acc = acc * 256 ^ k + n % 256 ^ k := by
  induction k generalizing acc with
  | zero => simp [beBytes, Nat.mod_one]
  | succ k ih =>
    rw [beBytes, List.foldl_cons, ih, Nat.mod_pow_succ, UInt8.toNat_ofNat']
    ring

theorem beNat_beBytes (k n : ℕ) : beNat (beBytes k n) = n % 256 ^ k := by
  rw [beNat, foldl_beBytes, Nat.zero_mul, Nat.zero_add]

/-- The next `n` bytes of a stream and the pieces that are left; `none` if fewer have arrived.  An
empty piece is a read that found nothing. -/
def readExact (n : ℕ) : List Bytes → Option (Bytes × List Bytes)
  | [] => if n = 0 then some ([], []) else none
  | p :: ps =>
    if n ≤ p.length then some (p.take n, p.drop n :: ps)
    else (readExact (n - p.length) ps).map fun x => (p ++ x.1, x.2)

/-- Bytes that have arrived are read, and the rest is left. -/
theorem readExact_of_le {n : ℕ} {ps : List Bytes} (h : n ≤ ps.flatten.length) :
    ∃ rest, readExact n ps = some (ps.flatten.take n, rest) ∧
      rest.flatten = ps.flatten.drop n := by
  induction ps generalizing n with
  | nil =>
    obtain rfl : n = 0 := by simpa using h
    exact ⟨[], rfl, rfl⟩
  | cons p ps ih =>
    rw [List.flatten_cons, List.length_append] at h
    rw [readExact, List.flatten_cons]
    by_cases hn : n ≤ p.length
    · refine ⟨p.drop n :: ps, ?_, ?_⟩
      · rw [if_pos hn, List.take_append_of_le_length hn]
      · rw [List.flatten_cons, List.drop_append_of_le_length hn]
    · have hle : p.length ≤ n := Nat.le_of_not_le hn
      obtain ⟨rest, hread, hrest⟩ := ih (n := n - p.length) (by omega)
      refine ⟨rest, ?_, ?_⟩
      · rw [if_neg hn, hread, List.take_append, List.take_of_length_le hle]
        rfl
      · rw [hrest, List.drop_append, List.drop_of_length_le hle, List.nil_append]

/-- With fewer bytes the reader waits. -/
theorem readExact_of_lt {n : ℕ} {ps : List Bytes} (h : ps.flatten.length < n) :
    readExact n ps = none := by
  induction ps generalizing n with
  | nil =>
    have hn : n ≠ 0 := Nat.ne_of_gt h
    rw [readExact, if_neg hn]
  | cons p ps ih =>
    rw [List.flatten_cons, List.length_append] at h
    rw [readExact, if_neg (by omega), ih (by omega)]
    rfl
