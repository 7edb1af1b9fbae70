import Mathlib.Data.List.Basic

/-!
# Texts of lines

Texts are lists of characters.

* `textLines` : the lines of a text.
* `textLines_line` : **the first line is what stands before the first end of a line.**
* `cutAt` : a text is cut in two at a character.
* `parseNat` : a decimal number.
* `parseNat_toDigits` : **what is written in digits is read again.**
-/

section Lines

variable {line cs : List Char} {c : Char}

/-- The lines of a text.  The end of a line is `'\n'` or `"\r\n"`, and the last line may have
none. -/
def textLines : List Char → List (List Char)
  | [] => []
  | '\r' :: '\n' :: cs => [] :: textLines cs
  | '\n' :: cs => [] :: textLines cs
  | c :: cs =>
    match textLines cs with
    | [] => [[c]]
    | line :: lines => (c :: line) :: lines

theorem textLines_cons (hr : c ≠ '\r') (hn : c ≠ '\n') :
    textLines (c :: cs) = match textLines cs with
      | [] => [[c]]
      | line :: lines => (c :: line) :: lines := by
  rw [textLines]
  · exact fun _ h => absurd h hr
  · exact hn

/-- **The first line** of a text. -/
theorem textLines_line (hr : '\r' ∉ line) (hn : '\n' ∉ line) :
    textLines (line ++ '\n' :: cs) = line :: textLines cs := by
  induction line with
  | nil => rw [List.nil_append, textLines]
  | cons c line ih =>
    simp only [List.mem_cons, not_or] at hr hn
    rw [List.cons_append, textLines_cons (Ne.symm hr.1) (Ne.symm hn.1), ih hr.2 hn.2]

/-- The text before the first `c`, and the text after it if there is one. -/
def cutAt (c : Char) : List Char → List Char × Option (List Char)
  | [] => ([], none)
  | x :: xs => if x = c then ([], some xs) else (x :: (cutAt c xs).1, (cutAt c xs).2)

theorem cutAt_append (h : c ∉ line) : cutAt c (line ++ c :: cs) = (line, some cs) := by
  induction line with
  | nil => rw [List.nil_append, cutAt, if_pos rfl]
  | cons x line ih =>
    simp only [List.mem_cons, not_or] at h
    rw [List.cons_append, cutAt, if_neg (Ne.symm h.1), ih h.2]

/-- A number that is written in decimal digits. -/
def parseNat (cs : List Char) : Option ℕ :=
  if cs ≠ [] ∧ cs.all Char.isDigit then some (Nat.ofDigitChars 10 cs 0) else none

/-- **What is written in digits is read again.** -/
theorem parseNat_toDigits (n : ℕ) : parseNat (Nat.toDigits 10 n) = some n := by
  have hdigits : (Nat.toDigits 10 n).all Char.isDigit = true :=
    List.all_eq_true.2 fun c hc => Nat.isDigit_of_mem_toDigits (by decide) (by decide) hc
  rw [parseNat, if_pos ⟨Nat.toDigits_ne_nil, hdigits⟩, Nat.ofDigitChars_ten_toDigits]

theorem not_mem_toDigits {n : ℕ} (h : c.isDigit = false) : c ∉ Nat.toDigits 10 n := fun hc =>
  Bool.noConfusion ((Nat.isDigit_of_mem_toDigits (by decide) (by decide) hc).symm.trans h)

end Lines
