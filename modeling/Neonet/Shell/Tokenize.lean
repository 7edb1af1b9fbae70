import Mathlib.Data.List.Basic

/-!
# The words of a command line

* `Scanner` : where `tokenize` stands: the words so far, the current one, and the open quote.
* `tokenize` : a line is split into words.
* `tokenize_quotedLine` : **of words that are quoted one by one, all that are not empty come back.**
* `tokenize_quotedLine_iff` : **they come back as they are iff none is empty.**
-/

namespace Neonet

/-- `char::is_whitespace`: the characters with the property `White_Space`. -/
def isWhitespace (c : Char) : Bool :=
  (0x09 ≤ c.toNat && c.toNat ≤ 0x0d) || c.toNat == 0x20 || c.toNat == 0x85 || c.toNat == 0xa0 ||
    c.toNat == 0x1680 || (0x2000 ≤ c.toNat && c.toNat ≤ 0x200a) || c.toNat == 0x2028 ||
    c.toNat == 0x2029 || c.toNat == 0x202f || c.toNat == 0x205f || c.toNat == 0x3000

/-- Where `tokenize` stands. -/
structure Scanner where
  words : List String
  current : List Char
  quote : Option Char
  deriving DecidableEq

namespace Scanner

/-- The current word is complete, if there is one. -/
def flush (s : Scanner) : Scanner :=
  if s.current = [] then s
  else { s with words := s.words ++ [String.ofList s.current], current := [] }

/-- One more character of the current word. -/
def push (s : Scanner) (c : Char) : Scanner := { s with current := s.current ++ [c] }

/-- One more character of the line.  A quote opens only where a word begins. -/
def step (s : Scanner) (c : Char) : Scanner :=
  match s.quote with
  | some q => if c = q then { s with quote := none } else s.push c
  | none =>
    if c = '\'' ∨ c = '"' then
      if s.current = [] then { s with quote := some c } else s.push c
    else if isWhitespace c then s.flush
    else s.push c

end Scanner

/-- `tokenize`. -/
def tokenize (line : String) : List String :=
  (line.toList.foldl Scanner.step ⟨[], [], none⟩).flush.words

/-- A word between double quotes. -/
def quoted (word : String) : String := "\"" ++ word ++ "\""

/-- The words between double quotes, with single spaces between them. -/
def quotedLine (words : List String) : String := " ".intercalate (words.map quoted)

namespace Scanner

variable {words : List String} {current cs : List Char} {q : Char}

/-- **Inside a quote** all characters but the quote belong to the word. -/
theorem foldl_inside (h : q ∉ cs) :
    cs.foldl step ⟨words, current, some q⟩ = ⟨words, current ++ cs, some q⟩ := by
  induction cs generalizing current with
  | nil => rw [List.foldl_nil, List.append_nil]
  | cons c cs ih =>
    simp only [List.mem_cons, not_or] at h
    have hstep : step ⟨words, current, some q⟩ c = ⟨words, current ++ [c], some q⟩ :=
      if_neg (Ne.symm h.1)
    rw [List.foldl_cons, hstep, ih h.2, List.append_assoc, List.singleton_append]

theorem foldl_quoted {word : String} (h : '"' ∉ word.toList) :
    (quoted word).toList.foldl step ⟨words, [], none⟩ = ⟨words, word.toList, none⟩ := by
  have hchars : (quoted word).toList = '"' :: (word.toList ++ ['"']) := by
    simp [quoted]
  have hopen : step ⟨words, [], none⟩ '"' = ⟨words, [], some '"'⟩ := rfl
  rw [hchars, List.foldl_cons, hopen, List.foldl_append, foldl_inside h]
  rfl

theorem step_space : step ⟨words, current, none⟩ ' ' = flush ⟨words, current, none⟩ := rfl

theorem flush_word {word : String} :
    flush ⟨words, word.toList, none⟩ =
      ⟨words ++ [word].filter fun w => w ≠ "", [], none⟩ := by
  rw [flush]
  by_cases hempty : word = ""
  · simp [hempty]
  · rw [if_neg (by simpa using hempty)]
    simp [hempty]

end Scanner

open Scanner

variable {words : List String}

/-- **The words of a line** of quoted words, after those that were there. -/
theorem words_foldl_quotedLine {before : List String} (h : ∀ w ∈ words, '"' ∉ w.toList) :
    ((quotedLine words).toList.foldl step ⟨before, [], none⟩).flush.words =
      before ++ words.filter fun w => w ≠ "" := by
  induction words generalizing before with
  | nil => simp [quotedLine, flush]
  | cons word words ih =>
    have hword := h word List.mem_cons_self
    have hrest : ∀ w ∈ words, '"' ∉ w.toList := fun w hw => h w (List.mem_cons_of_mem _ hw)
    cases words with
    | nil =>
      have hline : quotedLine [word] = quoted word := by simp [quotedLine]
      rw [hline, foldl_quoted hword, flush_word]
    | cons word' words =>
      have hline : (quotedLine (word :: word' :: words)).toList =
          (quoted word).toList ++ ' ' :: (quotedLine (word' :: words)).toList := by
        simp [quotedLine, String.intercalate_cons_cons]
      -- the line is read up to the space first
      rw [hline, List.foldl_append, foldl_quoted hword, List.foldl_cons, step_space, flush_word,
        ih hrest, List.append_assoc, ← List.filter_append, List.singleton_append]

/-- **All words that are not empty come back**, in order. -/
theorem tokenize_quotedLine (h : ∀ w ∈ words, '"' ∉ w.toList) :
    tokenize (quotedLine words) = words.filter fun w => w ≠ "" :=
  words_foldl_quotedLine h

/-- **Quoted words come back as they are iff none of them is empty.** -/
theorem tokenize_quotedLine_iff (h : ∀ w ∈ words, '"' ∉ w.toList) :
    tokenize (quotedLine words) = words ↔ "" ∉ words := by
  rw [tokenize_quotedLine h, List.filter_eq_self]
  simp only [ne_eq, decide_not, Bool.not_eq_eq_eq_not, Bool.not_true, decide_eq_false_iff_not]
  constructor
  · exact fun hall hempty => hall "" hempty rfl
  · rintro hempty w hw rfl
    exact hempty hw

/-- Words with spaces, tabs and single quotes. -/
theorem tokenize_quotedLine_iff_lobby :
    tokenize (quotedLine ["host", "my lobby", "it's\there"]) = ["host", "my lobby", "it's\there"] :=
  (tokenize_quotedLine_iff (by simp)).2 (by simp)

/-- An empty title is dropped, and the flag after it becomes the title. -/
theorem not_tokenize_quotedLine :
    ¬ ∀ words : List String, (∀ w ∈ words, '"' ∉ w.toList) →
      tokenize (quotedLine words) = words := by
  intro h
  have hline := h ["--title", "", "--welcome"] (by simp)
  rw [tokenize_quotedLine (by simp)] at hline
  simp at hline

end Neonet
