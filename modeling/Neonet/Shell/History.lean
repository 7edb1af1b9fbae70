import Mathlib.Data.List.Destutter
import Neonet.Lib.Past
import Neonet.Lib.Sessions
import Neonet.Shell.Tokenize
import Neonet.Storage.Core

/-!
# The history of the shell

The shell keeps the last lines that were typed.  It reads them from a file when it starts, and
writes them back when it ends.

* `History.push` : one more line.
* `compact` : the last lines that are left of all that were typed; `push_compact` : **that is what
  pushing them one by one leaves.**
* `historySaver` : the history as a value that is kept in a file.
* `history_spec` : **what a shell finds in the file is what is left of the lines in its log**, with
  any number of shells, failures and crashes.
-/

namespace Neonet

open FileTree FsM

/-- `str::trim`. -/
def trimmed (line : String) : String :=
  String.ofList ((line.toList.dropWhile isWhitespace).reverse.dropWhile isWhitespace).reverse

/-- `History`. -/
structure History where
  entries : List String
  deriving DecidableEq

/-- `History::default`. -/
def History.empty : History := ⟨[]⟩

/-- `History::push`. -/
def History.push (h : History) (line : String) : History :=
  let line := trimmed line
  if line = "" then h
  else
    let entries := if h.entries.getLast? = some line then h.entries else h.entries ++ [line]
    ⟨entries.drop (entries.length - 50)⟩

section File

variable (C : Codec History) (home : Home)

/-- Where the history is kept. -/
def shellDir : PathBuf := home.path.join "shell"

/-- `History::load`. -/
def History.load (t : Tree) : History :=
  match ((read ((shellDir home).join "history") : FsM IoError Bytes) t).1 with
  | .ok bytes => (C.decode bytes).toOption.getD .empty
  | .error _ => .empty

/-- `History::save`. -/
def History.save (h : History) : FsM IoError Unit :=
  keepIn (shellDir home) "history.tmp" "history" (C.encode h)

variable {home} in
theorem downward_shellDir : (shellDir home).Downward :=
  (downward_home home).join (by decide) (by decide)

/-- The history as a value that is kept in a file. -/
def historySaver : Saver History History String where
  take h := h
  edit := History.push
  put h := h
  dir := shellDir home
  tmp := "history.tmp"
  name := "history"
  decode content := (content.bind fun bytes => (C.decode bytes).toOption).getD .empty
  encode := C.encode
  Survives _ _ := True
  decode_encode h := by rw [Option.bind_some, C.decode_encode]; rfl
  downward := downward_shellDir
  noSlash := by decide
  plain := by decide
  noSlash_tmp := by decide
  plain_tmp := by decide
  tmp_ne := by decide

end File

/-- The lines that were typed, without those that are blank or repeat the one before. -/
def distinctLines (lines : List String) : List String :=
  ((lines.map trimmed).filter (· ≠ "")).destutter (· ≠ ·)

/-- What is left of the lines that were typed. -/
def compact (lines : List String) : List String := (distinctLines lines).rtake 50

variable {C : Codec History} {home : Home} {t t₀ : Tree} {h : History} {line : String}
  {lines before : List String} {events : List (SessionEvent String)} {copies : ℕ → Option History}

/-! ### One more line -/

/-- One more element, which is left out if it repeats the last one. -/
theorem destutter_concat {α : Type*} [DecidableEq α] (l : List α) (a : α) :
    (l ++ [a]).destutter (· ≠ ·) =
      if (l.destutter (· ≠ ·)).getLast? = some a then l.destutter (· ≠ ·)
      else l.destutter (· ≠ ·) ++ [a] := by
  cases l with
  | nil => rfl
  | cons b l =>
    rw [List.cons_append, List.destutter_cons', List.destutter_cons']
    induction l generalizing b with
    | nil =>
      by_cases hab : b = a
      · simp [hab]
      · simp [List.destutter', hab]
    | cons c l ih =>
      rw [List.cons_append, List.destutter'_cons, List.destutter'_cons]
      by_cases hbc : b = c
      · rw [if_neg (not_not_intro hbc), if_neg (not_not_intro hbc)]
        exact ih b
      · have hne : (l.destutter' (· ≠ ·) c) ≠ [] := List.destutter'_ne_nil _ _
        rw [if_pos hbc, if_pos hbc, ih c]
        split_ifs with hlast hlast' hlast'
        · rfl
        · exact absurd ((List.getLast?_cons_of_ne_nil hne).trans hlast) hlast'
        · exact absurd ((List.getLast?_cons_of_ne_nil hne).symm.trans hlast') hlast
        · rfl

theorem getLast?_rtake {α : Type*} {l : List α} {n : ℕ} (hn : n ≠ 0) :
    (l.rtake n).getLast? = l.getLast? := by
  rw [List.rtake, List.getLast?_drop]
  split_ifs with hle
  · have hnil : l = [] := List.length_eq_zero_iff.1 (by omega)
    rw [hnil]
    rfl
  · rfl

theorem rtake_rtake {α : Type*} (l : List α) (n : ℕ) : (l.rtake n).rtake n = l.rtake n := by
  have h := rtake_append_rtake (h := l) (g := []) (n := n)
  rwa [List.append_nil, List.append_nil] at h

theorem distinctLines_concat : distinctLines (lines ++ [line]) =
    if trimmed line = "" ∨ (distinctLines lines).getLast? = some (trimmed line) then
      distinctLines lines
    else distinctLines lines ++ [trimmed line] := by
  rw [distinctLines, distinctLines, List.map_append, List.filter_append, List.map_singleton]
  by_cases hblank : trimmed line = ""
  · rw [if_pos (.inl hblank), hblank]
    simp
  · have hkept : [trimmed line].filter (· ≠ "") = [trimmed line] := by simp [hblank]
    rw [hkept, destutter_concat]
    simp only [hblank, false_or]

/-- **Pushing a line** leaves what is left of all of them. -/
theorem push_compact : History.push ⟨compact lines⟩ line = ⟨compact (lines ++ [line])⟩ := by
  have hlast : (compact lines).getLast? = (distinctLines lines).getLast? :=
    getLast?_rtake (by decide)
  have hmore : compact (lines ++ [line]) = (distinctLines (lines ++ [line])).rtake 50 := rfl
  rw [hmore, distinctLines_concat, History.push]
  dsimp only
  rw [hlast]
  by_cases hblank : trimmed line = ""
  · rw [if_pos hblank, if_pos (.inl hblank)]
    rfl
  · rw [if_neg hblank]
    refine congrArg History.mk ?_
    by_cases hrepeats : (distinctLines lines).getLast? = some (trimmed line)
    · rw [if_pos hrepeats, if_pos (.inr hrepeats)]
      exact rtake_rtake _ _
    · rw [if_neg hrepeats, if_neg (not_or.2 ⟨hblank, hrepeats⟩)]
      exact rtake_append_rtake

theorem foldl_push_compact (more : List String) :
    more.foldl History.push ⟨compact lines⟩ = ⟨compact (lines ++ more)⟩ := by
  induction more generalizing lines with
  | nil => rw [List.append_nil]; rfl
  | cons line more ih =>
    rw [List.foldl_cons, push_compact, ih, List.append_assoc, List.singleton_append]

/-! ### Shells -/

theorem load_historySaver : (historySaver C home).load t = History.load C home t := by
  rw [Saver.load, History.load, ← toOption_read (ε := IoError)]
  show ((((read ((shellDir home).join "history") : FsM IoError Bytes) t).1.toOption).bind
    fun bytes => (C.decode bytes).toOption).getD .empty = _
  cases ((read ((shellDir home).join "history") : FsM IoError Bytes) t).1 <;> rfl

theorem save_historySaver (h : History) :
    (historySaver C home).save IoError h = h.save C home := rfl

/-- The lines that were typed, shell by shell: those in the file, and those of the shells. -/
def typed (events : List (SessionEvent String)) :
    Sessions (List (List String)) (List (List String) × List String) :=
  (Editor.log String).run [] events

/-- **The history is what is left of what was typed.**  A shell that is closed in good order leaves
its lines at the end, after those that it found; and in every run of shells that are closed, fail
or crash, the file and the shells hold what is left of the lines in their logs. -/
theorem history_spec (hstart : History.load C home t₀ = ⟨compact before⟩)
    (hrun : (historySaver C home).Runs IoError t₀ events t copies) :
    History.load C home t = ⟨compact (before ++ (typed events).kept.flatten)⟩ ∧
    (∀ n, copies n = ((typed events).copies n).map fun c =>
      ⟨compact (before ++ c.1.flatten ++ c.2)⟩) ∧
    ∀ pre mid n, events = pre ++ .opened n :: (mid ++ [.saved n]) →
      SessionEvent.OnlyEdits n mid → History.load C home t =
        ⟨compact (before ++ (typed pre).kept.flatten ++
          mid.filterMap (SessionEvent.editOf n))⟩ := by
  have hrefines := hrun.refines
  rw [load_historySaver, load_historySaver, hstart] at hrefines
  have hreplay : ∀ l : List (List String), (historySaver C home).replay ⟨compact before⟩ l =
      ⟨compact (before ++ l.flatten)⟩ := fun l =>
    (Editor.replay_eq_foldl (fun _ => rfl) (fun _ => rfl) l).trans (foldl_push_compact _)
  have hkept : ∀ events, ((historySaver C home).run ⟨compact before⟩ events).kept =
      ⟨compact (before ++ (typed events).kept.flatten)⟩ := fun events => by
    rw [Editor.run_eq_replay]
    exact hreplay _
  refine ⟨?_, fun n => ?_, fun pre mid n hsplit hmid => ?_⟩
  · rw [← hkept, hrefines]
  · have hcopies : copies n = ((historySaver C home).run ⟨compact before⟩ events).copies n := by
      rw [hrefines]
    rw [hcopies, Editor.run_eq_replay]
    refine congrArg (fun f => ((typed events).copies n).map f) (funext fun c => ?_)
    rw [hreplay]
    exact foldl_push_compact _
  · have hsession : ((historySaver C home).run ⟨compact before⟩
        (pre ++ .opened n :: (mid ++ [.saved n]))).kept = _ := Editor.kept_of_session hmid
    rw [← hsplit, hrefines, hkept] at hsession
    exact hsession.trans (foldl_push_compact _)

namespace Typing

def laptop : Home := ⟨["core"], Home.plain_core⟩

/-- Histories in a file. -/
def codec : Codec History :=
  ((Wire.seq Wire.string).comap History.entries (fun entries => .ok ⟨entries⟩)
    fun _ => rfl).toCodec

/-- No file is there. -/
def fresh : Tree := .bare fun _ => true

/-- A shell in which two lines were typed, the second one like the first. -/
def shellEvents : List (SessionEvent String) :=
  [.opened 0, .edited 0 "ls", .edited 0 " ls", .saved 0]

/-- The tree that the shell leaves. -/
def closed : Tree := ((historySaver codec laptop).save IoError ⟨["ls"]⟩ fresh).2

theorem runs_closed : (historySaver codec laptop).Runs IoError fresh shellEvents closed
    (Function.update (Function.update (Function.update (Function.update (fun _ => none) 0
      (some ⟨[]⟩)) 0 (some ⟨["ls"]⟩)) 0 (some ⟨["ls"]⟩)) 0 none) := by
  have hload : (historySaver codec laptop).load fresh = ⟨[]⟩ := by decide +kernel
  have hfirst : History.push ⟨[]⟩ "ls" = ⟨["ls"]⟩ := by decide +kernel
  have hagain : History.push ⟨["ls"]⟩ " ls" = ⟨["ls"]⟩ := by decide +kernel
  have hsave : ((historySaver codec laptop).save IoError ⟨["ls"]⟩ fresh).1 = .ok () := by
    decide +kernel
  have hstarted : (historySaver codec laptop).Runs IoError fresh [] fresh fun _ => none := .started
  have hopened := hstarted.opened (n := 0) rfl
  rw [hload] at hopened
  have hone := hopened.edited (i := "ls") (Function.update_self _ _ _) trivial
  have htwo := hone.edited (i := " ls") (Function.update_self _ _ _) trivial
  have hedit : ∀ h line, (historySaver codec laptop).edit h line = h.push line := fun _ _ => rfl
  have htake : (historySaver codec laptop).take ⟨[]⟩ = ⟨[]⟩ := rfl
  rw [htake, hedit, hedit, hfirst, hagain] at htwo
  exact htwo.saved (Function.update_self _ _ _) (Prod.ext hsave rfl)

end Typing

open Typing in
/-- One line is left. -/
theorem history_spec_closed : History.load codec laptop closed = ⟨["ls"]⟩ := by
  have hstart : History.load codec laptop fresh = ⟨compact []⟩ := by decide +kernel
  have hleft : compact ([] ++ (typed shellEvents).kept.flatten) = ["ls"] := by decide +kernel
  rw [(history_spec hstart runs_closed).1, hleft]

end Neonet
