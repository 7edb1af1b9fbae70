import Neonet.App.Lobby
import Neonet.Lib.Lines
import Neonet.Lib.Saved

/-!
# Logs

A log is a text with one line for each message that was received: when, from whom and what.

* `appendLog` writes a line, and `readLog` reads all of them.
* `Logged` : the file is the text of some lines.
* `Logged.appendLog` : **what is appended is one line more.**
* `Logged.readLog` : **what was written is what is read.**
-/

namespace Neonet

open FileTree FsM

/-- A line of a log. -/
structure LogLine where
  at_ : UInt64
  sender : String
  text : String
  deriving DecidableEq

/-- `str::parse::<u64>`. -/
def parseU64 (cs : List Char) : Option UInt64 :=
  (parseNat (if cs.head? = some '+' then cs.tail else cs)).bind fun n =>
    if n < 2 ^ 64 then some (UInt64.ofNat n) else none

/-- A line as `read_log` reads it: three parts, of which the last two may be missing. -/
def parseLine (line : List Char) : Option LogLine :=
  (parseU64 (cutAt '\t' line).1).map fun at_ =>
    let rest := cutAt '\t' ((cutAt '\t' line).2.getD [])
    ⟨at_, String.ofList rest.1, String.ofList (rest.2.getD [])⟩

/-- `read_log`. -/
def readLog (p : PathBuf) (t : Tree) : List LogLine :=
  match ((read p : FsM IoError Bytes) t).1 with
  | .error _ => []
  | .ok bytes =>
    match String.fromUTF8? ⟨⟨bytes⟩⟩ with
    | none => []
    | some text => (textLines text.toList).filterMap parseLine

/-- The log of a lobby. -/
def lobbyLog (home : Home) (name : String) : PathBuf :=
  (home.path.join "lobbies").join (slug name ++ ".log")

/-- `read_lobby`. -/
def readLobby (home : Home) (name : String) (t : Tree) : List LogLine :=
  readLog (lobbyLog home name) t

/-- A line as it is written, without its end. -/
def LogLine.chars (l : LogLine) : List Char :=
  Nat.toDigits 10 l.at_.toNat ++ '\t' :: (l.sender.toList ++ '\t' :: l.text.toList)

/-- The text of some lines. -/
def logChars (lines : List LogLine) : List Char := lines.flatMap fun l => l.chars ++ ['\n']

/-- No part of the line has a mark that separates parts or lines. -/
structure LogLine.Plain (l : LogLine) : Prop where
  tab : '\t' ∉ l.sender.toList
  sender : '\r' ∉ l.sender.toList ∧ '\n' ∉ l.sender.toList
  text : '\r' ∉ l.text.toList ∧ '\n' ∉ l.text.toList

/-- The file is the text of these lines, or is not there and there are none. -/
structure Logged (p : PathBuf) (t : Tree) (lines : List LogLine) : Prop where
  content : (t.content p).getD [] = utf8 (String.ofList (logChars lines))
  plain : ∀ l ∈ lines, l.Plain

variable {l : LogLine} {lines : List LogLine} {p : PathBuf} {t t' : Tree} {home : Home}
  {now : UInt64} {name sender text : String}

/-! ### Reading -/

theorem parseU64_toDigits (n : UInt64) : parseU64 (Nat.toDigits 10 n.toNat) = some n := by
  have hsign : (Nat.toDigits 10 n.toNat).head? ≠ some '+' := fun h =>
    not_mem_toDigits (by decide) (List.mem_of_mem_head? h)
  rw [parseU64, if_neg hsign, parseNat_toDigits, Option.bind_some, if_pos n.toNat_lt,
    UInt64.ofNat_toNat]

theorem parseLine_chars (h : l.Plain) : parseLine l.chars = some l := by
  have hdigits : '\t' ∉ Nat.toDigits 10 l.at_.toNat := not_mem_toDigits (by decide)
  rw [parseLine, LogLine.chars, cutAt_append hdigits]
  dsimp only
  rw [parseU64_toDigits, Option.getD_some, cutAt_append h.tab, Option.map_some]
  simp

theorem LogLine.Plain.chars (h : l.Plain) : '\r' ∉ l.chars ∧ '\n' ∉ l.chars := by
  have hr : '\r' ∉ Nat.toDigits 10 l.at_.toNat := not_mem_toDigits (by decide)
  have hn : '\n' ∉ Nat.toDigits 10 l.at_.toNat := not_mem_toDigits (by decide)
  simp [LogLine.chars, hr, hn, h.sender, h.text]

theorem lines_logChars (h : ∀ l ∈ lines, l.Plain) :
    (textLines (logChars lines)).filterMap parseLine = lines := by
  induction lines with
  | nil => rfl
  | cons l lines ih =>
    have hl := h l List.mem_cons_self
    rw [logChars, List.flatMap_cons, List.append_assoc, List.singleton_append,
      textLines_line hl.chars.1 hl.chars.2, List.filterMap_cons_some (parseLine_chars hl)]
    exact congrArg _ (ih fun m hm => h m (List.mem_cons_of_mem _ hm))

theorem fromUTF8?_utf8 (s : String) : String.fromUTF8? ⟨⟨utf8 s⟩⟩ = some s := by
  unfold String.fromUTF8?
  rw [dif_pos (show ByteArray.IsValidUTF8 ⟨⟨utf8 s⟩⟩ from s.isValidUTF8)]
  rfl

theorem utf8_append (a b : String) : utf8 (a ++ b) = utf8 a ++ utf8 b := by
  rw [utf8, String.toByteArray_append, ByteArray.data_append, Array.toList_append]
  rfl

/-- **What was written is what is read.** -/
theorem Logged.readLog (h : Logged p t lines) : readLog p t = lines := by
  have hcontent := h.content
  rw [← toOption_read (ε := IoError)] at hcontent
  rw [Neonet.readLog]
  cases hread : ((read p : FsM IoError Bytes) t).1 with
  | error e =>
    rw [hread] at hcontent
    have htext : some "" = some (String.ofList (logChars lines)) := by
      rw [← fromUTF8?_utf8, ← fromUTF8?_utf8, ← hcontent]
      rfl
    have hchars : logChars lines = [] := String.ofList_injective (Option.some.inj htext).symm
    have hlines := lines_logChars h.plain
    rw [hchars] at hlines
    exact hlines
  | ok bytes =>
    rw [hread] at hcontent
    obtain rfl : bytes = _ := hcontent
    dsimp only
    rw [fromUTF8?_utf8]
    dsimp only
    rw [String.toList_ofList, lines_logChars h.plain]

/-! ### Writing -/

theorem logChars_concat : logChars (lines ++ [l]) = logChars lines ++ (l.chars ++ ['\n']) := by
  rw [logChars, logChars, List.flatMap_append, List.flatMap_singleton]

/-- **What is appended is one line more.** -/
theorem Logged.append (h : Logged p t lines) (hl : l.Plain)
    (hcontent : t'.content p =
      some ((t.content p).getD [] ++ utf8 (String.ofList (l.chars ++ ['\n'])))) :
    Logged p t' (lines ++ [l]) := by
  refine ⟨?_, fun m hm => ?_⟩
  · rw [hcontent, Option.getD_some, h.content, ← utf8_append, ← String.ofList_append,
      logChars_concat]
  · rcases List.mem_append.1 hm with hm | hm
    · exact h.plain m hm
    · exact List.mem_singleton.1 hm ▸ hl

theorem sanitizeText_plain :
    '\r' ∉ (sanitizeText text).toList ∧ '\n' ∉ (sanitizeText text).toList := by
  rw [sanitizeText, String.toList_ofList]
  constructor <;>
  · intro h
    obtain ⟨c, -, hc⟩ := List.mem_map.1 h
    split_ifs at hc with hmark
    · exact absurd hc (by decide)
    · simp [hc] at hmark

/-- A fingerprint has no marks. -/
theorem plain_logLine {K : Primitives} {x : PublicIdentity} :
    LogLine.Plain ⟨now, x.fingerprint K, sanitizeText text⟩ where
  tab h := absurd (mem_digits_of_mem_hex h) (by decide)
  sender := ⟨fun h => absurd (mem_digits_of_mem_hex h) (by decide),
    fun h => absurd (mem_digits_of_mem_hex h) (by decide)⟩
  text := sanitizeText_plain

theorem appended_eq :
    toString now.toNat ++ "\t" ++ sender ++ "\t" ++ sanitizeText text ++ "\n" =
      String.ofList ((⟨now, sender, sanitizeText text⟩ : LogLine).chars ++ ['\n']) := by
  rw [← String.toList_inj, String.toList_ofList, LogLine.chars, Nat.toString_eq_repr]
  simp

theorem slugLog_no_slash : '/' ∉ (slug name ++ ".log").toList :=
  toList_append_no_slash (slug_no_slash name) (by decide)

theorem plain_slugLog : Plain (slug name ++ ".log") := plain_append (by decide)

/-- The log of a name in a directory of the device. -/
def logFile (home : Home) (dir name : String) : PathBuf :=
  (home.path.join dir).join (slug name ++ ".log")

theorem downward_lobbies : ((home.path.join "lobbies" : PathBuf)).Downward :=
  (downward_home home).join (by decide) (by decide)

/-- **A line is appended to a log.** -/
theorem content_appendLog {dir : String} (hdir : ((home.path.join dir : PathBuf)).Downward)
    (h : (appendLog now (home.path.join dir) (slug name ++ ".log") sender text :
      FsM IoError Unit) t = (.ok (), t')) :
    t'.content (logFile home dir name) = some ((t.content (logFile home dir name)).getD [] ++
      utf8 (String.ofList ((⟨now, sender, sanitizeText text⟩ : LogLine).chars ++ ['\n']))) := by
  rw [appendLog] at h
  obtain ⟨u, t₁, hcreate, happend⟩ := bind_ok.1 h
  have hframe : Frame ∅ t t₁ := by
    have htouches : Touches ∅ (createDirAll (home.path.join dir) : FsM IoError Unit) :=
      touches_createDirAll
    have ht := htouches t
    rwa [hcreate] at ht
  have hsame : t₁.content (logFile home dir name) = t.content (logFile home dir name) :=
    Tree.content_of_frame hframe hdir slugLog_no_slash plain_slugLog (Set.notMem_empty _)
  rw [← hsame, ← appended_eq]
  exact Tree.content_append happend

/-- **A line is appended to the log of a lobby.** -/
theorem content_appendLobby
    (h : (appendLobby home now name sender text : FsM IoError Unit) t = (.ok (), t')) :
    t'.content (lobbyLog home name) = some ((t.content (lobbyLog home name)).getD [] ++
      utf8 (String.ofList ((⟨now, sender, sanitizeText text⟩ : LogLine).chars ++ ['\n']))) :=
  content_appendLog downward_lobbies h

theorem fst_appendLobby {text' : String} :
    ((appendLobby home now name sender text : FsM IoError Unit) t).1 =
      ((appendLobby home now name sender text' : FsM IoError Unit) t).1 := by
  have happend : ∀ (p : PathBuf) (b b' : Bytes) (t : Tree),
      ((append p b : FsM IoError Unit) t).1 = ((append p b' : FsM IoError Unit) t).1 := by
    intro p b b' t
    rw [append, append]
    split <;> rfl
  rw [appendLobby, appendLobby, appendLog, appendLog, bind_apply, bind_apply]
  split
  · exact happend _ _ _ _
  · rfl

theorem touches_appendLobby : Touches {(lobbyLog home name).norm}
    (appendLobby home now name sender text : FsM IoError Unit) :=
  touches_createDirAll.bind fun _ => touches_append

theorem loadRoster_eq_saved {R : Codec (List MemberLobby)} : loadRoster home R t =
    (saved R ((home.path.join "lobbies").join "roster.json") t).getD [] := by
  rw [loadRoster, saved, ← toOption_read (ε := IoError)]
  cases ((read ((home.path.join "lobbies").join "roster.json") : FsM IoError Bytes) t).1 <;> rfl

theorem roster_ne_lobbyLog : ((home.path.join "lobbies").join "roster.json").norm ≠
    (lobbyLog home name).norm := by
  rw [lobbyLog, PathBuf.norm_join (by decide) (by decide),
    PathBuf.norm_join slugLog_no_slash plain_slugLog]
  intro h
  have hlast := congrArg (fun s => s.toList.getLast?) (List.cons.inj h).1
  simp at hlast

theorem findRoster_appendLobby {R : Codec (List MemberLobby)} {name' : String} :
    findRoster home R name' (appendLobby home now name sender text t).2 =
      findRoster home R name' t := by
  rw [findRoster, findRoster, loadRoster_eq_saved, loadRoster_eq_saved,
    saved_of_frame (touches_appendLobby t) downward_lobbies (by decide) (by decide)
      roster_ne_lobbyLog]

/-- **What is logged is one line more.** -/
theorem Logged.appendLobby {K : Primitives} {x : PublicIdentity}
    (h : Logged (lobbyLog home name) t lines)
    (hok : (appendLobby home now name (x.fingerprint K) text t).1 = .ok ()) :
    Logged (lobbyLog home name) (appendLobby home now name (x.fingerprint K) text t).2
      (lines ++ [⟨now, x.fingerprint K, sanitizeText text⟩]) := by
  refine h.append plain_logLine (content_appendLobby ?_)
  rw [← hok]

end Neonet
