import Neonet.App.Handle
import Neonet.App.Logs
import Neonet.App.Sizes
import Neonet.Storage.Integrity

/-!
# The files of the logs

Each lobby has a log, and so has each device on whose channel something was sent.  The file of a log
is named by the slug of its name.

* `logger` : lines are appended to the logs of a directory.
* `EmptyHome` : a device that has kept nothing yet.
* `LogDir.step` : **a line is appended iff the file system takes the name of the file.**
* `logged_of_run` : **each file has the lines of all the names with its slug.**
* `OwnEntries`, `ownEntries_iff` : a lobby has its own entries only, **iff no other name has its
  slug**.
* `channel_spec` : **a device has its own entries on its channel, each as it was sent.**
-/

namespace Neonet

open FileTree FsM

/-- `read_channel`. -/
def readChannel (home : Home) (sender : String) (t : Tree) : List LogLine :=
  readLog (logFile home "channel" sender) t

/-- A line for the log of a name. -/
structure LogCall where
  name : String
  sender : PublicIdentity
  text : String
  at_ : UInt64

/-- A file system as usual takes names of up to 255 bytes without a slash and a NUL. -/
def UsualNames (t : Tree) : Prop :=
  ∀ c : String, Plain c → '/' ∉ c.toList → Char.ofNat 0 ∉ c.toList → c.utf8ByteSize ≤ 255 →
    t.accepts c = true

/-- The device has an empty directory. -/
structure EmptyHome (home : Home) (t : Tree) : Prop where
  dir : t.HasDir home.path
  empty : ∀ c, t.entry (c :: home.loc) = none
  usual : UsualNames t

section Logger

variable (K : Primitives) (home : Home) (dir : String)

/-- Lines are appended to the logs of a directory: `append_lobby`, `append_channel`. -/
def logger : Machine Tree LogCall (Except IoError Unit) where
  step t a := appendLog a.at_ (home.path.join dir) (slug a.name ++ ".log") (a.sender.fingerprint K)
    a.text t

/-- The line that a call writes. -/
def LogCall.line (a : LogCall) : LogLine := ⟨a.at_, a.sender.fingerprint K, sanitizeText a.text⟩

/-- What a log shows of a call: who and what. -/
def LogCall.entry (a : LogCall) : String × String :=
  (a.sender.fingerprint K, sanitizeText a.text)

/-- Lines can be appended: no file stands in the place of a directory, nor the other way round. -/
structure LogDir (t : Tree) : Prop where
  named : t.named (home.path.join dir) = true
  free : ∀ k, k <:+ dir :: home.loc → t.file? k = none
  logs : ∀ name, ¬ t.IsDir ((slug name ++ ".log") :: dir :: home.loc)

/-- What `read_lobby` shows of the name is what was appended under it. -/
def OwnEntries (t : Tree) (calls : List LogCall) (name : String) : Prop :=
  (readLobby home name ((logger K home "lobbies").after t calls)).map
      (fun l => (l.sender, l.text)) =
    ((logger K home "lobbies").transcript t calls).filterMap fun x =>
      if x.1.name = name ∧ x.2 = .ok () then some (x.1.entry K) else none

end Logger

variable {K : Primitives} {home : Home} {dir name : String} {t : Tree} {a : LogCall}
  {calls : List LogCall} {lines : List LogLine} {x : PublicIdentity}

theorem step_logger : (logger K home dir).step t a = appendLog a.at_ (home.path.join dir)
    (slug a.name ++ ".log") (a.sender.fingerprint K) a.text t := rfl

theorem step_lobbies {text : String} {now : UInt64} :
    (logger K home "lobbies").step t ⟨name, x, text, now⟩ =
      appendLobby home now name (x.fingerprint K) text t := rfl

theorem step_channel {text : String} {now : UInt64} :
    (logger K home "channel").step t ⟨x.fingerprint K, x, text, now⟩ =
      appendChannel home now (x.fingerprint K) text t := rfl

/-! ### One line -/

section Step

variable (hslash : '/' ∉ dir.toList) (hplain : Plain dir)

include hslash hplain

theorem norm_logFile : (logFile home dir name).norm = (slug name ++ ".log") :: dir :: home.loc := by
  rw [logFile, PathBuf.norm_join slugLog_no_slash plain_slugLog, PathBuf.norm_join hslash hplain,
    Home.norm_path]

theorem downward_dir (home : Home) : ((home.path.join dir : PathBuf)).Downward :=
  (downward_home home).join hslash hplain

omit hslash hplain in
theorem accepts_step : ((logger K home dir).step t a).2.accepts = t.accepts := by
  have htouches : Touches {(logFile home dir a.name).norm} (appendLog a.at_ (home.path.join dir)
      (slug a.name ++ ".log") (a.sender.fingerprint K) a.text : FsM IoError Unit) :=
    touches_createDirAll.bind fun _ => touches_append
  exact (htouches t).grows.accepts

theorem LogDir.create (h : LogDir home dir t) :
    ∃ t₁, (createDirAll (home.path.join dir) : FsM IoError Unit) t = (.ok (), t₁) ∧
      ∀ l, t₁.entry l = if l <:+ dir :: home.loc then some .dir else t.entry l := by
  have hnorm : (home.path.join dir).norm = dir :: home.loc := by
    rw [PathBuf.norm_join hslash hplain, Home.norm_path]
  obtain ⟨hok, hentry⟩ := (createDirAll_downward (ε := IoError) (t := t)
    (downward_dir hslash hplain home)).1 ⟨h.named, by rw [hnorm]; exact h.free⟩
  rw [hnorm] at hentry
  exact ⟨_, Prod.ext hok rfl, hentry⟩

/-- **A line is appended iff the file system takes the name of the file**, and no line is in the
way of another. -/
theorem LogDir.step (h : LogDir home dir t) :
    (((logger K home dir).step t a).1 = .ok () ↔ t.accepts (slug a.name ++ ".log") = true) ∧
      LogDir home dir ((logger K home dir).step t a).2 := by
  obtain ⟨t₁, hcreate, hentry⟩ := h.create hslash hplain
  have haccepts : t₁.accepts = t.accepts := by
    have hsame := accepts_createDirAll (ε := IoError) (p := home.path.join dir) (t := t)
    rwa [hcreate] at hsame
  have hlong : ∀ n : String, ¬ (n :: dir :: home.loc) <:+ dir :: home.loc := by
    intro n hsuffix
    have hlen := hsuffix.length_le
    simp at hlen
  have hdir : LogDir home dir t₁ := by
    refine ⟨?_, fun k hk => ?_, fun n => ?_⟩
    · rw [Tree.named, haccepts]
      exact h.named
    · rw [Tree.file?, hentry, if_pos hk]
    · rw [Tree.IsDir, hentry, if_neg (hlong _)]
      exact h.logs n
  have hisdir : t₁.IsDir (home.path.join dir).norm := by
    rw [PathBuf.norm_join hslash hplain, Home.norm_path, Tree.IsDir, hentry,
      if_pos List.suffix_rfl]
  rw [step_logger, appendLog, bind_of_ok hcreate]
  by_cases ha : t.accepts (slug a.name ++ ".log") = true
  · have hplace : t₁.place ((home.path.join dir).join (slug a.name ++ ".log")) =
        .ok ((slug a.name ++ ".log") :: dir :: home.loc) := by
      have hdown := downward_dir hslash hplain home
      refine Tree.place_ok.2 ⟨?_, hdir.logs a.name⟩
      refine (Tree.resolve_join_iff hdown slugLog_no_slash plain_slugLog).2
        ⟨hdir.named, by rw [haccepts]; exact ha, hisdir, ?_⟩
      rw [PathBuf.norm_join hslash hplain, Home.norm_path]
    rw [FileTree.append, hplace]
    dsimp only
    refine ⟨iff_of_true rfl ha, ?_, fun k hk => ?_, fun n => ?_⟩
    · rw [Tree.named, Tree.accepts_putFile]
      exact hdir.named
    · rw [Tree.file?_putFile_of_ne]
      · exact hdir.free k hk
      · rintro rfl
        exact hlong _ hk
    · rw [Tree.isDir_putFile]
      exact hdir.logs n
  · -- the name is not taken
    have hrefused : ∃ e, t₁.place ((home.path.join dir).join (slug a.name ++ ".log")) =
        .error e := by
      cases hp : t₁.place ((home.path.join dir).join (slug a.name ++ ".log")) with
      | error e => exact ⟨e, rfl⟩
      | ok l =>
        obtain ⟨d, -, -, -, htaken⟩ :=
          Tree.resolve_of_join (Tree.place_ok.1 hp).1 slugLog_no_slash plain_slugLog
        rw [haccepts] at htaken
        exact absurd htaken ha
    obtain ⟨e, he⟩ := hrefused
    rw [FileTree.append, he]
    exact ⟨iff_of_false (by simp) ha, hdir⟩

omit hslash hplain in
theorem frame_step_error {e : IoError} (h : ((logger K home dir).step t a).1 = .error e) :
    Frame ∅ t ((logger K home dir).step t a).2 := by
  rw [step_logger, appendLog] at h ⊢
  have hcreated : Frame ∅ t ((createDirAll (home.path.join dir) : FsM IoError Unit) t).2 :=
    touches_createDirAll t
  cases hcreate : (createDirAll (home.path.join dir) : FsM IoError Unit) t with
  | mk r t₁ =>
  rw [hcreate] at hcreated
  cases r with
  | error e' =>
    rw [bind_of_error hcreate]
    exact hcreated
  | ok u =>
    rw [bind_of_ok hcreate] at h ⊢
    rw [FileTree.append] at h ⊢
    split at h
    · exact hcreated
    · cases h

/-- **One line**: it is added to the file with its slug, if that can be written. -/
theorem Logged.step (hdir : LogDir home dir t) (h : Logged (logFile home dir name) t lines) :
    Logged (logFile home dir name) ((logger K home dir).step t a).2
      (lines ++ if slug a.name = slug name ∧ t.accepts (slug name ++ ".log") = true
        then [a.line K] else []) := by
  obtain ⟨hok, -⟩ := hdir.step (K := K) (a := a) hslash hplain
  have hdown := downward_dir hslash hplain home
  by_cases hslug : slug a.name = slug name
  · have hfile : logFile home dir a.name = logFile home dir name := by rw [logFile, hslug, logFile]
    by_cases ha : t.accepts (slug name ++ ".log") = true
    · rw [if_pos ⟨hslug, ha⟩]
      have hdone : (appendLog a.at_ (home.path.join dir) (slug a.name ++ ".log")
          (a.sender.fingerprint K) a.text : FsM IoError Unit) t =
          (.ok (), ((logger K home dir).step t a).2) :=
        Prod.ext (hok.2 (by rw [hslug]; exact ha)) rfl
      have hcontent := content_appendLog hdown hdone
      rw [hfile] at hcontent
      exact h.append plain_logLine hcontent
    · rw [if_neg fun hc => ha hc.2, List.append_nil]
      -- A name that the file system refuses leaves the log as it was.
      cases hres : ((logger K home dir).step t a).1 with
      | ok u => exact absurd (hslug ▸ hok.1 hres) ha
      | error e =>
        refine ⟨?_, h.plain⟩
        rw [logFile, Tree.content_of_frame (frame_step_error hres) hdown
          slugLog_no_slash plain_slugLog (Set.notMem_empty _), ← logFile]
        exact h.content
  · rw [if_neg fun hc => hslug hc.1, List.append_nil]
    have htouches : Touches {(logFile home dir a.name).norm} (appendLog a.at_ (home.path.join dir)
        (slug a.name ++ ".log") (a.sender.fingerprint K) a.text : FsM IoError Unit) :=
      touches_createDirAll.bind fun _ => touches_append
    refine ⟨?_, h.plain⟩
    have hother : ((home.path.join dir).join (slug name ++ ".log")).norm ∉
        ({(logFile home dir a.name).norm} : Set Loc) := by
      intro hmem
      rw [Set.mem_singleton_iff, ← logFile, norm_logFile hslash hplain,
        norm_logFile hslash hplain] at hmem
      exact hslug (append_left_inj' (List.cons.inj hmem).1).symm
    have hsame := Tree.content_of_frame (htouches t) hdown slugLog_no_slash plain_slugLog hother
    rw [logFile, step_logger, hsame, ← logFile]
    exact h.content

/-! ### All lines -/

/-- **In every run** each file has the lines of the names with its slug. -/
theorem logged_of_run (K : Primitives) (calls : List LogCall) (hdir : LogDir home dir t)
    (h : Logged (logFile home dir name) t lines) :
    Logged (logFile home dir name) ((logger K home dir).after t calls)
      (lines ++ calls.flatMap fun a =>
        if slug a.name = slug name ∧ t.accepts (slug name ++ ".log") = true
          then [a.line K] else []) := by
  induction calls generalizing t lines with
  | nil => simpa using h
  | cons a calls ih =>
    have hrest := ih (hdir.step (K := K) (a := a) hslash hplain).2
      (h.step (K := K) (a := a) hslash hplain hdir)
    rw [accepts_step, List.append_assoc] at hrest
    exact hrest

omit hslash hplain in
theorem EmptyHome.entry_eq_none (h : EmptyHome home t) (c : String) :
    t.entry (c :: dir :: home.loc) = none := by
  by_contra hthere
  have hmissing := Tree.isDir_of_entry hthere
  rw [Tree.IsDir, h.empty] at hmissing
  cases hmissing

omit hplain in
theorem EmptyHome.logDir (h : EmptyHome home t) (htaken : t.accepts dir = true) :
    LogDir home dir t := by
  obtain ⟨hresolve, hisdir⟩ := h.dir
  rw [Home.norm_path] at hisdir
  refine ⟨?_, fun k hk => ?_, fun n hn => ?_⟩
  · rw [PathBuf.join_of_no_slash hslash, Tree.named_append, (Tree.resolve_ok.1 hresolve).1]
    simp [Tree.named, htaken]
  · rcases List.suffix_cons_iff.1 hk with rfl | hk
    · rw [Tree.file?, h.empty]
    · rw [Tree.file?, (hisdir.of_suffix hk).entry]
  · exact hn.ne_none (h.entry_eq_none _)

theorem EmptyHome.logged (h : EmptyHome home t) (name : String) :
    Logged (logFile home dir name) t [] := by
  have hnone : t.content (logFile home dir name) = none := by
    rw [Option.eq_none_iff_forall_ne_some]
    intro b hb
    have hfile := Tree.file?_eq_some.1 (Tree.content_eq_some.1 hb).2
    rw [norm_logFile hslash hplain, h.entry_eq_none] at hfile
    cases hfile
  refine ⟨?_, by simp⟩
  rw [hnone]
  rfl

end Step

/-! ### The logs of lobbies -/

theorem EmptyHome.lobbies (h : EmptyHome home t) : LogDir home "lobbies" t :=
  h.logDir (by decide) (h.usual _ (by decide) (by decide) (by decide) (by decide))

/-- What a lobby shows are the calls under each name with its slug. -/
theorem entries_of_run (h : EmptyHome home t) :
    (readLobby home name ((logger K home "lobbies").after t calls)).map
        (fun l => (l.sender, l.text)) =
      calls.flatMap fun a =>
        if slug a.name = slug name ∧ t.accepts (slug name ++ ".log") = true
          then [a.entry K] else [] := by
  have hlogged := logged_of_run (by decide) (by decide) K calls h.lobbies
    (h.logged (by decide) (by decide) name)
  have hread := hlogged.readLog
  rw [List.nil_append] at hread
  rw [readLobby, lobbyLog, ← logFile, hread, List.map_flatMap]
  refine List.flatMap_congr fun a _ => ?_
  split <;> rfl

theorem appended_of_run (h : EmptyHome home t) :
    (((logger K home "lobbies").transcript t calls).filterMap fun x =>
      if x.1.name = name ∧ x.2 = .ok () then some (x.1.entry K) else none) =
    calls.flatMap fun a =>
      if a.name = name ∧ t.accepts (slug name ++ ".log") = true then [a.entry K] else [] := by
  have key : ∀ (calls : List LogCall) (t' : Tree), LogDir home "lobbies" t' →
      t'.accepts = t.accepts →
      (((logger K home "lobbies").transcript t' calls).filterMap fun x =>
        if x.1.name = name ∧ x.2 = .ok () then some (x.1.entry K) else none) =
      calls.flatMap fun a =>
        if a.name = name ∧ t.accepts (slug name ++ ".log") = true then [a.entry K] else [] := by
    intro calls
    induction calls with
    | nil => exact fun _ _ _ => rfl
    | cons a calls ih =>
      intro t' hdir' ha'
      obtain ⟨hok, hnext⟩ := hdir'.step (K := K) (a := a) (by decide) (by decide)
      have hrest := ih _ hnext (accepts_step.trans ha')
      have hiff : (a.name = name ∧ ((logger K home "lobbies").step t' a).1 = .ok ()) ↔
          (a.name = name ∧ t.accepts (slug name ++ ".log") = true) := by
        refine and_congr_right fun hname => ?_
        rw [hok, ha', hname]
      rw [Machine.transcript, List.filterMap_cons, List.flatMap_cons, hrest]
      by_cases hcond : a.name = name ∧ t.accepts (slug name ++ ".log") = true
      · rw [if_pos (hiff.2 hcond), if_pos hcond]
        rfl
      · rw [if_neg fun hc => hcond (hiff.1 hc), if_neg hcond]
        rfl
  exact key calls t h.lobbies rfl

theorem flatMap_ite_eq_iff {α β : Type} {p q : α → Prop} [DecidablePred p] [DecidablePred q]
    {f : α → β} {as : List α} (hqp : ∀ a, q a → p a) :
    (as.flatMap fun a => if p a then [f a] else []) =
        (as.flatMap fun a => if q a then [f a] else []) ↔ ∀ a ∈ as, p a → q a := by
  have hle : ∀ as : List α, (as.flatMap fun a => if q a then [f a] else []).length ≤
      (as.flatMap fun a => if p a then [f a] else []).length := by
    intro as
    induction as with
    | nil => exact le_rfl
    | cons a as ih =>
      rw [List.flatMap_cons, List.flatMap_cons, List.length_append, List.length_append]
      by_cases hq : q a
      · rw [if_pos hq, if_pos (hqp a hq)]
        exact Nat.add_le_add_left ih _
      · rw [if_neg hq, List.length_nil]
        omega
  constructor
  · intro h
    induction as with
    | nil => simp
    | cons a as ih =>
      rw [List.flatMap_cons, List.flatMap_cons] at h
      by_cases hp : p a
      · by_cases hq : q a
        · rw [if_pos hp, if_pos hq] at h
          refine List.forall_mem_cons.2 ⟨fun _ => hq, ih (List.append_cancel_left h)⟩
        · -- one line more on the left, and none more on the right
          have hlen := congrArg List.length h
          rw [if_pos hp, if_neg hq, List.length_append, List.length_append, List.length_singleton,
            List.length_nil] at hlen
          have hrest := hle as
          omega
      · have hq : ¬ q a := fun hq => hp (hqp a hq)
        rw [if_neg hp, if_neg hq] at h
        exact List.forall_mem_cons.2 ⟨fun h' => absurd h' hp, ih h⟩
  · intro h
    refine List.flatMap_congr fun a ha => ?_
    exact if_congr ⟨h a ha, hqp a⟩ rfl rfl

/-- **When a lobby shows its own entries, and nothing else**: if no other name was written under
that has the same slug, or the file system does not take the name of the file. -/
theorem ownEntries_iff (K : Primitives) (calls : List LogCall) (name : String)
    (h : EmptyHome home t) :
    OwnEntries K home t calls name ↔ (t.accepts (slug name ++ ".log") = true →
      ∀ a ∈ calls, slug a.name = slug name → a.name = name) := by
  rw [OwnEntries, entries_of_run h, appended_of_run h, flatMap_ite_eq_iff]
  · constructor
    · exact fun hall ha a hmem hslug => (hall a hmem ⟨hslug, ha⟩).1
    · exact fun hall a hmem hc => ⟨hall hc.2 a hmem hc.1, hc.2⟩
  · rintro a ⟨rfl, ha⟩
    exact ⟨rfl, ha⟩

/-! ### The channels of devices -/

/-- What a message says on the channel of `x`. -/
def saidBy (V : AppEnv) (x : PublicIdentity) (a : Draws × Message) : Option (String × String) :=
  match AppFrame.decode V.frames a.2.payload with
  | .channel (.send text) =>
    if a.2.sender = x then some (x.fingerprint V.primitives, sanitizeText text) else none
  | _ => none

/-- The line that a message adds to the log of its sender. -/
def channelCall (V : AppEnv) (a : Draws × Message) : LogCall where
  name := a.2.sender.fingerprint V.primitives
  sender := a.2.sender
  text := match AppFrame.decode V.frames a.2.payload with
    | .channel (.send text) => text
    | _ => ""
  at_ := a.1.clock 1

theorem EmptyHome.channel (h : EmptyHome home t) : LogDir home "channel" t :=
  h.logDir (by decide) (h.usual _ (by decide) (by decide) (by decide) (by decide))

/-- A name of such characters, without dashes, is its own slug. -/
theorem slug_of_forall (h : ∀ c ∈ name.toList, slugChar c = true ∧ c ≠ '-')
    (hne : name.toList ≠ []) : slug name = name := by
  have hmap : (name.toList.map fun c => if slugChar c = true then c else '-') = name.toList := by
    refine (List.map_congr_left fun c hc => ?_).trans (List.map_id _)
    exact if_pos (h c hc).1
  have hdrop : ∀ cs : List Char, (∀ c ∈ cs, c ≠ '-') → cs.dropWhile (· == '-') = cs := by
    intro cs hcs
    cases cs with
    | nil => rfl
    | cons c cs => exact List.dropWhile_cons_of_neg (by simpa using hcs c List.mem_cons_self)
  have htrim : trimDashes name.toList = name.toList := by
    rw [trimDashes, hdrop _ fun c hc => (h c hc).2,
      hdrop _ fun c hc => (h c (List.mem_reverse.1 hc)).2, List.reverse_reverse]
  rw [slug, hmap, htrim]
  split
  · rename_i hnil
    exact absurd hnil hne
  · rename_i c cs hcs
    rw [← hcs, String.ofList_toList]

theorem slug_fingerprint : slug (x.fingerprint K) = x.fingerprint K := by
  refine slug_of_forall (fun c hc => ?_) fun hnil => ?_
  · have hall : ("0123456789abcdef".toList.all fun c => slugChar c && c != '-') = true := by decide
    simpa using List.all_eq_true.1 hall c (mem_digits_of_mem_hex hc)
  · have hlen := K.length_toList_hexHash x.publicKey.toList
    rw [PublicIdentity.fingerprint] at hnil
    rw [hnil] at hlen
    cases hlen

theorem EmptyHome.accepts_channelLog (h : EmptyHome home t) :
    t.accepts (x.fingerprint K ++ ".log") = true := by
  refine h.usual _ (plain_append (by decide)) ?_ ?_ ?_
  · exact toList_append_no_slash (hex_no_slash _) (by decide)
  · rw [String.toList_append, List.mem_append]
    rintro (hnul | hnul)
    · exact absurd (mem_digits_of_mem_hex hnul) (by decide)
    · exact absurd hnul (by decide)
  · rw [String.utf8ByteSize_append, utf8ByteSize_fingerprint]
    decide

/-- **One message** on a channel. -/
theorem disk_send {V : AppEnv} {s : AppState} {a : Draws × Message} {text : String}
    (h : AppFrame.decode V.frames a.2.payload = .channel (.send text)) :
    ((app V).step s a).2.disk =
      ((logger V.primitives V.home "channel").step s.disk (channelCall V a)).2 := by
  have hstep : (logger V.primitives V.home "channel").step s.disk (channelCall V a) =
      appendChannel V.home (a.1.clock 1) (a.2.sender.fingerprint V.primitives) text s.disk := by
    rw [step_logger, channelCall, h]
    rfl
  rw [hstep]
  simp only [app, AppEnv.handle, h, AppEnv.dispatch, AppEnv.handleChannel, AppState.onDisk]
  cases appendChannel V.home (a.1.clock 1) (a.2.sender.fingerprint V.primitives) text s.disk with
  | mk r disk =>
  cases r with
  | error e => rfl
  | ok u => exact AppState.replied_disk

/-- **All messages** on the channels. -/
theorem disk_sends {V : AppEnv} {s : AppState} {events : List (Draws × Message)}
    (h : ∀ a ∈ events, ∃ text, AppFrame.decode V.frames a.2.payload = .channel (.send text)) :
    ((app V).after s events).disk =
      (logger V.primitives V.home "channel").after s.disk (events.map (channelCall V)) := by
  induction events generalizing s with
  | nil => rfl
  | cons a events ih =>
    obtain ⟨text, htext⟩ := h a List.mem_cons_self
    rw [Machine.after_cons, List.map_cons, Machine.after_cons, ← disk_send htext]
    exact ih fun b hb => h b (List.mem_cons_of_mem _ hb)

/-- **What a device sent on its channel is what its log shows**: one entry for each message, in
order and with its text, whatever it says and whoever else sends in between. -/
theorem channel_spec {V : AppEnv} {s : AppState} {events : List (Draws × Message)}
    (x : PublicIdentity) (hempty : EmptyHome V.home s.disk)
    (hsends : ∀ a ∈ events, ∃ text,
      AppFrame.decode V.frames a.2.payload = .channel (.send text))
    (hcollision : NoCollision V.primitives
      ((x :: events.map fun a => a.2.sender).map (·.publicKey.toList))) :
    (readChannel V.home (x.fingerprint V.primitives) ((app V).after s events).disk).map
        (fun l => (l.sender, l.text)) = events.filterMap (saidBy V x) := by
  have hlogged := logged_of_run (by decide) (by decide) V.primitives
    (events.map (channelCall V)) hempty.channel
    (hempty.logged (by decide) (by decide) (x.fingerprint V.primitives))
  have hread := hlogged.readLog
  rw [List.nil_append, List.flatMap_map] at hread
  rw [readChannel, disk_sends hsends, hread, List.map_flatMap, List.filterMap_eq_flatMap_toList]
  refine List.flatMap_congr fun a ha => ?_
  obtain ⟨text, htext⟩ := hsends a ha
  have hsame : (slug (channelCall V a).name = slug (x.fingerprint V.primitives) ∧
      s.disk.accepts (slug (x.fingerprint V.primitives) ++ ".log") = true) ↔ a.2.sender = x := by
    rw [channelCall, slug_fingerprint, slug_fingerprint]
    constructor
    · rintro ⟨heq, -⟩
      exact hcollision.eq_of_fingerprint
        (List.mem_cons_of_mem _
          (List.mem_map_of_mem (f := fun a : Draws × Message => a.2.sender) ha))
        List.mem_cons_self heq
    · rintro rfl
      exact ⟨rfl, hempty.accepts_channelLog⟩
  rw [saidBy, htext]
  by_cases hx : a.2.sender = x
  · rw [if_pos (hsame.2 hx)]
    simp [hx, LogCall.line, channelCall, htext]
  · rw [if_neg fun h => hx (hsame.1 h)]
    simp [hx]

namespace Photo

theorem emptyHome_settled : EmptyHome device settled.disk where
  dir := ⟨by decide +kernel, by decide +kernel⟩
  empty c := by
    obtain ⟨-, hentry⟩ := (createDirAll_downward (ε := IoError) (t := disk)
      (downward_home device)).1 ⟨by decide +kernel, fun k hk => by
        rcases List.suffix_cons_iff.1 ((Home.norm_path device) ▸ hk) with rfl | hk
        · decide +kernel
        · rw [List.suffix_nil.1 hk]
          decide +kernel⟩
    have hsettled : settled.disk.entry (c :: device.loc) =
        if (c :: device.loc) <:+ device.path.norm then some .dir
          else disk.entry (c :: device.loc) := hentry _
    rw [hsettled, if_neg, disk, Tree.entry_bare_cons]
    intro hsuffix
    have hlen := hsuffix.length_le
    rw [Home.norm_path] at hlen
    simp at hlen
  usual c _ _ _ _ := by
    have ha : settled.disk.accepts = disk.accepts := accepts_createDirAll
    rw [ha]
    rfl

/-- A line of the visitor in the log of a lobby. -/
def remark (name : String) : LogCall := ⟨name, visitor.pub .sample, "hi", 0⟩

/-- The visitor says two lines with a mark of each kind, and the owner speaks in between. -/
def talk : List (Draws × Message) :=
  [(drawn, sentBy visitor (.channel (.send "a\tb\nc"))),
    (drawn, sentBy owner (.channel (.send "d"))),
    (drawn, sentBy visitor (.channel (.send "\r")))]

end Photo

open Photo in
/-- Two lobbies that are told apart. -/
theorem ownEntries_iff_retreat :
    OwnEntries .sample device settled.disk [remark "retreat", remark "beach"] "retreat" :=
  (ownEntries_iff .sample _ "retreat" emptyHome_settled).2 fun _ => by decide

open Photo in
/-- Two lobbies that are not: what is written in the one is read in the other. -/
theorem not_ownEntries : ¬ ∀ calls name, OwnEntries .sample device settled.disk calls name := by
  intro h
  have hown := h [remark "the beach"] "the-beach"
  rw [OwnEntries, entries_of_run emptyHome_settled, appended_of_run emptyHome_settled] at hown
  exact absurd hown (by decide +kernel)

open Photo in
/-- What the visitor said. -/
theorem channel_spec_talk :
    (readChannel device ((visitor.pub .sample).fingerprint .sample)
        ((app env).after settled talk).disk).map (fun l => (l.sender, l.text)) =
      [((visitor.pub .sample).fingerprint .sample, "a\tb c"),
        ((visitor.pub .sample).fingerprint .sample, " ")] := by
  have hsends : ∀ a ∈ talk, ∃ text,
      AppFrame.decode env.frames a.2.payload = .channel (.send text) := by
    intro a ha
    simp only [talk, List.mem_cons, List.not_mem_nil, or_false] at ha
    rcases ha with rfl | rfl | rfl <;> exact ⟨_, decode_sentBy _ _⟩
  have hspec := channel_spec (visitor.pub .sample) emptyHome_settled hsends (by decide +kernel)
  exact hspec.trans (by decide +kernel)

end Neonet
