import Mathlib.Logic.Function.Basic
import Neonet.Lib.Kept

/-!
# Sessions that share a value

A value is kept in a file.  A session takes a copy of it, edits the copy, and puts it back at the
end, whatever happened to the file meanwhile; several sessions may be open at once, and one may end
without putting anything back.

* `Editor` : how a copy is taken, edited and put back.
* `Sessions` : the value that is kept, and the copies.
* `Editor.log` : the editor that keeps what was done in which session, and nothing else.
* `Editor.run_eq_replay` : **the value is what the sessions in its log make of the first one.**
* `Saver` : an editor whose value is in a file; `Saver.Runs` : its sessions, with failures and
  crashes.
* `Saver.Runs.refines` : **the file refines the value.**
-/

/-- What happens to a session. -/
inductive SessionEvent (ι : Type*)
  | opened (n : ℕ)
  | edited (n : ℕ) (i : ι)
  | saved (n : ℕ)
  | lost (n : ℕ)

namespace SessionEvent

variable {ι : Type*}

/-- Whose event it is. -/
def session : SessionEvent ι → ℕ
  | .opened n | .edited n _ | .saved n | .lost n => n

/-- The edit of that session. -/
def editOf (n : ℕ) : SessionEvent ι → Option ι
  | .edited m i => if m = n then some i else none
  | _ => none

/-- In these events the session does nothing but edit. -/
def OnlyEdits (n : ℕ) (events : List (SessionEvent ι)) : Prop :=
  ∀ e ∈ events, e.session = n → ∃ i, e = .edited n i

end SessionEvent

/-- How a copy is taken, edited and put back. -/
structure Editor (κ γ ι : Type*) where
  take : κ → γ
  edit : γ → ι → γ
  put : γ → κ

/-- The value that is kept, and the copies. -/
@[ext]
structure Sessions (κ γ : Type*) where
  kept : κ
  copies : ℕ → Option γ

namespace Sessions

variable {κ γ κ' γ' : Type*}

/-- No session is open. -/
def start (k : κ) : Sessions κ γ := ⟨k, fun _ => none⟩

/-- The same sessions with other values. -/
def map (f : κ → κ') (g : γ → γ') (s : Sessions κ γ) : Sessions κ' γ' :=
  ⟨f s.kept, fun n => (s.copies n).map g⟩

end Sessions

namespace Editor

variable {κ γ ι κ' γ' : Type*}

/-- One event. -/
def step (E : Editor κ γ ι) (s : Sessions κ γ) : SessionEvent ι → Sessions κ γ
  | .opened n => ⟨s.kept, Function.update s.copies n (some (E.take s.kept))⟩
  | .edited n i => ⟨s.kept, Function.update s.copies n ((s.copies n).map (E.edit · i))⟩
  | .saved n => ⟨((s.copies n).map E.put).getD s.kept, Function.update s.copies n none⟩
  | .lost n => ⟨s.kept, Function.update s.copies n none⟩

theorem step_edited {E : Editor κ γ ι} {s : Sessions κ γ} {n : ℕ} {c : γ} {i : ι}
    (h : s.copies n = some c) :
    E.step s (.edited n i) = ⟨s.kept, Function.update s.copies n (some (E.edit c i))⟩ := by
  rw [step, h]
  rfl

theorem step_saved {E : Editor κ γ ι} {s : Sessions κ γ} {n : ℕ} {c : γ}
    (h : s.copies n = some c) :
    E.step s (.saved n) = ⟨E.put c, Function.update s.copies n none⟩ := by
  rw [step, h]
  rfl

/-- The events, one after the other. -/
def run (E : Editor κ γ ι) (k : κ) (events : List (SessionEvent ι)) : Sessions κ γ :=
  events.foldl E.step (.start k)

@[simp] theorem run_concat {E : Editor κ γ ι} {k : κ} {events : List (SessionEvent ι)}
    {e : SessionEvent ι} : E.run k (events ++ [e]) = E.step (E.run k events) e :=
  List.foldl_concat ..

theorem copies_of_onlyEdits {E : Editor κ γ ι} {k : κ} {n : ℕ} {c : γ}
    {pre mid : List (SessionEvent ι)} (hpre : (E.run k pre).copies n = some c)
    (hmid : SessionEvent.OnlyEdits n mid) :
    (E.run k (pre ++ mid)).copies n =
      some ((mid.filterMap (SessionEvent.editOf n)).foldl E.edit c) := by
  induction mid using List.reverseRecOn with
  | nil => rwa [List.append_nil]
  | append_singleton mid e ih =>
    have hcopy := ih fun e he => hmid e (List.mem_append_left _ he)
    have hlast := hmid e (by simp)
    have hother : ∀ {m : ℕ} {c : Option γ}, m ≠ n →
        Function.update (E.run k (pre ++ mid)).copies m c n =
          (E.run k (pre ++ mid)).copies n := fun hm =>
      Function.update_of_ne (Ne.symm hm) _ _
    rw [← List.append_assoc, run_concat, List.filterMap_append, List.foldl_append]
    cases e with
    | opened m | saved m | lost m =>
      refine (hother fun hm => ?_).trans hcopy
      obtain ⟨i, hi⟩ := hlast hm
      cases hi
    | edited m i =>
      by_cases hm : m = n
      · subst hm
        rw [step_edited hcopy]
        simp [SessionEvent.editOf]
      · refine (hother hm).trans (hcopy.trans ?_)
        simp [SessionEvent.editOf, hm]

/-- What is kept when a session ends: whatever others did, it is this session's work on the value
that it found. -/
theorem kept_of_session {E : Editor κ γ ι} {k : κ} {n : ℕ} {pre mid : List (SessionEvent ι)}
    (hmid : SessionEvent.OnlyEdits n mid) :
    (E.run k (pre ++ .opened n :: (mid ++ [.saved n]))).kept =
      E.put ((mid.filterMap (SessionEvent.editOf n)).foldl E.edit (E.take (E.run k pre).kept)) := by
  have hopened : (E.run k (pre ++ [.opened n])).copies n = some (E.take (E.run k pre).kept) := by
    rw [run_concat]
    exact Function.update_self _ _ _
  have hcopy := copies_of_onlyEdits hopened hmid
  have hsplit : pre ++ SessionEvent.opened n :: (mid ++ [.saved n]) =
      (pre ++ [.opened n] ++ mid) ++ [.saved n] := by simp
  rw [hsplit, run_concat, step_saved hcopy]

/-- The editor that keeps what was done, session by session. -/
def log (ι : Type*) : Editor (List (List ι)) (List (List ι) × List ι) ι where
  take l := (l, [])
  edit g i := (g.1, g.2 ++ [i])
  put g := g.1 ++ [g.2]

/-- A session from its beginning to its end. -/
def session (E : Editor κ γ ι) (k : κ) (is : List ι) : γ := is.foldl E.edit (E.take k)

/-- One session after the other. -/
def replay (E : Editor κ γ ι) (k : κ) (l : List (List ι)) : κ :=
  l.foldl (fun k is => E.put (E.session k is)) k

section Map

variable {E : Editor κ γ ι} {E' : Editor κ' γ' ι} {f : κ → κ'} {g : γ → γ'}

/-- Editors that do the same to related values. -/
structure Maps (E : Editor κ γ ι) (E' : Editor κ' γ' ι) (f : κ → κ') (g : γ → γ') : Prop where
  take : ∀ k, g (E.take k) = E'.take (f k)
  edit : ∀ c i, g (E.edit c i) = E'.edit (g c) i
  put : ∀ c, f (E.put c) = E'.put (g c)

theorem map_update {h : ℕ → Option γ} {n : ℕ} {c : Option γ} :
    (fun m => (Function.update h n c m).map g) =
      Function.update (fun m => (h m).map g) n (c.map g) := by
  funext m
  by_cases hm : m = n
  · subst hm
    rw [Function.update_self, Function.update_self]
  · rw [Function.update_of_ne hm, Function.update_of_ne hm]

theorem Maps.step (h : Maps E E' f g) (s : Sessions κ γ) (e : SessionEvent ι) :
    (E.step s e).map f g = E'.step (s.map f g) e := by
  cases e with
  | opened n =>
    refine Sessions.ext rfl (map_update.trans ?_)
    rw [Option.map_some, h.take]
    rfl
  | edited n i =>
    refine Sessions.ext rfl (map_update.trans ?_)
    have hedit : g ∘ (E.edit · i) = (E'.edit · i) ∘ g := funext fun c => h.edit c i
    rw [Option.map_map, hedit, ← Option.map_map]
    rfl
  | saved n =>
    refine Sessions.ext ?_ map_update
    show f (((s.copies n).map E.put).getD s.kept) =
      (((s.copies n).map g).map E'.put).getD (f s.kept)
    cases s.copies n with
    | none => rfl
    | some c => exact h.put c
  | lost n => exact Sessions.ext rfl map_update

/-- Related editors stay related in every run. -/
theorem Maps.run (h : Maps E E' f g) (k : κ) (events : List (SessionEvent ι)) :
    (E.run k events).map f g = E'.run (f k) events := by
  induction events using List.reverseRecOn with
  | nil => rfl
  | append_singleton events e ih =>
    rw [run_concat, h.step, ih, run_concat]

end Map

variable {E : Editor κ γ ι} {k : κ}

theorem maps_log : Maps (log ι) E (E.replay k) fun c => E.session (E.replay k c.1) c.2 where
  take _ := rfl
  edit c i := by
    rw [log, session, List.foldl_concat]
    rfl
  put c := by
    rw [log, replay, List.foldl_concat]
    rfl

/-- **The value is what the sessions in its log make of the first one.** -/
theorem run_eq_replay (events : List (SessionEvent ι)) :
    E.run k events = ((log ι).run [] events).map (E.replay k)
      fun c => E.session (E.replay k c.1) c.2 :=
  (maps_log.run [] events).symm

/-- If the copy is the value itself, the sessions make no difference. -/
theorem replay_eq_foldl {E : Editor κ κ ι} (htake : ∀ k, E.take k = k) (hput : ∀ k, E.put k = k)
    (l : List (List ι)) : E.replay k l = l.flatten.foldl E.edit k := by
  induction l generalizing k with
  | nil => rfl
  | cons is l ih =>
    rw [List.flatten_cons, List.foldl_append, ← ih]
    show E.replay (E.put (is.foldl E.edit (E.take k))) l = _
    rw [hput, htake]

end Editor

/-! ### Sessions on a file -/

namespace FileTree

open FsM

/-- An editor whose value is kept in a file. -/
structure Saver (κ γ ι : Type) extends Editor κ γ ι where
  dir : PathBuf
  tmp : String
  name : String
  /-- What is read from the file, if it can be read. -/
  decode : Option Bytes → κ
  encode : κ → Bytes
  /-- The edit does not bring the session down. -/
  Survives : γ → ι → Prop
  decode_encode : ∀ k, decode (some (encode k)) = k
  downward : dir.Downward
  noSlash : '/' ∉ name.toList
  plain : Plain name
  noSlash_tmp : '/' ∉ tmp.toList
  plain_tmp : Plain tmp
  tmp_ne : tmp ≠ name

namespace Saver

variable {κ γ ι : Type} (S : Saver κ γ ι) (ε : Type) [OfOs ε]

/-- The file. -/
def path : PathBuf := S.dir.join S.name

/-- The value in the file. -/
def load (t : Tree) : κ := S.decode (t.content S.path)

/-- A copy is put back. -/
def save (c : γ) : FsM ε Unit := keepIn S.dir S.tmp S.name (S.encode (S.put c))

/-- What a crash may leave of that: it happens while the directory is created, or after that. -/
def SaveCrash (c : γ) (t t' : Tree) : Prop :=
  CrashDirs ε S.dir t t' ∨
    ∃ t₁, (createDirAll S.dir : FsM ε Unit) t = (.ok (), t₁) ∧
      DirOp.Crash ε S.dir (replaceOps S.tmp S.name (S.encode (S.put c))) t₁ t'

/-- Sessions that share the file, and what other programs do to other files. -/
inductive Runs (t₀ : Tree) : List (SessionEvent ι) → Tree → (ℕ → Option γ) → Prop
  | started : Runs t₀ [] t₀ fun _ => none
  | opened {events : List (SessionEvent ι)} {t : Tree} {copies : ℕ → Option γ} {n : ℕ}
      (before : Runs t₀ events t copies) (free : copies n = none) :
      Runs t₀ (events ++ [.opened n]) t (Function.update copies n (some (S.take (S.load t))))
  | edited {events : List (SessionEvent ι)} {t : Tree} {copies : ℕ → Option γ} {n : ℕ} {c : γ}
      {i : ι} (before : Runs t₀ events t copies) (copy : copies n = some c)
      (survives : S.Survives c i) :
      Runs t₀ (events ++ [.edited n i]) t (Function.update copies n (some (S.edit c i)))
  | saved {events : List (SessionEvent ι)} {t t' : Tree} {copies : ℕ → Option γ} {n : ℕ} {c : γ}
      (before : Runs t₀ events t copies) (copy : copies n = some c)
      (saved : S.save ε c t = (.ok (), t')) :
      Runs t₀ (events ++ [.saved n]) t' (Function.update copies n none)
  | failed {events : List (SessionEvent ι)} {t t' : Tree} {copies : ℕ → Option γ} {n : ℕ} {c : γ}
      {e : ε} (before : Runs t₀ events t copies) (copy : copies n = some c)
      (failed : S.save ε c t = (.error e, t')) :
      Runs t₀ (events ++ [.lost n]) t' (Function.update copies n none)
  /-- The session ends before it puts anything back. -/
  | killed {events : List (SessionEvent ι)} {t : Tree} {copies : ℕ → Option γ} {n : ℕ}
      (before : Runs t₀ events t copies) :
      Runs t₀ (events ++ [.lost n]) t (Function.update copies n none)
  /-- It ends while it does, and the file tells whether it was in time. -/
  | crashed {events : List (SessionEvent ι)} {t t' : Tree} {copies : ℕ → Option γ} {n : ℕ} {c : γ}
      (before : Runs t₀ events t copies) (copy : copies n = some c)
      (crashed : S.SaveCrash ε c t t') :
      Runs t₀ (events ++ [if t'.content S.path = t.content S.path then .lost n else .saved n]) t'
        (Function.update copies n none)
  | other {events : List (SessionEvent ι)} {t t' : Tree} {copies : ℕ → Option γ}
      (before : Runs t₀ events t copies) (frame : Frame {l | l ≠ S.path.norm} t t') :
      Runs t₀ events t' copies

variable {S ε} {t t₀ t' : Tree} {c : γ} {events : List (SessionEvent ι)} {copies : ℕ → Option γ}

theorem content_of_avoids {s : Set Loc} (h : Frame s t t') (hpath : S.path.norm ∉ s) :
    t'.content S.path = t.content S.path :=
  Tree.content_of_frame h S.downward S.noSlash S.plain hpath

theorem norm_tmp_ne : S.path.norm ≠ (S.dir.join S.tmp).norm := by
  rw [path, PathBuf.norm_join S.noSlash S.plain, PathBuf.norm_join S.noSlash_tmp S.plain_tmp]
  exact fun heq => S.tmp_ne (List.cons.inj heq).1.symm

theorem content_createDirAll {r : Except ε Unit}
    (h : (createDirAll S.dir : FsM ε Unit) t = (r, t')) :
    t'.content S.path = t.content S.path := by
  have hframe : Frame ∅ t ((createDirAll S.dir : FsM ε Unit) t).2 := touches_createDirAll t
  rw [h] at hframe
  exact content_of_avoids hframe (Set.notMem_empty _)

theorem content_of_saved (h : S.save ε c t = (.ok (), t')) :
    t'.content S.path = some (S.encode (S.put c)) := by
  obtain ⟨_, t₁, -, hreplace⟩ := bind_ok.1 h
  rcases replaceFile_cases hreplace with ⟨-, hfile, -⟩ | ⟨⟨e, he⟩, -⟩
  · exact Tree.content_eq_some.2 hfile
  · cases he

theorem content_of_failed {e : ε} (h : S.save ε c t = (.error e, t')) :
    t'.content S.path = t.content S.path := by
  rcases bind_cases h with ⟨e', hcreate, -⟩ | ⟨_, t₁, hcreate, hreplace⟩
  · exact content_createDirAll hcreate
  · rcases replaceFile_cases hreplace with ⟨he, -⟩ | ⟨-, hframe⟩
    · cases he
    · exact (content_of_avoids hframe norm_tmp_ne).trans (content_createDirAll hcreate)

/-- **A crash leaves the old value or the new one.** -/
theorem content_of_crashed (h : S.SaveCrash ε c t t') :
    t'.content S.path = t.content S.path ∨ t'.content S.path = some (S.encode (S.put c)) := by
  rcases h with hdirs | ⟨t₁, hcreate, hcrash⟩
  · exact .inl (content_of_avoids hdirs.frame (Set.notMem_empty _))
  · rw [← content_createDirAll hcreate]
    exact content_of_crash S.downward S.noSlash S.plain S.noSlash_tmp S.plain_tmp S.tmp_ne hcrash

theorem load_congr (h : t'.content S.path = t.content S.path) : S.load t' = S.load t :=
  congrArg S.decode h

theorem load_of_content (h : t'.content S.path = some (S.encode (S.put c))) :
    S.load t' = S.put c := by
  rw [load, h, S.decode_encode]

/-- **The file refines the value**: the sessions on the file are those of the editor. -/
theorem Runs.refines (h : S.Runs ε t₀ events t copies) :
    S.toEditor.run (S.load t₀) events = ⟨S.load t, copies⟩ := by
  induction h with
  | started => rfl
  | opened before free ih => rw [Editor.run_concat, ih]; rfl
  | edited before copy survives ih => rw [Editor.run_concat, ih, Editor.step_edited copy]
  | saved before copy saved ih =>
    rw [Editor.run_concat, ih, Editor.step_saved copy, load_of_content (content_of_saved saved)]
  | failed before copy failed ih =>
    rw [Editor.run_concat, ih, Editor.step, load_congr (content_of_failed failed)]
  | killed before ih => rw [Editor.run_concat, ih]; rfl
  | crashed before copy crashed ih =>
    rw [Editor.run_concat, ih]
    split_ifs with hsame
    · rw [Editor.step, load_congr hsame]
    · have hnew := (content_of_crashed crashed).resolve_left hsame
      rw [Editor.step_saved copy, load_of_content hnew]
  | other before frame ih =>
    rw [ih, load_congr (content_of_avoids frame fun hne => hne rfl)]

end Saver

end FileTree
