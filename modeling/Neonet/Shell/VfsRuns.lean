import Neonet.Shell.Vfs

/-!
# Using the virtual drive

Two things that a drive should keep up whatever is done with it: that no operation panics, and that
the current directory is one.

* `neverPanics_iff` : **no operation of a run panics** exactly if none writes to a directory.
* `CwdExists` : the current directory is a directory of the drive.
* `cwdExists_step` : **one operation** keeps it exactly if it does not remove it, and does not give
  a file its name or that of a directory above it.
* `keepsCwd_iff` : the same for all operations of a run.
-/

namespace Neonet

/-! ### Panics -/

section Spec

variable (v : Vfs)

/-- Where the command writes a text, if it gets that far. -/
def VfsCommand.target : VfsCommand → Option (List String)
  | .write path _ => some (v.splitPath path)
  | .copy src dst | .move src dst =>
    match v.cat src with
    | .ok _ => some (v.splitPath dst)
    | .error _ => none
  | _ => none

/-- The command writes a text to a directory, other than the root. -/
def VfsCommand.WritesToDir (c : VfsCommand) : Prop :=
  ∃ p, c.target v = some p ∧ p ≠ [] ∧ v.kindAt p = some .dir

/-- No operation panics. -/
def NeverPanics (commands : List VfsCommand) : Prop :=
  ∀ e ∈ vfsRun.transcript Vfs.new commands, e.2 ≠ .panicked

end Spec

variable {v v' : Vfs} {c : VfsCommand} {p q : List String} {path text src dst : String}

theorem holds_of_dir (h : p ≠ []) (hdir : v.kindAt p = some .dir) : v.Holds p := by
  obtain ⟨parent, name, rfl⟩ := List.eq_nil_or_concat p |>.resolve_left h
  rw [List.concat_eq_append] at *
  refine ⟨parent, name, rfl, NameTree.kindAt_of_append (q := [name]) ?_ (List.cons_ne_nil _ _)⟩
  exact fun hnone => by cases hnone.symm.trans hdir

theorem ne_nil_of_holds (h : v.Holds p) : p ≠ [] := by
  obtain ⟨parent, name, rfl, -⟩ := h
  simp

/-- **Writing panics** exactly if a directory is where the file should be. -/
theorem write_panics_iff : (v.write path text).1 = .panicked ↔
    v.splitPath path ≠ [] ∧ v.kindAt (v.splitPath path) = some .dir := by
  rcases Vfs.write_cases v path text with
    ⟨e, hwrite, hno⟩ | ⟨hholds, ⟨es, v', hwrite, hdir, -⟩ | ⟨content, v', hwrite, hfile, -⟩⟩
  · rw [hwrite]
    exact iff_of_false (fun h => by cases h) fun h => hno (holds_of_dir h.1 h.2)
  · rw [hwrite]
    exact iff_of_true rfl ⟨ne_nil_of_holds hholds, NameTree.kindAt_eq_dir.2 ⟨es, hdir⟩⟩
  · rw [hwrite]
    exact iff_of_false (fun h => by cases h) fun h => Vfs.kindAt_of_touched hfile h.2

theorem move_panics_iff : (v.move src dst).1 = .panicked ↔
    ∃ content, v.cat src = .ok content ∧ (v.write dst content).1 = .panicked := by
  rcases Vfs.move_cases v src dst with
    ⟨e, hmove, hno⟩ | ⟨content, hsrc, hholds, hrest⟩
  · rw [hmove]
    refine iff_of_false (fun h => by cases h) fun ⟨content, hcat, hwrite⟩ => ?_
    rcases hno with hno | hno
    · exact hno content (Vfs.cat_ok.1 hcat)
    · obtain ⟨hne, hdir⟩ := write_panics_iff.1 hwrite
      exact hno (holds_of_dir hne hdir)
  · have hcat : ∀ content', v.cat src = .ok content' ↔ content' = content := fun content' => by
      rw [Vfs.cat_ok, hsrc]
      simp [eq_comm]
    simp only [hcat, exists_eq_left, write_panics_iff]
    rcases hrest with ⟨es, v', hmove, hdir, -⟩ | ⟨before, v₁, v', hmove, hbefore, -⟩
    · rw [hmove]
      exact iff_of_true rfl ⟨ne_nil_of_holds hholds, NameTree.kindAt_eq_dir.2 ⟨es, hdir⟩⟩
    · rw [hmove]
      exact iff_of_false (fun h => by cases h) fun h => Vfs.kindAt_of_touched hbefore h.2

theorem answer_eq_panicked {r : Ran Unit} : r.answer = .panicked ↔ r = .panicked := by
  cases r with
  | returned r => exact iff_of_false (fun h => by cases h) fun h => by cases h
  | panicked => exact iff_of_true rfl rfl

/-- **One operation** panics exactly if it writes to a directory. -/
theorem panicked_iff : (vfsRun.step v c).1 = .panicked ↔ c.WritesToDir v := by
  have hquiet : ∀ {r : Ran Unit}, r ≠ .panicked → c.target v = none →
      (r.answer = .panicked ↔ c.WritesToDir v) := by
    intro r hr htarget
    rw [answer_eq_panicked]
    refine iff_of_false hr ?_
    rintro ⟨p, hp, -⟩
    cases htarget.symm.trans hp
  have hwrites : ∀ {p : List String}, c.target v = some p →
      (c.WritesToDir v ↔ p ≠ [] ∧ v.kindAt p = some .dir) := by
    intro p hp
    rw [VfsCommand.WritesToDir, hp]
    simp
  cases c with
  -- Only `write`, `copy` and `move` have a target; the commands before them never panic.
  | ls | cat | grep =>
    refine iff_of_false (fun h => by cases h) ?_
    rintro ⟨p, hp, -⟩
    cases hp
  | cd path =>
    refine hquiet (r := (v.cd path).1) ?_ rfl
    rcases Vfs.cd_cases v path with ⟨e, h⟩ | ⟨h, -⟩ <;> simp [h]
  | mkdir path =>
    refine hquiet (r := (v.mkdir path).1) ?_ rfl
    rcases Vfs.mkdir_cases v path with ⟨e, h⟩ | ⟨v', h, -⟩ <;> simp [h]
  | rmdir path =>
    refine hquiet (r := (v.rmdir path).1) ?_ rfl
    rcases Vfs.rmdir_cases v path with ⟨e, h, -⟩ | ⟨v', h, -⟩ <;> simp [h]
  | rm path =>
    refine hquiet (r := (v.rm path).1) ?_ rfl
    rcases Vfs.rm_cases v path with ⟨e, h, -⟩ | ⟨v', n, h, -⟩ <;> simp [h]
  | touch path =>
    refine hquiet (r := (v.touch path).1) ?_ rfl
    rcases Vfs.touch_cases v path with ⟨e, h, -⟩ | ⟨v', h, -⟩ <;> simp [h]
  | rename old new =>
    refine hquiet (r := (v.rename old new).1) ?_ rfl
    rcases Vfs.rename_cases v old new with ⟨e, h, -⟩ | ⟨_, _, _, _, _, _, _, v₁, v', h, -⟩ <;>
      simp [h]
  | write path text =>
    rw [hwrites rfl, ← write_panics_iff]
    exact answer_eq_panicked
  -- A copy that cannot read its source never writes, and has no target either.
  | copy src dst =>
    cases hcat : v.cat src with
    | error e =>
      have hcopy : v.copy src dst = (.failed e, v) := by rw [Vfs.copy, hcat]
      refine hquiet (r := (v.copy src dst).1) (by rw [hcopy]; exact fun h => by cases h) ?_
      rw [VfsCommand.target, hcat]
    | ok content =>
      have hcopy : v.copy src dst = v.write dst content := by rw [Vfs.copy, hcat]
      rw [hwrites (p := v.splitPath dst) (by rw [VfsCommand.target, hcat]), ← write_panics_iff,
        ← hcopy]
      exact answer_eq_panicked
  | move src dst =>
    refine answer_eq_panicked.trans (move_panics_iff.trans ?_)
    cases hcat : v.cat src with
    | error e =>
      refine iff_of_false ?_ ?_
      · rintro ⟨content, h, -⟩
        cases h
      · rintro ⟨p, hp, -⟩
        rw [VfsCommand.target, hcat] at hp
        cases hp
    | ok content =>
      rw [hwrites (p := v.splitPath dst) (by rw [VfsCommand.target, hcat])]
      simp [write_panics_iff]

/-- **No operation of a run panics**, whatever the run, exactly if no step writes to a directory. -/
theorem neverPanics_iff (commands : List VfsCommand) :
    NeverPanics commands ↔ vfsRun.Along (fun v c => ¬ c.WritesToDir v) Vfs.new commands :=
  Machine.along_answer_iff (M := vfsRun) (Q := fun r : Ran VfsAnswer => r ≠ .panicked)
    fun _ _ => not_congr panicked_iff

/-- A text is written to a directory that every new drive has. -/
theorem not_neverPanics : ¬ ∀ commands, NeverPanics commands := by
  intro h
  refine h [.write "/bin" "x"] _ (List.mem_singleton_self _) (panicked_iff.2 ?_)
  exact ⟨["bin"], by decide +kernel, by simp, by decide +kernel⟩

/-! ### The current directory -/

/-- The current directory is a directory of the drive. -/
def Vfs.CwdExists (v : Vfs) : Prop := v.kindAt v.cwd = some .dir

/-- The current directory is there after every operation. -/
def KeepsCwd (commands : List VfsCommand) : Prop :=
  ∀ pre, pre <+: commands → (vfsRun.after Vfs.new pre).CwdExists

/-- The command removes the current directory, or gives a file the name of a directory that leads
to it. -/
def VfsCommand.RemovesCwd (v : Vfs) : VfsCommand → Prop
  | .rmdir path | .rm path =>
    v.splitPath path = v.cwd ∧ v.cwd ≠ [] ∧ v.tree.get v.cwd = some (.dir [])
  | .rename old new => v.splitPath new <+: v.cwd ∧
    ∃ content parent oldName newName, v.splitPath old = parent ++ [oldName] ∧
      v.splitPath new = parent ++ [newName] ∧ v.kindAt (v.splitPath old) = some (.file content)
  | _ => False

/-- Nothing but directories leads to the current directory. -/
theorem not_prefix_cwd (h : v.CwdExists) (hp : v.kindAt p ≠ some .dir) : ¬ p <+: v.cwd := by
  rintro ⟨q, hq⟩
  rw [Vfs.CwdExists, ← hq] at h
  cases q with
  | nil => exact hp (by rwa [List.append_nil] at h)
  | cons first rest =>
    rw [Vfs.kindAt, NameTree.kindAt_append_of_ne_dir hp (List.cons_ne_nil _ _)] at h
    cases h

theorem cwdExists_of_becomes {k : List String → Option (NameTree.Kind String)} (h : v.CwdExists)
    (hbecomes : v.Becomes p k v') :
    v'.CwdExists ↔ ∀ q, v.cwd = p ++ q → k q = some .dir := by
  rw [Vfs.CwdExists, hbecomes.cwd]
  constructor
  · rintro h' q hq
    rw [← hbecomes.at_append, ← hq, h']
  · intro hk
    by_cases hpq : p <+: v.cwd
    · obtain ⟨q, hq⟩ := hpq
      rw [← hq, hbecomes.at_append]
      exact hk q hq.symm
    · rw [hbecomes.elsewhere _ hpq]
      exact h

theorem cwdExists_of_ne_dir {k : List String → Option (NameTree.Kind String)} (h : v.CwdExists)
    (hbecomes : v.Becomes p k v') (hp : v.kindAt p ≠ some .dir) : v'.CwdExists :=
  (cwdExists_of_becomes h hbecomes).2 fun q hq => absurd ⟨q, hq.symm⟩ (not_prefix_cwd h hp)

theorem cwdExists_of_same {n : VfsNode} (h : v.CwdExists) (hbecomes : v.Becomes p n.kindAt v')
    (hn : v.tree.get p = some n) : v'.CwdExists := by
  refine (cwdExists_of_becomes h hbecomes).2 fun q hq => ?_
  rw [Vfs.CwdExists, hq, Vfs.kindAt, NameTree.kindAt_append, hn] at h
  exact h

/-- What is removed is empty: it is the current directory, or does not lead there. -/
theorem cwdExists_removed {n : VfsNode} (h : v.CwdExists)
    (hbecomes : v.Becomes p (fun _ => none) v') (hn : v.tree.get p = some n)
    (hempty : n.entries = []) :
    v'.CwdExists ↔ p ≠ v.cwd := by
  rw [cwdExists_of_becomes h hbecomes]
  constructor
  · rintro hk rfl
    cases hk [] (List.append_nil _).symm
  · intro hne q hq
    cases q with
    | nil => exact absurd (hq.trans (List.append_nil _)).symm hne
    | cons first rest =>
      rw [Vfs.CwdExists, hq, Vfs.kindAt, NameTree.kindAt_append, hn, Option.bind_some,
        NameTree.kindAt_cons, hempty] at h
      cases h

theorem removes_iff {n : VfsNode} (h : v.CwdExists) (hn : v.tree.get p = some n)
    (hempty : n.entries = []) (hne : p ≠ []) :
    p ≠ v.cwd ↔ ¬ (p = v.cwd ∧ v.cwd ≠ [] ∧ v.tree.get v.cwd = some (.dir [])) := by
  refine not_congr ⟨?_, fun h => h.1⟩
  rintro rfl
  obtain ⟨es, hes⟩ := NameTree.kindAt_eq_dir.1 h
  obtain rfl := Option.some.inj (hn.symm.trans hes)
  obtain rfl : es = [] := hempty
  exact ⟨rfl, hne, hes⟩

theorem cwdExists_write (h : v.CwdExists) : (v.write path text).2.CwdExists := by
  rcases Vfs.write_cases v path text with
    ⟨e, hwrite, -⟩ | ⟨-, ⟨es, v', hwrite, hdir, hbecomes⟩ | ⟨content, v', hwrite, hfile, hbecomes⟩⟩
  · rwa [hwrite]
  · rw [hwrite]
    exact cwdExists_of_same h hbecomes hdir
  · rw [hwrite]
    exact cwdExists_of_ne_dir h hbecomes (Vfs.kindAt_of_touched hfile)

theorem cwdExists_move (h : v.CwdExists) : (v.move src dst).2.CwdExists := by
  rcases Vfs.move_cases v src dst with
    ⟨e, hmove, -⟩ | ⟨content, hsrc, -, ⟨es, v', hmove, hdir, hbecomes⟩ |
      ⟨before, v₁, v', hmove, hbefore, hbecomes, hremoved⟩⟩
  · rwa [hmove]
  · rw [hmove]
    exact cwdExists_of_same h hbecomes hdir
  · rw [hmove]
    obtain ⟨text, htext⟩ := Vfs.kindAt_of_written hbefore hbecomes hsrc
    refine cwdExists_of_ne_dir (cwdExists_of_ne_dir h hbecomes (Vfs.kindAt_of_touched hbefore))
      hremoved fun hdir => ?_
    cases htext.symm.trans hdir

theorem cwdExists_touch (h : v.CwdExists) : (v.touch path).2.CwdExists := by
  rcases Vfs.touch_cases v path with ⟨e, htouch, -⟩ | ⟨v', htouch, -, hbecomes⟩
  · rwa [htouch]
  · rw [htouch]
    cases hget : v.tree.get (v.splitPath path) with
    | none =>
      refine cwdExists_of_ne_dir h hbecomes ?_
      rw [Vfs.kindAt, NameTree.kindAt, hget]
      exact fun h => by cases h
    | some n =>
      rw [hget] at hbecomes
      exact cwdExists_of_same h hbecomes hget

/-- **One operation** keeps the current directory exactly if it does not remove it. -/
theorem cwdExists_step (h : v.CwdExists) :
    (vfsRun.step v c).2.CwdExists ↔ ¬ c.RemovesCwd v := by
  have hkeeps : ∀ {v' : Vfs}, v'.CwdExists → ¬ c.RemovesCwd v →
      (v'.CwdExists ↔ ¬ c.RemovesCwd v) := fun h' hno => iff_of_true h' hno
  cases c with
  | ls | cat | grep => exact hkeeps h id
  | cd path =>
    refine hkeeps ?_ id
    show (v.cd path).2.CwdExists
    rcases Vfs.cd_cases v path with ⟨e, hcd⟩ | ⟨hcd, hdir⟩
    · rwa [hcd]
    · rw [hcd]
      exact hdir
  | mkdir path =>
    refine hkeeps ?_ id
    show (v.mkdir path).2.CwdExists
    rcases Vfs.mkdir_cases v path with ⟨e, hmkdir⟩ | ⟨v', hmkdir, hnone, hbecomes⟩
    · rwa [hmkdir]
    · rw [hmkdir]
      exact cwdExists_of_ne_dir h hbecomes fun hdir => by cases hnone.symm.trans hdir
  | touch path => exact hkeeps (cwdExists_touch h) id
  | write path text => exact hkeeps (cwdExists_write h) id
  | move src dst => exact hkeeps (cwdExists_move h) id
  | copy src dst =>
    refine hkeeps ?_ id
    show (v.copy src dst).2.CwdExists
    rcases Vfs.copy_cases v src dst with ⟨e, hcopy, -⟩ | ⟨content, -, hcopy⟩
    · rwa [hcopy]
    · rw [hcopy]
      exact cwdExists_write h
  | rmdir path =>
    show (v.rmdir path).2.CwdExists ↔ _
    rcases Vfs.rmdir_cases v path with
      ⟨e, hrmdir, hno⟩ | ⟨v', hrmdir, hn, hne, hbecomes⟩
    · rw [hrmdir]
      exact hkeeps h fun ⟨hpath, hne, hempty⟩ => hno (by rw [hpath]; exact ⟨hne, hempty⟩)
    · rw [hrmdir, cwdExists_removed h hbecomes hn rfl]
      exact removes_iff h hn rfl hne
  | rm path =>
    show (v.rm path).2.CwdExists ↔ _
    rcases Vfs.rm_cases v path with
      ⟨e, hrm, hno⟩ | ⟨v', n, hrm, hn, hempty, hne, hbecomes⟩
    · rw [hrm]
      exact hkeeps h fun ⟨hpath, hne, hdir⟩ => hno (by rw [hpath]; exact ⟨hne, _, hdir, rfl⟩)
    · rw [hrm, cwdExists_removed h hbecomes hn hempty]
      exact removes_iff h hn hempty hne
  | rename old new =>
    show (v.rename old new).2.CwdExists ↔ _
    rcases Vfs.rename_cases v old new with
      ⟨e, hrename, hno⟩ | ⟨content, parent, oldName, newName, hold, hnew, hfile, v₁, v', hrename,
        hremoved, hput⟩
    · rw [hrename]
      exact hkeeps h fun hremoves => hno hremoves.2
    · have hbetween : v₁.CwdExists :=
        cwdExists_of_ne_dir h hremoved fun hdir => by cases hfile.symm.trans hdir
      rw [hrename, cwdExists_of_becomes hbetween hput, hremoved.cwd]
      constructor
      · rintro hk ⟨⟨q, hq⟩, -⟩
        -- a file is no directory, and has none beneath it
        have hdir := hk q hq.symm
        cases q <;> cases hdir
      · exact fun hno q hq => absurd ⟨⟨q, hq.symm⟩, content, parent, oldName, newName, hold, hnew,
          hfile⟩ hno

/-- **The current directory is there after every operation**, whatever the run, exactly if no step
removes it. -/
theorem keepsCwd_iff (commands : List VfsCommand) :
    KeepsCwd commands ↔ vfsRun.Along (fun v c => ¬ c.RemovesCwd v) Vfs.new commands :=
  Machine.along_invariant_iff (I := Vfs.CwdExists) rfl fun _ _ => cwdExists_step

/-- The directory that is the current one is removed by its name. -/
theorem not_keepsCwd : ¬ ∀ commands, KeepsCwd commands := by
  intro h
  have hgone := h [.mkdir "/a", .cd "/a", .rmdir "/a"] _ (List.prefix_refl _)
  rw [Vfs.CwdExists] at hgone
  exact absurd hgone (by decide +kernel)

end Neonet
