import Neonet.Shell.Vfs

/-!
# Copying, moving and renaming on the virtual drive

A file is copied by reading its text and appending it, as a line, to the destination; it is moved by
copying and removing it; and it is renamed by taking it out of its directory and putting it back.

* `Transfer` : the three operations.
* `Transfer.Faithful` : the text arrives as it is, and nothing is lost but what is moved.
* `copy_faithful_iff`, `move_faithful_iff` : a text that is copied gets another line end.
* `faithful_iff` : **a file arrives as it is** exactly if it is renamed and no other node has the
  new name, or if nothing is done at all.
-/

namespace Neonet

/-- The operations that bring a file from one path to another. -/
inductive Transfer
  | copy
  | move
  | rename
  deriving DecidableEq

/-- The operation. -/
def Transfer.run : Transfer → Vfs → String → String → Ran Unit × Vfs
  | .copy => Vfs.copy
  | .move => Vfs.move
  | .rename => Vfs.rename

section Spec

variable (op : Transfer) (v : Vfs) (src dst : String)

/-- The file is at its destination, and nothing else has changed. -/
structure Transfer.Arrived (v' : Vfs) : Prop where
  content : ∃ content, v.kindAt (v.splitPath src) = some (.file content) ∧
    v'.kindAt (v.splitPath dst) = some (.file content)
  gone : op ≠ .copy → v.splitPath dst ≠ v.splitPath src → v'.kindAt (v.splitPath src) = none
  others : ∀ q, q ≠ v.splitPath dst → op = .copy ∨ q ≠ v.splitPath src → v'.kindAt q = v.kindAt q
  cwd : v'.cwd = v.cwd

/-- What the operation should do. -/
structure Transfer.Faithful : Prop where
  /-- Where nothing is, and where the file itself is, it arrives as it is. -/
  arrives : v.kindAt (v.splitPath dst) = none ∨ v.splitPath dst = v.splitPath src →
    ∀ v', op.run v src dst = (.ok, v') → op.Arrived v src dst v'
  /-- What is there stays. -/
  refuses : op = .rename → v.splitPath dst ≠ v.splitPath src →
    v.kindAt (v.splitPath dst) ≠ none → ∃ e, op.run v src dst = (.failed e, v)

/-- The source is no file, or: if it is copied or moved, the destination is another node or there is
no directory for it; if it is renamed, no other node of its directory has the new name. -/
def Transfer.Harmless : Prop :=
  ∀ content, v.kindAt (v.splitPath src) = some (.file content) →
    match op with
    | .copy | .move =>
      v.kindAt (v.splitPath dst) = none ∨ v.splitPath dst = v.splitPath src →
        ¬ v.Holds (v.splitPath dst)
    | .rename =>
      v.splitPath dst ≠ v.splitPath src → v.splitPath dst ≠ [] →
        (v.splitPath dst).dropLast = (v.splitPath src).dropLast →
          v.kindAt (v.splitPath dst) = none

end Spec

variable {op : Transfer} {v v' : Vfs} {src dst content before : String} {p q : List String}
  {k : List String → Option (NameTree.Kind String)}

theorem appended_ne : appended before content ≠ content := by
  intro h
  have hlength := congrArg (fun s => s.toList.length) h
  simp only [appended, String.toList_append, List.length_append] at hlength
  have hend : "\n".toList.length = 1 := rfl
  omega

/-- What changes at a path where there is no directory, and never was, changes only there. -/
theorem Vfs.Becomes.others (h : v.Becomes p k v') (hp : v.kindAt p ≠ some .dir)
    (hk : ∀ r, r ≠ [] → k r = none) (hq : q ≠ p) : v'.kindAt q = v.kindAt q := by
  by_cases hpq : p <+: q
  · obtain ⟨r, rfl⟩ := hpq
    have hr : r ≠ [] := by
      rintro rfl
      exact hq (List.append_nil p)
    rw [h.at_append, hk r hr, Vfs.kindAt, NameTree.kindAt_append_of_ne_dir hp hr]
  · exact h.elsewhere q hpq

theorem kindAt_file_append {r : List String} (hr : r ≠ []) :
    (NameTree.file content : VfsNode).kindAt r = none := by
  cases r with
  | nil => exact absurd rfl hr
  | cons first rest => rfl

theorem write_of_holds (text : String) (hholds : v.Holds (v.splitPath dst))
    (hdir : v.kindAt (v.splitPath dst) ≠ some .dir) :
    ∃ before v', v.write dst text = (.ok, v') ∧
      v.Becomes (v.splitPath dst) (NameTree.file (appended before text)).kindAt v' := by
  rcases Vfs.write_cases v dst text with
    ⟨e, -, hno⟩ | ⟨-, ⟨es, v', -, hget, -⟩ | ⟨before, v', hwrite, -, hbecomes⟩⟩
  · exact absurd hholds hno
  · exact absurd (NameTree.kindAt_eq_dir.2 ⟨es, hget⟩) hdir
  · exact ⟨before, v', hwrite, hbecomes⟩

theorem ne_dir_of_covered (hsrc : v.kindAt (v.splitPath src) = some (.file content))
    (h : v.kindAt (v.splitPath dst) = none ∨ v.splitPath dst = v.splitPath src) :
    v.kindAt (v.splitPath dst) ≠ some .dir := by
  rcases h with h | h
  · rw [h]
    exact fun h => by cases h
  · rw [h, hsrc]
    exact fun h => by cases h

/-- **A copy is not faithful** unless it fails. -/
theorem copy_faithful_iff :
    Transfer.copy.Faithful v src dst ↔ Transfer.copy.Harmless v src dst := by
  constructor
  · intro h content hsrc hcovered hholds
    obtain ⟨before, v', hwrite, hbecomes⟩ :=
      write_of_holds content hholds (ne_dir_of_covered hsrc hcovered)
    have hcopy : v.copy src dst = (.ok, v') := by
      rw [Vfs.copy, Vfs.cat_ok.2 hsrc]
      exact hwrite
    obtain ⟨content', hsrc', hdst⟩ := (h.arrives hcovered v' hcopy).content
    have hwritten := hbecomes.at_append []
    rw [List.append_nil, hdst] at hwritten
    have hsame : content' = content := by
      cases hsrc'.symm.trans hsrc
      rfl
    cases hwritten
    exact appended_ne hsame
  · intro h
    refine ⟨fun hcovered v' hrun => ?_, fun hop => by cases hop⟩
    rcases Vfs.copy_cases v src dst with
      ⟨e, hcopy, -⟩ | ⟨content, hsrc, hcopy⟩
    · cases hcopy.symm.trans hrun
    · rcases Vfs.write_cases v dst content with
        ⟨e, hwrite, -⟩ | ⟨hholds, -⟩
      · cases (hcopy.trans hwrite).symm.trans hrun
      · exact absurd hholds (h content hsrc hcovered)

/-- **A file that is moved does not arrive** as it was, unless the call fails. -/
theorem move_faithful_iff :
    Transfer.move.Faithful v src dst ↔ Transfer.move.Harmless v src dst := by
  constructor
  · intro h content hsrc hcovered hholds
    have hdir := ne_dir_of_covered hsrc hcovered
    rcases Vfs.move_cases v src dst with
      ⟨e, -, hno⟩ | ⟨text, htext, -, ⟨es, v', -, hget, -⟩ |
        ⟨before, v₁, v', hmove, -, hbecomes, hremoved⟩⟩
    · rcases hno with hno | hno
      · exact hno content hsrc
      · exact hno hholds
    · exact hdir (NameTree.kindAt_eq_dir.2 ⟨es, hget⟩)
    · obtain ⟨content', hsrc', hdst⟩ := (h.arrives hcovered v' hmove).content
      by_cases hbelow : v.splitPath src <+: v.splitPath dst
      · -- what was written is removed
        obtain ⟨r, hr⟩ := hbelow
        rw [← hr, hremoved.at_append] at hdst
        cases hdst
      · have hwritten := hbecomes.at_append []
        rw [List.append_nil, ← hremoved.elsewhere _ hbelow, hdst] at hwritten
        have hsame : content' = text := by
          cases hsrc'.symm.trans htext
          rfl
        cases hwritten
        exact appended_ne hsame
  · intro h
    refine ⟨fun hcovered v' hrun => ?_, fun hop => by cases hop⟩
    rcases Vfs.move_cases v src dst with
      ⟨e, hmove, -⟩ | ⟨content, hsrc, hholds, -⟩
    · cases hmove.symm.trans hrun
    · exact absurd hholds (h content hsrc hcovered)

/-- A file that gets another name of its directory, which no node has, arrives as it is. -/
theorem arrived_rename {v₁ : Vfs} (hsrc : v.kindAt (v.splitPath src) = some (.file content))
    (hcovered : v.kindAt (v.splitPath dst) = none ∨ v.splitPath dst = v.splitPath src)
    (hbelow : v.splitPath dst <+: v.splitPath src → v.splitPath dst = v.splitPath src)
    (hremoved : v.Becomes (v.splitPath src) (fun _ => none) v₁)
    (hput : v₁.Becomes (v.splitPath dst) (NameTree.file content).kindAt v') :
    Transfer.rename.Arrived v src dst v' := by
  have hfile : v.kindAt (v.splitPath src) ≠ some .dir := by
    rw [hsrc]
    exact fun h => by cases h
  have hdst := hput.at_append []
  rw [List.append_nil] at hdst
  have hgone := hremoved.at_append []
  rw [List.append_nil] at hgone
  have hfree : v₁.kindAt (v.splitPath dst) ≠ some .dir := by
    by_cases hsame : v.splitPath dst = v.splitPath src
    · rw [hsame, hgone]
      exact fun h => by cases h
    · rw [hremoved.others hfile (fun _ _ => rfl) hsame, hcovered.resolve_right hsame]
      exact fun h => by cases h
  refine ⟨⟨content, hsrc, hdst⟩, fun _ hne => ?_, fun q hq hother => ?_,
    hput.cwd.trans hremoved.cwd⟩
  · rw [hput.elsewhere _ fun h => hne (hbelow h), hgone]
  · rw [hput.others hfree (fun _ => kindAt_file_append) hq]
    by_cases hqs : q = v.splitPath src
    · rcases hother with hop | hne
      · cases hop
      · exact absurd hqs hne
    · exact hremoved.others hfile (fun _ _ => rfl) hqs

theorem eq_of_prefix_concat {parent : List String} {a b : String}
    (h : parent ++ [a] <+: parent ++ [b]) : parent ++ [a] = parent ++ [b] :=
  h.eq_of_length (by simp)

/-- **Renaming is faithful** unless it gives the file the name of another node. -/
theorem rename_faithful_iff :
    Transfer.rename.Faithful v src dst ↔ Transfer.rename.Harmless v src dst := by
  constructor
  · intro h content hsrc hne hroot hparent
    by_contra hthere
    obtain ⟨e, hfails⟩ := h.refuses rfl hne hthere
    rcases Vfs.rename_cases v src dst with
      ⟨e, -, hno⟩ | ⟨_, _, _, _, _, _, _, v₁, v', hrename, -⟩
    · have hsrc' : v.splitPath src ≠ [] := fun hnil => by
        rw [hnil] at hsrc
        cases hsrc
      refine hno ⟨content, (v.splitPath src).dropLast, (v.splitPath src).getLast hsrc',
        (v.splitPath dst).getLast hroot, ?_, ?_, hsrc⟩
      · rw [List.dropLast_append_getLast]
      · rw [← hparent, List.dropLast_append_getLast]
    · cases hrename.symm.trans hfails
  · intro h
    rcases Vfs.rename_cases v src dst with
      ⟨e, hrename, -⟩ | ⟨content, parent, a, b, hold, hnew, hsrc, v₁, v', hrename, hremoved, hput⟩
    · exact ⟨fun _ v' hrun => (by cases hrename.symm.trans hrun), fun _ _ _ => ⟨e, hrename⟩⟩
    · refine ⟨fun hcovered v'' hrun => ?_, fun _ hne hthere => absurd ?_ hthere⟩
      · obtain rfl : v' = v'' := (Prod.mk.inj (hrename.symm.trans hrun)).2
        refine arrived_rename hsrc hcovered (fun hbelow => ?_) hremoved hput
        rw [hold, hnew] at hbelow ⊢
        exact eq_of_prefix_concat hbelow
      · exact h content hsrc hne (by rw [hnew]; simp) (by rw [hold, hnew]; simp)

/-- **A file arrives as it is**, and nothing is lost, exactly if the operation is harmless. -/
theorem faithful_iff (op : Transfer) (v : Vfs) (src dst : String) :
    op.Faithful v src dst ↔ op.Harmless v src dst := by
  cases op with
  | copy => exact copy_faithful_iff
  | move => exact move_faithful_iff
  | rename => exact rename_faithful_iff

/-- A drive with a text in it. -/
def noted : Vfs := { Vfs.new with root := Vfs.new.root.put "todo" (.file "milk") }

/-- **A copy has another text** than the file. -/
theorem not_faithful : ¬ ∀ (op : Transfer) (v : Vfs) (src dst : String), op.Faithful v src dst := by
  intro h
  refine copy_faithful_iff.1 (h .copy noted "todo" "notes") "milk" (by decide +kernel)
    (.inl (by decide +kernel)) ⟨[], "notes", by decide +kernel, by decide +kernel⟩

end Neonet
