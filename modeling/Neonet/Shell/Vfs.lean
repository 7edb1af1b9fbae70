import Mathlib.Data.List.Infix
import Mathlib.Data.String.Basic
import Neonet.Lib.FileTree
import Neonet.Lib.Lines
import Neonet.Lib.Lts
import Neonet.Lib.NameTree

/-!
# The virtual drive of the shell

A tree of directories and text files, and a current directory, which is kept as a path.  Each
operation resolves its own paths; those that change the drive look for a directory first and then
take it again to change it, and panic if it is gone.

* `Vfs`, `Vfs.splitPath` : the drive, and how a path is read.
* `Vfs.mkdir`, …, `Vfs.grep` : the operations.
* `vfsRun` : a drive that is used.
* `touch_cases`, `write_cases`, `rm_cases`, `rename_cases`, … : **what an operation comes to**, in
  terms of what stands where.
-/

namespace Neonet

/-- What a call comes to: it returns, or it panics. -/
inductive Ran (α : Type)
  | returned (r : Except String α)
  | panicked

/-- The answer of a call that says nothing else. -/
abbrev Ran.ok : Ran Unit := .returned (.ok ())

/-- The answer of a call that fails. -/
abbrev Ran.failed {α : Type} (e : String) : Ran α := .returned (.error e)

/-- `Node`: a file with a text, or a directory. -/
abbrev VfsNode := NameTree String String

/-- `Dir`. -/
abbrev VfsDir := NameTree.Dir String String

/-- `Vfs`. -/
structure Vfs where
  root : VfsDir
  cwd : List String

/-- The text of a file after `text` is appended to it as a line of its own. -/
def appended (content text : String) : String :=
  (if content ≠ "" ∧ content.toList.getLast? ≠ some '\n' then content ++ "\n" else content) ++
    text ++ "\n"

/-- The lines of a text. -/
def linesOf (content : String) : List String := (textLines content.toList).map String.ofList

namespace Vfs

/-- `Vfs::new`. -/
def new : Vfs where
  root := ["bin", "usr", "tmp", "home", "Apps"].foldl (fun root name =>
    root.put name (.dir (if name = "Apps" then
      NameTree.Dir.put "Games" (.dir []) [("Utilities", .dir [])] else []))) []
  cwd := []

section Operations

variable (v : Vfs)

/-- `Vfs::cwd_string`. -/
def cwdString : String := if v.cwd = [] then "/" else "/" ++ "/".intercalate v.cwd

/-- `Vfs::node_at`. -/
def nodeAt : List String → Option VfsNode
  | [] => none
  | first :: rest => (v.root.find first).bind fun node => node.get rest

/-- `Vfs::dir_for`. -/
def dirFor (parent : List String) : Option VfsDir :=
  if parent = [] then some v.root
  else match v.nodeAt parent with
    | some (.dir dir) => some dir
    | _ => none

/-- The whole drive. -/
def tree : VfsNode := .dir v.root

/-- What is done with `dir_for_mut(parent).unwrap()`. -/
def inDir (parent : List String) (f : VfsDir → VfsDir) : Ran Unit × Vfs :=
  match v.dirFor parent with
  | some _ => (.ok, { v with root := (v.tree.alter (NameTree.onDir f) parent).entries })
  | none => (.panicked, v)

/-- `Vfs::split_path`. -/
def splitPath (path : String) : List String :=
  (FileTree.components path).foldl (fun parts piece =>
    if piece = "" ∨ piece = "." then parts
    else if piece = ".." then parts.dropLast
    else parts ++ [piece]) (if path.toList.head? = some '/' then [] else v.cwd)

/-- `Vfs::parent_and_name`. -/
def parentAndName (path : String) : Except String (List String × String) :=
  match (v.splitPath path).getLast? with
  | none => .error "malformed path"
  | some name => .ok ((v.splitPath path).dropLast, name)

/-- `Vfs::cd`. -/
def cd (path : String) : Ran Unit × Vfs :=
  if v.splitPath path = [] then (.ok, { v with cwd := [] })
  else match v.nodeAt (v.splitPath path) with
    | some (.dir _) => (.ok, { v with cwd := v.splitPath path })
    | some (.file _) => (.failed ("is not a directory: " ++ path), v)
    | none => (.failed ("no such directory: " ++ path), v)

/-- `Vfs::ls`. -/
def ls : List (String × VfsNode) :=
  if v.cwd = [] then v.root
  else match v.nodeAt v.cwd with
    | some (.dir dir) => dir
    | _ => []

/-- `Vfs::mkdir`. -/
def mkdir (path : String) : Ran Unit × Vfs :=
  match v.parentAndName path with
  | .error e => (.failed e, v)
  | .ok (parent, name) =>
    match v.dirFor parent with
    | none => (.failed ("no such directory to hold " ++ path), v)
    | some dir =>
      match dir.find name with
      | some _ => (.failed ("already exists: " ++ name), v)
      | none => v.inDir parent (NameTree.Dir.put name (.dir []))

/-- `Vfs::rmdir`. -/
def rmdir (path : String) : Ran Unit × Vfs :=
  match v.parentAndName path with
  | .error e => (.failed e, v)
  | .ok (parent, name) =>
    match v.dirFor parent with
    | none => (.failed ("not found: " ++ name), v)
    | some dir =>
      match dir.find name with
      | some (.dir []) => v.inDir parent (NameTree.Dir.remove name)
      | some (.dir (_ :: _)) => (.failed ("directory not empty: " ++ name), v)
      | some (.file _) => (.failed ("not a directory: " ++ name), v)
      | none => (.failed ("not found: " ++ name), v)

/-- `Vfs::rm`. -/
def rm (path : String) : Ran Unit × Vfs :=
  match v.parentAndName path with
  | .error e => (.failed e, v)
  | .ok (parent, name) =>
    match v.dirFor parent with
    | none => (.failed ("not found: " ++ name), v)
    | some dir =>
      match dir.find name with
      | some (.dir (_ :: _)) => (.failed ("directory not empty: " ++ name), v)
      | none => (.failed ("not found: " ++ name), v)
      -- a file, or an empty directory
      | some _ => v.inDir parent (NameTree.Dir.remove name)

/-- `Vfs::touch`. -/
def touch (path : String) : Ran Unit × Vfs :=
  match v.parentAndName path with
  | .error e => (.failed e, v)
  | .ok (parent, name) =>
    match v.dirFor parent with
    | none => (.failed ("no such directory to hold " ++ path), v)
    | some _ => v.inDir parent (NameTree.Dir.orPut name (.file ""))

/-- `Vfs::cat`. -/
def cat (path : String) : Except String String :=
  match v.nodeAt (v.splitPath path) with
  | some (.file content) => .ok content
  | some (.dir _) => .error "is a directory, use 'ls'"
  | none => .error ("not found: " ++ path)

/-- `Vfs::write`: the file is touched and taken again. -/
def write (path text : String) : Ran Unit × Vfs :=
  match v.touch path with
  | (.returned (.ok _), v) =>
    match v.nodeAt (v.splitPath path) with
    | some (.file content) =>
      (.ok, { v with root := (v.tree.alter (fun _ => .file (appended content text))
        (v.splitPath path)).entries })
    -- what was touched is a directory: `unreachable!`
    | _ => (.panicked, v)
  | r => r

/-- `Vfs::copy`. -/
def copy (src dst : String) : Ran Unit × Vfs :=
  match v.cat src with
  | .error e => (.failed e, v)
  | .ok content => v.write dst content

/-- `Vfs::move_`. -/
def move (src dst : String) : Ran Unit × Vfs :=
  match v.cat src with
  | .error e => (.failed e, v)
  | .ok content =>
    match v.write dst content with
    | (.returned (.ok _), v) => v.rm src
    | r => r

/-- `Vfs::rename`. -/
def rename (old new : String) : Ran Unit × Vfs :=
  match v.cat old with
  | .error e => (.failed e, v)
  | .ok content =>
    match v.parentAndName old, v.parentAndName new with
    | .error e, _ => (.failed e, v)
    | .ok _, .error e => (.failed e, v)
    | .ok (parent, oldName), .ok (dparent, newName) =>
      if parent ≠ dparent then
        (.failed "rename stays in the same directory (use copy/move)", v)
      else match v.dirFor parent with
        | none => (.failed "not found", v)
        | some dir =>
          match dir.find oldName with
          | none => (.failed "not found", v)
          -- whatever has the new name is replaced
          | some _ => v.inDir parent fun dir => (dir.remove oldName).put newName (.file content)

/-- `Vfs::grep`. -/
def grep (needle : String) : List (String × String) :=
  v.ls.flatMap fun
    | (name, .file content) =>
      ((linesOf content).filter fun line => needle.toList <:+: line.toList).map (name, ·)
    | (_, .dir _) => []

end Operations

end Vfs

/-! ### A drive in use -/

/-- The operations of a drive. -/
inductive VfsCommand
  | cd (path : String)
  | ls
  | mkdir (path : String)
  | rmdir (path : String)
  | rm (path : String)
  | touch (path : String)
  | cat (path : String)
  | write (path text : String)
  | copy (src dst : String)
  | move (src dst : String)
  | rename (old new : String)
  | grep (needle : String)

/-- What is answered. -/
inductive VfsAnswer
  | done
  | listing (entries : List (String × VfsNode))
  | content (text : String)
  | hits (lines : List (String × String))

/-- The answer to an operation that changes the drive. -/
def Ran.answer : Ran Unit → Ran VfsAnswer
  | .returned r => .returned (r.map fun _ => .done)
  | .panicked => .panicked

/-- A drive in use. -/
def vfsRun : Machine Vfs VfsCommand (Ran VfsAnswer) where
  step v
    | .cd path => (v.cd path).map Ran.answer id
    | .ls => (.returned (.ok (.listing v.ls)), v)
    | .mkdir path => (v.mkdir path).map Ran.answer id
    | .rmdir path => (v.rmdir path).map Ran.answer id
    | .rm path => (v.rm path).map Ran.answer id
    | .touch path => (v.touch path).map Ran.answer id
    | .cat path => (.returned ((v.cat path).map .content), v)
    | .write path text => (v.write path text).map Ran.answer id
    | .copy src dst => (v.copy src dst).map Ran.answer id
    | .move src dst => (v.move src dst).map Ran.answer id
    | .rename old new => (v.rename old new).map Ran.answer id
    | .grep needle => (.returned (.ok (.hits (v.grep needle))), v)

/-! ### What stands where -/

namespace Vfs

section Places

variable (v : Vfs)

/-- What stands at a path of the drive. -/
def kindAt (q : List String) : Option (NameTree.Kind String) := v.tree.kindAt q

/-- A node can be put at the path: what is above it is a directory. -/
def Holds (p : List String) : Prop :=
  ∃ parent name, p = parent ++ [name] ∧ v.kindAt parent = some .dir

/-- The drive becomes another one, in which `k` says what stands at `p` and beneath it. -/
structure Becomes (p : List String) (k : List String → Option (NameTree.Kind String)) (v' : Vfs) :
    Prop where
  cwd : v'.cwd = v.cwd
  at_append : ∀ q, v'.kindAt (p ++ q) = k q
  elsewhere : ∀ q, ¬ p <+: q → v'.kindAt q = v.kindAt q

end Places

variable {v v' v'' : Vfs} {path text : String} {p q parent : List String} {name : String}
  {dir : VfsDir} {f : VfsDir → VfsDir} {n : VfsNode}
  {k k' : List String → Option (NameTree.Kind String)}

theorem Becomes.trans (h : v.Becomes p k v') (h' : v'.Becomes p k' v'') : v.Becomes p k' v'' where
  cwd := h'.cwd.trans h.cwd
  at_append := h'.at_append
  elsewhere q hq := (h'.elsewhere q hq).trans (h.elsewhere q hq)

theorem splitPath_congr (path : String) (h : v'.cwd = v.cwd) :
    v'.splitPath path = v.splitPath path := by
  rw [splitPath, splitPath, h]

theorem nodeAt_eq (h : p ≠ []) : v.nodeAt p = v.tree.get p := by
  cases p with
  | nil => exact absurd rfl h
  | cons first rest => rfl

theorem dirFor_eq_some : v.dirFor parent = some dir ↔ v.tree.get parent = some (.dir dir) := by
  rw [dirFor]
  split_ifs with hroot
  · subst hroot
    simp [NameTree.get, tree]
  · rw [nodeAt_eq hroot]
    rcases v.tree.get parent with _ | _ | _ <;> simp

theorem dirFor_eq_none : v.dirFor parent = none ↔ v.kindAt parent ≠ some .dir := by
  rw [kindAt, ne_eq, NameTree.kindAt_eq_dir, not_exists, Option.eq_none_iff_forall_ne_some]
  simp only [← dirFor_eq_some]

theorem parentAndName_eq (v : Vfs) (path : String) :
    (v.splitPath path = [] ∧ v.parentAndName path = .error "malformed path") ∨
    ∃ parent name, v.splitPath path = parent ++ [name] ∧
      v.parentAndName path = .ok (parent, name) := by
  rw [parentAndName]
  rcases List.eq_nil_or_concat (v.splitPath path) with h | ⟨parent, name, h⟩
  · exact .inl ⟨h, by rw [h]; rfl⟩
  · rw [List.concat_eq_append] at h
    exact .inr ⟨parent, name, h, by rw [h, List.getLast?_concat, List.dropLast_concat]⟩

theorem find_of_dirFor (h : v.dirFor parent = some dir) :
    dir.find name = v.tree.get (parent ++ [name]) := by
  rw [NameTree.get_append, dirFor_eq_some.1 h]
  exact (Option.bind_fun_some _).symm

/-! ### Changing the drive -/

theorem tree_alter {g : VfsNode → VfsNode} (h : ∀ d, p = [] → ∃ d', g (.dir d) = .dir d') :
    tree { v with root := (v.tree.alter g p).entries } = v.tree.alter g p := by
  cases p with
  | nil =>
    obtain ⟨d', hd'⟩ := h v.root rfl
    show NameTree.dir (g (.dir v.root)).entries = g (.dir v.root)
    rw [hd']
    rfl
  | cons first rest => rfl

theorem inDir_eq (h : v.dirFor parent = some dir) : ∃ v', v.inDir parent f = (.ok, v') ∧
    v'.cwd = v.cwd ∧ v'.tree = v.tree.alter (NameTree.onDir f) parent := by
  rw [inDir, h]
  exact ⟨_, rfl, rfl, tree_alter fun d _ => ⟨f d, rfl⟩⟩

theorem becomes_onDir (name : String) (h : v.dirFor parent = some dir) (hcwd : v'.cwd = v.cwd)
    (htree : v'.tree = v.tree.alter (NameTree.onDir f) parent)
    (hf : ∀ es j, j ≠ name → NameTree.Dir.find j (f es) = NameTree.Dir.find j es) :
    v.Becomes (parent ++ [name]) (fun q => ((f dir).find name).bind fun n => n.kindAt q) v' where
  cwd := hcwd
  at_append q := by
    rw [kindAt, htree, List.append_assoc]
    exact NameTree.kindAt_onDir_append (dirFor_eq_some.1 h)
  elsewhere q hq := by
    rw [kindAt, htree]
    exact NameTree.kindAt_onDir_of_not_prefix hf hq

theorem inDir_put (name : String) (n : VfsNode) (h : v.dirFor parent = some dir) :
    ∃ v', v.inDir parent (NameTree.Dir.put name n) = (.ok, v') ∧
      v.Becomes (parent ++ [name]) n.kindAt v' := by
  obtain ⟨v', hin, hcwd, htree⟩ := inDir_eq (f := NameTree.Dir.put name n) h
  refine ⟨v', hin, ?_⟩
  have hbecomes := becomes_onDir name h hcwd htree fun es j hj => by
    rw [NameTree.Dir.find_put, if_neg hj]
  rwa [NameTree.Dir.find_put, if_pos rfl] at hbecomes

theorem inDir_remove (name : String) (h : v.dirFor parent = some dir) :
    ∃ v', v.inDir parent (NameTree.Dir.remove name) = (.ok, v') ∧
      v.Becomes (parent ++ [name]) (fun _ => none) v' := by
  obtain ⟨v', hin, hcwd, htree⟩ := inDir_eq (f := NameTree.Dir.remove name) h
  refine ⟨v', hin, ?_⟩
  have hbecomes := becomes_onDir name h hcwd htree fun es j hj => by
    rw [NameTree.Dir.find_remove, if_neg hj]
  rwa [NameTree.Dir.find_remove, if_pos rfl] at hbecomes

theorem inDir_rename (oldName newName : String) (n : VfsNode) (h : v.dirFor parent = some dir) :
    ∃ v₁ v', v.inDir parent (fun dir => (dir.remove oldName).put newName n) = (.ok, v') ∧
      v.Becomes (parent ++ [oldName]) (fun _ => none) v₁ ∧
        v₁.Becomes (parent ++ [newName]) n.kindAt v' := by
  obtain ⟨v₁, -, hcwd₁, htree₁⟩ := inDir_eq (f := NameTree.Dir.remove oldName) h
  obtain ⟨v', hin, hcwd, htree⟩ := inDir_eq
    (f := fun dir => (dir.remove oldName).put newName n) h
  have hremoved := becomes_onDir oldName h hcwd₁ htree₁ fun es j hj => by
    rw [NameTree.Dir.find_remove, if_neg hj]
  rw [NameTree.Dir.find_remove, if_pos rfl] at hremoved
  -- the directory between the two
  have h₁ : v₁.dirFor parent = some (NameTree.Dir.remove oldName dir) := by
    rw [dirFor_eq_some, htree₁, NameTree.get_alter_self, dirFor_eq_some.1 h]
    rfl
  have htree' : v'.tree =
      v₁.tree.alter (NameTree.onDir (NameTree.Dir.put newName n)) parent := by
    rw [htree, htree₁, NameTree.alter_alter]
    exact congrArg (NameTree.alter · parent v.tree) (funext fun m => NameTree.onDir_onDir.symm)
  have hput := becomes_onDir newName h₁ (hcwd.trans hcwd₁.symm) htree' fun es j hj => by
    rw [NameTree.Dir.find_put, if_neg hj]
  rw [NameTree.Dir.find_put, if_pos rfl] at hput
  exact ⟨v₁, v', hin, hremoved, hput⟩

theorem get_of_dirFor (h : v.dirFor parent = none) : v.tree.get (parent ++ [name]) = none :=
  NameTree.kindAt_eq_none.1
    (NameTree.kindAt_append_of_ne_dir (dirFor_eq_none.1 h) (List.cons_ne_nil _ _))

/-! ### The operations -/

theorem mkdir_cases (v : Vfs) (path : String) : (∃ e, v.mkdir path = (.failed e, v)) ∨
    ∃ v', v.mkdir path = (.ok, v') ∧ v.kindAt (v.splitPath path) = none ∧
      v.Becomes (v.splitPath path) (NameTree.dir []).kindAt v' := by
  rw [mkdir]
  rcases parentAndName_eq v path with ⟨-, hname⟩ | ⟨parent, name, hpath, hname⟩
  · exact .inl ⟨_, by rw [hname]⟩
  rw [hname, hpath]
  dsimp only
  cases hdir : v.dirFor parent with
  | none => exact .inl ⟨_, rfl⟩
  | some dir =>
    rw [kindAt, NameTree.kindAt_eq_none, ← find_of_dirFor hdir]
    dsimp only
    cases dir.find name with
    | some n => exact .inl ⟨_, rfl⟩
    | none =>
      obtain ⟨v', hin, hbecomes⟩ := inDir_put name (.dir []) hdir
      exact .inr ⟨v', hin, rfl, hbecomes⟩

theorem rmdir_cases (v : Vfs) (path : String) :
    (∃ e, v.rmdir path = (.failed e, v) ∧
      ¬ (v.splitPath path ≠ [] ∧ v.tree.get (v.splitPath path) = some (.dir []))) ∨
    ∃ v', v.rmdir path = (.ok, v') ∧ v.tree.get (v.splitPath path) = some (.dir []) ∧
      v.splitPath path ≠ [] ∧ v.Becomes (v.splitPath path) (fun _ => none) v' := by
  rw [rmdir]
  rcases parentAndName_eq v path with ⟨hpath, hname⟩ | ⟨parent, name, hpath, hname⟩
  · exact .inl ⟨_, by rw [hname], fun h => h.1 hpath⟩
  rw [hname, hpath]
  dsimp only
  cases hdir : v.dirFor parent with
  | none =>
    rw [get_of_dirFor hdir]
    exact .inl ⟨_, rfl, fun h => by cases h.2⟩
  | some dir =>
    rw [← find_of_dirFor hdir]
    dsimp only
    rcases dir.find name with _ | ⟨_ | ⟨e, es⟩⟩ | content
    · exact .inl ⟨_, rfl, fun h => by cases h.2⟩
    · obtain ⟨v', hin, hbecomes⟩ := inDir_remove name hdir
      exact .inr ⟨v', hin, rfl, by simp, hbecomes⟩
    · exact .inl ⟨_, rfl, fun h => by cases h.2⟩
    · exact .inl ⟨_, rfl, fun h => by cases h.2⟩

/-- An empty directory or a file is removed. -/
theorem rm_cases (v : Vfs) (path : String) :
    (∃ e, v.rm path = (.failed e, v) ∧ ¬ (v.splitPath path ≠ [] ∧ ∃ n,
      v.tree.get (v.splitPath path) = some n ∧ n.entries = [])) ∨
    ∃ v' n, v.rm path = (.ok, v') ∧ v.tree.get (v.splitPath path) = some n ∧ n.entries = [] ∧
      v.splitPath path ≠ [] ∧ v.Becomes (v.splitPath path) (fun _ => none) v' := by
  rw [rm]
  rcases parentAndName_eq v path with ⟨hpath, hname⟩ | ⟨parent, name, hpath, hname⟩
  · exact .inl ⟨_, by rw [hname], fun h => h.1 hpath⟩
  rw [hname, hpath]
  dsimp only
  cases hdir : v.dirFor parent with
  | none =>
    rw [get_of_dirFor hdir]
    exact .inl ⟨_, rfl, fun ⟨_, n, hn, _⟩ => by cases hn⟩
  | some dir =>
    rw [← find_of_dirFor hdir]
    dsimp only
    obtain ⟨v', hin, hbecomes⟩ := inDir_remove name hdir
    rcases dir.find name with _ | ⟨_ | ⟨e, es⟩⟩ | content
    · exact .inl ⟨_, rfl, fun ⟨_, n, hn, _⟩ => by cases hn⟩
    · exact .inr ⟨v', _, hin, rfl, rfl, by simp, hbecomes⟩
    · refine .inl ⟨_, rfl, fun ⟨_, n, hn, hempty⟩ => ?_⟩
      obtain rfl := Option.some.inj hn
      cases hempty
    · exact .inr ⟨v', _, hin, rfl, rfl, by simp, hbecomes⟩

/-- A file is there afterwards, if nothing was there before. -/
theorem touch_cases (v : Vfs) (path : String) :
    (∃ e, v.touch path = (.failed e, v) ∧ ¬ v.Holds (v.splitPath path)) ∨
    ∃ v', v.touch path = (.ok, v') ∧ v.Holds (v.splitPath path) ∧
      v.Becomes (v.splitPath path)
        ((v.tree.get (v.splitPath path)).getD (.file "")).kindAt v' := by
  rw [touch]
  rcases parentAndName_eq v path with ⟨hpath, hname⟩ | ⟨parent, name, hpath, hname⟩
  · refine .inl ⟨_, by rw [hname], fun ⟨parent, name, h, _⟩ => ?_⟩
    rw [hpath] at h
    simp at h
  rw [hname, hpath]
  dsimp only
  cases hdir : v.dirFor parent with
  | none =>
    refine .inl ⟨_, rfl, fun ⟨parent', name', h, hd⟩ => dirFor_eq_none.1 hdir ?_⟩
    rwa [(List.append_inj' h rfl).1]
  | some dir =>
    rw [← find_of_dirFor hdir]
    dsimp only
    have hholds : v.Holds (parent ++ [name]) :=
      ⟨parent, name, rfl, NameTree.kindAt_eq_dir.2 ⟨dir, dirFor_eq_some.1 hdir⟩⟩
    obtain ⟨v', hin, hcwd, htree⟩ := inDir_eq (f := NameTree.Dir.orPut name (.file "")) hdir
    have hbecomes := becomes_onDir name hdir hcwd htree fun es j hj => by
      rw [NameTree.Dir.find_orPut, if_neg hj]
    rw [NameTree.Dir.find_orPut, if_pos rfl] at hbecomes
    exact .inr ⟨v', hin, hholds, hbecomes⟩

/-- What stands at a path after it was touched: what stood there, or an empty file. -/
def touched (v : Vfs) (p : List String) : VfsNode := (v.tree.get p).getD (.file "")

/-- A text is appended to the file, and a directory makes the call panic. -/
theorem write_cases (v : Vfs) (path text : String) :
    (∃ e, v.write path text = (.failed e, v) ∧ ¬ v.Holds (v.splitPath path)) ∨
    v.Holds (v.splitPath path) ∧ ((∃ es v', v.write path text = (.panicked, v') ∧
        v.tree.get (v.splitPath path) = some (.dir es) ∧
          v.Becomes (v.splitPath path) (NameTree.dir es).kindAt v') ∨
      ∃ content v', v.write path text = (.ok, v') ∧
        v.touched (v.splitPath path) = .file content ∧
          v.Becomes (v.splitPath path) (NameTree.file (appended content text)).kindAt v') := by
  rw [write]
  rcases touch_cases v path with ⟨e, htouch, hno⟩ | ⟨v₁, htouch, hholds, hbecomes⟩
  · exact .inl ⟨e, by rw [htouch], hno⟩
  refine .inr ⟨hholds, ?_⟩
  rw [htouch]
  dsimp only
  have hne : v.splitPath path ≠ [] := by
    obtain ⟨parent, name, hpath, -⟩ := hholds
    rw [hpath]
    simp
  rw [splitPath_congr path hbecomes.cwd, nodeAt_eq hne]
  generalize v.splitPath path = p at *
  have hkind := hbecomes.at_append []
  rw [List.append_nil] at hkind
  change v₁.tree.kindAt p = some (v.touched p).kind at hkind
  -- After the touch there is something at `p`: a directory when there was one before.
  cases hnode : v.touched p with
  | dir es =>
    rw [hnode] at hkind
    obtain ⟨es', hes'⟩ := NameTree.kindAt_eq_dir.1 hkind
    refine .inl ⟨es, v₁, by rw [hes'], ?_, hnode ▸ hbecomes⟩
    rw [touched] at hnode
    cases hget : v.tree.get p with
    | none => rw [hget] at hnode; cases hnode
    | some n => rw [hget] at hnode; exact congrArg some hnode
  | file content =>
    rw [hnode] at hkind
    have hget := NameTree.kindAt_eq_file.1 hkind
    refine .inr ⟨content, _, by rw [hget], rfl, ?_⟩
    have htree : ∀ g : VfsNode → VfsNode,
        tree { v₁ with root := (v₁.tree.alter g p).entries } = v₁.tree.alter g p := fun g =>
      tree_alter fun d hp => absurd hp hne
    refine hbecomes.trans ⟨rfl, fun q => ?_, fun q hq => ?_⟩
    · rw [kindAt, htree, NameTree.kindAt_alter_append, hget]
      rfl
    · rw [kindAt, htree, NameTree.kindAt_alter_of_not_prefix hq]
      rfl

theorem cat_ok {content : String} :
    v.cat path = .ok content ↔ v.kindAt (v.splitPath path) = some (.file content) := by
  rw [cat, kindAt, NameTree.kindAt_eq_file]
  by_cases hroot : v.splitPath path = []
  · rw [hroot]
    exact iff_of_false (fun h => by cases h) fun h => by cases h
  · rw [nodeAt_eq hroot]
    rcases v.tree.get (v.splitPath path) with _ | _ | _ <;> simp

theorem ne_file_of_cat {e : String} (h : v.cat path = .error e) (content : String) :
    v.kindAt (v.splitPath path) ≠ some (.file content) := by
  intro hfile
  rw [cat_ok.2 hfile] at h
  cases h

/-- A file is copied by writing its text. -/
theorem copy_cases (v : Vfs) (src dst : String) :
    (∃ e, v.copy src dst = (.failed e, v) ∧
      ∀ content, v.kindAt (v.splitPath src) ≠ some (.file content)) ∨
    ∃ content, v.kindAt (v.splitPath src) = some (.file content) ∧
      v.copy src dst = v.write dst content := by
  rw [copy]
  cases hcat : v.cat src with
  | error e => exact .inl ⟨e, rfl, ne_file_of_cat hcat⟩
  | ok content => exact .inr ⟨content, cat_ok.1 hcat, rfl⟩

theorem kindAt_of_touched {before : String} (h : v.touched p = .file before) :
    v.kindAt p ≠ some .dir := by
  intro hdir
  obtain ⟨es, hes⟩ := NameTree.kindAt_eq_dir.1 hdir
  rw [touched, hes] at h
  cases h

theorem kindAt_of_written {before content text : String} (h : v.touched p = .file before)
    (hbecomes : v.Becomes p (NameTree.file text).kindAt v')
    (hq : v.kindAt q = some (.file content)) : ∃ text, v'.kindAt q = some (.file text) := by
  by_cases hpq : p <+: q
  · obtain ⟨r, rfl⟩ := hpq
    rw [hbecomes.at_append]
    cases r with
    | nil => exact ⟨text, rfl⟩
    | cons first rest =>
      -- beneath a file stands nothing
      rw [kindAt, NameTree.kindAt_append_of_ne_dir (kindAt_of_touched h) (List.cons_ne_nil _ _)]
        at hq
      cases hq
  · exact ⟨content, (hbecomes.elsewhere q hpq).trans hq⟩

theorem move_cases (v : Vfs) (src dst : String) :
    (∃ e, v.move src dst = (.failed e, v) ∧
      ((∀ content, v.kindAt (v.splitPath src) ≠ some (.file content)) ∨
        ¬ v.Holds (v.splitPath dst))) ∨
    ∃ content, v.kindAt (v.splitPath src) = some (.file content) ∧ v.Holds (v.splitPath dst) ∧
      ((∃ es v', v.move src dst = (.panicked, v') ∧
          v.tree.get (v.splitPath dst) = some (.dir es) ∧
            v.Becomes (v.splitPath dst) (NameTree.dir es).kindAt v') ∨
        ∃ before v₁ v', v.move src dst = (.ok, v') ∧
          v.touched (v.splitPath dst) = .file before ∧
            v.Becomes (v.splitPath dst) (NameTree.file (appended before content)).kindAt v₁ ∧
              v₁.Becomes (v.splitPath src) (fun _ => none) v') := by
  rw [move]
  cases hcat : v.cat src with
  | error e => exact .inl ⟨e, rfl, .inl (ne_file_of_cat hcat)⟩
  | ok content =>
    have hsrc := cat_ok.1 hcat
    dsimp only
    rcases write_cases v dst content with
      ⟨e, hwrite, hno⟩ | ⟨hholds, ⟨es, v', hwrite, hdir, hbecomes⟩ |
        ⟨before, v₁, hwrite, hbefore, hbecomes⟩⟩
    · exact .inl ⟨e, by rw [hwrite], .inr hno⟩
    · exact .inr ⟨content, hsrc, hholds, .inl ⟨es, v', by rw [hwrite], hdir, hbecomes⟩⟩
    · have hpath := splitPath_congr src hbecomes.cwd
      -- The source is still a file after the write, so removing it cannot fail.
      obtain ⟨text, htext⟩ := kindAt_of_written hbefore hbecomes hsrc
      rw [← hpath] at htext
      have hget := NameTree.kindAt_eq_file.1 htext
      rcases rm_cases v₁ src with ⟨e, -, hno⟩ | ⟨v', n, hrm, -, -, -, hremoved⟩
      · refine absurd ⟨fun hroot => ?_, _, hget, rfl⟩ hno
        rw [hroot] at htext
        cases htext
      · rw [hpath] at hremoved
        exact .inr ⟨content, hsrc, hholds, .inr ⟨before, v₁, v', by rw [hwrite]; exact hrm,
          hbefore, hbecomes, hremoved⟩⟩

/-- A file gets another name in its directory, whatever had that name. -/
theorem rename_cases (v : Vfs) (old new : String) :
    (∃ e, v.rename old new = (.failed e, v) ∧ ¬ ∃ content parent oldName newName,
      v.splitPath old = parent ++ [oldName] ∧ v.splitPath new = parent ++ [newName] ∧
        v.kindAt (v.splitPath old) = some (.file content)) ∨
    ∃ content parent oldName newName, v.splitPath old = parent ++ [oldName] ∧
      v.splitPath new = parent ++ [newName] ∧
        v.kindAt (v.splitPath old) = some (.file content) ∧
          ∃ v₁ v', v.rename old new = (.ok, v') ∧
            v.Becomes (v.splitPath old) (fun _ => none) v₁ ∧
              v₁.Becomes (v.splitPath new) (NameTree.file content).kindAt v' := by
  rw [rename]
  cases hcat : v.cat old with
  | error e =>
    refine .inl ⟨e, rfl, ?_⟩
    rintro ⟨content, _, _, _, _, _, h⟩
    exact ne_file_of_cat hcat content h
  | ok content =>
    have hold := cat_ok.1 hcat
    rcases parentAndName_eq v old with
      ⟨hpath, -⟩ | ⟨parent, oldName, hpath, hname⟩
    · rw [hpath] at hold
      cases hold
    rcases parentAndName_eq v new with
      ⟨hpath', hname'⟩ | ⟨parent', newName, hpath', hname'⟩
    · refine .inl ⟨_, by rw [hname, hname'], fun ⟨_, _, _, _, _, h, _⟩ => ?_⟩
      rw [hpath'] at h
      simp at h
    rw [hname, hname']
    dsimp only
    -- The source compares the parents before it looks at the directory.
    by_cases hparent : parent = parent'
    · subst hparent
      rw [if_neg (not_not.2 rfl)]
      have hparent : v.kindAt parent = some .dir := by
        refine NameTree.kindAt_of_append (q := [oldName]) ?_ (List.cons_ne_nil _ _)
        rw [← hpath]
        exact fun h => by cases h.symm.trans hold
      obtain ⟨dir, hdir⟩ := NameTree.kindAt_eq_dir.1 hparent
      have hdir := dirFor_eq_some.2 hdir
      have hfind : NameTree.Dir.find oldName dir = some (.file content) := by
        rw [find_of_dirFor hdir, ← hpath]
        exact NameTree.kindAt_eq_file.1 hold
      rw [hdir]
      dsimp only
      rw [hfind]
      dsimp only
      obtain ⟨v₁, v', hin, hremoved, hput⟩ := inDir_rename oldName newName (.file content) hdir
      rw [← hpath] at hremoved
      rw [← hpath'] at hput
      exact .inr ⟨content, parent, oldName, newName, hpath, hpath', hold, v₁, v', hin, hremoved,
        hput⟩
    · refine .inl ⟨_, if_pos hparent, fun ⟨_, q, _, _, h, h', _⟩ => hparent ?_⟩
      rw [(List.append_inj' (hpath.symm.trans h) rfl).1,
        (List.append_inj' (hpath'.symm.trans h') rfl).1]

theorem cd_cases (v : Vfs) (path : String) : (∃ e, v.cd path = (.failed e, v)) ∨
    v.cd path = (.ok, { v with cwd := v.splitPath path }) ∧
      v.kindAt (v.splitPath path) = some .dir := by
  rw [cd]
  split_ifs with hroot
  · exact .inr ⟨by rw [hroot], by rw [hroot]; rfl⟩
  · rw [nodeAt_eq hroot, kindAt, NameTree.kindAt]
    rcases v.tree.get (v.splitPath path) with _ | _ | _
    · exact .inl ⟨_, rfl⟩
    · exact .inr ⟨rfl, rfl⟩
    · exact .inl ⟨_, rfl⟩

end Vfs

end Neonet
