import Mathlib.Data.List.Basic
import Mathlib.Order.Lattice
import Mathlib.Tactic.SplitIfs

/-!
# Trees of named nodes

A tree is a file, or a directory of trees that have names.  A path is the list of the names that
lead from the root to a node.

* `Dir.find`, `Dir.put`, `Dir.orPut`, `Dir.remove`, `Dir.modify` : one directory, ordered by name.
* `NameTree.get`, `NameTree.alter` : the node at a path, and another node in its place.
* `NameTree.kindAt` : what stands at a path: a directory, or a file with a content.
* `kindAt_alter_append`, `kindAt_alter_of_not_prefix` : **what is altered at a path changes nothing
  but what stands beneath it.**
* `kindAt_onDir_append`, `kindAt_onDir_of_not_prefix` : the same where one entry of a directory
  changes.
-/

/-- A file with a content, or a directory. -/
inductive NameTree (κ α : Type) where
  | dir (entries : List (κ × NameTree κ α))
  | file (content : α)

namespace NameTree

/-- What a node is, whatever it contains if it is a directory. -/
inductive Kind (α : Type) where
  | dir
  | file (content : α)
  deriving DecidableEq

/-- The entries of a directory. -/
abbrev Dir (κ α : Type) := List (κ × NameTree κ α)

variable {κ α : Type}

/-! ### One directory -/

namespace Dir

/-- The node of a name. -/
def find [DecidableEq κ] (k : κ) : Dir κ α → Option (NameTree κ α)
  | [] => none
  | (j, n) :: es => if j = k then some n else find k es

/-- The node of a name is replaced, or stands where its name belongs. -/
def put [LinearOrder κ] (k : κ) (n : NameTree κ α) : Dir κ α → Dir κ α
  | [] => [(k, n)]
  | (j, m) :: es =>
    if j = k then (k, n) :: es else if k < j then (k, n) :: (j, m) :: es else (j, m) :: put k n es

/-- The node of a name stays, or one is put where there is none. -/
def orPut [LinearOrder κ] (k : κ) (n : NameTree κ α) (es : Dir κ α) : Dir κ α :=
  match find k es with
  | some _ => es
  | none => put k n es

/-- The entries with other names. -/
def remove [DecidableEq κ] (k : κ) (es : Dir κ α) : Dir κ α := es.filter fun e => e.1 ≠ k

/-- The node of a name becomes another one. -/
def modify [DecidableEq κ] (k : κ) (g : NameTree κ α → NameTree κ α) : Dir κ α → Dir κ α
  | [] => []
  | (j, n) :: es => if j = k then (j, g n) :: es else (j, n) :: modify k g es

theorem find_put [LinearOrder κ] {j k : κ} {n : NameTree κ α} {es : Dir κ α} :
    (put k n es).find j = if j = k then some n else es.find j := by
  induction es with
  | nil => simp [put, find, eq_comm]
  | cons e es ih =>
    obtain ⟨i, m⟩ := e
    rw [put]
    by_cases hik : i = k
    · subst hik
      by_cases hj : j = i
      · simp [hj, find]
      · simp [hj, find, Ne.symm hj]
    · rw [if_neg hik]
      split_ifs with hlt hj hj
      · rw [find, if_pos hj.symm]
      · rw [find, if_neg (Ne.symm hj)]
      · rw [find, if_neg fun hij => hik (hij.trans hj), ih, if_pos hj]
      · rw [find, find, ih, if_neg hj]

theorem find_orPut [LinearOrder κ] {j k : κ} {n : NameTree κ α} {es : Dir κ α} :
    (orPut k n es).find j = if j = k then some ((es.find k).getD n) else es.find j := by
  rw [orPut]
  split
  · rename_i m hm
    split_ifs with hj
    · rw [hj, hm, Option.getD_some]
    · rfl
  · rename_i hnone
    rw [find_put, hnone, Option.getD_none]

variable [DecidableEq κ] {j k : κ} {es : Dir κ α} {g : NameTree κ α → NameTree κ α}

theorem find_remove : (remove k es).find j = if j = k then none else es.find j := by
  induction es with
  | nil => simp [remove, find]
  | cons e es ih =>
    obtain ⟨i, m⟩ := e
    rw [remove] at ih ⊢
    by_cases hik : i = k
    · rw [List.filter_cons_of_neg (by simpa using hik), ih, find]
      split_ifs with hj hij
      · rfl
      · exact absurd (hij.symm.trans hik) hj
      · rfl
    · rw [List.filter_cons_of_pos (by simpa using hik), find, ih, find]
      split_ifs with hij hj
      · exact absurd (hij.trans hj) hik
      · rfl
      · rfl
      · rfl

theorem find_modify :
    (modify k g es).find j = if j = k then (es.find k).map g else es.find j := by
  induction es with
  | nil => simp [modify, find]
  | cons e es ih =>
    obtain ⟨i, m⟩ := e
    rw [modify]
    by_cases hik : i = k
    · subst hik
      by_cases hj : j = i
      · simp [hj, find]
      · simp [hj, find, Ne.symm hj]
    · rw [if_neg hik, find, ih, find, find, if_neg hik]
      split_ifs with hij hj
      · exact absurd (hij.trans hj) hik
      · rfl
      · rfl
      · rfl

theorem modify_modify {g' : NameTree κ α → NameTree κ α} :
    modify k g (modify k g' es) = modify k (fun n => g (g' n)) es := by
  induction es with
  | nil => rfl
  | cons e es ih =>
    obtain ⟨i, m⟩ := e
    by_cases hik : i = k
    · simp [modify, hik]
    · simp [modify, hik, ih]

end Dir

/-! ### Paths -/

/-- What a node is. -/
def kind : NameTree κ α → Kind α
  | dir _ => .dir
  | file content => .file content

/-- The entries of a node. -/
def entries : NameTree κ α → Dir κ α
  | dir es => es
  | file _ => []

/-- Other entries in a directory. -/
def onDir (f : Dir κ α → Dir κ α) : NameTree κ α → NameTree κ α
  | dir es => dir (f es)
  | file content => file content

theorem kind_onDir {f : Dir κ α → Dir κ α} {t : NameTree κ α} : (t.onDir f).kind = t.kind := by
  cases t <;> rfl

theorem onDir_onDir {f f' : Dir κ α → Dir κ α} {t : NameTree κ α} :
    (t.onDir f').onDir f = t.onDir fun es => f (f' es) := by
  cases t <;> rfl

section Paths

variable [DecidableEq κ]

/-- The node at a path. -/
def get (t : NameTree κ α) : List κ → Option (NameTree κ α)
  | [] => some t
  | k :: p => (t.entries.find k).bind fun n => n.get p

/-- The node at a path becomes another one. -/
def alter (g : NameTree κ α → NameTree κ α) : List κ → NameTree κ α → NameTree κ α
  | [], t => g t
  | k :: p, t => t.onDir (Dir.modify k (alter g p))

/-- What stands at a path. -/
def kindAt (t : NameTree κ α) (p : List κ) : Option (Kind α) := (t.get p).map kind

variable {t n : NameTree κ α} {g : NameTree κ α → NameTree κ α} {f : Dir κ α → Dir κ α}
  {p q : List κ} {j k : κ}

theorem get_cons : t.get (k :: p) = (t.entries.find k).bind fun n => n.get p := rfl

theorem get_append : t.get (p ++ q) = (t.get p).bind fun n => n.get q := by
  induction p generalizing t with
  | nil => rfl
  | cons k p ih =>
    rw [List.cons_append, get_cons, get_cons]
    cases t.entries.find k with
    | none => rfl
    | some n => exact ih

theorem kindAt_cons : t.kindAt (k :: p) = (t.entries.find k).bind fun n => n.kindAt p := by
  rw [kindAt, get_cons, Option.map_bind]
  rfl

theorem kindAt_append : t.kindAt (p ++ q) = (t.get p).bind fun n => n.kindAt q := by
  rw [kindAt, get_append, Option.map_bind]
  rfl

theorem kindAt_eq_dir : t.kindAt p = some .dir ↔ ∃ es, t.get p = some (.dir es) := by
  rw [kindAt]
  rcases t.get p with _ | _ | _ <;> simp [kind]

theorem kindAt_eq_file {a : α} : t.kindAt p = some (.file a) ↔ t.get p = some (.file a) := by
  rw [kindAt]
  rcases t.get p with _ | _ | _ <;> simp [kind]

theorem kindAt_eq_none : t.kindAt p = none ↔ t.get p = none := Option.map_eq_none_iff

theorem kindAt_append_of_ne_dir (h : t.kindAt p ≠ some .dir) (hq : q ≠ []) :
    t.kindAt (p ++ q) = none := by
  obtain ⟨k, q, rfl⟩ := List.exists_cons_of_ne_nil hq
  rw [kindAt_append]
  rw [ne_eq, kindAt_eq_dir, not_exists] at h
  rcases hp : t.get p with _ | es | a
  · rfl
  · exact absurd hp (h es)
  · rfl

theorem kindAt_of_append (h : t.kindAt (p ++ q) ≠ none) (hq : q ≠ []) : t.kindAt p = some .dir := by
  by_contra hp
  exact h (kindAt_append_of_ne_dir hp hq)

/-! ### Altering -/

theorem find_alter : (t.alter g (k :: p)).entries.find j =
    if j = k then (t.entries.find k).map (alter g p) else t.entries.find j := by
  cases t with
  | dir es => exact Dir.find_modify
  | file a => simp [alter, onDir, entries, Dir.find]

/-- **At a path and beneath it** stands what is altered. -/
theorem get_alter_append : (t.alter g p).get (p ++ q) = (t.get p).bind fun n => (g n).get q := by
  induction p generalizing t with
  | nil => rfl
  | cons k p ih =>
    rw [List.cons_append, get_cons, get_cons, find_alter, if_pos rfl]
    cases t.entries.find k with
    | none => rfl
    | some n => exact ih

theorem get_alter_self : (t.alter g p).get p = (t.get p).map g := by
  have h := get_alter_append (t := t) (g := g) (p := p) (q := [])
  rw [List.append_nil] at h
  rw [h]
  cases t.get p <;> rfl

theorem kindAt_alter_append :
    (t.alter g p).kindAt (p ++ q) = (t.get p).bind fun n => (g n).kindAt q := by
  rw [kindAt, get_alter_append, Option.map_bind]
  rfl

/-- **Elsewhere** nothing changes. -/
theorem kindAt_alter_of_not_prefix (h : ¬ p <+: q) : (t.alter g p).kindAt q = t.kindAt q := by
  induction p generalizing t q with
  | nil => exact absurd List.nil_prefix h
  | cons k p ih =>
    cases q with
    | nil => exact congrArg some kind_onDir
    | cons j q =>
      rw [kindAt_cons, kindAt_cons, find_alter]
      split_ifs with hjk
      · subst hjk
        cases t.entries.find j with
        | none => rfl
        | some n => exact ih fun hpq => h (List.cons_prefix_cons.2 ⟨rfl, hpq⟩)
      · rfl

theorem alter_alter {g' : NameTree κ α → NameTree κ α} :
    (t.alter g' p).alter g p = t.alter (fun n => g (g' n)) p := by
  induction p generalizing t with
  | nil => rfl
  | cons k p ih =>
    cases t with
    | dir es =>
      refine congrArg dir (Dir.modify_modify.trans ?_)
      exact congrArg (Dir.modify k · es) (funext fun n => ih)
    | file a => rfl

/-- What an entry of a directory becomes. -/
theorem kindAt_onDir_append {es : Dir κ α} (h : t.get p = some (.dir es)) :
    (t.alter (onDir f) p).kindAt (p ++ k :: q) = ((f es).find k).bind fun n => n.kindAt q := by
  rw [kindAt_alter_append, h, Option.bind_some, kindAt_cons]
  rfl

/-- The other entries, and what is elsewhere, do not change. -/
theorem kindAt_onDir_of_not_prefix (hf : ∀ es j, j ≠ k → (f es).find j = es.find j)
    (h : ¬ p ++ [k] <+: q) : (t.alter (onDir f) p).kindAt q = t.kindAt q := by
  by_cases hpq : p <+: q
  · obtain ⟨r, rfl⟩ := hpq
    rw [kindAt_alter_append, kindAt_append]
    cases t.get p with
    | none => rfl
    | some n =>
      cases r with
      | nil => exact congrArg some kind_onDir
      | cons j r =>
        have hjk : j ≠ k := by
          rintro rfl
          exact h ⟨r, List.append_assoc ..⟩
        cases n with
        | dir es =>
          rw [Option.bind_some, Option.bind_some, kindAt_cons, kindAt_cons]
          exact congrArg (Option.bind · fun n => n.kindAt r) (hf es j hjk)
        | file a => rfl
  · exact kindAt_alter_of_not_prefix hpq

end Paths

end NameTree
