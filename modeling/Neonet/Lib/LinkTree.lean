import Neonet.Lib.FileTree

/-!
# File trees with links

A tree of directories, files and symbolic links, and the way in which the system resolves a path in
it: component by component, following every link on the way, up to so many of them.

* `Tree` : what stands where.  The root is a directory, and whatever exists stands in one.
* `trail` : the resolution of a path: the places that are looked up, in order, and where it ends.
* `enter` : the resolution of a path that has to lead to a directory.
* `trail_append`, `enter_append` : **a path is resolved piece by piece.**
* `trail_congr` : **a resolution depends on the places that it looks up only.**
* `trail_first` : it does depend on each of them: the first one of a kind can be taken away, or made
  a file, and both are noticed.
* `ofEntries` : the tree of a list of entries.
-/

namespace LinkTree

open FileTree

/-- What stands at a place. -/
inductive Node
  | dir
  | file (data : Bytes)
  | link (target : String)
  deriving DecidableEq

/-- Why a path cannot be resolved. -/
inductive LookupError
  | notFound
  | notADirectory
  | tooManyLinks
  deriving DecidableEq

/-- A file tree with links. -/
structure Tree where
  /-- What stands where. -/
  node : Loc → Option Node
  /-- The names that stand in a directory. -/
  names : Loc → Finset String
  /-- The root is a directory. -/
  root_dir : node [] = some .dir
  /-- Whatever exists stands in a directory. -/
  parent_dir : ∀ {c l}, node (c :: l) ≠ none → node l = some .dir
  mem_names : ∀ {c l}, c ∈ names l ↔ node (c :: l) ≠ none
  /-- Nothing is called by an empty name or by dots. -/
  plain : ∀ {c l}, node (c :: l) ≠ none → Plain c

/-- The places that a resolution looks up, and where it ends, with the number of links that may
still be followed. -/
structure Trail where
  seen : List Loc
  found : Except LookupError (Loc × ℕ)

namespace Trail

/-- A place is looked up before. -/
def after (k : Loc) (x : Trail) : Trail := ⟨k :: x.seen, x.found⟩

/-- The resolution goes on from where it ended. -/
def bind (x : Trail) (f : Loc → ℕ → Trail) : Trail :=
  match x.found with
  | .ok (l, n) => ⟨x.seen ++ (f l n).seen, (f l n).found⟩
  | .error e => ⟨x.seen, .error e⟩

variable {k : Loc} {x : Trail} {f g : Loc → ℕ → Trail}

@[simp] theorem seen_after : (x.after k).seen = k :: x.seen := rfl

@[simp] theorem found_after : (x.after k).found = x.found := rfl

@[simp] theorem bind_after : (x.after k).bind f = (x.bind f).after k := by
  obtain ⟨seen, ⟨e⟩ | ⟨l, n⟩⟩ := x <;> rfl

@[simp] theorem bind_ok {seen : List Loc} {l : Loc} {n : ℕ} :
    bind ⟨seen, .ok (l, n)⟩ f = ⟨seen ++ (f l n).seen, (f l n).found⟩ := rfl

theorem bind_assoc : (x.bind f).bind g = x.bind fun l n => (f l n).bind g := by
  obtain ⟨seen, ⟨e⟩ | ⟨l, n⟩⟩ := x
  · rfl
  · rw [bind_ok, bind_ok]
    obtain ⟨seen', ⟨e⟩ | ⟨l', n'⟩⟩ := f l n
    · rfl
    · simp

theorem bind_congr (h : ∀ l n, x.found = .ok (l, n) → f l n = g l n) : x.bind f = x.bind g := by
  obtain ⟨seen, ⟨e⟩ | ⟨l, n⟩⟩ := x
  · rfl
  · rw [bind_ok, bind_ok, h l n rfl]

end Trail

namespace Tree

variable (t : Tree)

/-- Where the target of a link is resolved from. -/
def base (l : Loc) (target : String) : Loc := if target.toList.head? = some '/' then [] else l

/-- Resolve components from a directory, given what becomes of a link.  The last component is
followed if it is a link and `last` says so. -/
def trailWith (last : Bool) (n : ℕ) (follow : Loc → List String → Trail) :
    Loc → List String → Trail
  | l, [] => ⟨[], .ok (l, n)⟩
  | l, c :: rest =>
    if Plain c then
      match t.node (c :: l) with
      | none => ⟨[c :: l], .error .notFound⟩
      | some .dir => (trailWith last n follow (c :: l) rest).after (c :: l)
      | some (.file _) =>
        ⟨[c :: l], if rest = [] then .ok (c :: l, n) else .error .notADirectory⟩
      | some (.link target) =>
        if rest = [] ∧ last = false then ⟨[c :: l], .ok (c :: l, n)⟩
        else (follow (base l target) (components target ++ rest)).after (c :: l)
    else trailWith last n follow (stepTo l c) rest

/-- Resolve components from a directory; so many links may be followed. -/
def trail (last : Bool) : ℕ → Loc → List String → Trail
  | 0 => t.trailWith last 0 fun _ _ => ⟨[], .error .tooManyLinks⟩
  | n + 1 => t.trailWith last (n + 1) (trail last n)

/-- A link is followed, if one more may be. -/
def follow (last : Bool) : ℕ → Loc → List String → Trail
  | 0, _, _ => ⟨[], .error .tooManyLinks⟩
  | n + 1, l, cs => t.trail last n l cs

/-- Resolve components that have to lead to a directory. -/
def enter (n : ℕ) (l : Loc) (cs : List String) : Trail :=
  (t.trail true n l cs).bind fun k m =>
    if t.node k = some .dir then ⟨[], .ok (k, m)⟩ else ⟨[], .error .notADirectory⟩

variable {t} {t' : Tree} {last : Bool} {n m : ℕ} {l k : Loc} {c : String} {cs ds : List String}
  {target : String} {data : Bytes}

/-! ### One component -/

theorem trail_eq : t.trail last n = t.trailWith last n (t.follow last n) := by
  cases n <;> rfl

@[simp] theorem trail_nil : t.trail last n l [] = ⟨[], .ok (l, n)⟩ := by
  rw [trail_eq]
  rfl

theorem trail_dots (h : ¬ Plain c) :
    t.trail last n l (c :: cs) = t.trail last n (stepTo l c) cs := by
  rw [trail_eq, trailWith, if_neg h]

theorem trail_none (h : Plain c) (hnode : t.node (c :: l) = none) :
    t.trail last n l (c :: cs) = ⟨[c :: l], .error .notFound⟩ := by
  rw [trail_eq, trailWith, if_pos h, hnode]

theorem trail_dir (h : Plain c) (hnode : t.node (c :: l) = some .dir) :
    t.trail last n l (c :: cs) = (t.trail last n (c :: l) cs).after (c :: l) := by
  rw [trail_eq, trailWith, if_pos h, hnode]

theorem trail_file (h : Plain c) (hnode : t.node (c :: l) = some (.file data)) :
    t.trail last n l (c :: cs) =
      ⟨[c :: l], if cs = [] then .ok (c :: l, n) else .error .notADirectory⟩ := by
  rw [trail_eq, trailWith, if_pos h, hnode]

theorem trail_link (h : Plain c) (hnode : t.node (c :: l) = some (.link target))
    (hlast : ¬ (cs = [] ∧ last = false)) :
    t.trail last n l (c :: cs) =
      (t.follow last n (base l target) (components target ++ cs)).after (c :: l) := by
  rw [trail_eq, trailWith, if_pos h, hnode]
  exact if_neg hlast

theorem trail_link_last (h : Plain c) (hnode : t.node (c :: l) = some (.link target)) :
    t.trail false n l [c] = ⟨[c :: l], .ok (c :: l, n)⟩ := by
  rw [trail_eq, trailWith, if_pos h, hnode]
  exact if_pos ⟨rfl, rfl⟩

/-- Resolutions by induction: on the links that may be followed, and on the components. -/
theorem trail_induction {P : ℕ → Loc → List String → Prop} (nil : ∀ n l, P n l [])
    (cons : ∀ n l c cs, (∀ l, P n l cs) → (∀ m l cs, n = m + 1 → P m l cs) → P n l (c :: cs)) :
    ∀ n l cs, P n l cs := by
  intro n
  induction n with
  | zero =>
    intro l cs
    induction cs generalizing l with
    | nil => exact nil 0 l
    | cons c cs ih => exact cons 0 l c cs ih fun m l cs h => absurd h.symm (Nat.succ_ne_zero m)
  | succ n ihn =>
    intro l cs
    induction cs generalizing l with
    | nil => exact nil (n + 1) l
    | cons c cs ih =>
      exact cons (n + 1) l c cs ih fun m l cs h => Nat.succ.inj h ▸ ihn l cs

theorem isDir_stepTo (h : t.node l = some .dir) (hc : ¬ Plain c) :
    t.node (stepTo l c) = some .dir := by
  rw [stepTo]
  split
  · exact h
  · rename_i hdot
    split
    · cases l with
      | nil => exact h
      | cons d l =>
        have hthere : t.node (d :: l) ≠ none := by rw [h]; simp
        exact t.parent_dir hthere
    · rename_i hup
      rw [not_or] at hdot
      exact absurd ⟨hdot.1, hdot.2, hup⟩ hc

theorem isDir_base (h : t.node l = some .dir) : t.node (base l target) = some .dir := by
  rw [base]
  split
  · exact t.root_dir
  · exact h

/-! ### Where a resolution ends -/

/-- What a path leads to exists, and is no link if links are followed. -/
theorem found_exists (h : t.node l = some .dir)
    (hfound : (t.trail last n l cs).found = .ok (k, m)) :
    t.node k ≠ none ∧ (last = true → ∀ target, t.node k ≠ some (.link target)) := by
  revert h hfound
  refine trail_induction (P := fun n l cs => t.node l = some .dir →
    (t.trail last n l cs).found = .ok (k, m) →
      t.node k ≠ none ∧ (last = true → ∀ target, t.node k ≠ some (.link target))) ?_ ?_ n l cs
  · intro n l h hfound
    rw [trail_nil] at hfound
    obtain ⟨rfl, rfl⟩ := Prod.mk.inj (Except.ok.inj hfound)
    rw [h]
    simp
  · intro n l c cs ih ihlink h hfound
    by_cases hc : Plain c
    · cases hnode : t.node (c :: l) with
      | none =>
        rw [trail_none hc hnode] at hfound
        cases hfound
      | some node =>
        cases node with
        | dir =>
          rw [trail_dir hc hnode] at hfound
          exact ih _ hnode hfound
        | file data =>
          rw [trail_file hc hnode] at hfound
          dsimp only at hfound
          split at hfound
          · obtain ⟨rfl, rfl⟩ := Prod.mk.inj (Except.ok.inj hfound)
            rw [hnode]
            simp
          · cases hfound
        | link target =>
          -- The last link is what was asked for only if `last` is off; any other is followed.
          by_cases hlast : cs = [] ∧ last = false
          · obtain ⟨rfl, rfl⟩ := hlast
            rw [trail_link_last hc hnode] at hfound
            obtain ⟨rfl, rfl⟩ := Prod.mk.inj (Except.ok.inj hfound)
            rw [hnode]
            simp
          · rw [trail_link hc hnode hlast] at hfound
            cases n with
            | zero => cases hfound
            | succ n => exact ihlink n _ _ rfl (isDir_base h) hfound
    · rw [trail_dots hc] at hfound
      exact ih _ (isDir_stepTo h hc) hfound

theorem found_enter (hfound : (t.enter n l cs).found = .ok (k, m)) : t.node k = some .dir := by
  rw [enter] at hfound
  generalize t.trail true n l cs = x at hfound
  obtain ⟨seen, ⟨e⟩ | ⟨k', m'⟩⟩ := x
  · cases hfound
  · rw [Trail.bind_ok] at hfound
    dsimp only at hfound
    split at hfound
    · rename_i hdir
      obtain ⟨rfl, rfl⟩ := Prod.mk.inj (Except.ok.inj hfound)
      exact hdir
    · cases hfound

theorem found_of_enter (hfound : (t.enter n l cs).found = .ok (k, m)) :
    (t.trail true n l cs).found = .ok (k, m) := by
  rw [enter] at hfound
  generalize t.trail true n l cs = x at hfound ⊢
  obtain ⟨seen, ⟨e⟩ | ⟨k', m'⟩⟩ := x
  · cases hfound
  · rw [Trail.bind_ok] at hfound
    dsimp only at hfound
    split at hfound
    · exact hfound
    · cases hfound

/-! ### Piece by piece -/

theorem enter_nil (h : t.node l = some .dir) : t.enter n l [] = ⟨[], .ok (l, n)⟩ := by
  rw [enter, trail_nil, Trail.bind_ok, if_pos h]
  rfl

/-- **A path is resolved piece by piece**: what stands before has to lead to a directory. -/
theorem trail_append (h : t.node l = some .dir) (hds : ds ≠ []) :
    t.trail last n l (cs ++ ds) = (t.enter n l cs).bind fun k m => t.trail last m k ds := by
  revert h
  refine trail_induction (P := fun n l cs => t.node l = some .dir →
    t.trail last n l (cs ++ ds) = (t.enter n l cs).bind fun k m => t.trail last m k ds) ?_ ?_ n l cs
  · intro n l h
    rw [enter_nil h, Trail.bind_ok]
    rfl
  · intro n l c cs ih ihlink h
    have hne : cs ++ ds ≠ [] := fun hnil => hds (List.append_eq_nil_iff.1 hnil).2
    rw [List.cons_append, enter]
    by_cases hc : Plain c
    · cases hnode : t.node (c :: l) with
      | none =>
        rw [trail_none hc hnode, trail_none hc hnode]
        rfl
      | some node =>
        cases node with
        | dir =>
          rw [trail_dir hc hnode, trail_dir hc hnode, ih _ hnode, Trail.bind_after,
            Trail.bind_after]
          rfl
        | file data =>
          rw [trail_file hc hnode, trail_file hc hnode, if_neg hne]
          by_cases hcs : cs = []
          · rw [if_pos hcs, Trail.bind_ok, if_neg (by rw [hnode]; simp)]
            rfl
          · rw [if_neg hcs]
            rfl
        | link target =>
          rw [trail_link hc hnode fun hlast => hne hlast.1, trail_link hc hnode (by simp),
            Trail.bind_after, Trail.bind_after, ← List.append_assoc]
          cases n with
          | zero => rfl
          | succ n => exact congrArg (Trail.after _) (ihlink n _ _ rfl (isDir_base h))
    · rw [trail_dots hc, trail_dots hc, ih _ (isDir_stepTo h hc)]
      rfl

theorem enter_append (h : t.node l = some .dir) :
    t.enter n l (cs ++ ds) = (t.enter n l cs).bind fun k m => t.enter m k ds := by
  by_cases hds : ds = []
  · subst hds
    have hstay : (t.enter n l cs).bind (fun k m => t.enter m k []) =
        (t.enter n l cs).bind fun k m => ⟨[], .ok (k, m)⟩ :=
      Trail.bind_congr fun k m hfound => enter_nil (found_enter hfound)
    rw [List.append_nil, hstay]
    obtain ⟨seen, ⟨e⟩ | ⟨k, m⟩⟩ := t.enter n l cs
    · rfl
    · simp
  · rw [enter, trail_append h hds, Trail.bind_assoc]
    rfl

theorem enter_cons (h : t.node l = some .dir) :
    t.enter n l (c :: cs) = (t.enter n l [c]).bind fun k m => t.enter m k cs := by
  rw [← List.singleton_append, enter_append h]

theorem enter_dots (h : t.node l = some .dir) (hc : c = "" ∨ c = ".") :
    t.enter n l [c] = ⟨[], .ok (l, n)⟩ := by
  have hplain : ¬ Plain c := fun hp => hc.elim hp.1 hp.2.1
  rw [enter, trail_dots hplain, stepTo, if_pos hc, trail_nil, Trail.bind_ok, if_pos h]
  rfl

theorem enter_filter (h : t.node l = some .dir) :
    t.enter n l cs = t.enter n l (cs.filter fun c => c ≠ "" ∧ c ≠ ".") := by
  induction cs generalizing l n with
  | nil => rfl
  | cons c cs ih =>
    by_cases hc : c = "" ∨ c = "."
    · have hdrop : (c :: cs).filter (fun c => c ≠ "" ∧ c ≠ ".") =
          cs.filter fun c => c ≠ "" ∧ c ≠ "." := by
        rcases hc with rfl | rfl <;> simp
      rw [enter_cons h, enter_dots h hc, Trail.bind_ok, hdrop, ih h]
      simp
    · rw [List.filter_cons_of_pos (by simpa [not_or] using hc), enter_cons h,
        Trail.bind_congr fun k m hfound => ih (found_enter hfound)]
      exact (enter_cons h).symm

theorem isDir_suffix (h : t.node l = some .dir) (hk : k <:+ l) : t.node k = some .dir := by
  induction l with
  | nil => rwa [List.suffix_nil.1 hk]
  | cons c l ih =>
    rcases List.suffix_cons_iff.1 hk with rfl | hk
    · exact h
    · exact ih (t.parent_dir (c := c) (by rw [h]; simp)) hk

theorem enter_dir (h : Plain c) (hnode : t.node (c :: l) = some .dir) :
    t.enter n l (c :: cs) = (t.enter n (c :: l) cs).after (c :: l) := by
  rw [enter, trail_dir h hnode, Trail.bind_after]
  rfl

theorem enter_down (hdir : t.node (cs.reverse ++ l) = some .dir) :
    (t.enter n l cs).found = .ok (cs.reverse ++ l, n) ∧
      ∀ k ∈ (t.enter n l cs).seen, k <:+ cs.reverse ++ l := by
  induction cs generalizing l with
  | nil =>
    rw [List.reverse_nil, List.nil_append] at hdir ⊢
    rw [enter_nil hdir]
    exact ⟨rfl, by simp⟩
  | cons c cs ih =>
    have happend : (c :: cs).reverse ++ l = cs.reverse ++ (c :: l) := by simp
    rw [happend] at hdir ⊢
    have hnode : t.node (c :: l) = some .dir := isDir_suffix hdir (List.suffix_append _ _)
    obtain ⟨hfound, hseen⟩ := ih hdir
    rw [enter_dir (t.plain (by rw [hnode]; simp)) hnode]
    refine ⟨hfound, fun k hk => ?_⟩
    rcases List.mem_cons.1 hk with rfl | hk
    · exact List.suffix_append _ _
    · exact hseen k hk

theorem enter_root (h : t.node l = some .dir) :
    (t.enter n [] l.reverse).found = .ok (l, n) ∧ ∀ k ∈ (t.enter n [] l.reverse).seen, k <:+ l := by
  have hdown : (t.enter n [] l.reverse).found = .ok (l.reverse.reverse ++ [], n) ∧
      ∀ k ∈ (t.enter n [] l.reverse).seen, k <:+ l.reverse.reverse ++ [] :=
    enter_down (by rw [List.reverse_reverse, List.append_nil]; exact h)
  rwa [List.reverse_reverse, List.append_nil] at hdown

/-! ### What a resolution depends on -/

theorem isDir_of_mem_seen (h : t.node l = some .dir) (hk : k ∈ (t.trail last n l cs).seen) :
    ∃ c d, k = c :: d ∧ Plain c ∧ t.node d = some .dir := by
  revert h hk
  refine trail_induction (P := fun n l cs => t.node l = some .dir →
    k ∈ (t.trail last n l cs).seen →
      ∃ c d, k = c :: d ∧ Plain c ∧ t.node d = some .dir) ?_ ?_ n l cs
  · intro n l _ hk
    simp at hk
  · intro n l c cs ih ihlink h hk
    by_cases hc : Plain c
    · have hself : k = c :: l → ∃ c d, k = c :: d ∧ Plain c ∧ t.node d = some .dir :=
        fun heq => ⟨c, l, heq, hc, h⟩
      cases hnode : t.node (c :: l) with
      | none =>
        rw [trail_none hc hnode] at hk
        exact hself (List.mem_singleton.1 hk)
      | some node =>
        cases node with
        | dir =>
          rw [trail_dir hc hnode] at hk
          exact (List.mem_cons.1 hk).elim hself (ih _ hnode)
        | file data =>
          rw [trail_file hc hnode] at hk
          exact hself (List.mem_singleton.1 hk)
        | link target =>
          by_cases hlast : cs = [] ∧ last = false
          · obtain ⟨rfl, rfl⟩ := hlast
            rw [trail_link_last hc hnode] at hk
            exact hself (List.mem_singleton.1 hk)
          · rw [trail_link hc hnode hlast] at hk
            refine (List.mem_cons.1 hk).elim hself fun hk => ?_
            cases n with
            | zero => cases hk
            | succ n => exact ihlink n _ _ rfl (isDir_base h) hk
    · rw [trail_dots hc] at hk
      exact ih _ (isDir_stepTo h hc) hk

theorem isDir_or_mem_seen (h : t.node l = some .dir)
    (hfound : (t.trail last n l cs).found = .ok (k, m)) :
    t.node k = some .dir ∨ k ∈ (t.trail last n l cs).seen := by
  revert h hfound
  refine trail_induction (P := fun n l cs => t.node l = some .dir →
    (t.trail last n l cs).found = .ok (k, m) →
      t.node k = some .dir ∨ k ∈ (t.trail last n l cs).seen) ?_ ?_ n l cs
  · intro n l h hfound
    rw [trail_nil] at hfound
    obtain ⟨rfl, rfl⟩ := Prod.mk.inj (Except.ok.inj hfound)
    exact .inl h
  · intro n l c cs ih ihlink h hfound
    by_cases hc : Plain c
    · cases hnode : t.node (c :: l) with
      | none =>
        rw [trail_none hc hnode] at hfound
        cases hfound
      | some node =>
        cases node with
        | dir =>
          rw [trail_dir hc hnode] at hfound ⊢
          exact (ih _ hnode hfound).imp_right (List.mem_cons_of_mem _)
        | file data =>
          rw [trail_file hc hnode] at hfound ⊢
          dsimp only at hfound
          split at hfound
          · obtain ⟨rfl, rfl⟩ := Prod.mk.inj (Except.ok.inj hfound)
            exact .inr (List.mem_singleton_self _)
          · cases hfound
        | link target =>
          by_cases hlast : cs = [] ∧ last = false
          · obtain ⟨rfl, rfl⟩ := hlast
            rw [trail_link_last hc hnode] at hfound ⊢
            obtain ⟨rfl, rfl⟩ := Prod.mk.inj (Except.ok.inj hfound)
            exact .inr (List.mem_singleton_self _)
          · rw [trail_link hc hnode hlast] at hfound ⊢
            cases n with
            | zero => cases hfound
            | succ n =>
              exact (ihlink n _ _ rfl (isDir_base h) hfound).imp_right (List.mem_cons_of_mem _)
    · rw [trail_dots hc] at hfound ⊢
      exact ih _ (isDir_stepTo h hc) hfound

/-- A resolution that does not follow a last link ends at it, or is no other than the one that
does. -/
theorem trail_false (t : Tree) (n : ℕ) (l : Loc) (cs : List String) :
    t.trail false n l cs = t.trail true n l cs ∨
      (∃ k m target, (t.trail false n l cs).found = .ok (k, m) ∧ t.node k = some (.link target)) ∧
        (t.trail false n l cs).seen <+: (t.trail true n l cs).seen := by
  refine trail_induction (P := fun n l cs => t.trail false n l cs = t.trail true n l cs ∨
    (∃ k m target, (t.trail false n l cs).found = .ok (k, m) ∧ t.node k = some (.link target)) ∧
      (t.trail false n l cs).seen <+: (t.trail true n l cs).seen) ?_ ?_ n l cs
  · intro n l
    exact .inl (by rw [trail_nil, trail_nil])
  · intro n l c cs ih ihlink
    -- Both resolutions note the location they pass, so what holds of the rest holds of the whole.
    have hafter : ∀ {x y : Trail}, (x = y ∨
        (∃ k m target, x.found = .ok (k, m) ∧ t.node k = some (.link target)) ∧
          x.seen <+: y.seen) → (x.after (c :: l) = y.after (c :: l) ∨
        (∃ k m target, (x.after (c :: l)).found = .ok (k, m) ∧ t.node k = some (.link target)) ∧
          (x.after (c :: l)).seen <+: (y.after (c :: l)).seen) := fun h =>
      h.imp (congrArg _) (And.imp_right (List.prefix_cons_inj (c :: l)).2)
    by_cases hc : Plain c
    · cases hnode : t.node (c :: l) with
      | none => exact .inl (by rw [trail_none hc hnode, trail_none hc hnode])
      | some node =>
        cases node with
        | dir =>
          rw [trail_dir hc hnode, trail_dir hc hnode]
          exact hafter (ih _)
        | file data => exact .inl (by rw [trail_file hc hnode, trail_file hc hnode])
        | link target =>
          have hfollow : t.trail true n l (c :: cs) =
              (t.follow true n (base l target) (components target ++ cs)).after (c :: l) :=
            trail_link hc hnode (by simp)
          rw [hfollow]
          by_cases hcs : cs = []
          · subst hcs
            rw [trail_link_last hc hnode]
            exact .inr ⟨⟨_, _, target, rfl, hnode⟩,
              (List.prefix_cons_inj (c :: l)).2 List.nil_prefix⟩
          · rw [trail_link hc hnode fun hlast => hcs hlast.1]
            cases n with
            | zero => exact .inl rfl
            | succ n => exact hafter (ihlink n _ _ rfl)
    · rw [trail_dots hc, trail_dots hc]
      exact ih _

/-- **A resolution depends on the places that it looks up only.** -/
theorem trail_congr (h : ∀ k ∈ (t.trail last n l cs).seen, t'.node k = t.node k) :
    t'.trail last n l cs = t.trail last n l cs := by
  revert h
  refine trail_induction (P := fun n l cs =>
    (∀ k ∈ (t.trail last n l cs).seen, t'.node k = t.node k) →
      t'.trail last n l cs = t.trail last n l cs) ?_ ?_ n l cs
  · intro n l _
    rw [trail_nil, trail_nil]
  · intro n l c cs ih ihlink h
    by_cases hc : Plain c
    · cases hnode : t.node (c :: l) with
      | none =>
        rw [trail_none hc hnode] at h ⊢
        rw [trail_none hc ((h _ (by simp)).trans hnode)]
      | some node =>
        cases node with
        | dir =>
          rw [trail_dir hc hnode] at h ⊢
          rw [trail_dir hc ((h _ (by simp)).trans hnode),
            ih _ fun k hk => h k (List.mem_cons_of_mem _ hk)]
        | file data =>
          rw [trail_file hc hnode] at h ⊢
          rw [trail_file hc ((h _ (by simp)).trans hnode)]
        | link target =>
          by_cases hlast : cs = [] ∧ last = false
          · obtain ⟨rfl, rfl⟩ := hlast
            rw [trail_link_last hc hnode] at h ⊢
            rw [trail_link_last hc ((h _ (by simp)).trans hnode)]
          · rw [trail_link hc hnode hlast] at h ⊢
            rw [trail_link hc ((h _ (by simp)).trans hnode) hlast]
            cases n with
            | zero => rfl
            | succ n =>
              exact congrArg (Trail.after _)
                (ihlink n _ _ rfl fun k hk => h k (List.mem_cons_of_mem _ hk))
    · rw [trail_dots hc] at h ⊢
      rw [trail_dots hc, ih _ h]

theorem mem_seen_self (hc : Plain c) : c :: l ∈ (t.trail last n l (c :: cs)).seen := by
  cases hnode : t.node (c :: l) with
  | none => simp [trail_none hc hnode]
  | some node =>
    cases node with
    | dir => simp [trail_dir hc hnode]
    | file data => simp [trail_file hc hnode]
    | link target =>
      by_cases hlast : cs = [] ∧ last = false
      · obtain ⟨rfl, rfl⟩ := hlast
        simp [trail_link_last hc hnode]
      · simp [trail_link hc hnode hlast]

/-- Looking up `k` is noticed in a tree: if nothing stands there, it is not found, and if a file
does, the resolution ends there. -/
def Notices (x : Trail) (t : Tree) (k : Loc) : Prop :=
  (t.node k = none → x.found = .error .notFound) ∧
    ∀ data, t.node k = some (.file data) →
      x.found = .error .notADirectory ∨ ∃ m, x.found = .ok (k, m)

/-- **It does depend on each of them.**  Of the places that it looks up, the first one that is not
among some is noticed. -/
theorem trail_first {S : Set Loc} (hk : ∃ k ∈ (t.trail last n l cs).seen, k ∉ S) :
    ∃ k ∈ (t.trail last n l cs).seen, k ∉ S ∧
      ∀ t' : Tree, (∀ j ∈ S, t'.node j = t.node j) → Notices (t'.trail last n l cs) t' k := by
  revert hk
  refine trail_induction (P := fun n l cs => (∃ k ∈ (t.trail last n l cs).seen, k ∉ S) →
    ∃ k ∈ (t.trail last n l cs).seen, k ∉ S ∧
      ∀ t' : Tree, (∀ j ∈ S, t'.node j = t.node j) →
        Notices (t'.trail last n l cs) t' k) ?_ ?_ n l cs
  · rintro n l ⟨k, hk, -⟩
    simp at hk
  · intro n l c cs ih ihlink hk
    by_cases hc : Plain c
    · by_cases hS : c :: l ∈ S
      · -- the same stands there in both trees
        have hnone : (t.trail last n l (c :: cs)).seen ≠ [c :: l] := by
          rintro hseen
          obtain ⟨k, hk, hkS⟩ := hk
          rw [hseen, List.mem_singleton] at hk
          exact hkS (hk ▸ hS)
        cases hnode : t.node (c :: l) with
        | none => exact absurd (by rw [trail_none hc hnode]) hnone
        | some node =>
          cases node with
          | dir =>
            rw [trail_dir hc hnode] at hk ⊢
            obtain ⟨j, hj, hjS⟩ := hk
            obtain ⟨k, hk, hkS, hnotice⟩ := ih (c :: l)
              ⟨j, (List.mem_cons.1 hj).resolve_left fun heq => hjS (heq ▸ hS), hjS⟩
            refine ⟨k, List.mem_cons_of_mem _ hk, hkS, fun t' hagree => ?_⟩
            rw [trail_dir hc ((hagree _ hS).trans hnode)]
            exact hnotice t' hagree
          | file data => exact absurd (by rw [trail_file hc hnode]) hnone
          | link target =>
            by_cases hlast : cs = [] ∧ last = false
            · obtain ⟨rfl, rfl⟩ := hlast
              exact absurd (by rw [trail_link_last hc hnode]) hnone
            · rw [trail_link hc hnode hlast] at hk ⊢
              obtain ⟨j, hj, hjS⟩ := hk
              have hj := (List.mem_cons.1 hj).resolve_left fun heq => hjS (heq ▸ hS)
              cases n with
              | zero => cases hj
              | succ n =>
                obtain ⟨k, hk, hkS, hnotice⟩ := ihlink n _ _ rfl ⟨j, hj, hjS⟩
                refine ⟨k, List.mem_cons_of_mem _ hk, hkS, fun t' hagree => ?_⟩
                rw [trail_link hc ((hagree _ hS).trans hnode) hlast]
                exact hnotice t' hagree
      · refine ⟨c :: l, mem_seen_self hc, hS, fun t' _ => ⟨fun hnode => ?_, fun data hnode => ?_⟩⟩
        · rw [trail_none hc hnode]
        · rw [trail_file hc hnode]
          dsimp only
          split
          · exact .inr ⟨n, rfl⟩
          · exact .inl rfl
    · rw [trail_dots hc] at hk ⊢
      obtain ⟨k, hk, hkS, hnotice⟩ := ih _ hk
      refine ⟨k, hk, hkS, fun t' hagree => ?_⟩
      rw [trail_dots hc]
      exact hnotice t' hagree

/-! ### Another tree -/

theorem not_cons_suffix_self : ¬ c :: l <:+ l := fun h => by
  have := h.length_le
  rw [List.length_cons] at this
  omega

theorem cons_suffix_cons_self : c :: l <:+ target :: l ↔ target = c := by
  constructor
  · intro h
    rcases List.suffix_cons_iff.1 h with heq | h
    · exact (List.cons.inj heq).1.symm
    · exact absurd h not_cons_suffix_self
  · rintro rfl
    exact List.suffix_rfl

/-- The tree with nothing at an entry of a directory, or a file. -/
def graft (t : Tree) (d : Loc) (c : String) (hd : t.node d = some .dir) (hc : Plain c)
    (o : Option Bytes) : Tree where
  node l :=
    if c :: d <:+ l then (if l = c :: d then o.map .file else none) else t.node l
  names l :=
    if c :: d <:+ l then ∅
    else if l = d then (if o = none then (t.names d).erase c else insert c (t.names d))
    else t.names l
  root_dir := by
    rw [if_neg (by simp)]
    exact t.root_dir
  parent_dir := fun {a l} h => by
    by_cases hs : c :: d <:+ a :: l
    · rw [if_pos hs] at h
      split at h
      · rename_i heq
        obtain ⟨rfl, rfl⟩ := List.cons.inj heq
        rw [if_neg not_cons_suffix_self]
        exact hd
      · exact absurd rfl h
    · rw [if_neg hs] at h
      rw [if_neg fun hs' => hs (List.suffix_cons_iff.2 (.inr hs'))]
      exact t.parent_dir h
  mem_names := fun {a l} => by
    by_cases hs : c :: d <:+ l
    · have hne : a :: l ≠ c :: d := fun heq => by
        obtain ⟨rfl, rfl⟩ := List.cons.inj heq
        exact not_cons_suffix_self hs
      rw [if_pos hs, if_pos (List.suffix_cons_iff.2 (.inr hs)), if_neg hne]
      simp
    · rw [if_neg hs]
      by_cases hl : l = d
      · subst hl
        rw [if_pos rfl]
        by_cases ha : a = c
        · subst ha
          rw [if_pos List.suffix_rfl, if_pos rfl]
          cases o <;> simp
        · rw [if_neg fun h => ha (cons_suffix_cons_self.1 h), ← t.mem_names]
          cases o <;> simp [ha]
      · have hs' : ¬ c :: d <:+ a :: l := fun h => by
          rcases List.suffix_cons_iff.1 h with heq | h
          · exact hl (List.cons.inj heq).2.symm
          · exact hs h
        rw [if_neg hl, if_neg hs', t.mem_names]
  plain := fun {a l} h => by
    split at h
    · split at h
      · rename_i heq
        rw [(List.cons.inj heq).1]
        exact hc
      · exact absurd rfl h
    · exact t.plain h

variable {d : Loc} {hd : t.node d = some .dir} {hc : Plain c} {o : Option Bytes}

theorem node_graft_self : (t.graft d c hd hc o).node (c :: d) = o.map .file := by
  simp [graft]

theorem node_graft_of_not_suffix (h : ¬ c :: d <:+ l) :
    (t.graft d c hd hc o).node l = t.node l := if_neg h

/-- **A place that is looked up matters**: two trees that differ from it elsewhere only, one with
nothing at a place and one with a file, in which the resolution ends differently. -/
theorem exists_noticed {S : Set Loc} (h : t.node l = some .dir)
    (hS : ∀ j ∈ S, ∀ k, k <:+ j → k ∈ S) (hk : ∃ k ∈ (t.trail last n l cs).seen, k ∉ S) :
    ∃ (k : Loc) (t₁ t₂ : Tree), k ∉ S ∧ (∀ j ∈ S, t₁.node j = t.node j) ∧
      (∀ j ∈ S, t₂.node j = t.node j) ∧ (t₁.trail last n l cs).found = .error .notFound ∧
        t₂.node k = some (.file []) ∧
          ((t₂.trail last n l cs).found = .error .notADirectory ∨
            ∃ m, (t₂.trail last n l cs).found = .ok (k, m)) := by
  obtain ⟨k, hk, hkS, hnotices⟩ := trail_first hk
  obtain ⟨c, d, rfl, hc, hd⟩ := isDir_of_mem_seen h hk
  have hsame : ∀ o, ∀ j ∈ S, (t.graft d c hd hc o).node j = t.node j := fun o j hj =>
    node_graft_of_not_suffix fun hsuffix => hkS (hS j hj _ hsuffix)
  refine ⟨c :: d, t.graft d c hd hc none, t.graft d c hd hc (some []), hkS, hsame _, hsame _,
    (hnotices _ (hsame none)).1 node_graft_self, node_graft_self,
    (hnotices _ (hsame (some []))).2 [] node_graft_self⟩

/-! ### Along a place -/

/-- The places at, beneath and above a place. -/
def along (r : Loc) : Set Loc := {k | r <:+ k ∨ k <:+ r}

theorem along_of_suffix {r j k : Loc} (hj : j ∈ along r) (hk : k <:+ j) : k ∈ along r := by
  rcases hj with hj | hj
  · exact List.suffix_or_suffix_of_suffix hj hk
  · exact .inr (hk.trans hj)

theorem node_eq_of_along {r : Loc} (hr : t.node r = some .dir)
    (h : ∀ k, r <:+ k → t'.node k = t.node k) (hk : k ∈ along r) : t'.node k = t.node k := by
  rcases hk with hk | hk
  · exact h k hk
  · rw [isDir_suffix hr hk, isDir_suffix ((h r List.suffix_rfl).trans hr) hk]

/-! ### A tree that is written down -/

/-- What stands at a place, of entries that are listed. -/
def lookup (es : List (Loc × Node)) (l : Loc) : Option Node :=
  if l = [] then some .dir else (es.find? fun e => e.1 = l).map Prod.snd

/-- The entry has a name, and stands in a directory. -/
def Grounded (es : List (Loc × Node)) (e : Loc × Node) : Prop :=
  e.1 ≠ [] ∧ Plain (e.1.headD "") ∧ lookup es e.1.tail = some .dir

instance (es : List (Loc × Node)) (e : Loc × Node) : Decidable (Grounded es e) :=
  inferInstanceAs (Decidable (_ ∧ _ ∧ _))

theorem grounded_of_lookup {es : List (Loc × Node)} (h : ∀ e ∈ es, Grounded es e)
    (hthere : lookup es (c :: l) ≠ none) : Plain c ∧ lookup es l = some .dir := by
  rw [lookup, if_neg (List.cons_ne_nil c l)] at hthere
  obtain ⟨node, hnode⟩ := Option.ne_none_iff_exists'.1 hthere
  obtain ⟨e, he, -⟩ := Option.map_eq_some_iff.1 hnode
  have hplace : e.1 = c :: l := by simpa using List.find?_some he
  obtain ⟨-, hc, hdir⟩ := h e (List.mem_of_find?_eq_some he)
  rw [hplace] at hc hdir
  exact ⟨hc, hdir⟩

/-- The tree of the entries. -/
def ofEntries (es : List (Loc × Node)) (h : ∀ e ∈ es, Grounded es e) : Tree where
  node := lookup es
  names l := ((es.filter fun e => e.1.tail = l).map fun e => e.1.headD "").toFinset
  root_dir := rfl
  parent_dir := fun hthere => (grounded_of_lookup h hthere).2
  plain := fun hthere => (grounded_of_lookup h hthere).1
  mem_names := fun {c l} => by
    rw [List.mem_toFinset, List.mem_map, lookup, if_neg (List.cons_ne_nil c l)]
    simp only [ne_eq, Option.map_eq_none_iff, List.find?_eq_none, decide_eq_true_eq, not_forall,
      not_not, List.mem_filter, exists_prop]
    constructor
    · rintro ⟨⟨k, node⟩, ⟨he, rfl⟩, rfl⟩
      obtain ⟨hne, -⟩ := h _ he
      cases k with
      | nil => exact absurd rfl hne
      | cons c l => exact ⟨_, he, rfl⟩
    · rintro ⟨e, he, hplace⟩
      exact ⟨e, ⟨he, by rw [hplace, List.tail_cons]⟩, by rw [hplace, List.headD_cons]⟩

end Tree

end LinkTree
