import AccessWidener.Storage.FileTree

/-!
# Replacing a File

Storing a node where a file or archive already stands changes what is found there and nothing else.
In particular a path leads where it led before: on the way to a node a tree is only asked which
names are directories, and a replaced file was none and is none.

## Theorems

* `nodeAt?_put`: What is found under a list of names.
* `resolve_put`: Paths lead where they led.
* `lookup_put`: The replaced node is found under its path.
-/

namespace AccessWidener

namespace FileTree

variable {tree : FileTree} {names : List String} {held node : Node}

theorem any_of_nodeAt? (hheld : tree.nodeAt? names = some held) (hne : held ≠ .directory) :
    tree.nodes.any (·.1 = names) = true := by
  unfold nodeAt? at hheld
  split at hheld
  next found heq =>
    have hmem := List.mem_of_find?_eq_some heq
    have hnames := List.find?_some heq
    exact List.any_eq_true.mpr ⟨_, hmem, hnames⟩
  next =>
    -- A name found only as the start of others is a directory.
    split at hheld
    next => exact absurd (Option.some.inj hheld).symm hne
    next => cases hheld

theorem nodes_put (h : tree.nodes.any (·.1 = names) = true) :
    (tree.put names node).nodes =
      tree.nodes.map fun entry => if entry.1 = names then (names, node) else entry := by
  unfold put
  rw [if_pos h]

theorem names_put (node : Node) (h : tree.nodes.any (·.1 = names) = true) :
    (tree.put names node).nodes.map Prod.fst = tree.nodes.map Prod.fst := by
  rw [nodes_put h, List.map_map]
  refine List.map_congr_left (fun entry _ => ?_)
  rw [Function.comp_apply]
  split
  next heq => exact heq.symm
  next => rfl

/-- Searching a list in which the entries under one name were replaced. -/
theorem find?_replaced (nodes : List (List String × Node)) (names other : List String)
    (node : Node) :
    (nodes.map fun entry => if entry.1 = names then (names, node) else entry).find?
        (·.1 = other) =
      if other = names then (nodes.find? (·.1 = names)).map fun _ => (names, node)
      else nodes.find? (·.1 = other) := by
  induction nodes with
  | nil => split <;> rfl
  | cons entry rest ih =>
      rw [List.map_cons, List.find?_cons, List.find?_cons, List.find?_cons, ih]
      -- The replaced entry keeps its name, so a search meets it where it met the old one.
      by_cases hother : other = names
      · subst hother
        by_cases hentry : entry.1 = other
        · simp [hentry]
        · simp [hentry]
      · by_cases hentry : entry.1 = names
        · simp [hentry, hother, Ne.symm hother]
        · simp [hentry, hother]

/-- What is found under a list of names once a node was replaced. -/
theorem nodeAt?_put (hheld : tree.nodeAt? names = some held) (hne : held ≠ .directory)
    (other : List String) :
    (tree.put names node).nodeAt? other =
      if other = names then some node else tree.nodeAt? other := by
  -- The node stands in the tree, so it is replaced and nothing is added behind the others.
  have hany := any_of_nodeAt? hheld hne
  have hfind := find?_replaced tree.nodes names other node
  rw [← nodes_put hany] at hfind
  unfold nodeAt?
  rw [hfind]
  by_cases hother : other = names
  · rcases List.any_eq_true.mp hany with ⟨entry, hmem, hentry⟩
    have hsome : (tree.nodes.find? (·.1 = names)).isSome = true :=
      List.find?_isSome.mpr ⟨entry, hmem, hentry⟩
    rcases Option.isSome_iff_exists.mp hsome with ⟨found, hfound⟩
    rw [if_pos hother, if_pos hother, hfound]
    rfl
  · -- What lies below other names is judged by names alone, and these are the same.
    have hbelow : (tree.put names node).nodes.any (fun entry => other.isPrefixOf entry.1) =
        tree.nodes.any (fun entry => other.isPrefixOf entry.1) := by
      have hnames := congrArg (List.any · (other.isPrefixOf ·)) (names_put node hany)
      simpa only [List.any_map, Function.comp_def] using hnames
    rw [if_neg hother, if_neg hother, hbelow]
    rfl

theorem nodeAt?_put_eq_none_iff (hheld : tree.nodeAt? names = some held)
    (hne : held ≠ .directory) (other : List String) :
    (tree.put names node).nodeAt? other = none ↔ tree.nodeAt? other = none := by
  rw [nodeAt?_put hheld hne]
  split
  next heq =>
    rw [heq, hheld]
    simp only [reduceCtorEq]
  next => exact Iff.rfl

/-! ### Paths -/

variable (hheld : tree.nodeAt? names = some held) (hne : held ≠ .directory)
variable (hnode : node ≠ .directory)

include hheld hne hnode

/-- The directories are those that were. -/
theorem nodeAt?_put_eq_directory_iff (other : List String) :
    (tree.put names node).nodeAt? other = some .directory ↔
      tree.nodeAt? other = some .directory := by
  rw [nodeAt?_put hheld hne]
  split
  next heq =>
    rw [heq, hheld]
    simp only [Option.some.injEq, hnode, hne]
  next => exact Iff.rfl

omit hheld hne hnode in
/-- One step of a walk asks whether anything is there, and whether it is a directory. -/
theorem walk_cons (tree : FileTree) (start : List String) (component : PathComponent)
    (rest : List PathComponent) :
    tree.walk start (component :: rest) =
      if tree.nodeAt? start = none then .error .notFound
      else if tree.nodeAt? start = some .directory then tree.walk (step start component) rest
      else .error .notDirectory := by
  rw [walk]
  cases tree.nodeAt? start with
  | none => rfl
  | some found => cases found <;> rfl

theorem walk_put (components : List PathComponent) (start : List String) :
    (tree.put names node).walk start components = tree.walk start components := by
  induction components generalizing start with
  | nil => rfl
  | cons component rest ih =>
      rw [walk_cons, walk_cons, ih]
      simp only [nodeAt?_put_eq_none_iff hheld hne, nodeAt?_put_eq_directory_iff hheld hne hnode]

/-- Paths lead where they led. -/
theorem resolve_put (path : Path) :
    (tree.put names node).resolve path = tree.resolve path := by
  rw [resolve, resolve, walk_put hheld hne hnode]
  rfl

omit hheld hne hnode in
/-- A path that leads to a file leads to the names under which the file stands. -/
theorem lookup_eq_ok {path : Path} (h : tree.lookup path = .ok held) (hne : held ≠ .directory) :
    ∃ names, tree.resolve path = .ok names ∧ tree.nodeAt? names = some held ∧
      path.requiresDirectory = false := by
  unfold lookup at h
  cases hresolve : tree.resolve path with
  | error fault =>
      rw [hresolve] at h
      cases h
  | ok names =>
      rw [hresolve] at h
      refine ⟨names, rfl, ?_⟩
      simp only [bind, Except.bind] at h
      split at h
      next => cases h
      next =>
        cases h
        exact absurd rfl hne
      next found hfound hnode =>
        -- A file is refused under a path that has to lead to a directory.
        split at h
        next => cases h
        next hrequires =>
          cases h
          exact ⟨hnode, Bool.eq_false_iff.mpr hrequires⟩

omit hheld hne hnode in
/-- There is at most one archive under a path. -/
theorem archive_eq_of_lookup {path : Path} {archive other : Archive}
    (h : tree.lookup path = .ok (.archive archive))
    (hother : tree.lookup path = .ok (.archive other)) : archive = other := by
  rw [h, Except.ok.injEq, Node.archive.injEq] at hother
  exact hother

/-- The replaced node is found under its path. -/
theorem lookup_put {path : Path} (hresolve : tree.resolve path = .ok names)
    (hrequires : path.requiresDirectory = false) :
    (tree.put names node).lookup path = .ok node := by
  have hfound : (tree.put names node).nodeAt? names = some node := by
    rw [nodeAt?_put hheld hne, if_pos rfl]
  unfold lookup
  rw [resolve_put hheld hne hnode, hresolve]
  simp only [bind, Except.bind, hfound]
  -- What was put there is no directory, and the path does not ask for one.
  cases node with
  | directory => exact absurd rfl hnode
  | file contents => simp only [hrequires, Bool.false_eq_true, if_false]
  | archive entries => simp only [hrequires, Bool.false_eq_true, if_false]

end FileTree

end AccessWidener
