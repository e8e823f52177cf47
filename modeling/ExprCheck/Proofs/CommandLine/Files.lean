import ExprCheck.CommandLine.Files

/-!
# What is found in a directory

* `FileTree.read_mem`: whatever a path is, what is read is in one of the files.
* `FileTree.Holds`: the files that one directory can hold together.
* `FileTree.read_ofPaths`: each of them is read under its own path.
-/

namespace ExprCheck

namespace FileTree

variable {tree : FileTree} {content : ByteArray}

theorem mem_of_lookup {names : List String} (known : tree.files.lookup names = some content) :
    (names, content) ∈ tree.files := by
  obtain ⟨before, after, eq, -⟩ := List.lookup_eq_some_iff.1 known
  rw [eq]
  exact List.mem_append_right _ (.head _)

theorem mem_of_find? {names : List String}
    (found : tree.find? (.inside names) = some (.file content)) :
    (names, content) ∈ tree.files := by
  rw [find?, FileTree.entry?] at found
  split at found
  · next known =>
    cases found
    exact mem_of_lookup known
  · split at found <;> cases found

/-- A walk that finds something has come to one of the files. -/
theorem walk_mem {place : Place} {names : List String} (ok : tree.walk place names = .ok content) :
    ∃ path, (path, content) ∈ tree.files := by
  induction names generalizing place with
  | nil =>
    unfold walk at ok
    split at ok
    · next found =>
      cases ok
      cases place with
      | inside front => exact ⟨front, mem_of_find? found⟩
      | outside => cases found
    · cases ok
    · cases ok
  | cons name later ih =>
    unfold walk at ok
    split at ok
    · cases ok
    · cases ok
    · split at ok
      · exact ih ok
      · cases ok

/-- Nothing is read but what is in one of the files. -/
theorem read_mem {path : String} (ok : tree.read path = .ok content) :
    ∃ names, (names, content) ∈ tree.files := by
  unfold read at ok
  split at ok
  · cases ok
  · exact walk_mem ok
  · exact walk_mem ok

/-! ### Files side by side -/

/-- Files that one directory can hold: their paths go by names of what is inside, and no path is
that of another file or goes through one. -/
structure Holds (files : List (String × ByteArray)) : Prop where
  named : ∀ file ∈ files, ∀ name ∈ components file.1, name ≠ "" ∧ name ≠ "." ∧ name ≠ ".."
  apart : ∀ file ∈ files, ∀ other ∈ files, components file.1 <+: components other.1 → file = other

namespace Holds

variable {files : List (String × ByteArray)} {path : String}

theorem files_ofPaths (holds : Holds files) :
    (ofPaths files).files = files.map fun file => (components file.1, file.2) := by
  refine List.map_congr_left fun file mem => ?_
  rw [List.filter_eq_self.2]
  intro name isName
  obtain ⟨notEmpty, notDot, -⟩ := holds.named file mem name isName
  exact decide_eq_true ⟨notEmpty, notDot⟩

/-- A path of which a file is known up to some names is the path of that file. -/
theorem eq_of_lookup (holds : Holds files) (mem : (path, content) ∈ files) {names : List String}
    (onTheWay : names <+: components path) {found : ByteArray}
    (known : (ofPaths files).files.lookup names = some found) :
    names = components path ∧ found = content := by
  have isThere := mem_of_lookup known
  rw [holds.files_ofPaths] at isThere
  obtain ⟨other, isOther, eq⟩ := List.mem_map.1 isThere
  cases eq
  cases holds.apart other isOther (path, content) mem onTheWay
  exact ⟨rfl, rfl⟩

/-- A file is at the place where its path ends. -/
theorem find?_file (holds : Holds files) (mem : (path, content) ∈ files) :
    (ofPaths files).find? (.inside (components path)) = some (.file content) := by
  rw [find?, FileTree.entry?]
  split
  · next found known => rw [(holds.eq_of_lookup mem List.prefix_rfl known).2]
  · next unknown =>
    rw [holds.files_ofPaths] at unknown
    have differs := List.lookup_eq_none_iff.1 unknown _ (List.mem_map_of_mem mem)
    exact absurd rfl (bne_iff_ne.1 differs)

/-- On the way to a file there are directories. -/
theorem find?_directory (holds : Holds files) (mem : (path, content) ∈ files)
    {above below : List String} (parts : components path = above ++ below) (more : below ≠ []) :
    (ofPaths files).find? (.inside above) = some .directory := by
  have onTheWay : above <+: components path := ⟨below, parts.symm⟩
  rw [find?, FileTree.entry?]
  split
  · next found known =>
    rw [(holds.eq_of_lookup mem onTheWay known).1] at parts
    exact absurd (List.self_eq_append_right.1 parts) more
  · refine if_pos ?_
    rw [Bool.or_eq_true, List.any_eq_true, holds.files_ofPaths]
    exact .inr ⟨_, List.mem_map_of_mem mem, List.isPrefixOf_iff_prefix.2 onTheWay⟩

end Holds

/-- A walk through directories to a file finds it. -/
theorem walk_inside {later front : List String}
    (named : ∀ name ∈ later, name ≠ "" ∧ name ≠ "." ∧ name ≠ "..")
    (through : ∀ above below, later = above ++ below → below ≠ [] →
      tree.find? (.inside (front ++ above)) = some .directory)
    (isFile : tree.find? (.inside (front ++ later)) = some (.file content)) :
    tree.walk (.inside front) later = .ok content := by
  induction later generalizing front with
  | nil =>
    rw [List.append_nil] at isFile
    rw [walk, isFile]
  | cons name later ih =>
    obtain ⟨⟨notEmpty, notDot, notUp⟩, others⟩ := List.forall_mem_cons.1 named
    have here := through [] (name :: later) rfl (List.cons_ne_nil _ _)
    have next : (Place.inside front).next? name = some (.inside (front ++ [name])) := by
      simp [Place.next?, notEmpty, notDot, notUp]
    rw [List.append_nil] at here
    rw [walk, here, next]
    refine ih others (fun above below parts more => ?_) ?_
    · rw [List.append_assoc]
      exact through (name :: above) below (congrArg (name :: ·) parts) more
    · rwa [List.append_assoc]

/-- **Every file is read under its own path.** -/
theorem read_ofPaths {files : List (String × ByteArray)} (holds : Holds files) {path : String}
    (mem : (path, content) ∈ files) : (ofPaths files).read path = .ok content := by
  have named := holds.named _ mem
  have found : (ofPaths files).walk (.inside []) (components path) = .ok content :=
    walk_inside named (fun _ _ parts more => holds.find?_directory mem parts more)
      (holds.find?_file mem)
  unfold read
  split
  · next eq =>
    rw [eq] at named
    exact absurd rfl (named "" (.head _)).1
  · next names eq =>
    rw [eq] at named
    exact absurd rfl (named "" (.head _)).1
  · exact found

end FileTree

end ExprCheck
