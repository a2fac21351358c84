import WashController.LoadError

/-!
# File trees

A directory with everything below it, so that reading a source is a function of a path. Paths are
looked up component by component, and a look-up fails at the first component that cannot be
passed. What is stored at a path is what is read at it (`read_insert`).
-/

namespace WashController

/-- A file with its bytes, or a directory with its entries by name. -/
inductive FileTree
  | file (content : ByteArray)
  | directory (entries : List (String × FileTree))

/-- The text that bytes encode. Nothing is repaired: bytes that are not UTF-8 are refused. -/
def decodeSource (bytes : ByteArray) : Except ReadError String :=
  match String.fromUTF8? bytes with
  | some source => .ok source
  | none => .error .invalidUtf8

theorem decodeSource_toUTF8 (source : String) : decodeSource source.toUTF8 = .ok source := by
  have decoded : String.fromUTF8? source.toUTF8 = some source := dif_pos source.isValidUTF8
  rw [decodeSource, decoded]

namespace FileTree

/-- What a directory holds. A file holds no entries. -/
def entries : FileTree → List (String × FileTree)
  | file _ => []
  | directory entries => entries

/-- Puts a file into a tree, at a list of names from the top down. Directories on the way are made
if they are missing, and what was at the place before is replaced. -/
def insert (content : ByteArray) : List String → FileTree → FileTree
  | [], _ => file content
  | name :: names, tree =>
    let below := (tree.entries.lookup name).getD (directory [])
    directory
      ((name, below.insert content names) :: tree.entries.filter fun entry => entry.1 ≠ name)

/-- The components of a path. Empty ones come from slashes at an end or in a row. -/
def components (path : String) : List String :=
  (path.toList.splitOn '/').map String.ofList

/-- A place in a file system: what is there, and the directories above it, nearest first. -/
structure Place where
  here : FileTree
  above : List FileTree

namespace Place

/-- The longest name that a directory entry may have, in bytes. -/
def maxName : Nat :=
  255

/-- The longest path that can be looked up, in bytes. -/
def maxPath : Nat :=
  4095

/-- Follows one component of a path. An empty component and a single dot stay, two dots go up, and
nothing can be followed from a file. -/
def follow (place : Place) (component : String) : Except ReadError Place :=
  match place.here with
  | file _ => .error .notDirectory
  | directory entries =>
    match component with
    | "" | "." => .ok place
    | ".." =>
      match place.above with
      | parent :: above => .ok ⟨parent, above⟩
      | [] => .ok place
    | name =>
      if name.utf8ByteSize > maxName then
        .error .nameTooLong
      else
        match entries.lookup name with
        | some entry => .ok ⟨entry, place.here :: place.above⟩
        | none => .error .notFound

/-- The topmost directory above a place. -/
def root (place : Place) : Place :=
  ⟨place.above.getLastD place.here, []⟩

/-- Looks up a path, from the top of the tree if it starts with a slash. -/
def find (place : Place) (path : String) : Except ReadError Place :=
  if path.isEmpty then
    .error .notFound
  else if path.utf8ByteSize > maxPath then
    .error .nameTooLong
  else
    let start := if path.startsWith "/" then place.root else place
    (components path).foldlM follow start

/-- Reads the source at a path. -/
def read (place : Place) (path : String) : Except ReadError String :=
  match place.find path with
  | .ok ⟨file content, _⟩ => decodeSource content
  | .ok ⟨directory _, _⟩ => .error .isDirectory
  | .error reason => .error reason

end Place

/-! ## Stored files -/

/-- Whether a component of a path names an entry. Empty ones and single dots stay where they are. -/
def isName (component : String) : Bool :=
  component ≠ "" && component ≠ "."

/-- Whether a component neither goes up nor is too long. -/
def GoesDown (component : String) : Prop :=
  component ≠ ".." ∧ component.utf8ByteSize ≤ Place.maxName

/-- The names on a path, from the top down. -/
def names (path : String) : List String :=
  (components path).filter isName

/-- Whether a path is one that a file can be stored at: it is not too long, nothing on it goes up or
is too long, and it ends in a name. -/
structure IsFilePath (path : String) : Prop where
  short : path.utf8ByteSize ≤ Place.maxPath
  down : ∀ component ∈ components path, GoesDown component
  named : (components path).getLast?.any isName = true

theorem IsFilePath.ne_empty {path : String} (filed : IsFilePath path) : path ≠ "" := by
  rintro rfl
  have unnamed : (components "").getLast?.any isName = false := by decide
  exact Bool.false_ne_true (unnamed.symm.trans filed.named)

section Insert

variable {content : ByteArray} {tree : FileTree} {above : List FileTree}

/-- A name is followed to its entry. -/
theorem follow_of_isName {name : String} {entry : FileTree} (named : isName name = true)
    (goes : GoesDown name) (found : tree.entries.lookup name = some entry) :
    Place.follow ⟨tree, above⟩ name = .ok ⟨entry, tree :: above⟩ := by
  cases tree with
  | file => cases found
  | directory entries =>
      have fits : ¬ name.utf8ByteSize > Place.maxName := Nat.not_lt.2 goes.2
      simp only [FileTree.entries] at found
      simp only [Place.follow]
      split
      next => cases named
      next => cases named
      next => exact absurd rfl goes.1
      next => simp only [if_neg fits, found]

/-- A component that is no name stays in a directory, such as one that a file is inserted below. -/
theorem follow_insert_of_isName_eq_false {component : String} {names : List String}
    (unnamed : isName component = false) (inserted : names ≠ []) :
    Place.follow ⟨tree.insert content names, above⟩ component =
      .ok ⟨tree.insert content names, above⟩ := by
  obtain rfl | rfl : component = "" ∨ component = "." := by
    simpa [isName, ← Decidable.or_iff_not_imp_left] using unnamed
  all_goals
    cases names with
    | nil => exact absurd rfl inserted
    | cons => rfl

/-- What is inserted at names is in the entry of the first of them. -/
theorem lookup_insert (name : String) (names : List String) :
    (tree.insert content (name :: names)).entries.lookup name =
      some (((tree.entries.lookup name).getD (directory [])).insert content names) := by
  simp [insert, entries]

theorem filter_isName_ne_nil {components : List String}
    (named : components.getLast?.any isName = true) : components.filter isName ≠ [] := by
  obtain ⟨last, found, isNamed⟩ := (Option.any_eq_true _ _).1 named
  exact List.ne_nil_of_mem (List.mem_filter.2 ⟨List.mem_of_getLast? found, isNamed⟩)

/-- A file that is inserted at the names among components is found by following them. -/
theorem exists_foldlM_follow_insert {components : List String}
    (down : ∀ component ∈ components, GoesDown component)
    (named : components.getLast?.any isName = true) :
    ∃ below, components.foldlM Place.follow
      ⟨tree.insert content (components.filter isName), above⟩ = .ok ⟨file content, below⟩ := by
  induction components generalizing tree above with
  | nil => cases named
  | cons component components ih =>
      obtain ⟨goes, rest⟩ := List.forall_mem_cons.1 down
      rw [List.foldlM_cons]
      -- A name goes down. Anything else stays, in a directory since there is a name to come.
      cases isNamed : isName component with
      | true =>
          rw [List.filter_cons_of_pos isNamed,
            follow_of_isName isNamed goes (lookup_insert component _)]
          cases components with
          | nil => exact ⟨_, rfl⟩
          | cons next components => exact ih rest named
      | false =>
          cases components with
          | nil => exact absurd (isNamed.symm.trans named) Bool.false_ne_true
          | cons next components =>
              have later : (next :: components).getLast?.any isName = true := named
              have unnamed : ¬ isName component = true := ne_true_of_eq_false isNamed
              rw [List.filter_cons_of_neg unnamed,
                follow_insert_of_isName_eq_false isNamed (filter_isName_ne_nil later)]
              exact ih rest later

end Insert

/-- What is stored at a path is read at it, in whatever tree it is stored. -/
theorem read_insert {path : String} (filed : IsFilePath path) (content : ByteArray)
    (tree : FileTree) :
    Place.read ⟨tree.insert content (names path), []⟩ path = decodeSource content := by
  obtain ⟨below, found⟩ : ∃ below, (components path).foldlM Place.follow
      ⟨tree.insert content (names path), []⟩ = .ok ⟨file content, below⟩ :=
    exists_foldlM_follow_insert filed.down filed.named
  have located : Place.find ⟨tree.insert content (names path), []⟩ path =
      .ok ⟨file content, below⟩ := by
    have nonempty : ¬ path.isEmpty = true := by simpa using filed.ne_empty
    rw [Place.find, if_neg nonempty, if_neg (Nat.not_lt.2 filed.short)]
    simpa [Place.root] using found
  rw [Place.read, located]

end FileTree

end WashController
