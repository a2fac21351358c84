import Mathlib.Data.List.Induction
import Mathlib.Data.String.Basic
import WashController.Proofs.BoundedMap
import WashController.Proofs.Causes
import WashController.Proofs.Waits

/-!
# Cells

What becomes of a memory that has no cells at first, under any sequence of accesses. The sequence
goes on after accesses that are refused, so what an access changes is up to all those before it.
Still, what is left can be read off the sequence as it stands: the cells are the names that are
`admitted`, and each holds what the accesses to it make of zero by themselves, as if there were no
other cells (`Holds`). One more access keeps this, whether or not it is refused (`Holds.concat`),
and so it is true of any sequence (`holds_applyAll`).
-/

namespace WashController

namespace Memory

/-! ## Accesses -/

/-- What can be asked of a memory, each for the cell of a name. -/
inductive Access
  | get (name : String)
  | store (name : String) (value : Word)
  | alloc (name : String)
  | add (name : String) (amount : Word)
  deriving DecidableEq

namespace Access

/-- The name that needs a cell. Looking up a value needs none. -/
def target? : Access → Option String
  | get _ => none
  | store name _ | alloc name | add name _ => some name

/-- The value that a cell is left with. One that is not there yet counts as zero. -/
def leave (held : Word) : Access → Word
  | get _ | alloc _ => held
  | store _ value => value
  | add _ amount => held + amount

/-- The memory after an access, unless the access is refused. -/
def apply (memory : Memory Word) : Access → Except Fault (Memory Word)
  | get _ => .ok memory
  | store name value => memory.store name value
  | alloc name => memory.alloc name
  | add name amount => memory.add name amount

/-- What is added to the cell of a name, if anything is. -/
def added? (name : String) : Access → Option Word
  | add target amount => if target = name then some amount else none
  | _ => none

variable {access : Access} {memory : Memory Word} {name : String}

theorem apply_of_target?_eq_none (untargeted : access.target? = none) :
    access.apply memory = .ok memory := by
  cases access with
  | get name => rfl
  | store name value => cases untargeted
  | alloc name => cases untargeted
  | add name amount => cases untargeted

/-- Every access that needs a cell is an update of it. -/
theorem apply_of_target?_eq_some (targeted : access.target? = some name) :
    access.apply memory = memory.update name fun held => access.leave (held.getD 0) := by
  cases access with
  | get name => cases targeted
  | store name value =>
      cases targeted
      rfl
  | alloc name =>
      cases targeted
      rfl
  | add name amount =>
      cases targeted
      rfl

theorem filterMap_concat (accesses : List Access) (targeted : access.target? = some name) :
    (accesses ++ [access]).filterMap target? = accesses.filterMap target? ++ [name] := by
  simp [targeted]

end Access

/-- Adding is allocating, and then writing to the cell what it holds and the amount. -/
theorem add_eq_alloc_store (memory : Memory Word) (name : String) (amount : Word) :
    memory.add name amount = (memory.alloc name).bind fun allocated =>
      allocated.store name ((allocated.get? name).getD 0 + amount) := by
  cases allocated : memory.alloc name with
  | error fault =>
      obtain ⟨unadmitted, rfl⟩ := update_eq_error_iff.1 allocated
      exact update_eq_error_iff.2 ⟨unadmitted, rfl⟩
  | ok between =>
      have held : between.get? name = some ((memory.get? name).getD 0) := by
        rw [get?_of_update allocated, if_pos rfl]
        rfl
      have added : memory.add name amount = .ok _ :=
        update_eq_ok_iff.2 ⟨(update_eq_ok_iff.1 allocated).1, rfl⟩
      have stored : between.store name ((memory.get? name).getD 0 + amount) = .ok _ :=
        update_eq_ok_iff.2 ⟨admits_iff.2 (.inl (by rw [held]; rfl)), rfl⟩
      change _ = between.store name ((between.get? name).getD 0 + amount)
      rw [held, Option.getD_some, added, stored]
      refine congrArg Except.ok (ext (fun other => ?_) ?_)
      · rw [get?_of_update added, get?_of_update stored, get?_of_update allocated]
        by_cases same : name = other
        · rw [if_pos same, if_pos same]
          rfl
        · rw [if_neg same, if_neg same, if_neg same]
      · rw [capacity_of_update added, capacity_of_update stored, capacity_of_update allocated]

/-! ## Sequences of accesses -/

/-- The memory that accesses come to, one after the other. Those that are refused are left out. -/
def applyAll (capacity : Nat) (accesses : List Access) : Memory Word :=
  accesses.foldl (fun memory access => (access.apply memory).toOption.getD memory)
    (.empty capacity)

theorem applyAll_concat (capacity : Nat) (accesses : List Access) (access : Access) :
    applyAll capacity (accesses ++ [access]) =
      (access.apply (applyAll capacity accesses)).toOption.getD (applyAll capacity accesses) := by
  rw [applyAll, List.foldl_append]
  rfl

/-- What the accesses to a cell make of its value by themselves. -/
def credit (name : String) (held : Word) (accesses : List Access) : Word :=
  accesses.foldl
    (fun held access => if access.target? = some name then access.leave held else held) held

section Credit

variable {name : String} {held : Word} {access : Access} {accesses : List Access}

theorem credit_append (name : String) (held : Word) (earlier later : List Access) :
    credit name held (earlier ++ later) = credit name (credit name held earlier) later :=
  List.foldl_append

theorem credit_of_not_mem (untargeted : name ∉ accesses.filterMap Access.target?) :
    credit name held accesses = held := by
  induction accesses with
  | nil => rfl
  | cons access accesses ih =>
      have other : access.target? ≠ some name := fun targeted =>
        untargeted (List.mem_filterMap.2 ⟨access, List.mem_cons_self, targeted⟩)
      have others : name ∉ accesses.filterMap Access.target? := fun member => untargeted <| by
        obtain ⟨later, member, targeted⟩ := List.mem_filterMap.1 member
        exact List.mem_filterMap.2 ⟨later, List.mem_cons_of_mem _ member, targeted⟩
      rw [credit, List.foldl_cons, if_neg other]
      exact ih others

theorem credit_singleton (name : String) (held : Word) (access : Access) :
    credit name held [access] =
      if access.target? = some name then access.leave held else held :=
  rfl

/-- An access that does not store a value does no more than add. -/
theorem credit_singleton_of_ne (unstored : ∀ value, access ≠ .store name value) :
    credit name held [access] = (access.added? name).toList.foldl (· + ·) held := by
  rw [credit_singleton]
  cases access with
  | get target => rfl
  | store target value =>
      have other : (Access.store target value).target? ≠ some name := by
        rintro ⟨⟩
        exact unstored value rfl
      rw [if_neg other]
      rfl
  | alloc target => exact ite_self held
  | add target amount =>
      by_cases same : target = name <;> simp [Access.target?, Access.leave, Access.added?, same]

theorem credit_of_unstored (unstored : ∀ value, .store name value ∉ accesses) :
    credit name held accesses = (accesses.filterMap (Access.added? name)).foldl (· + ·) held := by
  induction accesses generalizing held with
  | nil => rfl
  | cons access accesses ih =>
      have first : ∀ value, access ≠ .store name value := fun value same =>
        unstored value (same ▸ List.mem_cons_self)
      have rest : ∀ value, .store name value ∉ accesses := fun value member =>
        unstored value (List.mem_cons_of_mem _ member)
      rw [← List.singleton_append, credit_append, credit_singleton_of_ne first, ih rest,
        List.filterMap_append, filterMap_singleton, List.foldl_append]

end Credit

/-! ## What is left -/

/-- Whether a memory is what accesses come to, if there is room for so many cells. -/
structure Holds (capacity : Nat) (accesses : List Access) (memory : Memory Word) : Prop where
  capacity_eq : memory.capacity = capacity
  enrolls : Enrolls capacity (accesses.filterMap Access.target?) memory.cells
  get?_eq : ∀ name ∈ admitted capacity (accesses.filterMap Access.target?),
    memory.get? name = some (credit name 0 accesses)

namespace Holds

variable {capacity : Nat} {accesses : List Access} {memory after : Memory Word} {access : Access}
  {name other : String} {fault : Fault}

theorem empty (capacity : Nat) : Holds capacity [] (.empty capacity) where
  capacity_eq := rfl
  enrolls := .empty capacity
  get?_eq _ member := absurd (mem_of_mem_admitted member) List.not_mem_nil

theorem isSome_get?_iff (holds : Holds capacity accesses memory) :
    (memory.get? name).isSome ↔ name ∈ admitted capacity (accesses.filterMap Access.target?) := by
  rw [← holds.enrolls.mem_iff, get?, Std.ExtTreeMap.isSome_getElem?_iff_mem]

theorem admits_iff (holds : Holds capacity accesses memory) :
    memory.admits name = true ↔
      name ∈ admitted capacity (accesses.filterMap Access.target? ++ [name]) := by
  rw [admits, holds.capacity_eq]
  exact holds.enrolls.admits_iff

/-- A name that is admitted now has had all its accesses accepted, if there were any. -/
theorem getD_get?_eq (holds : Holds capacity accesses memory)
    (accepted : name ∈ admitted capacity (accesses.filterMap Access.target? ++ [name])) :
    (memory.get? name).getD 0 = credit name 0 accesses := by
  by_cases seen : name ∈ accesses.filterMap Access.target?
  · rw [holds.get?_eq name ((mem_admitted_append_iff seen).1 accepted), Option.getD_some]
  · have missing : memory.get? name = none := by
      rw [← Option.not_isSome_iff_eq_none, holds.isSome_get?_iff]
      exact mt mem_of_mem_admitted seen
    rw [missing, credit_of_not_mem seen, Option.getD_none]

/-- An access that needs no cell. -/
theorem get (holds : Holds capacity accesses memory) (untargeted : access.target? = none) :
    Holds capacity (accesses ++ [access]) memory := by
  have names : (accesses ++ [access]).filterMap Access.target? =
      accesses.filterMap Access.target? := by simp [untargeted]
  refine ⟨holds.capacity_eq, names ▸ holds.enrolls, fun other member => ?_⟩
  rw [credit_append, credit_of_not_mem (by simp [untargeted])]
  exact holds.get?_eq other (names ▸ member)

/-- The other cells are left as they are, whether or not an access is refused. -/
theorem get?_eq_concat_of_ne (holds : Holds capacity accesses memory)
    (targeted : access.target? = some name) (different : name ≠ other)
    (member : other ∈ admitted capacity (accesses.filterMap Access.target? ++ [name])) :
    memory.get? other = some (credit other 0 (accesses ++ [access])) := by
  rw [credit_append, credit_of_not_mem (by simp [targeted, Ne.symm different])]
  exact holds.get?_eq other ((mem_admitted_concat_of_ne different).1 member)

/-- An access that is accepted. -/
theorem update (holds : Holds capacity accesses memory) (targeted : access.target? = some name)
    (applied : access.apply memory = .ok after) :
    Holds capacity (accesses ++ [access]) after := by
  have names := Access.filterMap_concat accesses targeted
  rw [Access.apply_of_target?_eq_some targeted] at applied
  have accepted := holds.admits_iff.1 (update_eq_ok_iff.1 applied).1
  refine ⟨(capacity_of_update applied).trans holds.capacity_eq, ?_, fun other member => ?_⟩
  · obtain ⟨-, rfl⟩ := update_eq_ok_iff.1 applied
    exact names ▸ holds.enrolls.insert accepted _
  · rw [get?_of_update applied]
    by_cases same : name = other
    · subst same
      rw [if_pos rfl, holds.getD_get?_eq accepted, credit_append, credit_singleton,
        if_pos targeted]
    · rw [if_neg same]
      exact holds.get?_eq_concat_of_ne targeted same (names ▸ member)

/-- An access that is refused. -/
theorem refuse (holds : Holds capacity accesses memory) (targeted : access.target? = some name)
    (refused : access.apply memory = .error fault) :
    Holds capacity (accesses ++ [access]) memory := by
  have names := Access.filterMap_concat accesses targeted
  rw [Access.apply_of_target?_eq_some targeted] at refused
  have unadmitted := (update_eq_error_iff.1 refused).1
  rw [← Bool.not_eq_true, holds.admits_iff] at unadmitted
  refine ⟨holds.capacity_eq, names ▸ holds.enrolls.refuse unadmitted, fun other member => ?_⟩
  have different : name ≠ other := by
    rintro rfl
    exact unadmitted (names ▸ member)
  exact holds.get?_eq_concat_of_ne targeted different (names ▸ member)

/-- One more access, whether or not it is refused. -/
theorem concat (holds : Holds capacity accesses memory) (access : Access) :
    Holds capacity (accesses ++ [access]) ((access.apply memory).toOption.getD memory) := by
  cases targeted : access.target? with
  | none =>
      rw [Access.apply_of_target?_eq_none targeted]
      exact holds.get targeted
  | some name =>
      cases applied : access.apply memory with
      | ok after => exact holds.update targeted applied
      | error fault => exact holds.refuse targeted applied

end Holds

theorem holds_applyAll (capacity : Nat) (accesses : List Access) :
    Holds capacity accesses (applyAll capacity accesses) := by
  induction accesses using List.reverseRecOn with
  | nil => exact .empty capacity
  | append_singleton accesses access ih =>
      rw [applyAll_concat]
      exact ih.concat access

section Results

variable {capacity : Nat} {earlier later accesses : List Access} {access : Access} {fault : Fault}
  {name : String} {value : Word}

theorem size_applyAll (capacity : Nat) (accesses : List Access) :
    (applyAll capacity accesses).size =
      min capacity (accesses.filterMap Access.target?).eraseDups.length :=
  (holds_applyAll capacity accesses).enrolls.size_eq.trans List.length_take

/-- An access is refused if it needs a cell that is not there, and no more can be made. -/
theorem apply_applyAll_eq_error_iff :
    access.apply (applyAll capacity accesses) = .error fault ↔
      fault = .memoryExhausted capacity ∧ (applyAll capacity accesses).size = capacity ∧
        ∃ name, access.target? = some name ∧ (applyAll capacity accesses).get? name = none := by
  have holds := holds_applyAll capacity accesses
  have bound : (applyAll capacity accesses).size ≤ capacity := by
    rw [size_applyAll]
    exact Nat.min_le_left _ _
  cases targeted : access.target? with
  | none => simp [Access.apply_of_target?_eq_none targeted]
  | some name =>
      rw [Access.apply_of_target?_eq_some targeted, update_eq_error_iff, admits_eq_false_iff,
        holds.capacity_eq]
      constructor
      · rintro ⟨⟨missing, full⟩, rfl⟩
        exact ⟨rfl, Nat.le_antisymm bound full, name, rfl, missing⟩
      · rintro ⟨rfl, full, other, same, missing⟩
        cases same
        exact ⟨⟨missing, full.ge⟩, rfl⟩

/-- An access that changes nothing when its turn comes makes no difference to later ones. -/
theorem applyAll_of_unchanged
    (unchanged : applyAll capacity (earlier ++ [access]) = applyAll capacity earlier) :
    applyAll capacity (earlier ++ access :: later) = applyAll capacity (earlier ++ later) := by
  rw [List.append_cons, applyAll, List.foldl_append]
  rw [applyAll] at unchanged
  rw [unchanged, applyAll, applyAll, List.foldl_append]

theorem get?_applyAll_of_store
    (member : name ∈ admitted capacity
      ((earlier ++ .store name value :: later).filterMap Access.target?))
    (last : ∀ other, .store name other ∉ later) :
    (applyAll capacity (earlier ++ .store name value :: later)).get? name =
      some (Word.reduce
        (value.toInt + ((later.filterMap (Access.added? name)).map Int32.toInt).sum)) := by
  have stored : credit name (credit name 0 earlier) [.store name value] = value := if_pos rfl
  rw [(holds_applyAll capacity _).get?_eq name member, List.append_cons, credit_append,
    credit_append, stored, credit_of_unstored last, foldl_add_eq_reduce]

theorem get?_applyAll_of_unstored
    (member : name ∈ admitted capacity (accesses.filterMap Access.target?))
    (unstored : ∀ value, .store name value ∉ accesses) :
    (applyAll capacity accesses).get? name =
      some (Word.reduce ((accesses.filterMap (Access.added? name)).map Int32.toInt).sum) := by
  rw [(holds_applyAll capacity accesses).get?_eq name member, credit_of_unstored unstored,
    foldl_add_eq_reduce, Int32.toInt_zero, Int.zero_add]

end Results

/-- The first names are the cells. Let a memory have no cells at first and be accessed in any
sequence, which goes on also after accesses are refused; to add is to allocate and then to write
what the cell holds and the amount. A name has a cell just if it is among the first names that are
stored to, allocated or added to, each counted once, and as many as the capacity says. Looking up a
value is never refused. Any other access is refused just if its name has no cell at that time and
the memory is full. Such an access and a look-up leave no trace, whatever comes later. A cell holds
the value that was stored last, or zero if none was, and all that was added since, summed up exactly
and reduced to a word. The cells are listed in strictly increasing order of their names. -/
theorem first_names_are_cells (capacity : Nat) (accesses : List Access) :
    (∀ (memory : Memory Word) name amount,
      Access.apply memory (.add name amount) = (memory.alloc name).bind fun allocated =>
        allocated.store name ((allocated.get? name).getD 0 + amount)) ∧
    (∀ name, ((applyAll capacity accesses).get? name).isSome ↔
      name ∈ (accesses.filterMap Access.target?).eraseDups.take capacity) ∧
    (∀ (access : Access) fault, access.apply (applyAll capacity accesses) = .error fault ↔
      fault = .memoryExhausted capacity ∧ (applyAll capacity accesses).size = capacity ∧
        ∃ name, access.target? = some name ∧ (applyAll capacity accesses).get? name = none) ∧
    (∀ earlier (access : Access) later, accesses = earlier ++ access :: later →
      (access.target? = none ∨ ∃ fault, access.apply (applyAll capacity earlier) = .error fault) →
      applyAll capacity accesses = applyAll capacity (earlier ++ later)) ∧
    (∀ name ∈ (accesses.filterMap Access.target?).eraseDups.take capacity,
      (∀ earlier value later, accesses = earlier ++ .store name value :: later →
        (∀ other, .store name other ∉ later) →
        (applyAll capacity accesses).get? name = some (Word.reduce
          (value.toInt + ((later.filterMap (Access.added? name)).map Int32.toInt).sum))) ∧
      ((∀ value, .store name value ∉ accesses) →
        (applyAll capacity accesses).get? name = some (Word.reduce
          ((accesses.filterMap (Access.added? name)).map Int32.toInt).sum))) ∧
    ((applyAll capacity accesses).toList.Pairwise fun left right => left.1 < right.1) ∧
    ∀ name value, (name, value) ∈ (applyAll capacity accesses).toList ↔
      (applyAll capacity accesses).get? name = some value := by
  refine ⟨add_eq_alloc_store, fun name => (holds_applyAll capacity accesses).isSome_get?_iff,
    fun access fault => apply_applyAll_eq_error_iff, ?_, fun name member => ⟨?_, ?_⟩,
    (toList_ordered _).imp compare_lt_iff_lt.1, fun name value => mem_toList⟩
  · rintro earlier access later rfl idle
    refine applyAll_of_unchanged ?_
    rw [applyAll_concat]
    rcases idle with untargeted | ⟨fault, refused⟩
    · rw [Access.apply_of_target?_eq_none untargeted]
      rfl
    · rw [refused]
      rfl
  · rintro earlier value later rfl last
    exact get?_applyAll_of_store member last
  · exact get?_applyAll_of_unstored member

/-- A cell that overflows, and a name that is asked for twice while the memory is full. -/
theorem first_names_are_cells_full :
    ∃ earlier : List Access, earlier =
        [.store "b" 1, .store "b" 2147483647, .get "c", .add "a" 5, .alloc "c", .add "b" 1] ∧
      (applyAll 2 earlier).get? "a" = some 5 ∧
      (applyAll 2 earlier).get? "b" = some (-2147483648) ∧
      (applyAll 2 earlier).get? "c" = none ∧
      (Access.store "c" 2).apply (applyAll 2 earlier) = .error (.memoryExhausted 2) ∧
      applyAll 2 (earlier ++ [.store "c" 2]) = applyAll 2 earlier ∧
      ("b", -2147483648) ∈ (applyAll 2 earlier).toList := by
  let earlier : List Access :=
    [.store "b" 1, .store "b" 2147483647, .get "c", .add "a" 5, .alloc "c", .add "b" 1]
  obtain ⟨-, present, refused, -, values, -, listed⟩ := first_names_are_cells 2 earlier
  obtain ⟨-, -, -, traceless, -⟩ := first_names_are_cells 2 (earlier ++ [.store "c" 2])
  have added : (applyAll 2 earlier).get? "a" = some 5 :=
    (values "a" (by decide)).2 (by simp [earlier])
  have stored : (applyAll 2 earlier).get? "b" = some (-2147483648) :=
    (values "b" (by decide)).1 [.store "b" 1] 2147483647 _ rfl (by simp)
  have missing : (applyAll 2 earlier).get? "c" = none :=
    Option.not_isSome_iff_eq_none.1 (mt (present "c").1 (by decide))
  have exhausted := (refused (.store "c" 2) _).2 ⟨rfl, size_applyAll 2 earlier, "c", rfl, missing⟩
  refine ⟨earlier, rfl, added, stored, missing, exhausted, ?_, (listed _ _).2 stored⟩
  rw [traceless earlier _ [] rfl (.inr ⟨_, exhausted⟩), List.append_nil]

end Memory

end WashController
