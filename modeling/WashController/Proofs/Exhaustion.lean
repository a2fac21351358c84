import WashController.Proofs.BoundedMap
import WashController.Proofs.Bounds
import WashController.Proofs.History
import WashController.Proofs.RunLoop

/-!
# When memory suffices

A program can only bring cells into being that it names. On a machine that starts without cells the
memory therefore never holds others than those (`Reached.names_subset`), so there are at most as
many cells as the program has such names, and at most as many names as it has instructions. Memory
is exhausted only at a name that has no cell yet (`Refuses.exists_cell`): there is room for it as
long as the memory has room for all the names. That the limit on instructions is no higher than the
limit on cells is enough for this, whatever the program does (`memory_suffices`).
-/

namespace WashController

/-! ## Names of cells -/

/-- The cell that an instruction brings into being if it is missing. -/
def Instruction.cell? : Instruction → Option String
  | .store name _ => some name
  | .alloc name => some name
  | _ => none

/-- The names of the cells that a program can bring into being. -/
def Assembly.cellNames (assembly : Assembly) : Finset String :=
  (assembly.program.toList.filterMap fun code => code.instruction.cell?).toFinset

/-- The names of the cells in a memory. -/
def Memory.names {α : Type} (memory : Memory α) : Finset String :=
  BoundedMap.names memory.cells

section Names

variable {α : Type} {memory : Memory α} {assembly : Assembly} {name : String}

@[simp]
theorem Memory.mem_names : name ∈ memory.names ↔ (memory.get? name).isSome :=
  BoundedMap.mem_names

@[simp]
theorem Memory.card_names : memory.names.card = memory.size :=
  BoundedMap.card_names

theorem Assembly.mem_cellNames_of_fetch? {address : Nat} {code : CodeLine}
    (fetched : assembly.fetch? address = some code) (cell : code.instruction.cell? = some name) :
    name ∈ assembly.cellNames := by
  have inProgram : code ∈ assembly.program.toList :=
    Array.mem_toList_iff.2 (Array.mem_of_getElem? fetched)
  exact List.mem_toFinset.2 (List.mem_filterMap.2 ⟨code, inProgram, cell⟩)

/-- Each instruction has at most one name. -/
theorem Assembly.card_cellNames_le (assembly : Assembly) :
    assembly.cellNames.card ≤ assembly.size :=
  (List.toFinset_card_le _).trans (List.length_filterMap_le _ _)

end Names

/-! ## Steps -/

section Step

variable {α : Type} [Arithmetic α] {labels : LabelTable} {instruction : Instruction}
  {event : Event α} {assembly : Assembly} {machine after : Machine α} {name : String}

theorem Instruction.cell?_of_stored? {registers : Registers α}
    (stored : (instruction.stored? registers name).isSome) : instruction.cell? = some name := by
  cases instruction with
  | store target value =>
      by_cases same : target = name
      · exact congrArg some same
      · simp [stored?, same] at stored
  | _ => cases stored

/-- A cell that is new is the one that the instruction names. -/
theorem Executes.cell_cases (rule : Executes labels machine instruction event after)
    (present : (after.memory.get? name).isSome) :
    (machine.memory.get? name).isSome ∨ instruction.cell? = some name := by
  rw [rule.get?_memory, Option.isSome_or, Option.isSome_or, Bool.or_eq_true,
    Bool.or_eq_true] at present
  rcases present with stored | held | allocated
  · exact .inr (Instruction.cell?_of_stored? stored)
  · exact .inl held
  · split at allocated
    next same => exact .inr (same ▸ rfl)
    next => cases allocated

/-- Memory is exhausted at a cell that the instruction names, where there is neither such a cell nor
room for one. -/
theorem Refuses.exists_cell {capacity : Nat}
    (rule : Refuses labels machine instruction (.memoryExhausted capacity)) :
    ∃ name, instruction.cell? = some name ∧ machine.memory.admits name = false := by
  cases rule with
  | pushLiteral refused | pushVariable _ refused | push refused =>
      cases (Stack.push_eq_error_iff.1 refused).2
  | pop refused => cases (Stack.pop_eq_error_iff.1 refused).2
  | store refused | alloc refused => exact ⟨_, rfl, (Memory.update_eq_error_iff.1 refused).1⟩

theorem step_names_subset (stepped : step assembly machine = .ok event after)
    (named : machine.memory.names ⊆ assembly.cellNames) :
    after.memory.names ⊆ assembly.cellNames := by
  rcases step_eq_ok_iff.1 stepped with ⟨-, rfl, rfl⟩ | ⟨code, between, fetched, rule, rfl⟩
  · exact named
  · intro name member
    rw [Memory.mem_names, Event.settle_memory] at member
    rcases rule.cell_cases member with held | cell
    · exact named (Memory.mem_names.2 held)
    · exact Assembly.mem_cellNames_of_fetch? fetched cell

/-- A memory that holds no other cells than the program names, and has room for all of them, is not
exhausted. -/
theorem step_ne_memoryExhausted (named : machine.memory.names ⊆ assembly.cellNames)
    (room : assembly.cellNames.card ≤ machine.memory.capacity) (capacity : Nat) :
    step assembly machine ≠ .error (.memoryExhausted capacity) after := by
  intro faulted
  obtain ⟨code, fetched, rule, -⟩ := step_eq_error_iff.1 faulted
  obtain ⟨name, cell, refused⟩ := rule.exists_cell
  obtain ⟨missing, full⟩ : ¬ (machine.memory.get? name).isSome ∧
      ¬ machine.memory.size < machine.memory.capacity :=
    not_or.1 (mt Memory.admits_iff.2 (Bool.eq_false_iff.1 refused))
  -- The program has one name more than there are cells.
  have more : insert name machine.memory.names ⊆ assembly.cellNames :=
    Finset.insert_subset (Assembly.mem_cellNames_of_fetch? fetched cell) named
  have count : machine.memory.size + 1 ≤ assembly.cellNames.card := by
    have le := Finset.card_le_card more
    rwa [Finset.card_insert_of_notMem (mt Memory.mem_names.1 missing), Memory.card_names] at le
  omega

end Step

/-! ## Runs -/

theorem Reached.names_subset {α : Type} [Arithmetic α] {assembly : Assembly}
    {first last : Machine α} (reached : Reached assembly first last)
    (named : first.memory.names ⊆ assembly.cellNames) :
    last.memory.names ⊆ assembly.cellNames := by
  induction reached with
  | refl => exact named
  | step _ stepped ih => exact step_names_subset stepped ih
  | fault _ faulted ih =>
      obtain ⟨-, -, -, rfl⟩ := step_eq_error_iff.1 faulted
      exact ih

theorem Machine.names_initial {α : Type} [Arithmetic α] (limits : Limits) :
    (initial limits : Machine α).memory.names = ∅ := by
  ext name
  simp [initial, Memory.empty, Memory.get?]

namespace Session

/-- A run that starts with no other cells than the program names, and with room for all of these,
does not exhaust the memory. -/
theorem EndsWith.ne_memoryExhausted {assembly : Assembly} {limit : Option Nat}
    {machine : Machine Word} {sink : Sink} {log : Log} {ending : Ending} {after : Session}
    (ends : EndsWith assembly limit (start machine sink log) ending after)
    (named : machine.memory.names ⊆ assembly.cellNames)
    (room : assembly.cellNames.card ≤ machine.memory.capacity) (capacity : Nat) :
    ending ≠ .fault (.memoryExhausted capacity) := by
  intro same
  subst same
  obtain ⟨moments, last, path, -, -, finishes⟩ := endsWith_iff.1 ends
  cases finishes with
  | fault _ _ faulted =>
      have room : assembly.cellNames.card ≤ last.memory.capacity :=
        path.reached.keeps.memoryCapacity ▸ room
      exact step_ne_memoryExhausted (path.reached.names_subset named) room capacity faulted

end Session

namespace Assembly

open Session

variable {loading : Limits} {name source : String} {log after : Log} {assembly : Assembly}

/-- Memory suffices for what a program names. Whatever steps a program that was assembled takes from
a machine just switched on, every cell has a name that a store or an allocation of the program
gives, and so there are no more cells than such names. If the memory has room for as many cells as
the program has such names, or just for as many as it may have had instructions when it was
assembled, as it has by default, then no step exhausts the memory, and no run ends with that fault
under any step limit. -/
theorem memory_suffices (loaded : ofSource loading name source log = .ok assembly after)
    (limits : Limits) :
    (∀ machine : Machine Word, Reached assembly (.initial limits) machine →
      (∀ cell, (machine.memory.get? cell).isSome →
        ∃ code ∈ assembly.program.toList, code.instruction.cell? = some cell) ∧
      machine.memory.size ≤ assembly.cellNames.card) ∧
    (loading.maxInstructions ≤ limits.maxMemory ∨
        assembly.cellNames.card ≤ limits.maxMemory →
      (∀ machine : Machine Word, Reached assembly (.initial limits) machine →
        ∀ capacity last, step assembly machine ≠ .error (.memoryExhausted capacity) last) ∧
      ∀ limit sink log ending last,
        EndsWith assembly limit (start (.initial limits) sink log) ending last →
          ∀ capacity, ending ≠ .fault (.memoryExhausted capacity)) ∧
    ({} : Limits).maxInstructions ≤ ({} : Limits).maxMemory := by
  have fresh : (Machine.initial limits : Machine Word).memory.names ⊆ assembly.cellNames := by
    rw [Machine.names_initial]
    exact Finset.empty_subset _
  refine ⟨fun machine reached => ⟨fun cell present => ?_, ?_⟩, fun given => ?_, Nat.le_refl _⟩
  · have member := reached.names_subset fresh (Memory.mem_names.2 present)
    exact List.mem_filterMap.1 (List.mem_toFinset.1 member)
  · rw [← Memory.card_names]
    exact Finset.card_le_card (reached.names_subset fresh)
  · have room : assembly.cellNames.card ≤ limits.maxMemory := by
      rcases given with instructions | names
      · calc assembly.cellNames.card
            _ ≤ assembly.size := assembly.card_cellNames_le
            _ ≤ loading.maxInstructions := size_le_maxInstructions loaded
            _ ≤ limits.maxMemory := instructions
      · exact names
    refine ⟨fun machine reached capacity last => ?_, fun limit sink log ending last ends => ?_⟩
    · have capacity_eq : machine.memory.capacity = limits.maxMemory :=
        reached.keeps.memoryCapacity
      exact step_ne_memoryExhausted (reached.names_subset fresh) (capacity_eq ▸ room) capacity
    · exact ends.ne_memoryExhausted fresh room

/-- A loop that takes the last free cell and goes on storing to its two cells. -/
theorem memory_suffices_full :
    ∃ assembly after last,
      ofSource {} "full" "again:\nSTORE x 1\nALLOC y\nJMP again\n" #[] = .ok assembly after ∧
      assembly.cellNames.card ≤ 2 ∧
      EndsWith assembly (some 5) (start (.initial { maxMemory := 2 }) (.empty none) #[])
        (.fault (.stepLimit 5)) last ∧
      last.machine.memory.size = 2 ∧
      ∀ limit sink log ending last,
        EndsWith assembly limit (start (.initial { maxMemory := 2 }) sink log) ending last →
          ending ≠ .fault (.memoryExhausted 2) := by
  obtain ⟨assembly, after, last, loaded, names, ends, size⟩ : ∃ assembly after last,
      ofSource {} "full" "again:\nSTORE x 1\nALLOC y\nJMP again\n" #[] = .ok assembly after ∧
        assembly.cellNames.card ≤ 2 ∧
        EndsWith assembly (some 5) (start (.initial { maxMemory := 2 }) (.empty none) #[])
          (.fault (.stepLimit 5)) last ∧
        last.machine.memory.size = 2 :=
    ⟨_, _, _, rfl, by decide, ⟨6, rfl⟩, rfl⟩
  obtain ⟨-, spared, -⟩ := memory_suffices loaded { maxMemory := 2 }
  obtain ⟨-, runs⟩ := spared (.inr names)
  exact ⟨assembly, after, last, loaded, names, ends, size,
    fun limit sink log ending last ends => runs limit sink log ending last ends 2⟩

end Assembly

end WashController
