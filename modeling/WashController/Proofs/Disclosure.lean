import WashController.Proofs.Exhaustion
import WashController.Proofs.Transcript

/-!
# Reports tell the state

The summary and the dump of a machine hold nothing back: the registers, the ticks, the memory and
the stack can be told from them. The rows of a dump are lines that start with a space, and headings
do not, so that it can be told where the rows of a section are over, whatever the cells are called.
A row of the memory can be told if the name of its cell has no blanks (`Panel.delimits_binding`),
and a row of the stack always can (`Panel.delimits_slot`). The cells that a program brings into
being have such names (`Assembly.AssembledFrom.unbroken_of_mem_cellNames`), and so two machines with
the same reports are the same as far as they are reported (`reports_tell_state`).
-/

namespace WashController

namespace Panel

/-! ## Rows -/

theorem toList_binding (name : String) (value : Word) :
    (binding name value).toList = "  ".toList ++ (name.toList ++ ' ' ::
      ("= ".toList ++ (value.text.toList ++ ['\n']))) := by
  simp [binding]

theorem toList_slot (distance : Nat) (value : Word) :
    (slot distance value).toList = "  [".toList ++ ((Text.index distance).toList ++ ']' ::
      (" ".toList ++ (value.text.toList ++ ['\n']))) := by
  simp [slot]

/-- A row with a name and a value can be told, whatever follows it. -/
theorem delimits_binding : Text.Delimits (fun (name, value) => binding name value)
    fun cell : String × Word => Text.Unbroken cell.1 := by
  rintro ⟨name, value⟩ ⟨other, number⟩ unbroken unbrokenOther after rest same
  simp only [toList_binding, List.append_assoc, List.cons_append, List.append_cancel_left_eq]
    at same
  obtain ⟨names, values⟩ := Text.cut_at_first (unbroken.not_mem (by decide))
    (unbrokenOther.not_mem (by decide)) same
  obtain rfl : name = other := String.toList_inj.1 names
  obtain ⟨rfl, ends⟩ := Word.cut_text (by decide) rfl (List.append_cancel_left values)
  exact ⟨rfl, ends⟩

/-- A row of the stack can be told, whatever follows it. -/
theorem delimits_slot : Text.Delimits (fun (value, distance) => slot distance value)
    fun _ : Word × Nat => True := by
  rintro ⟨value, distance⟩ ⟨number, other⟩ - - after rest same
  simp only [toList_slot, List.append_assoc, List.cons_append, List.append_cancel_left_eq] at same
  obtain ⟨indices, values⟩ :=
    Text.cut_at_first (Text.not_mem_index rfl distance) (Text.not_mem_index rfl other) same
  obtain rfl : distance = other := Text.index_inj.1 (String.toList_inj.1 indices)
  obtain ⟨rfl, ends⟩ := Word.cut_text (by decide) rfl (List.append_cancel_left values)
  exact ⟨rfl, ends⟩

/-- What stands between the numbers of a summary, and between the sections of a dump. -/
theorem toList_summary_append (machine : Machine Word) (after : List Char) :
    (summary machine).toList ++ after =
      "\n=== Final state ===\nR0 = ".toList ++ (machine.registers.r0.text.toList ++ '\n' ::
        ("R1 = ".toList ++ (machine.registers.r1.text.toList ++ '\n' ::
          ("Total ticks: ".toList ++ (machine.ticks.text.toList ++ '\n' ::
            ("Memory allocated: ".toList ++ (machine.memory.size.repr.toList ++ ' ' ::
              ("variables\n".toList ++ after)))))))) := by
  have written : summary machine = "\n=== Final state ===\nR0 = " ++ machine.registers.r0.text ++
    "\nR1 = " ++ machine.registers.r1.text ++ "\nTotal ticks: " ++ machine.ticks.text ++
    "\nMemory allocated: " ++ machine.memory.size.repr ++ " variables\n" := rfl
  simp [written]

theorem toList_dump (machine : Machine Word) :
    (dump machine).toList = "Memory:\n".toList ++
      ((String.join (machine.memory.toList.map fun (name, value) => binding name value)).toList ++
        ("Stack:\n".toList ++
          ((String.join (machine.stack.values.zipIdx.map fun (value, distance) =>
              slot distance value)).toList ++
            ("Sensors:\n".toList ++ (String.join (machine.sensors.readings.map
              fun (name, value) => binding name value)).toList)))) := by
  simp only [dump, String.toList_append, List.append_assoc]

/-- The numbers of a summary can be told, and so can what follows it. -/
theorem summary_inj {first second : Machine Word} {after rest : List Char}
    (same : (summary first).toList ++ after = (summary second).toList ++ rest) :
    first.registers.r0 = second.registers.r0 ∧ first.registers.r1 = second.registers.r1 ∧
      first.ticks = second.ticks ∧ after = rest := by
  rw [toList_summary_append, toList_summary_append] at same
  obtain ⟨r0, later⟩ := Word.cut_text (by decide) rfl (List.append_cancel_left same)
  obtain ⟨r1, later⟩ := Word.cut_text (by decide) rfl (List.append_cancel_left later)
  obtain ⟨ticks, later⟩ := Word.cut_text (by decide) rfl (List.append_cancel_left later)
  obtain ⟨-, later⟩ := Text.cut_at_first (Text.not_mem_repr rfl _) (Text.not_mem_repr rfl _)
    (List.append_cancel_left later)
  exact ⟨r0, r1, ticks, List.append_cancel_left later⟩

/-- The cells and the stack can be told from a dump, if the names of the cells have no blanks. -/
theorem dump_inj {first second : Machine Word}
    (unbroken : ∀ cell ∈ first.memory.toList, Text.Unbroken cell.1)
    (unbrokenOther : ∀ cell ∈ second.memory.toList, Text.Unbroken cell.1)
    (same : (dump first).toList = (dump second).toList) :
    first.memory.toList = second.memory.toList ∧ first.stack.values = second.stack.values := by
  rw [toList_dump, toList_dump] at same
  -- Rows start with a space and headings do not.
  obtain ⟨cells, later⟩ := delimits_binding.join_inj unbroken unbrokenOther
    (fun _ _ => by simp [toList_binding]) (fun _ _ => by simp [toList_binding])
    (List.append_cancel_left same)
  obtain ⟨slots, -⟩ := delimits_slot.join_inj (fun _ _ => trivial) (fun _ _ => trivial)
    (fun _ _ => by simp [toList_slot]) (fun _ _ => by simp [toList_slot])
    (List.append_cancel_left later)
  refine ⟨cells, ?_⟩
  rw [← List.zipIdx_map_fst 0 first.stack.values, slots, List.zipIdx_map_fst]

end Panel

/-! ## Cells of programs -/

section Cells

variable {α : Type} [Arithmetic α] {assembly : Assembly} {source : String}

/-- The cells that a program can bring into being have names without blanks. -/
theorem Assembly.AssembledFrom.unbroken_of_mem_cellNames (assembled : assembly.AssembledFrom source)
    {name : String} (member : name ∈ assembly.cellNames) : Text.Unbroken name := by
  obtain ⟨limits, title, log, after, loaded⟩ := assembled
  obtain ⟨code, inProgram, cell⟩ := List.mem_filterMap.1 (List.mem_toFinset.1 member)
  have writable := Assembly.writable_of_ofSource loaded code inProgram
  cases instruction : code.instruction with
  | store target value =>
      rw [instruction] at cell writable
      cases cell
      exact writable.1.unbroken
  | alloc target =>
      rw [instruction] at cell writable
      cases cell
      exact Text.Plain.unbroken writable
  | _ =>
      rw [instruction] at cell
      cases cell

/-- A cell that was not there from the start is one that the program names. -/
theorem Reached.cell_cases {first last : Machine α} (reached : Reached assembly first last)
    {name : String} (present : (last.memory.get? name).isSome) :
    (first.memory.get? name).isSome ∨ name ∈ assembly.cellNames := by
  induction reached with
  | refl => exact .inl present
  | step _ stepped ih =>
      rcases step_eq_ok_iff.1 stepped with ⟨-, -, rfl⟩ | ⟨code, between, fetched, rule, rfl⟩
      · exact ih present
      · rw [Event.settle_memory] at present
        rcases rule.cell_cases present with held | cell
        · exact ih held
        · exact .inr (Assembly.mem_cellNames_of_fetch? fetched cell)
  | fault _ faulted ih =>
      obtain ⟨-, -, -, rfl⟩ := step_eq_error_iff.1 faulted
      exact ih present

end Cells

/-- The reports tell the state. Two machines whose cells have names without blanks, and of which the
summary followed by the dump is the same text, have the same in both registers, the same ticks, the
same cells with the same values, and the same stack from the bottom to the top. Such are all cells
that a program which was assembled brings into being, whatever steps it takes. -/
theorem reports_tell_state :
    (∀ first second : Machine Word,
      (∀ name, (first.memory.get? name).isSome → Text.Unbroken name) →
      (∀ name, (second.memory.get? name).isSome → Text.Unbroken name) →
      Panel.summary first ++ Panel.dump first = Panel.summary second ++ Panel.dump second →
      first.registers.r0 = second.registers.r0 ∧ first.registers.r1 = second.registers.r1 ∧
        first.ticks = second.ticks ∧
        (∀ name, first.memory.get? name = second.memory.get? name) ∧
        first.stack.values.reverse = second.stack.values.reverse) ∧
    ∀ (assembly : Assembly) (source : String), assembly.AssembledFrom source →
      ∀ first last : Machine Word, Reached assembly first last →
        ∀ name, (last.memory.get? name).isSome →
          (first.memory.get? name).isSome ∨ Text.Unbroken name := by
  refine ⟨?_, fun assembly source assembled first last reached name present => ?_⟩
  · intro first second unbroken unbrokenOther same
    have listed {machine : Machine Word}
        (unbroken : ∀ name, (machine.memory.get? name).isSome → Text.Unbroken name) :
        ∀ cell ∈ machine.memory.toList, Text.Unbroken cell.1 := by
      rintro ⟨name, value⟩ member
      exact unbroken name (Option.isSome_of_eq_some (Memory.mem_toList.1 member))
    have chars := congrArg String.toList same
    rw [String.toList_append, String.toList_append] at chars
    obtain ⟨r0, r1, ticks, dumps⟩ := Panel.summary_inj chars
    obtain ⟨cells, values⟩ := Panel.dump_inj (listed unbroken) (listed unbrokenOther) dumps
    refine ⟨r0, r1, ticks, fun name => Option.ext fun value => ?_, congrArg List.reverse values⟩
    rw [← Memory.mem_toList, cells, Memory.mem_toList]
  · exact (reached.cell_cases present).imp_right assembled.unbroken_of_mem_cellNames

/-- Cells without a name and with one that looks like a row of the stack, written in another order.
What the reports do not show may be different. -/
theorem reports_tell_state_odd_names :
    ∃ first second : Machine Word,
      first.memory.toList = [("", -1), ("Stack:", 3), ("[0000]", 2)] ∧
      first.stack.values = [7, -7] ∧ first.counter ≠ second.counter ∧
      Panel.summary first ++ Panel.dump first = Panel.summary second ++ Panel.dump second ∧
      (∀ name, first.memory.get? name = second.memory.get? name) ∧
      first.stack.values.reverse = second.stack.values.reverse := by
  let first : Machine Word :=
    { Machine.initial {} with
      memory := ⟨{("", -1), ("[0000]", 2), ("Stack:", 3)}, 3⟩, stack := ⟨[7, -7], 2⟩ }
  let second : Machine Word :=
    { Machine.initial {} with
      memory := ⟨{("Stack:", 3), ("[0000]", 2), ("", -1)}, 9⟩, stack := ⟨[7, -7], 5⟩, counter := 4 }
  have cells : first.memory.toList = [("", -1), ("Stack:", 3), ("[0000]", 2)] := by decide
  have cellsOther : second.memory.toList = [("", -1), ("Stack:", 3), ("[0000]", 2)] := by decide
  have unbroken {machine : Machine Word}
      (cells : machine.memory.toList = [("", -1), ("Stack:", 3), ("[0000]", 2)]) (name : String)
      (present : (machine.memory.get? name).isSome) : Text.Unbroken name := by
    obtain ⟨value, found⟩ := Option.isSome_iff_exists.1 present
    have member := Memory.mem_toList.2 found
    have all : ∀ cell ∈ [("", (-1 : Word)), ("Stack:", 3), ("[0000]", 2)],
        Text.Unbroken cell.1 := by
      decide
    exact all _ (cells ▸ member)
  have same : Panel.summary first ++ Panel.dump first =
      Panel.summary second ++ Panel.dump second := by
    have dumps : Panel.dump first = Panel.dump second := by
      rw [Panel.dump, Panel.dump, cells, cellsOther]
    rw [dumps]
    rfl
  obtain ⟨-, -, -, memories, values⟩ :=
    reports_tell_state.1 first second (unbroken cells) (unbroken cellsOther) same
  exact ⟨first, second, cells, rfl, by decide, same, memories, values⟩

end WashController
