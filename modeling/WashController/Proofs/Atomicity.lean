import WashController.Proofs.RunLoop

/-!
# Faults are atomic

An instruction that faults has done nothing: no part of the machine differs from what the
instruction found (`step_eq_error_iff`). For a run this means that a fault leaves the machine of
the last instruction that succeeded, except that it counts as halted (`fault_leaves_machine`).
-/

namespace WashController

namespace Session

/-- A fault leaves no trace of the instruction that faulted. A step that faults gives back the
machine that it was given. A run that ends in a fault leaves the machine after the completed
steps, marked as halted, with the program counter on the instruction that faulted, or that comes
next where the step limit is the fault. -/
theorem fault_leaves_machine (assembly : Assembly) :
    (∀ (machine after : Machine Word) (fault : Fault),
      step assembly machine = .error fault after → after = machine) ∧
    ∀ (limit : Option Nat) (machine : Machine Word) (sink : Sink) (log : Log) (fault : Fault)
      (after : Session), EndsWith assembly limit (start machine sink log) (.fault fault) after →
      ∃ moments last code, Path assembly machine moments last ∧
        moments.length = after.executed ∧
        after.machine = { last with halted := true } ∧
        assembly.fetch? after.machine.counter = some code ∧
        (step assembly last = .error fault last ∨
          fault = .stepLimit moments.length ∧ limit = some moments.length) := by
  refine ⟨fun machine after fault faulted => ?_, ?_⟩
  · obtain ⟨-, -, -, unchanged⟩ := step_eq_error_iff.1 faulted
    exact unchanged
  · intro limit machine sink log fault after ends
    obtain ⟨moments, last, path, affords, -, finishes⟩ := endsWith_iff.1 ends
    have count : moments.length = 0 + moments.length := (Nat.zero_add _).symm
    cases finishes with
    | @stepLimit most reached =>
        obtain rfl := length_eq_of_limitReached? affords reached
        obtain ⟨limited, -, inProgram⟩ := limitReached?_eq_some_iff.1 reached
        obtain ⟨code, fetched⟩ := Assembly.exists_fetch? inProgram
        exact ⟨moments, last, code, path, count, rfl, fetched, .inr ⟨rfl, limited⟩⟩
    | @fault code _ _ fetched faulted =>
        exact ⟨moments, last, code, path, count, rfl, fetched, .inl faulted⟩

/-- More values are popped than were pushed, in a single step and in a run. -/
theorem fault_leaves_machine_underflow :
    ∃ (assembly : Assembly) (unchanged : Machine Word) (after : Session),
      step assembly { Machine.initial {} with counter := 1 } =
        .error .stackUnderflow unchanged ∧
      unchanged = { Machine.initial {} with counter := 1 } ∧
      EndsWith assembly none (start (.initial {}) (.empty none) #[]) (.fault .stackUnderflow)
        after ∧
      ∃ moments last, Path assembly (.initial {}) moments last ∧
        moments.length = after.executed ∧ after.machine = { last with halted := true } := by
  let assembly : Assembly :=
    ⟨"pops", #[⟨.pushLiteral 1, 1⟩, ⟨.pop (some .r0), 2⟩, ⟨.pop (some .r1), 3⟩], .empty⟩
  obtain ⟨step_eq, run_eq⟩ := fault_leaves_machine assembly
  obtain ⟨unchanged, faulted⟩ : ∃ unchanged : Machine Word,
      step assembly { Machine.initial {} with counter := 1 } =
        .error .stackUnderflow unchanged := ⟨_, rfl⟩
  obtain ⟨after, ends⟩ : ∃ after,
      EndsWith assembly none (start (.initial {}) (.empty none) #[]) (.fault .stackUnderflow)
        after := ⟨_, 3, rfl⟩
  obtain ⟨moments, last, -, path, length, machine, -⟩ := run_eq _ _ _ _ _ _ ends
  exact ⟨assembly, unchanged, after, faulted, step_eq _ _ _ faulted, ends, moments, last, path,
    length, machine⟩

end Session

end WashController
