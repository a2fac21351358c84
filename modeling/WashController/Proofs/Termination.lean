import Mathlib.Order.Interval.Finset.Nat
import WashController.Proofs.FailingOutput
import WashController.Proofs.Locality
import WashController.Proofs.Refinement

/-!
# Programs whose jumps lead forward

A program whose jumps all lead forward (`Assembly.Forward`) comes to an end. Every step that goes on
increases the program counter (`Assembly.Forward.counter_lt`), so the addresses that a run fetches
from increase as well (`Trail.addresses_increase`), and there are no more of them than there are
instructions from the start of the run on (`Trail.length_le`). A step limit that allows for these
can not be reached, and `forward_program_ends` draws the conclusion.
-/

namespace WashController

namespace Assembly

/-- Where the jump at an address leads, if there is a jump and its label is declared. -/
def target? (assembly : Assembly) (address : Nat) : Option Nat :=
  match assembly.fetch? address with
  | some ⟨.jump _ label, _⟩ => assembly.labels.get? label
  | _ => none

/-- Whether every jump whose label is declared leads forward. -/
def Forward (assembly : Assembly) : Prop :=
  ∀ address < assembly.size, ∀ target ∈ assembly.target? address, address < target

instance (assembly : Assembly) : Decidable assembly.Forward :=
  inferInstanceAs (Decidable (∀ address < assembly.size, ∀ target ∈ assembly.target? address,
    address < target))

end Assembly

/-! ## Steps and paths -/

section Path

variable {α : Type} [Arithmetic α] {assembly : Assembly} {machine next : Machine α}

/-- A step that jumps goes to the target of the jump that it finds. -/
theorem Executes.target?_eq {line target : Nat} {instruction : Instruction}
    (rule : Executes assembly.labels machine instruction (.jumped target) next)
    (fetched : assembly.fetch? machine.counter = some ⟨instruction, line⟩) :
    assembly.target? machine.counter = some target := by
  cases rule with
  | jump _ found =>
      rw [Assembly.target?, fetched]
      exact found

/-- Where all jumps lead forward, every step that goes on does. -/
theorem Assembly.Forward.counter_lt {event : Event α} {code : CodeLine}
    (forward : assembly.Forward) (fetched : assembly.fetch? machine.counter = some code)
    (stepped : step assembly machine = .ok event next) (going : event.goesOn = true) :
    machine.counter < next.counter := by
  rcases step_eq_ok_iff.1 stepped with ⟨past, -, -⟩ | ⟨_, between, fetched', rule, rfl⟩
  · cases fetched.symm.trans past
  · cases event with
    | halted | ended => cases going
    | jumped target =>
        exact forward machine.counter (lt_size_of_fetch? fetched) target
          (rule.target?_eq fetched')
    | advanced | emitted | waited => exact Nat.lt_succ_of_le (Nat.le_of_eq rule.counter_eq.symm)

theorem Path.counter_add_length_le {first last : Machine α} {moments : List (Moment α)}
    (path : Path assembly first moments last) (forward : assembly.Forward) :
    first.counter + moments.length ≤ last.counter := by
  induction path with
  | refl => exact Nat.le_refl _
  | @head machine next last code event moments fetched stepped going _ ih =>
      have increased : machine.counter < next.counter :=
        forward.counter_lt fetched stepped going
      rw [List.length_cons]
      omega

end Path

namespace Session

variable {assembly : Assembly} {limit : Option Nat} {session after : Session} {ending : Ending}
  {fetches : List Fetch}

/-! ## Trails -/

/-- A run completes no more instructions than it fetches. -/
theorem Trail.executed_le (trail : Trail assembly limit session fetches ending after) :
    after.executed ≤ session.executed + fetches.length := by
  induction trail with
  | last turned =>
      rw [(turn_eq_error_iff.1 turned).executed_eq]
      exact Nat.le_add_right _ _
  | @next session _ _ _ _ turned _ ih =>
      obtain ⟨within, code, event, next, fetched, -, -, -, rfl⟩ := turn_eq_ok_iff.1 turned
      rw [fetch?_of_fetched within fetched]
      simp only [along, Option.toList_some, List.singleton_append, List.length_cons,
        List.length_nil] at ih ⊢
      omega

section Forward

variable (forward : assembly.Forward)

include forward

/-- Where all jumps lead forward, the addresses that a run fetches from increase. -/
theorem Trail.addresses_increase (trail : Trail assembly limit session fetches ending after) :
    (∀ fetch ∈ fetches, session.machine.counter ≤ fetch.address) ∧
      (fetches.map Fetch.address).Pairwise (· < ·) := by
  induction trail with
  | @last session _ _ _ =>
      cases now : session.fetch? assembly limit with
      | none => simp
      | some fetch => simp [Fetch.address, machine_of_fetch? now]
  | @next session between _ fetches _ turned _ ih =>
      obtain ⟨within, code, event, next, fetched, stepped, going, -, rfl⟩ :=
        turn_eq_ok_iff.1 turned
      have increased : session.machine.counter < next.counter :=
        forward.counter_lt fetched stepped going
      obtain ⟨beyond, pairwise⟩ := ih
      have later (fetch : Fetch) (member : fetch ∈ fetches) :
          session.machine.counter < fetch.address :=
        Nat.lt_of_lt_of_le increased (beyond fetch member)
      rw [fetch?_of_fetched within fetched, Option.toList_some, List.singleton_append]
      refine ⟨?_, ?_⟩
      · intro fetch member
        rcases List.mem_cons.1 member with rfl | member
        · exact Nat.le_refl _
        · exact Nat.le_of_lt (later fetch member)
      · refine List.pairwise_cons.2 ⟨?_, pairwise⟩
        intro address mapped
        obtain ⟨fetch, member, rfl⟩ := List.mem_map.1 mapped
        exact later fetch member

/-- Where all jumps lead forward, a run fetches no more instructions than there are from its start
on. -/
theorem Trail.length_le (trail : Trail assembly limit session fetches ending after) :
    fetches.length ≤ assembly.size - session.machine.counter := by
  obtain ⟨beyond, increasing⟩ := trail.addresses_increase forward
  have distinct : (fetches.map Fetch.address).Nodup := increasing.imp Nat.ne_of_lt
  -- The addresses are distinct, and all lie between the start of the run and the end.
  have between : (fetches.map Fetch.address).toFinset ⊆
      Finset.Ico session.machine.counter assembly.size := by
    intro address mapped
    obtain ⟨fetch, member, rfl⟩ := List.mem_map.1 (List.mem_toFinset.1 mapped)
    exact Finset.mem_Ico.2
      ⟨beyond fetch member, Assembly.lt_size_of_fetch? (trail.fetched fetch member)⟩
  have count := Finset.card_le_card between
  rwa [List.toFinset_card_of_nodup distinct, List.length_map, Nat.card_Ico] at count

end Forward

/-! ## Runs -/

/-- A step limit that allows for all instructions from the start of the run on is not reached. -/
theorem EndsWith.ne_stepLimit {machine : Machine Word} {sink : Sink} {log : Log}
    (ends : EndsWith assembly limit (start machine sink log) ending after)
    (forward : assembly.Forward) (enough : ∀ most ∈ limit, assembly.size - machine.counter ≤ most)
    (most : Nat) : ending ≠ .fault (.stepLimit most) := by
  intro reached
  subst reached
  obtain ⟨limited, -, moments, last, path, length, inProgram⟩ := ends.exists_of_stepLimit
  have le : assembly.size - machine.counter ≤ most := enough most limited
  have progress : machine.counter + moments.length ≤ last.counter :=
    path.counter_add_length_le forward
  omega

/-- Programs whose jumps all lead forward come to an end. Without a limit the run returns, and not
for a step limit; it completes, and fetches, no more instructions than there are from its start on,
and none of them twice. Under every limit that allows for so many it returns the same. -/
theorem forward_program_ends (forward : assembly.Forward) (machine : Machine Word) (sink : Sink)
    (log : Log) :
    ∃ ending after fetches, Trail assembly none (start machine sink log) fetches ending after ∧
      (sink.room = none → ending ≠ .sinkFull) ∧
      (∀ most, ending ≠ .fault (.stepLimit most)) ∧
      after.executed ≤ assembly.size - machine.counter ∧
      fetches.length ≤ assembly.size - machine.counter ∧
      (fetches.map Fetch.address).Nodup ∧
      ∀ limit : Option Nat, (∀ most ∈ limit, assembly.size - machine.counter ≤ most) →
        ∀ other final, EndsWith assembly limit (start machine sink log) other final ↔
          other = ending ∧ final = after := by
  obtain ⟨ending, after, ends⟩ :=
    exists_endsWith assembly (assembly.size - machine.counter) (start machine sink log)
  have unreached : ∀ most, ending ≠ .fault (.stepLimit most) :=
    ends.ne_stepLimit forward fun _ limited => Nat.le_of_eq (Option.some.inj limited)
  have again {limit : Option Nat}
      (higher : ∀ most ∈ limit, assembly.size - machine.counter ≤ most) :
      EndsWith assembly limit (start machine sink log) ending after :=
    ends.of_limit_le (unreached _) higher
  have unlimited : EndsWith assembly none (start machine sink log) ending after := again (by simp)
  obtain ⟨fetches, trail⟩ := endsWith_iff_exists_trail.1 unlimited
  have length : fetches.length ≤ assembly.size - machine.counter := trail.length_le forward
  have executed : after.executed ≤ 0 + fetches.length := trail.executed_le
  have increasing := (trail.addresses_increase forward).2
  refine ⟨ending, after, fetches, trail, unlimited.ne_sinkFull, unreached, by omega, length,
    increasing.imp Nat.ne_of_lt, fun limit higher other final => (again higher).iff_eq⟩

/-- A program that jumps over one of its three instructions. -/
theorem forward_program_ends_skipping :
    ∃ (assembly : Assembly) (fetches : List Fetch) (after : Session), assembly.Forward ∧
      Trail assembly none (start (.initial {}) (.empty none) #[]) fetches .normal after ∧
      fetches.length ≤ 3 ∧
      EndsWith assembly (some 3) (start (.initial {}) (.empty none) #[]) .normal after := by
  let assembly : Assembly :=
    ⟨"skip", #[⟨.jump .always "end", 1⟩, ⟨.emit "motor", 2⟩, ⟨.wait, 4⟩], ⟨.ofList [("end", 2)]⟩⟩
  have forward : assembly.Forward := by decide
  obtain ⟨ending, after, fetches, trail, -, -, -, length, -, same⟩ :=
    forward_program_ends forward (.initial {}) (.empty none) #[]
  obtain ⟨last, ends⟩ : ∃ last,
      EndsWith assembly (some 3) (start (.initial {}) (.empty none) #[]) .normal last :=
    ⟨_, 3, rfl⟩
  have enough : ∀ most ∈ some 3, assembly.size - (Machine.initial (α := Word) {}).counter ≤ most :=
    by decide
  obtain ⟨rfl, rfl⟩ := (same (some 3) enough .normal last).1 ends
  exact ⟨assembly, fetches, last, forward, trail, length, ends⟩

end Session

end WashController
