import WashController.Proofs.Concatenation
import WashController.Proofs.Simulation

/-!
# Relocation

A program that is part of a longer one runs there as it runs alone. `Assembly.Embeds` is what this
takes: the instructions stand so many addresses and so many source lines further, and the labels
that they jump to have moved along with them. Then the longer program carries out each instruction
as the shorter one does (`Executes.relocate`, `Refuses.relocate`), so it takes the same steps
(`Embeds.follows`) and ends its runs the same way (`EndsWith.relocate`), on a machine whose program
counter is ahead by as many addresses. A run past the last instruction (`RanOff`) is the exception:
it ends there only if the longer program ends there too. If it does, the longer program has no other
runs from there (`EndsWith.of_relocate`).
-/

namespace WashController

variable {α : Type}

/-! ## What is moved -/

/-- The same machine with the program counter so many addresses further. -/
def Machine.relocate (offset : Nat) (machine : Machine α) : Machine α :=
  { machine with counter := machine.counter + offset }

/-- The same event in a program that starts so many addresses further. -/
def Event.relocate (offset : Nat) : Event α → Event α
  | .jumped target => .jumped (target + offset)
  | event => event

namespace Event

variable (offset : Nat) (event : Event α)

theorem goesOn_relocate : (event.relocate offset).goesOn = event.goesOn := by
  cases event <;> rfl

theorem notice?_relocate (event : Event Word) :
    (event.relocate offset).notice? = event.notice? := by
  cases event <;> rfl

/-- The counter is as far ahead after an event as it was before. -/
theorem settle_relocate (machine : Machine α) :
    (event.relocate offset).settle (machine.relocate offset) =
      (event.settle machine).relocate offset := by
  cases event with
  | jumped target => rfl
  | halted | ended => rfl
  | advanced | emitted | waited =>
      simp only [relocate, settle, Machine.relocate, Nat.add_right_comm]

end Event

/-- The same moment in a program that starts so many addresses and source lines further. -/
def Moment.relocate (offset lines : Nat) (moment : Moment α) : Moment α :=
  ⟨moment.machine.relocate offset, moment.code.moved lines, moment.event.relocate offset⟩

/-- The same report of a program that starts so many addresses and source lines further. -/
def Diagnostic.relocate (offset lines : Nat) : Diagnostic → Diagnostic
  | .fetched counter code => .fetched (counter + offset) (code.moved lines)
  | .faulted line fault => .faulted (line.map (· + lines)) fault
  | diagnostic => diagnostic

theorem Diagnostic.relocate_zero : relocate 0 0 = id := by
  funext diagnostic
  cases diagnostic with
  | faulted line fault => cases line <;> rfl
  | _ => rfl

/-! ## One instruction -/

section Rules

variable [Arithmetic α] {labels outer : LabelTable} {machine after : Machine α}
  {instruction : Instruction} {offset : Nat}

/-- Only a jump can tell where the program is: its label has to have moved along. -/
theorem Executes.relocate {event : Event α}
    (rule : Executes labels machine instruction event after)
    (target : ∀ condition label, instruction = .jump condition label →
      outer.get? label = (labels.get? label).map (· + offset)) :
    Executes outer (machine.relocate offset) instruction (event.relocate offset)
      (after.relocate offset) := by
  cases rule with
  | pushLiteral pushed => exact .pushLiteral pushed
  | pushVariable found pushed => exact .pushVariable found pushed
  | push pushed => exact .push pushed
  | pushNothing => exact .pushNothing
  | pop popped => exact .pop popped
  | popNothing => exact .popNothing
  | load found => exact .load found
  | store stored => exact .store stored
  | alloc allocated => exact .alloc allocated
  | binary computed => exact .binary computed
  | binaryNothing slots => exact .binaryNothing slots
  | subLiteral => exact .subLiteral
  | subLiteralNothing slot => exact .subLiteralNothing slot
  | compare => exact .compare
  | set => exact .set
  | and => exact .and
  | or => exact .or
  | not => exact .not
  | jump taken found =>
      have moved := target _ _ rfl
      rw [found] at moved
      exact .jump taken moved
  | jumpNothing untaken => exact .jumpNothing untaken
  | read found => exact .read found
  | emit => exact .emit
  | wait => exact .wait
  | halt => exact .halt

theorem Refuses.relocate {fault : Fault} (rule : Refuses labels machine instruction fault)
    (target : ∀ condition label, instruction = .jump condition label →
      outer.get? label = (labels.get? label).map (· + offset)) :
    Refuses outer (machine.relocate offset) instruction fault := by
  cases rule with
  | pushLiteral refused => exact .pushLiteral refused
  | pushUndefined missing => exact .pushUndefined missing
  | pushVariable found refused => exact .pushVariable found refused
  | push refused => exact .push refused
  | pop refused => exact .pop refused
  | load missing => exact .load missing
  | store refused => exact .store refused
  | alloc refused => exact .alloc refused
  | binary undefined => exact .binary undefined
  | jump taken missing =>
      have moved := target _ _ rfl
      rw [missing] at moved
      exact .jump taken moved
  | read missing => exact .read missing
  | unknown => exact .unknown

end Rules

/-! ## A program inside another one -/

/-- The label that a jump goes to. -/
def Instruction.destination? : Instruction → Option String
  | .jump _ label => some label
  | _ => none

namespace Assembly

/-- The operands of the jumps of a program. -/
def destinations (assembly : Assembly) : List String :=
  assembly.program.toList.filterMap fun code => code.instruction.destination?

/-- A program that stands inside another one, so many addresses and source lines further. The
labels that it jumps to point at the same instructions there, or are undefined there too. -/
structure Embeds (inner outer : Assembly) (offset lines : Nat) : Prop where
  fetch : ∀ {address code}, inner.fetch? address = some code →
    outer.fetch? (address + offset) = some (code.moved lines)
  target : ∀ label ∈ inner.destinations,
    outer.labels.get? label = (inner.labels.get? label).map (· + offset)

namespace Embeds

variable {inner outer : Assembly} {offset lines : Nat} (embeds : inner.Embeds outer offset lines)

include embeds

theorem target_of_fetch? {address : Nat} {code : CodeLine}
    (fetched : inner.fetch? address = some code) (condition : Condition) (label : String)
    (jump : code.instruction = .jump condition label) :
    outer.labels.get? label = (inner.labels.get? label).map (· + offset) := by
  have inProgram : code ∈ inner.program.toList :=
    Array.mem_toList_iff.2 (Array.mem_of_getElem? fetched)
  refine embeds.target label (List.mem_filterMap.2 ⟨code, inProgram, ?_⟩)
  rw [jump]
  rfl

/-- The longer program takes every step of the shorter one, further on. -/
theorem follows [Arithmetic α] :
    Follows inner outer (fun _ : Moment α => True)
      (fun machine twin => machine.relocate offset = twin)
      (fun moment image => moment.relocate offset lines = image) := by
  rintro moment next - leads - rfl
  obtain ⟨fetched, between, rule, rfl⟩ := Moment.leads_iff.1 leads
  refine ⟨moment.relocate offset lines, _, rfl, Moment.leads_iff.2 ⟨embeds.fetch fetched, _,
    rule.relocate (embeds.target_of_fetch? fetched), rfl⟩, moment.event.goesOn_relocate offset, rfl,
    ?_⟩
  exact (moment.event.settle_relocate offset between).symm

end Embeds

end Assembly

/-! ## Runs of the longer program -/

namespace Session

/-- A session on the same machine with the program counter so many addresses further, and with a
log of its own. -/
def relocate (offset : Nat) (log : Log) (session : Session) : Session :=
  { session with machine := session.machine.relocate offset, log := log }

theorem paired_relocate (offset : Nat) (log : Log) (session : Session) :
    Paired (fun machine twin => machine.relocate offset = twin) session
      (session.relocate offset log) :=
  ⟨rfl, rfl, rfl⟩

variable {inner outer : Assembly} {offset lines : Nat} {limit : Option Nat}
  {session after : Session} {ending : Ending} (embeds : inner.Embeds outer offset lines)

include embeds

theorem mirrors_relocate :
    Mirrors inner outer (fun _ => True) (fun _ => True)
      (fun machine twin => machine.relocate offset = twin)
      (fun event other => event.relocate offset lines = other) where
  stands := by
    rintro machine - code rfl fetched
    exact ⟨code.moved lines, embeds.fetch fetched, fun _ => rfl, fun _ => rfl⟩
  follows := by
    refine embeds.follows.imp (fun _ _ => trivial) ?_
    rintro moment - rfl
    exact moment.event.notice?_relocate offset
  faults := by
    rintro machine - code image fault rfl fetched found - rule -
    cases (embeds.fetch fetched).symm.trans found
    exact rule.relocate (embeds.target_of_fetch? fetched)
  halts := by
    rintro machine - rfl
    rfl

/-- The longer program does everything that the shorter one does, with its log moved along. Where
the shorter one is at its end, the longer one has to be at its own. -/
theorem EndsWith.relocate (ends : EndsWith inner limit session ending after)
    (atEnd : RanOff inner ending after → outer.size ≤ after.machine.counter + offset)
    (log : Log) :
    ∃ entries : List Diagnostic, after.log = session.log ++ entries.toArray ∧
      EndsWith outer limit (session.relocate offset log) ending (after.relocate offset
        (log ++ (entries.map (Diagnostic.relocate offset lines)).toArray)) := by
  obtain ⟨fetches, trail⟩ := endsWith_iff_exists_trail.1 ends
  obtain ⟨final, there, paired, entries, others, logged, loggedThere, moved⟩ :=
    (mirrors_relocate embeds).endsWith trail (paired_relocate offset log session)
      (fun _ _ => trivial) (fun _ _ => trivial) fun ranOff last same => same ▸ atEnd ranOff
  rw [eq_map_of_forall₂ moved] at loggedThere
  rw [paired.eq paired.machine.symm loggedThere] at there
  exact ⟨entries, logged, there⟩

/-- Where the two programs end at the same place, the longer one does nothing else. -/
theorem EndsWith.of_relocate (size : outer.size = inner.size + offset) {log : Log}
    {last : Session} (ends : EndsWith outer limit (session.relocate offset log) ending last) :
    ∃ after noted, EndsWith inner limit session ending after ∧
      last = after.relocate offset noted := by
  obtain ⟨turns, ended⟩ := ends
  cases outcome : advance inner limit turns session with
  | ok _ between =>
      -- The longer program would still be going, too.
      obtain ⟨_, onward, -⟩ :=
        (mirrors_relocate embeds).advance outcome (paired_relocate offset log session)
          fun _ => trivial
      cases onward.symm.trans ended
  | error other after =>
      have atEnd : RanOff inner other after → outer.size ≤ after.machine.counter + offset := by
        intro ranOff
        have past := ranOff.2
        omega
      have alone : EndsWith inner limit session other after := ⟨turns, outcome⟩
      obtain ⟨entries, -, there⟩ := alone.relocate embeds atEnd log
      obtain ⟨rfl, rfl⟩ := there.unique ⟨turns, ended⟩
      exact ⟨after, _, alone, rfl⟩

end Session

end WashController
