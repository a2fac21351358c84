import WashController.Proofs.Simulation

/-!
# Locality

A run depends on no more than it reaches. Of the instructions it reads those that it fetches, and of
the labels those that its taken jumps look up (`Fetch.sought?`); beyond that only the size of the
program counts, for the step limit does not apply past it. Another program that has these things in
common (`Fetch.Shared`) therefore does the same at every instruction (`mirrors_shared`) and runs
alike (`Trail.exists_relog`). Only the lines of the instructions may show, in what is logged; where
they are the same too, the same events are logged, whatever was logged before.
-/

namespace WashController

/-- The label that an instruction looks up: that of a jump, if the jump is taken. -/
def Instruction.sought? {α : Type} [Arithmetic α] (registers : Registers α) :
    Instruction → Option String
  | jump condition label =>
    if condition.holds (Arithmetic.sign registers.r0) then some label else none
  | _ => none

/-- The label that an instruction looks up when it is fetched. -/
def Fetch.sought? (fetch : Fetch) : Option String :=
  fetch.code.instruction.sought? fetch.machine.registers

/-- A label is looked up only where a jump is taken. -/
theorem Effect.branch_congr {α : Type} {labels others : LabelTable} {label : String}
    {taken : Bool} (agree : taken = true → others.get? label = labels.get? label) :
    (branch others label taken : Effect α (Event α)) = branch labels label taken := by
  cases taken with
  | false => rfl
  | true =>
      unfold branch
      rw [agree rfl]

/-- What an instruction does depends on the labels only through the one that it looks up. -/
theorem execute_congr {α : Type} [Arithmetic α] {labels others : LabelTable}
    {instruction : Instruction} {machine : Machine α}
    (agree : ∀ label ∈ instruction.sought? machine.registers,
      others.get? label = labels.get? label) :
    execute others instruction machine = execute labels instruction machine := by
  cases instruction with
  | jump condition label =>
      have same := Effect.branch_congr (α := α) fun taken =>
        agree label (by rw [Instruction.sought?, if_pos taken]; rfl)
      exact congrFun same machine
  | push source | pop source => cases source <;> rfl
  | binary operation left right =>
      by_cases slots : left = some .r0 ∧ right = some .r1
      · obtain ⟨rfl, rfl⟩ := slots
        rfl
      · rw [execute_binary_of_other others operation slots,
          execute_binary_of_other labels operation slots]
  | subLiteral target value =>
      by_cases slot : target = some .r0
      · subst slot
        rfl
      · rw [execute_subLiteral_of_other others value slot,
          execute_subLiteral_of_other labels value slot]
  | _ => rfl

/-- The address that an instruction is fetched from. -/
def Fetch.address (fetch : Fetch) : Nat :=
  fetch.machine.counter

/-- What a program and another one have in common at an instruction that is fetched: the
instruction, perhaps on another line, and where the label points that it looks up. -/
structure Fetch.Shared (assembly other : Assembly) (fetch : Fetch) : Prop where
  instruction :
    (other.fetch? fetch.machine.counter).map (·.instruction) = some fetch.code.instruction
  labels : ∀ label ∈ fetch.sought?, other.labels.get? label = assembly.labels.get? label

namespace Fetch.Shared

variable {assembly other : Assembly} {fetch : Fetch} (shared : fetch.Shared assembly other)

include shared

theorem exists_code : ∃ code, other.fetch? fetch.machine.counter = some code ∧
    code.instruction = fetch.code.instruction :=
  Option.map_eq_some_iff.1 shared.instruction

/-- An instruction that is shared does the same. -/
theorem execute_eq {code : CodeLine} (found : other.fetch? fetch.machine.counter = some code) :
    execute other.labels code.instruction fetch.machine =
      execute assembly.labels fetch.code.instruction fetch.machine := by
  obtain ⟨_, found', same⟩ := shared.exists_code
  cases found.symm.trans found'
  rw [same]
  exact execute_congr shared.labels

theorem refuses {code : CodeLine} {fault : Fault}
    (found : other.fetch? fetch.machine.counter = some code)
    (rule : Refuses assembly.labels fetch.machine fetch.code.instruction fault) :
    Refuses other.labels fetch.machine code.instruction fault :=
  (execute_eq_error_iff.1 ((shared.execute_eq found).trans rule.execute_eq)).1

theorem step_eq (fetched : assembly.fetch? fetch.machine.counter = some fetch.code) :
    step other fetch.machine = step assembly fetch.machine := by
  obtain ⟨code, found, -⟩ := shared.exists_code
  simp only [step, found, fetched, shared.execute_eq found]

end Fetch.Shared

/-! ## Runs -/

namespace Session

/-- A session in which something else has been logged. -/
def relog (session : Session) (log : Log) : Session :=
  { session with log := log }

variable {assembly other : Assembly} {limit : Option Nat} {session after : Session}
  {ending : Ending} {sameLines : Prop}

/- Two programs of one size. In `sameLines` their instructions stand on the same lines, and then the
same events are logged. -/
variable (size : other.size = assembly.size)
  (lines : sameLines → ∀ address,
    (other.fetch? address).map (·.line) = (assembly.fetch? address).map (·.line))

include size lines

/-- Another program does the same at everything that it shares. -/
theorem mirrors_shared :
    Mirrors assembly other (Fetch.Shared assembly other) (fun _ => True)
      (fun machine twin => machine = twin) (fun event twin => sameLines → event = twin) where
  stands := by
    rintro machine _ code rfl fetched
    have inside : machine.counter < other.size := size ▸ Assembly.lt_size_of_fetch? fetched
    obtain ⟨image, found⟩ := Assembly.exists_fetch? inside
    have sameLine (same : sameLines) : image.line = code.line := by
      have alike := lines same machine.counter
      rw [found, fetched] at alike
      exact Option.some.inj alike
    refine ⟨image, found, fun shared same => ?_, fun fault same => by rw [sameLine same]⟩
    obtain ⟨_, found', instruction⟩ := shared.exists_code
    cases found.symm.trans found'
    have sameCode : code = image := congrArg₂ CodeLine.mk instruction.symm (sameLine same).symm
    rw [sameCode]
  follows := by
    rintro moment next _ ⟨fetched, stepped⟩ shared rfl
    obtain ⟨image, found, -⟩ := shared.exists_code
    exact ⟨⟨moment.machine, image, moment.event⟩, next, rfl,
      ⟨found, (shared.step_eq fetched).trans stepped⟩, rfl, rfl, rfl⟩
  faults := by
    rintro machine _ code image fault rfl fetched found shared rule -
    exact shared.refuses found rule
  halts := congrArg fun machine : Machine Word => { machine with halted := true }

/-- A run goes alike on another program that shares all that is fetched. -/
theorem Trail.exists_relog {fetches : List Fetch} (logged : Log)
    (trail : Trail assembly limit session fetches ending after)
    (shared : ∀ fetch ∈ fetches, fetch.Shared assembly other) : ∃ noted,
    EndsWith other limit (session.relog logged) ending (after.relog noted) ∧
      (sameLines → Log.GrowAlike (fun event twin => event = twin) session.log after.log logged
        noted) := by
  have start : Paired (fun machine twin => machine = twin) session (session.relog logged) :=
    ⟨rfl, rfl, rfl⟩
  have atEnd : RanOff assembly ending after → ∀ last, after.machine = last →
      other.size ≤ last.counter := by
    rintro ranOff - rfl
    rw [size]
    exact ranOff.2
  obtain ⟨final, ends, paired, events, others, grown, grownThere, alike⟩ :=
    (mirrors_shared size lines).endsWith trail start shared (fun _ _ => trivial) atEnd
  rw [paired.eq paired.machine.symm rfl] at ends
  exact ⟨final.log, ends, fun same =>
    ⟨events, others, grown, grownThere, alike.imp fun _ _ given => given same⟩⟩

end Session

/-! ## What can be replaced -/

namespace Assembly

variable (assembly : Assembly) (kept : List Nat) (replacement : Nat → Instruction)
  (labels : LabelTable)

/-- A program with other labels, and with all instructions replaced but those at the addresses to
keep. The new ones stand on the lines of the old ones. -/
def replaceBut : Assembly where
  name := assembly.name
  program := assembly.program.mapIdx fun address code =>
    if address ∈ kept then code else { code with instruction := replacement address }
  labels := labels

theorem size_replaceBut : (assembly.replaceBut kept replacement labels).size = assembly.size :=
  Array.size_mapIdx

theorem fetch?_replaceBut (address : Nat) :
    (assembly.replaceBut kept replacement labels).fetch? address =
      (assembly.fetch? address).map fun code =>
        if address ∈ kept then code else { code with instruction := replacement address } :=
  Array.getElem?_mapIdx

theorem fetch?_replaceBut_of_mem {address : Nat} (member : address ∈ kept) :
    (assembly.replaceBut kept replacement labels).fetch? address = assembly.fetch? address := by
  simp [fetch?_replaceBut, member]

theorem map_line_replaceBut (address : Nat) :
    ((assembly.replaceBut kept replacement labels).fetch? address).map (·.line) =
      (assembly.fetch? address).map (·.line) := by
  rw [fetch?_replaceBut, Option.map_map]
  congr 1
  funext code
  dsimp only [Function.comp]
  split <;> rfl

end Assembly

namespace Session

variable {assembly : Assembly} {limit : Option Nat} {machine : Machine Word} {sink : Sink}
  {log : Log} {ending : Ending} {after : Session}

/-- What is fetched is shared by a program that agrees on the instructions and on the labels. -/
theorem Trail.shared {other : Assembly} {session : Session} {fetches : List Fetch}
    (trail : Trail assembly limit session fetches ending after)
    (instructions : ∀ address ∈ fetches.map Fetch.address,
      (other.fetch? address).map (·.instruction) = (assembly.fetch? address).map (·.instruction))
    (labels : ∀ label ∈ fetches.filterMap Fetch.sought?,
      other.labels.get? label = assembly.labels.get? label) :
    ∀ fetch ∈ fetches, fetch.Shared assembly other := by
  intro fetch member
  have fetched := trail.fetched fetch member
  have same := instructions fetch.address (List.mem_map_of_mem member)
  rw [Fetch.address, fetched] at same
  exact ⟨same, fun label sought => labels label (List.mem_filterMap.2 ⟨fetch, member, sought⟩)⟩

/-- A run depends on the instructions that it fetches, on the labels that its taken jumps look up,
and on the size of the program. On any other program that agrees with this one on all of these, the
run ends in the same way, with the same output and on the same machine. So all instructions that are
never fetched can be replaced by others, unknown ones and ones with undefined names included, and
all labels that no taken jump looks up can be moved, added or removed: nothing of it shows, not even
in the log. -/
theorem only_what_is_reached_matters
    (ends : EndsWith assembly limit (start machine sink log) ending after) :
    ∃ fetches, Trail assembly limit (start machine sink log) fetches ending after ∧
      (∀ other : Assembly, other.size = assembly.size →
        (∀ address ∈ fetches.map Fetch.address,
          (other.fetch? address).map (·.instruction) =
            (assembly.fetch? address).map (·.instruction)) →
        (∀ label ∈ fetches.filterMap Fetch.sought?,
          other.labels.get? label = assembly.labels.get? label) →
        ∃ noted, EndsWith other limit (start machine sink log) ending
          { after with log := noted }) ∧
      ∀ (replacement : Nat → Instruction) (labels : LabelTable),
        (∀ label ∈ fetches.filterMap Fetch.sought?,
          labels.get? label = assembly.labels.get? label) →
        EndsWith (assembly.replaceBut (fetches.map Fetch.address) replacement labels) limit
          (start machine sink log) ending after := by
  obtain ⟨fetches, trail⟩ := endsWith_iff_exists_trail.1 ends
  refine ⟨fetches, trail, fun other size instructions labels => ?_,
    fun replacement labels agree => ?_⟩
  · obtain ⟨noted, again, -⟩ :=
      trail.exists_relog size False.elim log (trail.shared instructions labels)
    exact ⟨noted, again⟩
  · have kept : ∀ address ∈ fetches.map Fetch.address,
        ((assembly.replaceBut (fetches.map Fetch.address) replacement labels).fetch? address).map
          (·.instruction) = (assembly.fetch? address).map (·.instruction) := by
      intro address member
      rw [Assembly.fetch?_replaceBut_of_mem _ _ _ _ member]
    obtain ⟨noted, again, grown⟩ := trail.exists_relog (Assembly.size_replaceBut ..)
      (fun _ : True => Assembly.map_line_replaceBut _ _ _ _) log (trail.shared kept agree)
    rw [(grown trivial).eq] at again
    exact again

/-- A jump that is not taken loses its label, and the instruction after the halt becomes unknown. -/
theorem only_what_is_reached_matters_untaken :
    ∃ after,
      EndsWith
        ⟨"kept", #[⟨.pushLiteral 1, 1⟩, ⟨.pop (some .r0), 2⟩, ⟨.jump .zero "end", 3⟩, ⟨.halt, 4⟩,
          ⟨.emit "motor", 6⟩], ⟨.ofList [("end", 4)]⟩⟩
        none (start (.initial {}) (.empty none) #[]) .normal after ∧
      EndsWith
        ⟨"kept", #[⟨.pushLiteral 1, 1⟩, ⟨.pop (some .r0), 2⟩, ⟨.jump .zero "end", 3⟩, ⟨.halt, 4⟩,
          ⟨.unknown "FROB", 6⟩], .empty⟩
        none (start (.initial {}) (.empty none) #[]) .normal after := by
  let assembly : Assembly :=
    ⟨"kept", #[⟨.pushLiteral 1, 1⟩, ⟨.pop (some .r0), 2⟩, ⟨.jump .zero "end", 3⟩, ⟨.halt, 4⟩,
      ⟨.emit "motor", 6⟩], ⟨.ofList [("end", 4)]⟩⟩
  obtain ⟨after, fetches, trail, addresses, sought⟩ : ∃ after fetches,
      Trail assembly none (start (.initial {}) (.empty none) #[]) fetches .normal after ∧
        fetches.map Fetch.address = [0, 1, 2, 3] ∧ fetches.filterMap Fetch.sought? = [] :=
    ⟨_, _, .next rfl (.next rfl (.next rfl (.last rfl))), rfl, rfl⟩
  refine ⟨after, trail.endsWith, ?_⟩
  obtain ⟨others, again, -, replaced⟩ := only_what_is_reached_matters trail.endsWith
  obtain rfl := trail.unique again
  rw [addresses, sought] at replaced
  exact replaced (fun _ => .unknown "FROB") .empty (by simp)

end Session

end WashController
