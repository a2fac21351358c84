import WashController.Proofs.Bounds
import WashController.Proofs.Simulation

/-!
# Capacities

How much fits into a machine matters only where something does not fit. The capacities of the stack
and of the memory are consulted by the instructions that push and by those that may bring a cell
into being, and all of these do the same in a machine with more room (`Executes.resized`). So only a
fault for want of room can turn out differently there (`Refuses.resized`), and a run that does not
end in such a fault is the same run (`Finishes.resized`). One that does is the beginning of whatever
the larger machine goes on to do: `larger_capacities_change_nothing` has both cases.
-/

namespace WashController

variable {α : Type} {stackSize memorySize : Nat}

/-- Whether a fault is for want of room, on the stack or in the memory. -/
def Fault.wantsRoom : Fault → Bool
  | .stackOverflow _ | .memoryExhausted _ => true
  | _ => false

/-! ## Larger machines -/

namespace Machine

/-- The same machine with other capacities. -/
def resized (stackSize memorySize : Nat) (machine : Machine α) : Machine α :=
  { machine with
    stack := { machine.stack with capacity := stackSize }
    memory := { machine.memory with capacity := memorySize } }

/-- Whether no capacity of a machine is above these. -/
structure Within (machine : Machine α) (stackSize memorySize : Nat) : Prop where
  stack_le : machine.stack.capacity ≤ stackSize
  memory_le : machine.memory.capacity ≤ memorySize

theorem Within.of_keeps {before after : Machine α} (within : before.Within stackSize memorySize)
    (keeps : before.Keeps after) : after.Within stackSize memorySize :=
  ⟨keeps.stackCapacity ▸ within.stack_le, keeps.memoryCapacity ▸ within.memory_le⟩

/-- Whether another machine is the same with these capacities, and they are no smaller. -/
def EnlargedTo (stackSize memorySize : Nat) (machine twin : Machine α) : Prop :=
  machine.Within stackSize memorySize ∧ machine.resized stackSize memorySize = twin

end Machine

/-- The same moment of a machine with other capacities. -/
def Moment.resized (stackSize memorySize : Nat) (moment : Moment α) : Moment α :=
  { moment with machine := moment.machine.resized stackSize memorySize }

/-- What fits on a stack fits on a larger one. -/
theorem Stack.push_resized {stack pushed : Stack α} {value : α} {size : Nat}
    (fits : stack.push value = .ok pushed) (le : stack.capacity ≤ size) :
    Stack.push { stack with capacity := size } value = .ok { pushed with capacity := size } := by
  obtain ⟨room, rfl⟩ := push_eq_ok_iff.1 fits
  exact push_eq_ok_iff.2 ⟨Nat.lt_of_lt_of_le room le, rfl⟩

theorem Stack.pop_resized {stack popped : Stack α} {value : α}
    (pop : stack.pop = .ok (value, popped)) (size : Nat) :
    Stack.pop { stack with capacity := size } = .ok (value, { popped with capacity := size }) :=
  pop_eq_ok_iff.2 ⟨(pop_eq_ok_iff.1 pop).1, rfl⟩

/-- What fits into a memory fits into a larger one. -/
theorem Memory.update_resized {memory updated : Memory α} {name : String} {value : Option α → α}
    {size : Nat} (fits : memory.update name value = .ok updated) (le : memory.capacity ≤ size) :
    Memory.update { memory with capacity := size } name value =
      .ok { updated with capacity := size } := by
  obtain ⟨admitted, rfl⟩ := update_eq_ok_iff.1 fits
  refine update_eq_ok_iff.2 ⟨admits_iff.2 ?_, rfl⟩
  exact (admits_iff.1 admitted).imp_right fun room => Nat.lt_of_lt_of_le room le

theorem Stack.wantsRoom_of_push {stack : Stack α} {value : α} {fault : Fault}
    (refused : stack.push value = .error fault) : fault.wantsRoom = true := by
  obtain ⟨-, rfl⟩ := push_eq_error_iff.1 refused
  rfl

theorem Memory.wantsRoom_of_update {memory : Memory α} {name : String} {value : Option α → α}
    {fault : Fault} (refused : memory.update name value = .error fault) :
    fault.wantsRoom = true := by
  obtain ⟨-, rfl⟩ := update_eq_error_iff.1 refused
  rfl

/-! ## Instructions with more room -/

theorem Event.settle_resized (event : Event α) (machine : Machine α) :
    event.settle (machine.resized stackSize memorySize) =
      (event.settle machine).resized stackSize memorySize := by
  cases event <;> rfl

section Rules

variable [Arithmetic α] {labels : LabelTable} {machine after : Machine α}
  {instruction : Instruction}

theorem Executes.resized {event : Event α} (rule : Executes labels machine instruction event after)
    (within : machine.Within stackSize memorySize) :
    Executes labels (machine.resized stackSize memorySize) instruction event
      (after.resized stackSize memorySize) := by
  cases rule with
  | pushLiteral pushed => exact .pushLiteral (Stack.push_resized pushed within.stack_le)
  | pushVariable found pushed =>
      exact .pushVariable found (Stack.push_resized pushed within.stack_le)
  | push pushed => exact .push (Stack.push_resized pushed within.stack_le)
  | pushNothing => exact .pushNothing
  | pop popped => exact .pop (Stack.pop_resized popped stackSize)
  | popNothing => exact .popNothing
  | load found => exact .load found
  | store stored => exact .store (Memory.update_resized stored within.memory_le)
  | alloc allocated => exact .alloc (Memory.update_resized allocated within.memory_le)
  | binary computed => exact .binary computed
  | binaryNothing slots => exact .binaryNothing slots
  | subLiteral => exact .subLiteral
  | subLiteralNothing slot => exact .subLiteralNothing slot
  | compare => exact .compare
  | set => exact .set
  | and => exact .and
  | or => exact .or
  | not => exact .not
  | jump taken found => exact .jump taken found
  | jumpNothing untaken => exact .jumpNothing untaken
  | read found => exact .read found
  | emit => exact .emit
  | wait => exact .wait
  | halt => exact .halt

/-- A fault that is not for want of room does not depend on how much room there is. -/
theorem Refuses.resized {fault : Fault} (rule : Refuses labels machine instruction fault)
    (spared : fault.wantsRoom = false) (stackSize memorySize : Nat) :
    Refuses labels (machine.resized stackSize memorySize) instruction fault := by
  cases rule with
  | pushLiteral refused | pushVariable _ refused | push refused =>
      cases (Stack.wantsRoom_of_push refused).symm.trans spared
  | store refused | alloc refused =>
      cases (Memory.wantsRoom_of_update refused).symm.trans spared
  | pushUndefined missing => exact .pushUndefined missing
  | pop refused =>
      obtain ⟨empty, rfl⟩ := Stack.pop_eq_error_iff.1 refused
      exact .pop (Stack.pop_eq_error_iff.2 ⟨empty, rfl⟩)
  | load missing => exact .load missing
  | binary undefined => exact .binary undefined
  | jump taken missing => exact .jump taken missing
  | read missing => exact .read missing
  | unknown => exact .unknown

variable {assembly : Assembly}

/-- The larger machine takes every step of the smaller one. -/
theorem follows_resized (assembly : Assembly) (stackSize memorySize : Nat) :
    Follows assembly assembly (fun _ : Moment α => True)
      (Machine.EnlargedTo stackSize memorySize)
      (fun moment image => moment.resized stackSize memorySize = image) := by
  rintro moment next - leads - ⟨within, rfl⟩
  obtain ⟨fetched, between, rule, rfl⟩ := Moment.leads_iff.1 leads
  refine ⟨moment.resized stackSize memorySize, _, rfl, Moment.leads_iff.2 ⟨fetched, _,
    rule.resized within, (moment.event.settle_resized between).symm⟩, rfl, rfl, ?_, rfl⟩
  exact within.of_keeps (step_keeps leads.stepped)

/-- The larger machine follows every path of the smaller one. -/
theorem Path.resized {moments : List (Moment α)} {last : Machine α}
    (path : Path assembly machine moments last) (within : machine.Within stackSize memorySize) :
    Path assembly (machine.resized stackSize memorySize)
      (moments.map (Moment.resized stackSize memorySize)) (last.resized stackSize memorySize) := by
  obtain ⟨images, _, larger, same, -, rfl⟩ :=
    (follows_resized assembly stackSize memorySize).path path (fun _ _ => trivial) ⟨within, rfl⟩
  rwa [eq_map_of_forall₂ same] at larger

end Rules

/-! ## Runs with more room -/

/-- Writing only adds to what is written. -/
theorem Sink.exists_written_write (sink : Sink) (text : String) :
    ∃ more, (sink.write text).written = sink.written ++ more := by
  rcases sink with ⟨written, _ | room⟩
  · exact ⟨_, rfl⟩
  · exact ⟨_, rfl⟩

namespace Session

variable {assembly : Assembly} {limit : Option Nat} {session after : Session} {ending : Ending}

/-- The same session on a machine with other capacities. -/
def resized (stackSize memorySize : Nat) (session : Session) : Session :=
  { session with machine := session.machine.resized stackSize memorySize }

/-- The larger machine has the same runs, unless they end for want of room. -/
theorem mirrors_resized (assembly : Assembly) (stackSize memorySize : Nat) :
    Mirrors assembly assembly (fun _ => True) (fun fault => fault.wantsRoom = false)
      (Machine.EnlargedTo stackSize memorySize) (fun event other => event = other) where
  stands := by
    rintro machine - code ⟨-, rfl⟩ fetched
    exact ⟨code, fetched, fun _ => rfl, fun _ => rfl⟩
  follows := by
    refine (follows_resized assembly stackSize memorySize).imp (fun _ _ => trivial) ?_
    rintro moment - rfl
    rfl
  faults := by
    rintro machine - code image fault ⟨-, rfl⟩ fetched found - rule spared
    cases fetched.symm.trans found
    exact rule.resized spared stackSize memorySize
  halts := by
    rintro machine - ⟨within, rfl⟩
    exact ⟨⟨within.stack_le, within.memory_le⟩, rfl⟩

theorem EndsWith.resized (ends : EndsWith assembly limit session ending after)
    (within : session.machine.Within stackSize memorySize)
    (spared : ∀ fault, ending = .fault fault → fault.wantsRoom = false) :
    EndsWith assembly limit (session.resized stackSize memorySize) ending
      (after.resized stackSize memorySize) := by
  obtain ⟨fetches, trail⟩ := endsWith_iff_exists_trail.1 ends
  have start : Paired (Machine.EnlargedTo stackSize memorySize) session
      (session.resized stackSize memorySize) := ⟨⟨within, rfl⟩, rfl, rfl⟩
  obtain ⟨final, larger, paired, grown⟩ :=
    (mirrors_resized assembly stackSize memorySize).endsWith trail start (fun _ _ => trivial)
      spared fun ranOff _ enlarged => enlarged.2 ▸ ranOff.2
  rwa [paired.eq paired.machine.2.symm grown.eq] at larger

/-- A session never takes back what it has written. -/
theorem Finishes.exists_written (finishes : Finishes assembly limit session ending after) :
    ∃ more, after.sink.written = session.sink.written ++ more := by
  cases finishes with
  | stepLimit | fault | ended => exact ⟨.empty, by simp [failed, note]⟩
  | sinkFull | halted => exact session.sink.exists_written_write _

theorem EndsWith.exists_written (ends : EndsWith assembly limit session ending after) :
    ∃ more, after.sink.written = session.sink.written ++ more := by
  obtain ⟨moments, last, -, -, -, finishes⟩ := endsWith_iff.1 ends
  obtain ⟨early, shown⟩ :=
    session.sink.exists_written_write (Notice.texts (Moment.notices moments))
  obtain ⟨late, written⟩ := finishes.exists_written
  refine ⟨early ++ late, ?_⟩
  rw [written, along, shown, ByteArray.append_assoc]

/-- More room never changes a run for which there was room. Let a run end on a machine, and take
the same machine with capacities that are no smaller. If the run does not end for want of room, it
is the same on the larger machine: it ends the same way, with the same output, and leaves the same
machine but for the capacities. If it does end for want of room, the larger machine takes the same
steps up to there, from the same machines but for the capacities, and has written the same by then;
so whatever it writes in the end, or until it is stopped, begins with what the smaller machine
wrote. -/
theorem larger_capacities_change_nothing {machine : Machine Word} {sink : Sink} {log : Log}
    (ends : EndsWith assembly limit (start machine sink log) ending after)
    (within : machine.Within stackSize memorySize) :
    ((∀ fault, ending = .fault fault → fault.wantsRoom = false) →
      EndsWith assembly limit (start (machine.resized stackSize memorySize) sink log) ending
        (after.resized stackSize memorySize)) ∧
    ∀ fault, ending = .fault fault → fault.wantsRoom = true →
      ∃ moments last, Path assembly machine moments last ∧ moments.length = after.executed ∧
        step assembly last = .error fault last ∧
        Path assembly (machine.resized stackSize memorySize)
          (moments.map (Moment.resized stackSize memorySize))
          (last.resized stackSize memorySize) ∧
        ∃ between,
          advance assembly limit moments.length
              (start (machine.resized stackSize memorySize) sink log) = .ok () between ∧
          between.machine = last.resized stackSize memorySize ∧ between.sink = after.sink ∧
          (∀ turns later, advance assembly limit turns between = .ok () later →
            ∃ more, later.sink.written = after.sink.written ++ more) ∧
          ∀ other final,
            EndsWith assembly limit (start (machine.resized stackSize memorySize) sink log) other
                final →
              ∃ more, final.sink.written = after.sink.written ++ more := by
  refine ⟨fun spared => ends.resized within spared, fun fault same wants => ?_⟩
  subst same
  obtain ⟨moments, last, path, affords, shows, finishes⟩ := endsWith_iff.1 ends
  have reaches : advance assembly limit moments.length (start machine sink log) =
      .ok () ((start machine sink log).along moments last) :=
    advance_eq_ok_iff.2 ⟨moments, last, path, rfl, affords, shows, rfl⟩
  have paired : Paired (Machine.EnlargedTo stackSize memorySize) (start machine sink log)
      (start (machine.resized stackSize memorySize) sink log) := ⟨⟨within, rfl⟩, rfl, rfl⟩
  obtain ⟨between, onward, ⟨-, there⟩, sameSink, -⟩ :=
    (mirrors_resized assembly stackSize memorySize).advance reaches paired fun _ => trivial
  cases finishes with
  | stepLimit => cases wants
  | fault _ _ faulted =>
      have written : between.sink = ((start machine sink log).along moments last).sink := sameSink
      refine ⟨moments, last, path, (Nat.zero_add _).symm, faulted, path.resized within, between,
        onward, there.symm, written, ?_, ?_⟩
      · intro turns later goneOn
        obtain ⟨_, _, -, -, -, -, rfl⟩ := advance_eq_ok_iff.1 goneOn
        rw [along, written]
        exact Sink.exists_written_write _ _
      · intro other final endsLarger
        obtain ⟨more, grown⟩ := (endsLarger.of_advance onward).exists_written
        exact ⟨more, written ▸ grown⟩

/-- A program that needs more stack than there is, after its first notice: it is cut off before the
push without any difference, and faults at it only on the smaller machine. -/
theorem larger_capacities_change_nothing_push :
    ∃ (assembly : Assembly) (cut fault final : Session),
      (Machine.initial { maxStack := 0 } : Machine Word).Within 1 1024 ∧
      EndsWith assembly (some 1) (start (.initial { maxStack := 0 }) (.empty none) #[])
        (.fault (.stepLimit 1)) cut ∧
      EndsWith assembly (some 1) (start (.initial { maxStack := 1 }) (.empty none) #[])
        (.fault (.stepLimit 1)) (cut.resized 1 1024) ∧
      EndsWith assembly none (start (.initial { maxStack := 0 }) (.empty none) #[])
        (.fault (.stackOverflow 0)) fault ∧
      EndsWith assembly none (start (.initial { maxStack := 1 }) (.empty none) #[]) .normal final ∧
      ∃ more, final.sink.written = fault.sink.written ++ more := by
  let assembly : Assembly := ⟨"push", #[⟨.emit "motor", 1⟩, ⟨.pushLiteral 5, 2⟩], .empty⟩
  have within : (Machine.initial { maxStack := 0 } : Machine Word).Within 1 1024 :=
    ⟨by decide, by decide⟩
  obtain ⟨cut, fault, final, endsCut, endsFault, endsFinal⟩ : ∃ cut fault final,
      EndsWith assembly (some 1) (start (.initial { maxStack := 0 }) (.empty none) #[])
        (.fault (.stepLimit 1)) cut ∧
      EndsWith assembly none (start (.initial { maxStack := 0 }) (.empty none) #[])
        (.fault (.stackOverflow 0)) fault ∧
      EndsWith assembly none (start (.initial { maxStack := 1 }) (.empty none) #[]) .normal
        final :=
    ⟨_, _, _, ⟨2, rfl⟩, ⟨2, rfl⟩, ⟨3, rfl⟩⟩
  have endsCutLarger :=
    (larger_capacities_change_nothing endsCut within).1 (by simp [Fault.wantsRoom])
  obtain ⟨_, _, -, -, -, -, _, -, -, -, -, begins⟩ :=
    (larger_capacities_change_nothing endsFault within).2 _ rfl rfl
  exact ⟨assembly, cut, fault, final, within, endsCut, endsCutLarger, endsFault, endsFinal,
    begins _ _ endsFinal⟩

end Session

end WashController
