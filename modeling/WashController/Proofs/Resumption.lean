import WashController.Proofs.Likeness
import WashController.Proofs.Refinement

/-!
# Runs that are cut and resumed

A step limit cuts a run between two instructions, and nothing is lost by it: the machine that it
leaves can be run on, and the two runs together do what one run with both limits does
(`cut_and_resumed`). The one trace of the cut is the mark of a machine that has come to a halt. No
instruction looks at that mark (`Executes.marked`, `Refuses.marked`), a machine that is marked
otherwise being a twin of it, so that a marked machine has the same steps, faults and paths as the
machine without the mark (`Path.marked`).
-/

namespace WashController

variable {α : Type}

/-- The same machine, marked as halted or not. -/
def Machine.marked (halted : Bool) (machine : Machine α) : Machine α :=
  { machine with halted := halted }

/-- The same moment of a machine that is marked as halted or not. -/
def Moment.marked (halted : Bool) (moment : Moment α) : Moment α :=
  { moment with machine := moment.machine.marked halted }

theorem Moment.notices_marked (halted : Bool) (moments : List (Moment Word)) :
    notices (moments.map (marked halted)) = notices moments := by
  rw [notices, List.filterMap_map]
  rfl

theorem Event.settle_marked {event : Event α} (going : event.goesOn = true) (halted : Bool)
    (machine : Machine α) :
    event.settle (machine.marked halted) = (event.settle machine).marked halted := by
  cases event with
  | halted | ended => cases going
  | advanced | jumped | emitted | waited => rfl

/-! ## The mark has no influence -/

section Rules

variable [Arithmetic α] {labels : LabelTable} {machine after : Machine α}
  {instruction : Instruction}

theorem Executes.marked {event : Event α} (rule : Executes labels machine instruction event after)
    (halted : Bool) :
    Executes labels (machine.marked halted) instruction event (after.marked halted) := by
  obtain ⟨other, agree, twin⟩ :=
    rule.exists_twin (.refl _ machine.memory) (fun _ _ => trivial) halted machine.ticks
  obtain rfl := agree.eq
  rw [← rule.ticks_eq, rule.retimed_eq] at twin
  exact twin

theorem Refuses.marked {fault : Fault} (rule : Refuses labels machine instruction fault)
    (halted : Bool) : Refuses labels (machine.marked halted) instruction fault :=
  rule.twin (.refl (fun _ => True) machine.memory) (fun _ _ => trivial) halted machine.ticks

variable {assembly : Assembly}

/-- A program that stops itself marks the machine, whatever the mark was. -/
theorem step_marked_of_halted (stepped : step assembly machine = .ok .halted after)
    (halted : Bool) : step assembly (machine.marked halted) = .ok .halted after := by
  rcases step_eq_ok_iff.1 stepped with ⟨-, ended, -⟩ | ⟨code, between, fetched, rule, rfl⟩
  · cases ended
  · exact step_eq_ok_iff.2 (.inr ⟨code, _, fetched, rule.marked halted, rfl⟩)

theorem step_marked_of_fault {fault : Fault}
    (faulted : step assembly machine = .error fault machine) (halted : Bool) :
    step assembly (machine.marked halted) = .error fault (machine.marked halted) := by
  obtain ⟨code, fetched, rule, -⟩ := step_eq_error_iff.1 faulted
  exact step_eq_error_iff.2 ⟨code, fetched, rule.marked halted, rfl⟩

/-- A step that goes on is the same step however the machine is marked. -/
theorem follows_marked (assembly : Assembly) (halted : Bool) :
    Follows assembly assembly (fun moment : Moment α => moment.event.goesOn = true)
      (fun machine twin => machine.marked halted = twin)
      (fun moment image => moment.marked halted = image) := by
  rintro moment next - leads going rfl
  obtain ⟨fetched, between, rule, rfl⟩ := Moment.leads_iff.1 leads
  exact ⟨moment.marked halted, _, rfl, Moment.leads_iff.2 ⟨fetched, _, rule.marked halted, rfl⟩,
    rfl, rfl, (Event.settle_marked going halted between).symm⟩

theorem Path.marked {moments : List (Moment α)} {last : Machine α}
    (path : Path assembly machine moments last) (halted : Bool) :
    Path assembly (machine.marked halted) (moments.map (Moment.marked halted))
      (last.marked halted) := by
  obtain ⟨images, _, marked, same, rfl⟩ :=
    (follows_marked assembly halted).path path path.goesOn rfl
  rwa [eq_map_of_forall₂ same] at marked

end Rules

/-! ## One limit after another -/

/-- The same ending under a step limit that is so many instructions higher. -/
def Ending.later (before : Nat) : Ending → Ending
  | .fault (.stepLimit most) => .fault (.stepLimit (before + most))
  | ending => ending

/-- A run stops the same way if so many instructions more are completed and allowed, and however the
machine is marked. -/
theorem Stops.later {assembly : Assembly} {most completed : Nat} {machine after : Machine Word}
    {ending : Ending} {shown : List Notice}
    (stops : Stops assembly most completed machine ending shown after) (before : Nat)
    (halted : Bool) :
    ∃ mark, Stops assembly (before + most) (before + completed) (machine.marked halted)
      (ending.later before) shown (after.marked mark) := by
  cases stops with
  | stepLimit length inProgram => exact ⟨true, .stepLimit (congrArg (before + ·) length) inProgram⟩
  | @fault fault below faulted =>
      obtain ⟨_, -, rule, -⟩ := step_eq_error_iff.1 faulted
      have same : (Ending.fault fault).later before = .fault fault := by
        cases fault with
        | stepLimit most => exact absurd rfl (rule.ne_stepLimit most)
        | _ => rfl
      rw [same]
      exact ⟨true, .fault (Nat.add_lt_add_left below before) (step_marked_of_fault faulted halted)⟩
  | halted below stepped =>
      exact ⟨after.halted,
        .halted (Nat.add_lt_add_left below before) (step_marked_of_halted stepped halted)⟩
  | ended stepped =>
      rcases step_eq_ok_iff.1 stepped with ⟨past, -, -⟩ | ⟨_, _, -, rule, -⟩
      · exact ⟨halted, .ended (step_eq_ok_iff.2 (.inl ⟨past, rfl, rfl⟩))⟩
      · exact absurd rfl rule.event_ne_ended

namespace Session

variable {assembly : Assembly} {before most : Nat} {machine : Machine Word} {sink other : Sink}
  {log logOther : Log} {ending : Ending} {cut resumed : Session}

/-- A run that is cut by its step limit has completed as many instructions as the limit says, and
leaves the machine before the next one. -/
theorem EndsWith.path_of_cut (accepting : sink.room = none)
    (ends : EndsWith assembly (some before) (start machine sink log) (.fault (.stepLimit before))
      cut) :
    ∃ moments last, Path assembly machine moments last ∧ moments.length = before ∧
      cut.machine = last.marked true ∧
      cut.sink.written = sink.written ++ (Notice.texts (Moment.notices moments)).toByteArray := by
  obtain ⟨moments, last, shown, path, -, -, stops, written⟩ := ends.stops accepting
  generalize cut.machine = final at stops
  cases stops with
  | stepLimit length _ => exact ⟨moments, last, path, length, rfl, by simpa using written⟩
  | fault _ faulted =>
      obtain ⟨_, -, rule, -⟩ := step_eq_error_iff.1 faulted
      exact absurd rfl (rule.ne_stepLimit before)

/-- A run that its step limit cuts can be resumed. Where everything can be written, let one run be
cut by its limit and another one start on the machine that it leaves. Then a run with both limits
together ends as the second one does, with its own limit where that is what ends it; it writes what
the first one writes and then what the second one writes; and it leaves the machine that the second
one leaves, but that it may be marked differently. -/
theorem cut_and_resumed (accepting : sink.room = none) (acceptingOther : other.room = none)
    (ends : EndsWith assembly (some before) (start machine sink log) (.fault (.stepLimit before))
      cut)
    (endsThen : EndsWith assembly (some most) (start cut.machine other logOther) ending resumed) :
    ∃ whole, EndsWith assembly (some (before + most)) (start machine sink log)
        (ending.later before) whole ∧
      (∃ early late, cut.sink.written = sink.written ++ early ∧
        resumed.sink.written = other.written ++ late ∧
        whole.sink.written = sink.written ++ (early ++ late)) ∧
      ∃ halted, whole.machine = { resumed.machine with halted := halted } := by
  obtain ⟨moments, middle, path, length, left, written⟩ := ends.path_of_cut accepting
  obtain ⟨more, last, shown, pathThen, -, le, stops, writtenThen⟩ := endsThen.stops acceptingOther
  -- The second run, on the machine without the mark of the cut.
  have onward : Path assembly middle (more.map (Moment.marked middle.halted))
      (last.marked middle.halted) := by
    have marked := pathThen.marked middle.halted
    rwa [left] at marked
  have count : (moments ++ more.map (Moment.marked middle.halted)).length =
      before + more.length := by
    rw [List.length_append, List.length_map, length]
  obtain ⟨mark, stopsLater⟩ := stops.later before middle.halted
  rw [← count] at stopsLater
  obtain ⟨whole, endsWhole, machine, writtenWhole⟩ := exists_endsWith_of_stops stopsLater
    (path.trans onward) (count ▸ Nat.add_le_add_left le before) accepting log
  refine ⟨whole, endsWhole, ⟨_, _, written, writtenThen, ?_⟩, mark, machine⟩
  rw [writtenWhole, Moment.notices_append, Moment.notices_marked, List.append_assoc,
    Notice.texts_append, String.toByteArray_append]

/-- A program that is cut after the first of its two instructions, and runs off its end as soon as
the second limit is reached. -/
theorem cut_and_resumed_off_end :
    ∃ (assembly : Assembly) (cut resumed whole : Session),
      EndsWith assembly (some 1) (start (.initial {}) (.empty none) #[]) (.fault (.stepLimit 1))
        cut ∧
      EndsWith assembly (some 1) (start cut.machine (.empty none) #[]) .normal resumed ∧
      EndsWith assembly (some (1 + 1)) (start (.initial {}) (.empty none) #[]) .normal whole ∧
      (∃ early late, cut.sink.written = .empty ++ early ∧ resumed.sink.written = .empty ++ late ∧
        whole.sink.written = .empty ++ (early ++ late)) ∧
      ∃ halted, whole.machine = { resumed.machine with halted := halted } := by
  let assembly : Assembly := ⟨"wait", #[⟨.wait, 1⟩, ⟨.emit "motor", 2⟩], .empty⟩
  obtain ⟨cut, resumed, ends, endsThen⟩ : ∃ cut resumed,
      EndsWith assembly (some 1) (start (.initial {}) (.empty none) #[]) (.fault (.stepLimit 1))
        cut ∧
      EndsWith assembly (some 1) (start cut.machine (.empty none) #[]) .normal resumed :=
    ⟨_, _, ⟨2, rfl⟩, ⟨2, rfl⟩⟩
  obtain ⟨whole, endsWhole, output, machine⟩ := cut_and_resumed rfl rfl ends endsThen
  exact ⟨assembly, cut, resumed, whole, ends, endsThen, endsWhole, output, machine⟩

end Session

end WashController
