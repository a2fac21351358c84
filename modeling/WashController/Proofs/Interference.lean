import WashController.Proofs.Conduct
import WashController.Proofs.Likeness

/-!
# Variables that a program does not name

A program has no way to find out about variables that it does not name, nor to touch them. On two
machines that differ in these variables only, and hold equally many, it takes the same steps
(`follows_holding`) and so the same runs (`EndsWith.exists_holding`), and the report of the panel is
the same as well, as it only counts the cells (`closingText_holding`). What a run leaves under the
other names is what it found there (`EndsWith.get?_of_unnamed`). Whether the machines have equally
many cells matters, because the cells of all variables take up the same room.
-/

namespace WashController

/-- The same machine with another memory. -/
def Machine.holding {α : Type} (memory : Memory α) (machine : Machine α) : Machine α :=
  { machine with memory := memory }

theorem Event.settle_holding {α : Type} (event : Event α) (memory : Memory α)
    (machine : Machine α) :
    event.settle (machine.holding memory) = (event.settle machine).holding memory := by
  cases event <;> rfl

/-! ## Steps -/

section Step

variable {α : Type} [Arithmetic α] {assembly : Assembly} {machine next : Machine α}
  {memory : Memory α} {event : Event α} {name : String}

/-- Whether another machine is the same, but for variables that a program does not name. -/
def Machine.AlikeFor (assembly : Assembly) (machine twin : Machine α) : Prop :=
  ∃ memory, machine.memory.AgreeOn (· ∈ assembly.variables) memory ∧
    machine.holding memory = twin

/-- A step does the same on a machine whose memory agrees on the variables of the program, and the
memories agree afterwards. -/
theorem follows_holding (assembly : Assembly) :
    Follows assembly assembly (fun _ : Moment α => True) (Machine.AlikeFor assembly)
      (fun moment image => moment.event = image.event) := by
  rintro moment next - leads - ⟨memory, agree, rfl⟩
  obtain ⟨fetched, between, rule, rfl⟩ := Moment.leads_iff.1 leads
  obtain ⟨other, agree, twin⟩ := rule.exists_twin agree
    (Assembly.mem_variables_of_fetch? fetched) moment.machine.halted moment.machine.ticks
  -- Marked and timed as the machine itself, the twin has the very same event.
  have marked : between.twin other moment.machine.halted between.ticks = between.holding other := by
    rw [← rule.halted_eq]
    rfl
  rw [← rule.ticks_eq, rule.retimed_eq, marked] at twin
  refine ⟨⟨moment.machine.holding memory, moment.code, moment.event⟩, _, rfl,
    Moment.leads_iff.2 ⟨fetched, _, twin, rfl⟩, rfl, rfl, other, ?_, ?_⟩
  · rwa [Event.settle_memory]
  · exact (moment.event.settle_holding other between).symm

/-- An instruction leaves the variables alone that it does not name. -/
theorem Executes.get?_of_unnamed {labels : LabelTable} {instruction : Instruction}
    (rule : Executes labels machine instruction event next)
    (unnamed : name ∉ instruction.variable?) :
    next.memory.get? name = machine.memory.get? name := by
  cases rule with
  | store updated | alloc updated =>
      rw [Memory.get?_of_update updated, if_neg]
      rintro rfl
      exact unnamed rfl
  | _ => rfl

theorem get?_of_step (stepped : step assembly machine = .ok event next)
    (unnamed : name ∉ assembly.variables) :
    next.memory.get? name = machine.memory.get? name := by
  rcases step_eq_ok_iff.1 stepped with ⟨-, -, rfl⟩ | ⟨code, between, fetched, rule, rfl⟩
  · rfl
  · rw [Event.settle_memory]
    exact rule.get?_of_unnamed fun named =>
      unnamed (Assembly.mem_variables_of_fetch? fetched name named)

end Step

namespace Session

variable {assembly : Assembly} {limit : Option Nat} {session after : Session} {ending : Ending}
  {memory : Memory Word} {name : String}

/-- The same session with another memory in its machine. -/
def holding (memory : Memory Word) (session : Session) : Session :=
  { session with machine := session.machine.holding memory }

/-! ## Runs -/

theorem mirrors_holding (assembly : Assembly) :
    Mirrors assembly assembly (fun _ => True) (fun _ => True) (Machine.AlikeFor assembly)
      (fun event other => event = other) where
  stands := by
    rintro machine - code ⟨memory, -, rfl⟩ fetched
    exact ⟨code, fetched, fun _ => rfl, fun _ => rfl⟩
  follows := by
    refine (follows_holding assembly).imp (fun _ _ => trivial) ?_
    intro moment image same
    rw [same]
  faults := by
    rintro machine - code image fault ⟨memory, agree, rfl⟩ fetched found - rule -
    cases fetched.symm.trans found
    exact rule.twin agree (Assembly.mem_variables_of_fetch? fetched) machine.halted machine.ticks
  halts := by
    rintro machine - ⟨memory, agree, rfl⟩
    exact ⟨memory, agree, rfl⟩

theorem EndsWith.exists_holding (ends : EndsWith assembly limit session ending after)
    (agree : session.machine.memory.AgreeOn (· ∈ assembly.variables) memory) :
    ∃ other, after.machine.memory.AgreeOn (· ∈ assembly.variables) other ∧
      EndsWith assembly limit (session.holding memory) ending (after.holding other) := by
  obtain ⟨fetches, trail⟩ := endsWith_iff_exists_trail.1 ends
  have start : Paired (Machine.AlikeFor assembly) session (session.holding memory) :=
    ⟨⟨memory, agree, rfl⟩, rfl, rfl⟩
  have atEnd : RanOff assembly ending after → ∀ last, after.machine.AlikeFor assembly last →
      assembly.size ≤ last.counter := by
    rintro ranOff - ⟨_, -, rfl⟩
    exact ranOff.2
  obtain ⟨final, twin, paired, grown⟩ :=
    (mirrors_holding assembly).endsWith trail start (fun _ _ => trivial) (fun _ _ => trivial) atEnd
  obtain ⟨other, agree, same⟩ := paired.machine
  rw [paired.eq same.symm grown.eq] at twin
  exact ⟨other, agree, twin⟩

theorem EndsWith.get?_of_unnamed (ends : EndsWith assembly limit session ending after)
    (unnamed : name ∉ assembly.variables) :
    after.machine.memory.get? name = session.machine.memory.get? name := by
  obtain ⟨moments, last, path, -, -, finishes⟩ := endsWith_iff.1 ends
  have onTheWay : last.memory.get? name = session.machine.memory.get? name :=
    path.invariant (fun _ _ _ kept stepped => (get?_of_step stepped unnamed).trans kept) rfl
  rw [← onTheWay]
  cases finishes with
  | stepLimit | fault | ended => rfl
  | sinkFull _ _ stepped | halted _ _ stepped => exact get?_of_step stepped unnamed

/-! ## Whole runs -/

section Conducted

variable {settings : Settings}

/-- Of the memory, only the number of its cells is reported, unless the whole state is asked for. -/
theorem closingText_holding (undumped : settings.dumpState = false) {machine : Machine Word}
    (size : memory.size = machine.memory.size) :
    closingText settings (machine.holding memory) = closingText settings machine := by
  have summary : Panel.summary (machine.holding memory) = Panel.summary machine := by
    unfold Panel.summary Machine.holding
    rw [size]
  simp only [closingText, summary, undumped, Bool.false_eq_true, if_false]

theorem Conducts.exists_holding (conducts : Conducts settings assembly session ending after)
    (undumped : settings.dumpState = false)
    (agree : session.machine.memory.AgreeOn (· ∈ assembly.variables) memory) :
    ∃ other, after.machine.memory.AgreeOn (· ∈ assembly.variables) other ∧
      Conducts settings assembly (session.holding memory) ending (after.holding other) := by
  cases conducts_iff.1 conducts with
  | unopened refused => exact ⟨memory, agree, conducts_iff.2 (.unopened refused)⟩
  | unshown opened ends =>
      obtain ⟨other, agree, ends⟩ := ends.exists_holding agree
      exact ⟨other, agree, conducts_iff.2 (.unshown opened ends)⟩
  | @unclosed reached ran opened ends unfailed refused =>
      obtain ⟨other, agree, ends⟩ := ends.exists_holding agree
      rw [← closingText_holding undumped agree.size] at refused ⊢
      have concludes : Concludes settings assembly (session.holding memory) .sinkFull
          ((ran.holding other).put (closingText settings (ran.machine.holding other))) :=
        .unclosed opened ends unfailed refused
      exact ⟨other, agree, conducts_iff.2 concludes⟩
  | @closed _ ran opened ends unfailed fits =>
      obtain ⟨other, agree, ends⟩ := ends.exists_holding agree
      rw [← closingText_holding undumped agree.size] at fits ⊢
      have concludes : Concludes settings assembly (session.holding memory) ending
          ((ran.holding other).put (closingText settings (ran.machine.holding other))) :=
        .closed opened ends unfailed fits
      exact ⟨other, agree, conducts_iff.2 concludes⟩

theorem Conducts.get?_of_unnamed (conducts : Conducts settings assembly session ending after)
    (unnamed : name ∉ assembly.variables) :
    after.machine.memory.get? name = session.machine.memory.get? name := by
  cases conducts_iff.1 conducts with
  | unopened => rfl
  | unshown _ ends | unclosed _ ends | closed _ ends => exact ends.get?_of_unnamed unnamed

end Conducted

/-! ## Interference -/

/-- Whether a way to run a program comes to the same on two machines, but for their memories: it
returns on both or on neither, with the same ending, output and log, and what it leaves differs in
the memory only. The memories that it leaves agree on these names, and keep every other cell that
they had. -/
structure RunsAlike (names : String → Prop) (run : Session → Ending → Session → Prop)
    (session twin : Session) : Prop where
  returns : (∃ ending after, run session ending after) ↔ ∃ ending after, run twin ending after
  same : ∀ ending after other final, run session ending after → run twin other final →
    other = ending ∧ final = after.holding final.machine.memory ∧
      after.machine.memory.AgreeOn names final.machine.memory
  kept : ∀ ending after name, ¬ names name →
    (run session ending after →
      after.machine.memory.get? name = session.machine.memory.get? name) ∧
    (run twin ending after → after.machine.memory.get? name = twin.machine.memory.get? name)

/-- For this it is enough that what a run comes to is carried over to every memory that agrees. -/
theorem RunsAlike.of_exists_holding {names : String → Prop}
    {run : Session → Ending → Session → Prop}
    (unique : ∀ {session ending after other final}, run session ending after →
      run session other final → other = ending ∧ final = after)
    (carried : ∀ {session ending after memory}, run session ending after →
      session.machine.memory.AgreeOn names memory →
      ∃ other, after.machine.memory.AgreeOn names other ∧
        run (session.holding memory) ending (after.holding other))
    (kept : ∀ {session ending after name}, run session ending after → ¬ names name →
      after.machine.memory.get? name = session.machine.memory.get? name)
    (agree : session.machine.memory.AgreeOn names memory) :
    RunsAlike names run session (session.holding memory) where
  returns := by
    refine ⟨?_, ?_⟩
    · intro given
      obtain ⟨ending, after, returned⟩ := given
      obtain ⟨other, -, returned⟩ := carried returned agree
      exact ⟨ending, _, returned⟩
    · intro given
      obtain ⟨ending, after, returned⟩ := given
      obtain ⟨other, -, returned⟩ := carried returned agree.symm
      exact ⟨ending, _, returned⟩
  same := by
    intro ending after other final returned twin
    obtain ⟨left, agree, expected⟩ := carried returned agree
    obtain ⟨rfl, rfl⟩ := unique expected twin
    exact ⟨rfl, rfl, agree⟩
  kept := fun _ _ _ unnamed =>
    ⟨fun returned => kept returned unnamed, fun returned => kept returned unnamed⟩

/-- Variables that a program does not name do not interfere with it. Let two machines differ in
their memories only, which are equally large and equally full and hold the same under the names
that the program uses. Then a run, under any step limit and whatever becomes of its output, comes to
the same on both but for the memories, and so does a whole run that does not dump them; the memories
still agree on the names, and have all other cells as they were. -/
theorem unnamed_variables_do_not_interfere {machine : Machine Word}
    (agree : machine.memory.AgreeOn (· ∈ assembly.variables) memory) (sink : Sink) (log : Log) :
    (∀ limit, RunsAlike (· ∈ assembly.variables) (EndsWith assembly limit) (start machine sink log)
      (start { machine with memory := memory } sink log)) ∧
    ∀ settings, settings.dumpState = false →
      RunsAlike (· ∈ assembly.variables) (Conducts settings assembly) (start machine sink log)
        (start { machine with memory := memory } sink log) := by
  refine ⟨fun limit => ?_, fun settings undumped => ?_⟩
  · exact .of_exists_holding EndsWith.unique EndsWith.exists_holding EndsWith.get?_of_unnamed agree
  · exact .of_exists_holding Conducts.unique
      (fun conducts agree => conducts.exists_holding undumped agree) Conducts.get?_of_unnamed agree

/-- A program that makes a cell and shows what is in it, on two machines that each have a cell
already which it does not name. -/
theorem unnamed_variables_do_not_interfere_hidden :
    ∃ (assembly : Assembly) (machine : Machine Word) (memory : Memory Word)
      (after final whole wholeFinal : Session),
      machine.memory.AgreeOn (· ∈ assembly.variables) memory ∧ memory ≠ machine.memory ∧
      EndsWith assembly none (start machine (.empty none) #[]) .normal after ∧
      EndsWith assembly none (start { machine with memory := memory } (.empty none) #[]) .normal
        final ∧
      final = after.holding final.machine.memory ∧
      final.machine.memory.get? "hidden" = memory.get? "hidden" ∧
      Conducts {} assembly (start machine (.empty none) #[]) .normal whole ∧
      Conducts {} assembly (start { machine with memory := memory } (.empty none) #[]) .normal
        wholeFinal ∧
      wholeFinal.sink = whole.sink := by
  let assembly : Assembly :=
    ⟨"show", #[⟨.store "level" (.literal 3), 1⟩, ⟨.load (some .r0) "level", 2⟩,
      ⟨.emit "valve", 3⟩], .empty⟩
  let holding (value : Word) : Memory Word := ⟨.ofList [("hidden", value)], 2⟩
  let machine : Machine Word := { Machine.initial {} with memory := holding 7 }
  let memory : Memory Word := holding 8
  have cells : ∀ name ∈ assembly.variables, memory.get? name = machine.memory.get? name := by
    decide
  have agree : machine.memory.AgreeOn (· ∈ assembly.variables) memory := ⟨cells, by decide, rfl⟩
  obtain ⟨runs, wholes⟩ := unnamed_variables_do_not_interfere agree (.empty none) #[]
  obtain ⟨after, final, ends, twinEnds⟩ : ∃ after final,
      EndsWith assembly none (start machine (.empty none) #[]) .normal after ∧
      EndsWith assembly none (start { machine with memory := memory } (.empty none) #[]) .normal
        final := ⟨_, _, ⟨4, rfl⟩, ⟨4, rfl⟩⟩
  obtain ⟨whole, wholeFinal, conducts, twinConducts⟩ : ∃ whole wholeFinal,
      Conducts {} assembly (start machine (.empty none) #[]) .normal whole ∧
      Conducts {} assembly (start { machine with memory := memory } (.empty none) #[]) .normal
        wholeFinal := ⟨_, _, ⟨4, rfl⟩, ⟨4, rfl⟩⟩
  obtain ⟨-, same, -⟩ := (runs none).same _ _ _ _ ends twinEnds
  obtain ⟨-, sameWhole, -⟩ := (wholes {} rfl).same _ _ _ _ conducts twinConducts
  have output : wholeFinal.sink = (whole.holding wholeFinal.machine.memory).sink :=
    congrArg Session.sink sameWhole
  exact ⟨assembly, machine, memory, after, final, whole, wholeFinal, agree, by decide, ends,
    twinEnds, same, ((runs none).kept _ _ "hidden" (by decide)).2 twinEnds, conducts, twinConducts,
    output⟩

end Session

end WashController
