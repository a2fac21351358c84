import WashController.Proofs.Path
import WashController.Session

/-!
# The run loop

What the turns of a session amount to, in terms of steps. A turn either goes on along one step of
the program (`turn_eq_ok_iff`) or ends the run (`Finishes`, `turn_eq_error_iff`), so turns that go
on follow a path (`advance_eq_ok_iff`) and a run that ends is a path with an end to it
(`endsWith_iff`). `EndsWith` asks for some number of turns; which one does not matter, for a run
that has ended stays as it is (`EndsWith.unique`).
-/

namespace WashController

/-- What is logged when an instruction is about to be carried out. -/
def Moment.diagnostic (moment : Moment Word) : Diagnostic :=
  .fetched moment.machine.counter moment.code

namespace Session

variable {assembly : Assembly} {limit : Option Nat} {session after : Session}

/-- The session at the end of a path: everything on the way is shown, logged and counted. -/
def along (session : Session) (moments : List (Moment Word)) (last : Machine Word) : Session where
  machine := last
  sink := session.sink.write (Notice.texts (Moment.notices moments))
  log := session.log ++ (moments.map Moment.diagnostic).toArray
  executed := session.executed + moments.length

@[simp]
theorem along_nil : session.along [] session.machine = session := by
  simp [along]

theorem along_append (moments more : List (Moment Word)) (middle last : Machine Word) :
    session.along (moments ++ more) last = (session.along moments middle).along more last := by
  simp [along, Sink.write_append, Nat.add_assoc]

theorem room_along (accepting : session.sink.room = none) (moments : List (Moment Word))
    (last : Machine Word) : (session.along moments last).sink.room = none := by
  rw [along, Sink.write_of_room_eq_none accepting]
  exact accepting

/-- Where there is always room, everything that is shown along a path is written. -/
theorem written_along (accepting : session.sink.room = none) (moments : List (Moment Word))
    (last : Machine Word) :
    (session.along moments last).sink.written =
      session.sink.written ++ (Notice.texts (Moment.notices moments)).toByteArray := by
  rw [along, Sink.write_of_room_eq_none accepting]

/-- Whether everything that is shown along a path fits into the sink. -/
def Shows (session : Session) (moments : List (Moment Word)) : Prop :=
  session.sink.accepts (Notice.texts (Moment.notices moments)) = true

instance (session : Session) (moments : List (Moment Word)) : Decidable (session.Shows moments) :=
  inferInstanceAs (Decidable (_ = true))

theorem shows_nil : session.Shows [] := by
  simp [Shows]

theorem shows_append {moments more : List (Moment Word)} {middle : Machine Word} :
    session.Shows (moments ++ more) ↔
      session.Shows moments ∧ (session.along moments middle).Shows more := by
  simp [Shows, along, Sink.accepts_append]

/-- A sink that accepts everything shows everything. -/
theorem shows_of_room_eq_none (accepting : session.sink.room = none)
    (moments : List (Moment Word)) : session.Shows moments := by
  simp [Shows, Sink.accepts, accepting]

/-! ## One turn -/

/-- The session after a fault has ended the run. -/
def failed (session : Session) (assembly : Assembly) (fault : Fault) : Session :=
  { session with
    machine := { session.machine with halted := true }
    log := session.log.push
      (.faulted ((assembly.fetch? session.machine.counter).map (·.line)) fault) }

theorem limitReached?_eq_some_iff {most : Nat} :
    session.limitReached? assembly limit = some most ↔
      limit = some most ∧ most ≤ session.executed ∧
        session.machine.counter < assembly.size := by
  simp [limitReached?, Option.filter_eq_some_iff]

theorem limitReached?_eq_none_iff :
    session.limitReached? assembly limit = none ↔
      ∀ most ∈ limit, session.machine.counter < assembly.size → session.executed < most := by
  simp only [limitReached?, Option.filter_eq_none_iff, Bool.and_eq_true, decide_eq_true_eq,
    not_and, Nat.not_lt]
  refine forall_congr' fun most => imp_congr_right fun _ => ?_
  omega

/-- How a turn ends the run. -/
inductive Finishes (assembly : Assembly) (limit : Option Nat) (session : Session) :
    Ending → Session → Prop
  | stepLimit {most} :
    session.limitReached? assembly limit = some most →
    Finishes assembly limit session (.fault (.stepLimit most))
      (session.failed assembly (.stepLimit most))
  | fault {code fault} :
    session.limitReached? assembly limit = none →
    assembly.fetch? session.machine.counter = some code →
    step assembly session.machine = .error fault session.machine →
    Finishes assembly limit session (.fault fault)
      ((session.note (.fetched session.machine.counter code)).failed assembly fault)
  | sinkFull {code event next} :
    session.limitReached? assembly limit = none →
    assembly.fetch? session.machine.counter = some code →
    step assembly session.machine = .ok event next →
    ¬ session.Shows [⟨session.machine, code, event⟩] →
    Finishes assembly limit session .sinkFull
      { session.along [⟨session.machine, code, event⟩] next with executed := session.executed }
  | halted {code next} :
    session.limitReached? assembly limit = none →
    assembly.fetch? session.machine.counter = some code →
    step assembly session.machine = .ok .halted next →
    session.Shows [⟨session.machine, code, .halted⟩] →
    Finishes assembly limit session .normal
      { session.along [⟨session.machine, code, .halted⟩] next with executed := session.executed }
  | ended :
    session.limitReached? assembly limit = none →
    assembly.fetch? session.machine.counter = none →
    Finishes assembly limit session .normal session

theorem proceed_eq (event : Event Word) :
    proceed event session =
      if event.goesOn then .ok () { session with executed := session.executed + 1 }
      else .error .normal session := by
  cases event <;> rfl

/-- What an event leads to: it is shown, and then the run goes on or ends. -/
theorem present_eq (event : Event Word) :
    present event session =
      let shown := { session with sink := session.sink.write (Notice.texts event.notice?.toList) }
      if session.sink.accepts (Notice.texts event.notice?.toList) then
        if event.goesOn then .ok () { shown with executed := session.executed + 1 }
        else .error .normal shown
      else .error .sinkFull shown := by
  unfold present
  cases event.notice? with
  | none => simp [proceed_eq]
  | some notice =>
      by_cases fits : session.sink.accepts notice.text
      · have printed : print notice.text session = .ok () (session.put notice.text) := if_pos fits
        simp [bind, EStateM.bind, printed, proceed_eq, fits, put]
      · have printed : print notice.text session = .error .sinkFull (session.put notice.text) :=
          if_neg fits
        simp [bind, EStateM.bind, printed, fits, put]

theorem turn_of_limitReached {most : Nat}
    (reached : session.limitReached? assembly limit = some most) :
    turn assembly limit session =
      .error (.fault (.stepLimit most)) (session.failed assembly (.stepLimit most)) := by
  rw [turn, reached]
  rfl

theorem turn_of_ended (within : session.limitReached? assembly limit = none)
    (past : assembly.fetch? session.machine.counter = none) :
    turn assembly limit session = .error .normal session := by
  have stepped : step assembly session.machine = .ok .ended session.machine :=
    step_eq_ok_iff.2 (.inl ⟨past, rfl, rfl⟩)
  have announced : session.announce assembly = session := by simp [announce, past]
  rw [turn, within]
  simp [announced, stepped, present_eq, Event.notice?, Event.goesOn]

section Fetched

variable {code : CodeLine} (within : session.limitReached? assembly limit = none)
  (fetched : assembly.fetch? session.machine.counter = some code)

include within fetched

theorem turn_of_fault {fault : Fault}
    (faulted : step assembly session.machine = .error fault session.machine) :
    turn assembly limit session =
      .error (.fault fault)
        ((session.note (.fetched session.machine.counter code)).failed assembly fault) := by
  have announced : session.announce assembly =
      session.note (.fetched session.machine.counter code) := by simp [announce, fetched]
  rw [turn, within]
  simp [announced, note, faulted, fail, failed]

theorem turn_of_step {event : Event Word} {next : Machine Word}
    (stepped : step assembly session.machine = .ok event next) :
    turn assembly limit session =
      let shown := session.along [⟨session.machine, code, event⟩] next
      if session.Shows [⟨session.machine, code, event⟩] then
        if event.goesOn then .ok () shown
        else .error .normal { shown with executed := session.executed }
      else .error .sinkFull { shown with executed := session.executed } := by
  have announced : session.announce assembly =
      session.note (.fetched session.machine.counter code) := by simp [announce, fetched]
  rw [turn, within]
  simp [announced, note, stepped, present_eq, Shows, along, Moment.notices_singleton,
    Moment.diagnostic]

end Fetched

theorem Finishes.turn_eq {ending : Ending}
    (finishes : Finishes assembly limit session ending after) :
    turn assembly limit session = .error ending after := by
  cases finishes with
  | stepLimit reached => exact turn_of_limitReached reached
  | fault within fetched faulted => exact turn_of_fault within fetched faulted
  | sinkFull within fetched stepped unshown =>
      rw [turn_of_step within fetched stepped, if_neg unshown]
  | halted within fetched stepped shown =>
      rw [turn_of_step within fetched stepped, if_pos shown]
      rfl
  | ended within past => exact turn_of_ended within past

/-- The turn that ends a run completes no instruction. -/
theorem Finishes.executed_eq {ending : Ending}
    (finishes : Finishes assembly limit session ending after) :
    after.executed = session.executed := by
  cases finishes <;> rfl

/-- A turn takes one step of a path, or it ends the run. -/
theorem turn_cases (assembly : Assembly) (limit : Option Nat) (session : Session) :
    (session.limitReached? assembly limit = none ∧ ∃ code event next,
      assembly.fetch? session.machine.counter = some code ∧
      step assembly session.machine = .ok event next ∧ event.goesOn = true ∧
      session.Shows [⟨session.machine, code, event⟩]) ∨
    ∃ ending after, Finishes assembly limit session ending after := by
  cases within : session.limitReached? assembly limit with
  | some most => exact .inr ⟨_, _, .stepLimit within⟩
  | none =>
      cases fetched : assembly.fetch? session.machine.counter with
      | none => exact .inr ⟨_, _, .ended within fetched⟩
      | some code =>
          cases stepped : step assembly session.machine with
          | error fault next =>
              obtain ⟨-, -, -, unchanged⟩ := step_eq_error_iff.1 stepped
              subst unchanged
              exact .inr ⟨_, _, .fault within fetched stepped⟩
          | ok event next =>
              by_cases shown : session.Shows [⟨session.machine, code, event⟩]
              · by_cases going : event.goesOn = true
                · exact .inl ⟨rfl, code, event, next, rfl, rfl, going, shown⟩
                · have halted : event = .halted := eq_halted_of_step fetched stepped going
                  subst halted
                  exact .inr ⟨_, _, .halted within fetched stepped shown⟩
              · exact .inr ⟨_, _, .sinkFull within fetched stepped shown⟩

/-- The turns that go on. -/
theorem turn_eq_ok_iff :
    turn assembly limit session = .ok () after ↔
      session.limitReached? assembly limit = none ∧ ∃ code event next,
        assembly.fetch? session.machine.counter = some code ∧
        step assembly session.machine = .ok event next ∧ event.goesOn = true ∧
        session.Shows [⟨session.machine, code, event⟩] ∧
        after = session.along [⟨session.machine, code, event⟩] next := by
  have turned {code event next} (within : session.limitReached? assembly limit = none)
      (fetched : assembly.fetch? session.machine.counter = some code)
      (stepped : step assembly session.machine = .ok event next) (going : event.goesOn = true)
      (shown : session.Shows [⟨session.machine, code, event⟩]) :
      turn assembly limit session =
        .ok () (session.along [⟨session.machine, code, event⟩] next) := by
    rw [turn_of_step within fetched stepped, if_pos shown, if_pos going]
  refine ⟨fun succeeded => ?_, ?_⟩
  · rcases turn_cases assembly limit session with
      ⟨within, code, event, next, fetched, stepped, going, shown⟩ | ⟨ending, last, finishes⟩
    · rw [turned within fetched stepped going shown] at succeeded
      cases succeeded
      exact ⟨within, code, event, next, fetched, stepped, going, shown, rfl⟩
    · rw [finishes.turn_eq] at succeeded
      cases succeeded
  · intro given
    rcases given with ⟨within, code, event, next, fetched, stepped, going, shown, rfl⟩
    exact turned within fetched stepped going shown

/-- The turns that end the run. -/
theorem turn_eq_error_iff {ending : Ending} :
    turn assembly limit session = .error ending after ↔
      Finishes assembly limit session ending after := by
  refine ⟨fun failed => ?_, Finishes.turn_eq⟩
  rcases turn_cases assembly limit session with
    ⟨within, code, event, next, fetched, stepped, going, shown⟩ | ⟨other, last, finishes⟩
  · rw [turn_of_step within fetched stepped, if_pos shown, if_pos going] at failed
    cases failed
  · rw [finishes.turn_eq] at failed
    cases failed
    exact finishes

/-! ## Many turns -/

theorem advance_succ_eq_ok_iff {turns : Nat} :
    advance assembly limit (turns + 1) session = .ok () after ↔
      ∃ between, turn assembly limit session = .ok () between ∧
        advance assembly limit turns between = .ok () after := by
  rw [advance]
  cases turn assembly limit session <;> simp

/-- Turns can be taken in two goes. -/
theorem advance_add (turns more : Nat) :
    advance assembly limit (turns + more) session =
      match advance assembly limit turns session with
      | .ok () between => advance assembly limit more between
      | .error ending after => .error ending after := by
  induction turns generalizing session with
  | zero => rw [Nat.zero_add, advance]
  | succ turns ih =>
      rw [Nat.succ_add, advance, advance]
      cases turn assembly limit session with
      | ok _ between => exact ih
      | error ending after => rfl

/-- The turn that ends a run is one that follows turns which all go on. -/
theorem exists_of_advance_eq_error {turns : Nat} {ending : Ending}
    (ended : advance assembly limit turns session = .error ending after) :
    ∃ done between, advance assembly limit done session = .ok () between ∧
      turn assembly limit between = .error ending after := by
  induction turns with
  | zero => cases ended
  | succ turns ih =>
      rw [advance_add] at ended
      cases onward : advance assembly limit turns session with
      | error =>
          rw [onward] at ended
          exact ih (onward.trans ended)
      | ok _ between =>
          refine ⟨turns, between, onward, ?_⟩
          simp only [onward, advance] at ended
          cases turned : turn assembly limit between with
          | ok => simp only [turned, reduceCtorEq] at ended
          | error => simpa only [turned] using ended

/-- Whether a limit leaves room for so many instructions more. -/
def Affords (session : Session) (limit : Option Nat) (count : Nat) : Prop :=
  ∀ most ∈ limit, count ≠ 0 → session.executed + count ≤ most

theorem affords_zero : session.Affords limit 0 :=
  fun _ _ nonzero => absurd rfl nonzero

/-- A limit has room for one instruction and others after it if it is not reached now and has room
for the others then. -/
theorem affords_succ {count : Nat} (moment : Moment Word) (next : Machine Word)
    (inProgram : session.machine.counter < assembly.size) :
    session.Affords limit (count + 1) ↔
      session.limitReached? assembly limit = none ∧
        (session.along [moment] next).Affords limit count := by
  simp only [Affords, along, limitReached?_eq_none_iff, List.length_singleton]
  refine ⟨fun affords => ⟨fun most limited _ => ?_, fun most limited _ => ?_⟩, ?_⟩
  · have room := affords most limited (Nat.succ_ne_zero count)
    omega
  · have room := affords most limited (Nat.succ_ne_zero count)
    omega
  · intro given most limited _
    rcases given with ⟨within, rest⟩
    have room := within most limited inProgram
    have more := rest most limited
    omega

theorem Affords.mono {more fewer : Nat} (affords : session.Affords limit more)
    (le : fewer ≤ more) : session.Affords limit fewer := by
  intro most limited nonzero
  have room := affords most limited
  omega

/-- Before the last of the instructions that a limit leaves room for, it is not reached. -/
theorem Affords.limitReached?_eq_none {count : Nat} {moments : List (Moment Word)}
    (affords : session.Affords limit count) (fewer : moments.length < count)
    (last : Machine Word) : (session.along moments last).limitReached? assembly limit = none := by
  refine limitReached?_eq_none_iff.2 fun most limited _ => ?_
  have room := affords most limited
  simp only [along]
  omega

/-- When a run reaches its step limit, it has executed just as many instructions. -/
theorem length_eq_of_limitReached? {machine last : Machine Word} {sink : Sink} {log : Log}
    {moments : List (Moment Word)} {most : Nat}
    (affords : (start machine sink log).Affords limit moments.length)
    (reached : ((start machine sink log).along moments last).limitReached? assembly limit =
      some most) : moments.length = most := by
  obtain ⟨limited, most_le, -⟩ := limitReached?_eq_some_iff.1 reached
  have room := affords most limited
  simp only [along, start] at most_le room
  omega

/-- Turns that all go on follow a path. -/
theorem advance_eq_ok_iff {turns : Nat} :
    advance assembly limit turns session = .ok () after ↔
      ∃ moments last, Path assembly session.machine moments last ∧ moments.length = turns ∧
        session.Affords limit turns ∧ session.Shows moments ∧
        after = session.along moments last := by
  induction turns generalizing session with
  | zero =>
      simp only [advance, EStateM.Result.ok.injEq, true_and]
      refine ⟨?_, ?_⟩
      · intro same
        subst same
        exact ⟨[], session.machine, .refl, rfl, affords_zero, shows_nil, along_nil.symm⟩
      · intro given
        rcases given with ⟨moments, last, path, length, -, -, rfl⟩
        obtain rfl := List.eq_nil_of_length_eq_zero length
        cases path
        exact along_nil.symm
  | succ turns ih =>
      rw [advance_succ_eq_ok_iff]
      refine ⟨?_, ?_⟩
      · intro given
        rcases given with ⟨between, turned, onward⟩
        obtain ⟨within, code, event, next, fetched, stepped, going, shown, rfl⟩ :=
          turn_eq_ok_iff.1 turned
        obtain ⟨moments, last, path, rfl, affords, shows, rfl⟩ := ih.1 onward
        have longer : Path assembly session.machine (⟨session.machine, code, event⟩ :: moments)
            last := .head fetched stepped going path
        have room : session.Affords limit (moments.length + 1) :=
          (affords_succ _ next (Assembly.lt_size_of_fetch? fetched)).2 ⟨within, affords⟩
        have fits : session.Shows (⟨session.machine, code, event⟩ :: moments) :=
          shows_append.2 ⟨shown, shows⟩
        exact ⟨_, last, longer, rfl, room, fits, (along_append [_] moments next last).symm⟩
      · intro given
        rcases given with ⟨moments, last, path, length, affords, shows, rfl⟩
        cases path with
        | refl => cases length
        | @head _ next _ code event moments fetched stepped going path =>
            obtain ⟨within, affords⟩ := (affords_succ ⟨session.machine, code, event⟩ next
              (Assembly.lt_size_of_fetch? fetched)).1 affords
            rw [← List.singleton_append] at shows ⊢
            obtain ⟨shown, shows⟩ := shows_append.1 shows
            have turned : turn assembly limit session =
                .ok () (session.along [⟨session.machine, code, event⟩] next) :=
              turn_eq_ok_iff.2 ⟨within, code, event, next, fetched, stepped, going, shown, rfl⟩
            have onward : advance assembly limit turns
                (session.along [⟨session.machine, code, event⟩] next) = .ok () _ :=
              ih.2 ⟨moments, last, path, Nat.succ.inj length, affords, shows,
                along_append [_] moments next last⟩
            exact ⟨_, turned, onward⟩

/-! ## Ended runs -/

/-- Whether a run, given turns enough, comes to an ending and leaves this session. -/
def EndsWith (assembly : Assembly) (limit : Option Nat) (session : Session) (ending : Ending)
    (after : Session) : Prop :=
  ∃ turns, advance assembly limit turns session = .error ending after

/-- A run ends in one way only, whatever number of turns it is given. -/
theorem EndsWith.unique {ending other : Ending} {last : Session}
    (ends : EndsWith assembly limit session ending after)
    (again : EndsWith assembly limit session other last) : other = ending ∧ last = after := by
  obtain ⟨turns, ends⟩ := ends
  obtain ⟨others, again⟩ := again
  have first : advance assembly limit (turns + others) session = .error ending after := by
    rw [advance_add, ends]
  have second : advance assembly limit (others + turns) session = .error other last := by
    rw [advance_add, again]
  rw [Nat.add_comm, first] at second
  cases second
  exact ⟨rfl, rfl⟩

/-- What a run is known to come to is all that it comes to. -/
theorem EndsWith.iff_eq {ending other : Ending} {last : Session}
    (ends : EndsWith assembly limit session ending after) :
    EndsWith assembly limit session other last ↔ other = ending ∧ last = after := by
  refine ⟨ends.unique, ?_⟩
  rintro ⟨rfl, rfl⟩
  exact ends

/-- A run that has gone on for some turns ends as it does from there. -/
theorem EndsWith.of_advance {turns : Nat} {between : Session} {ending : Ending}
    (ends : EndsWith assembly limit session ending after)
    (onward : advance assembly limit turns session = .ok () between) :
    EndsWith assembly limit between ending after := by
  obtain ⟨more, ended⟩ := ends
  have later : advance assembly limit (more + turns) session = .error ending after := by
    rw [advance_add, ended]
  rw [Nat.add_comm, advance_add, onward] at later
  exact ⟨more, later⟩

theorem endsWith_of_turn_eq_error {ending : Ending}
    (turned : turn assembly limit session = .error ending after) :
    EndsWith assembly limit session ending after :=
  ⟨1, by rw [advance, turned]⟩

/-- A run ends as it does from where it has gone on to. -/
theorem endsWith_of_advance {turns : Nat} {between : Session} {ending : Ending}
    (onward : advance assembly limit turns session = .ok () between)
    (ends : EndsWith assembly limit between ending after) :
    EndsWith assembly limit session ending after := by
  obtain ⟨more, ended⟩ := ends
  exact ⟨turns + more, by rw [advance_add, onward]; exact ended⟩

theorem endsWith_of_turn_eq_ok {between : Session} {ending : Ending}
    (turned : turn assembly limit session = .ok () between)
    (ends : EndsWith assembly limit between ending after) :
    EndsWith assembly limit session ending after := by
  have onward : advance assembly limit 1 session = .ok () between := by
    rw [advance, turned]
    rfl
  exact endsWith_of_advance onward ends

/-- A run that ends is a path, and a turn that ends the run where the path leads. -/
theorem endsWith_iff {ending : Ending} :
    EndsWith assembly limit session ending after ↔
      ∃ moments last, Path assembly session.machine moments last ∧
        session.Affords limit moments.length ∧ session.Shows moments ∧
        Finishes assembly limit (session.along moments last) ending after := by
  refine ⟨?_, ?_⟩
  · intro given
    rcases given with ⟨turns, ended⟩
    obtain ⟨done, between, onward, turned⟩ := exists_of_advance_eq_error ended
    obtain ⟨moments, last, path, rfl, affords, shows, rfl⟩ := advance_eq_ok_iff.1 onward
    exact ⟨moments, last, path, affords, shows, turn_eq_error_iff.1 turned⟩
  · intro given
    rcases given with ⟨moments, last, path, affords, shows, finishes⟩
    have onward : advance assembly limit moments.length session =
        .ok () (session.along moments last) :=
      advance_eq_ok_iff.2 ⟨moments, last, path, rfl, affords, shows, rfl⟩
    exact endsWith_of_advance onward (endsWith_of_turn_eq_error (turn_eq_error_iff.2 finishes))

end Session

end WashController
