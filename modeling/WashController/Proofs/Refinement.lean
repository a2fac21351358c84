import WashController.Proofs.RunLoop

/-!
# Runs and steps

A run does what its steps do. With at most so many instructions allowed, a run always returns
(`exists_endsWith`), and `run_refines_steps` says what it returns: it follows the path of the
program for as long as the program goes on and the limit allows, and `Stops` is how it stops there.
Every such path with a stop to it is a run (`exists_endsWith_of_stops`). A limit that is not reached
makes no difference (`EndsWith.of_limit_le`).
-/

namespace WashController

/-- How a run stops on a machine on which so many instructions are completed, of at most so many:
its ending, what it shows as it stops, and the machine that it leaves. -/
inductive Stops (assembly : Assembly) (most completed : Nat) (machine : Machine Word) :
    Ending → List Notice → Machine Word → Prop
  | stepLimit :
    completed = most →
    machine.counter < assembly.size →
    Stops assembly most completed machine (.fault (.stepLimit most)) []
      { machine with halted := true }
  | fault {fault} :
    completed < most →
    step assembly machine = .error fault machine →
    Stops assembly most completed machine (.fault fault) [] { machine with halted := true }
  | halted {after} :
    completed < most →
    step assembly machine = .ok .halted after →
    Stops assembly most completed machine .normal [.halted] after
  | ended :
    step assembly machine = .ok .ended machine →
    Stops assembly most completed machine .normal [] machine

namespace Session

variable {assembly : Assembly} {limit : Option Nat} {session after : Session} {ending : Ending}
  {most : Nat}

/-! ## Limits -/

/-- A run with a step limit returns. -/
theorem exists_endsWith (assembly : Assembly) (most : Nat) (session : Session) :
    ∃ ending after, EndsWith assembly (some most) session ending after := by
  cases outcome : advance assembly (some most) (most + 1) session with
  | error ending after => exact ⟨ending, after, most + 1, outcome⟩
  | ok _ after =>
      -- So many turns cannot all have gone on.
      obtain ⟨-, -, -, -, affords, -, -⟩ := advance_eq_ok_iff.1 outcome
      have room : session.executed + (most + 1) ≤ most := affords most rfl (Nat.succ_ne_zero most)
      omega

/-- A run that does not reach its step limit is the same with any higher limit and with none. -/
theorem EndsWith.of_limit_le (ends : EndsWith assembly (some most) session ending after)
    (unreached : ending ≠ .fault (.stepLimit most)) (higher : ∀ more ∈ limit, most ≤ more) :
    EndsWith assembly limit session ending after := by
  obtain ⟨moments, last, path, affords, shows, finishes⟩ := endsWith_iff.1 ends
  have affords : session.Affords limit moments.length := by
    intro more limited nonzero
    have room := affords most rfl nonzero
    have le := higher more limited
    omega
  have within {ended : Session} (within : ended.limitReached? assembly (some most) = none) :
      ended.limitReached? assembly limit = none := by
    refine limitReached?_eq_none_iff.2 fun more limited inProgram => ?_
    have room := limitReached?_eq_none_iff.1 within most rfl inProgram
    have le := higher more limited
    omega
  refine endsWith_iff.2 ⟨moments, last, path, affords, shows, ?_⟩
  cases finishes with
  | stepLimit reached =>
      obtain ⟨limited, -⟩ := limitReached?_eq_some_iff.1 reached
      cases limited
      exact absurd rfl unreached
  | fault unlimited fetched faulted => exact .fault (within unlimited) fetched faulted
  | sinkFull unlimited fetched stepped shown =>
      exact .sinkFull (within unlimited) fetched stepped shown
  | halted unlimited fetched stepped shown =>
      exact .halted (within unlimited) fetched stepped shown
  | ended unlimited past => exact .ended (within unlimited) past

/-- Only its own step limit ends a run, which has then completed as many instructions as the limit
says, and another one follows. -/
theorem EndsWith.exists_of_stepLimit {machine : Machine Word} {sink : Sink} {log : Log}
    (ends : EndsWith assembly limit (start machine sink log) (.fault (.stepLimit most)) after) :
    limit = some most ∧ after.executed = most ∧
      ∃ moments last, Path assembly machine moments last ∧ moments.length = most ∧
        last.counter < assembly.size := by
  obtain ⟨moments, last, path, affords, -, finishes⟩ := endsWith_iff.1 ends
  cases finishes with
  | stepLimit reached =>
      have length := length_eq_of_limitReached? affords reached
      obtain ⟨limited, -, inProgram⟩ := limitReached?_eq_some_iff.1 reached
      exact ⟨limited, (Nat.zero_add _).trans length, moments, last, path, length, inProgram⟩
  | fault _ _ faulted =>
      obtain ⟨_, -, rule, -⟩ := step_eq_error_iff.1 faulted
      exact absurd rfl (rule.ne_stepLimit most)

/-! ## The run and its steps -/

section Refinement

variable {machine : Machine Word} {sink : Sink} {log : Log}

/-- Where everything can be written, a run is a path of the program and a stop at its end. -/
theorem EndsWith.stops (ends : EndsWith assembly (some most) (start machine sink log) ending after)
    (accepting : sink.room = none) :
    ∃ moments last shown, Path assembly machine moments last ∧
      moments.length = after.executed ∧ moments.length ≤ most ∧
      Stops assembly most moments.length last ending shown after.machine ∧
      after.sink.written =
        sink.written ++ (Notice.texts (Moment.notices moments ++ shown)).toByteArray := by
  obtain ⟨moments, last, path, affords, -, finishes⟩ := endsWith_iff.1 ends
  have count : moments.length = 0 + moments.length := (Nat.zero_add _).symm
  have le : moments.length ≤ most := by
    have room := affords most rfl
    simp only [start] at room
    omega
  have written : ((start machine sink log).along moments last).sink.written =
      sink.written ++ (Notice.texts (Moment.notices moments ++ [])).toByteArray := by
    rw [List.append_nil, written_along accepting]
    rfl
  have below {code : CodeLine}
      (within : ((start machine sink log).along moments last).limitReached? assembly (some most) =
        none) (fetched : assembly.fetch? last.counter = some code) : moments.length < most := by
    have room := limitReached?_eq_none_iff.1 within most rfl (Assembly.lt_size_of_fetch? fetched)
    simp only [along, start] at room
    omega
  cases finishes with
  | stepLimit reached =>
      have length := length_eq_of_limitReached? affords reached
      obtain ⟨limited, -, inProgram⟩ := limitReached?_eq_some_iff.1 reached
      cases limited
      exact ⟨moments, last, [], path, count, le, .stepLimit length inProgram, written⟩
  | fault within fetched faulted =>
      exact ⟨moments, last, [], path, count, le, .fault (below within fetched) faulted, written⟩
  | sinkFull _ _ _ shown =>
      exact absurd (shows_of_room_eq_none (room_along accepting moments last) _) shown
  | @halted code next within fetched stepped _ =>
      refine ⟨moments, last, [.halted], path, count, le, .halted (below within fetched) stepped, ?_⟩
      -- The last notice belongs to an instruction that is shown but not counted.
      have shown : ((start machine sink log).along (moments ++ [⟨last, code, .halted⟩])
          next).sink.written = _ := written_along accepting _ _
      rwa [along_append _ _ last, Moment.notices_append, Moment.notices_singleton] at shown
  | ended within past =>
      exact ⟨moments, last, [], path, count, le, .ended (step_eq_ok_iff.2 (.inl ⟨past, rfl, rfl⟩)),
        written⟩

/-- Where everything can be written, a path within the limit and a stop at its end are a run. -/
theorem exists_endsWith_of_stops {moments : List (Moment Word)} {last final : Machine Word}
    {shown : List Notice} (stops : Stops assembly most moments.length last ending shown final)
    (path : Path assembly machine moments last) (le : moments.length ≤ most)
    (accepting : sink.room = none) (log : Log) :
    ∃ after, EndsWith assembly (some most) (start machine sink log) ending after ∧
      after.machine = final ∧
      after.sink.written =
        sink.written ++ (Notice.texts (Moment.notices moments ++ shown)).toByteArray := by
  have affords : (start machine sink log).Affords (some most) moments.length := by
    intro _ limited _
    cases limited
    simpa [start] using le
  have run {after : Session}
      (finishes : Finishes assembly (some most) ((start machine sink log).along moments last)
        ending after) : EndsWith assembly (some most) (start machine sink log) ending after :=
    endsWith_iff.2
      ⟨moments, last, path, affords, shows_of_room_eq_none accepting moments, finishes⟩
  have within (below : moments.length < most) :
      ((start machine sink log).along moments last).limitReached? assembly (some most) = none := by
    refine limitReached?_eq_none_iff.2 fun _ limited _ => ?_
    cases limited
    simpa [along, start] using below
  have written : ((start machine sink log).along moments last).sink.written =
      sink.written ++ (Notice.texts (Moment.notices moments ++ [])).toByteArray := by
    rw [List.append_nil, written_along accepting]
    rfl
  cases stops with
  | stepLimit length inProgram =>
      have reached : ((start machine sink log).along moments last).limitReached? assembly
          (some most) = some most :=
        limitReached?_eq_some_iff.2 ⟨rfl, by simp [along, start, length], inProgram⟩
      exact ⟨_, run (.stepLimit reached), rfl, written⟩
  | fault below faulted =>
      obtain ⟨code, fetched, -, -⟩ := step_eq_error_iff.1 faulted
      exact ⟨_, run (.fault (within below) fetched faulted), rfl, written⟩
  | halted below stepped =>
      rcases step_eq_ok_iff.1 stepped with ⟨-, ended, -⟩ | ⟨code, _, fetched, -, -⟩
      · cases ended
      · refine ⟨_, run (.halted (within below) fetched stepped
          (shows_of_room_eq_none (room_along accepting moments last) _)), rfl, ?_⟩
        have shown : ((start machine sink log).along (moments ++ [⟨last, code, .halted⟩])
            final).sink.written = _ := written_along accepting _ _
        rwa [along_append _ _ last, Moment.notices_append, Moment.notices_singleton] at shown
  | ended stepped =>
      rcases step_eq_ok_iff.1 stepped with ⟨past, -, -⟩ | ⟨_, _, -, rule, -⟩
      · refine ⟨_, run (.ended (limitReached?_eq_none_iff.2 fun _ _ inProgram => ?_) past), rfl,
          written⟩
        exact absurd inProgram (Nat.not_lt.2 (Assembly.fetch?_eq_none_iff.1 past))
      · exact absurd rfl rule.event_ne_ended

/-- The step limit ends exactly those runs in which as many steps go on, and another instruction
would follow. -/
theorem EndsWith.stepLimit_iff
    (ends : EndsWith assembly (some most) (start machine sink log) ending after)
    (accepting : sink.room = none) :
    ending = .fault (.stepLimit most) ↔
      ∃ moments last, Path assembly machine moments last ∧ moments.length = most ∧
        last.counter < assembly.size := by
  refine ⟨?_, ?_⟩
  · intro same
    subst same
    exact ends.exists_of_stepLimit.2.2
  · intro given
    rcases given with ⟨moments, last, path, rfl, inProgram⟩
    have affords : (start machine sink log).Affords (some moments.length) moments.length := by
      intro most limited _
      cases limited
      simp [start]
    have reached : ((start machine sink log).along moments last).limitReached? assembly
        (some moments.length) = some moments.length :=
      limitReached?_eq_some_iff.2 ⟨rfl, by simp [along, start], inProgram⟩
    have limited := endsWith_iff.2 ⟨moments, last, path, affords,
      shows_of_room_eq_none accepting moments, .stepLimit reached⟩
    exact (limited.unique ends).1

end Refinement

end Session

end WashController
