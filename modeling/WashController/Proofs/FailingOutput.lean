import WashController.Proofs.Conduct

/-!
# Output that fails

A sink may have less room than a run needs. Every run has its notices, and they are the same
wherever it writes to (`EndsWith.exists_notices`); so output that fails is the beginning of the
output that would not have failed, and a run ends at the first of its notices that does not fit
(`CutOff`). The machine is then as the step has left it that the notice is about: nothing is taken
back. The opening and the closing of a whole run add two more places at which the room may end
(`exists_conducts_of_overflow`).
-/

namespace WashController

/-- The instructions that an operator can see: the notice that each of them shows, and the machine
that it leaves behind. -/
inductive Tells (machine : Machine Word) : Instruction → Notice → Machine Word → Prop
  | emit {actuator} :
    Tells machine (.emit actuator) (.emitted actuator machine.registers.r0)
      { machine with counter := machine.counter + 1 }
  | wait {total} :
    total = machine.ticks + machine.registers.r0 →
    Tells machine .wait (.waited machine.registers.r0 total)
      { machine with ticks := total, counter := machine.counter + 1 }
  | halt : Tells machine .halt .halted { machine with halted := true }

theorem Executes.tells {labels : LabelTable} {machine after : Machine Word}
    {instruction : Instruction} {event : Event Word} {notice : Notice}
    (rule : Executes labels machine instruction event after)
    (shown : event.notice? = some notice) :
    Tells machine instruction notice (event.settle after) := by
  cases rule with
  | emit =>
      cases shown
      exact .emit
  | wait =>
      cases shown
      exact .wait rfl
  | halt =>
      cases shown
      exact .halt
  | _ => cases shown

theorem tells_of_step {assembly : Assembly} {machine next : Machine Word} {code : CodeLine}
    {event : Event Word} {notice : Notice}
    (fetched : assembly.fetch? machine.counter = some code)
    (stepped : step assembly machine = .ok event next) (shown : event.notice? = some notice) :
    Tells machine code.instruction notice next := by
  rcases step_eq_ok_iff.1 stepped with ⟨past, -, -⟩ | ⟨_, between, fetched', rule, rfl⟩
  · cases fetched.symm.trans past
  · cases fetched.symm.trans fetched'
    exact rule.tells shown

/-- The place where the output of a path no longer fits: the first moment at which it is too
much. -/
theorem Moment.exists_first_overflow {room : Nat} {moments : List (Moment Word)}
    (overflow : room < (Notice.texts (notices moments)).utf8ByteSize) :
    ∃ earlier moment later, moments = earlier ++ moment :: later ∧
      (Notice.texts (notices earlier)).utf8ByteSize ≤ room ∧
      room < (Notice.texts (notices (earlier ++ [moment]))).utf8ByteSize := by
  obtain ⟨earlier, moment, later, split, fits, beyond⟩ :=
    exists_first_failure (fun moments => (Notice.texts (notices moments)).utf8ByteSize ≤ room)
      (by simp) (Nat.not_le.2 overflow)
  exact ⟨earlier, moment, later, split, fits, Nat.not_le.1 beyond⟩

/-- The machine after the first step on the way whose notice is too much for the room: everything
before it fits. The notices are those of the whole way. -/
def CutOff (assembly : Assembly) (first : Machine Word) (notices : List Notice) (room : Nat)
    (after : Machine Word) : Prop :=
  ∃ moments machine code notice later, Path assembly first moments machine ∧
    assembly.fetch? machine.counter = some code ∧
    Tells machine code.instruction notice after ∧
    notices = Moment.notices moments ++ notice :: later ∧
    (Notice.texts (Moment.notices moments)).utf8ByteSize ≤ room ∧
    room < (Notice.texts (Moment.notices moments ++ [notice])).utf8ByteSize

namespace Session

variable {assembly : Assembly} {limit : Option Nat} {session after : Session} {ending : Ending}
  {sink : Sink} {room : Nat}

theorem accepts_iff_of_room (limited : sink.room = some room) (text : String) :
    sink.accepts text = true ↔ text.utf8ByteSize ≤ room := by
  simp [Sink.accepts, limited]

/-- The same session with its output going elsewhere. -/
def redirect (session : Session) (sink : Sink) : Session :=
  { session with sink := sink }

/-! ## The run -/

/-- What the turn that ends a run shows. It ends the run in the same way wherever that fits, and
only the notice of an instruction that stops the program may not fit. -/
theorem Finishes.exists_shown (finishes : Finishes assembly limit session ending after)
    (unfailed : ending ≠ .sinkFull) :
    ∃ shown, after.sink = session.sink.write (Notice.texts shown) ∧ ∀ sink,
      (sink.accepts (Notice.texts shown) = true →
        Finishes assembly limit (session.redirect sink) ending
          (after.redirect (sink.write (Notice.texts shown)))) ∧
      (¬ sink.accepts (Notice.texts shown) = true → ∃ code next, shown = [.halted] ∧
        session.limitReached? assembly limit = none ∧
        assembly.fetch? session.machine.counter = some code ∧
        step assembly session.machine = .ok .halted next) := by
  cases finishes with
  | @stepLimit most reached =>
      refine ⟨[], by simp [failed], fun sink => ⟨fun _ => ?_, by simp⟩⟩
      rw [Notice.texts_nil, Sink.write_empty]
      exact .stepLimit reached
  | @fault code fault within fetched faulted =>
      refine ⟨[], by simp [failed, note], fun sink => ⟨fun _ => ?_, by simp⟩⟩
      rw [Notice.texts_nil, Sink.write_empty]
      exact .fault within fetched faulted
  | sinkFull => exact absurd rfl unfailed
  | @halted code next within fetched stepped shown =>
      refine ⟨[.halted], rfl, fun sink => ⟨fun fits => ?_, fun _ => ?_⟩⟩
      · exact .halted within fetched stepped fits
      · exact ⟨code, next, rfl, within, fetched, stepped⟩
  | ended within past =>
      refine ⟨[], by simp, fun sink => ⟨fun _ => ?_, by simp⟩⟩
      rw [Notice.texts_nil, Sink.write_empty]
      exact .ended within past

/-- A step whose notice is too much for what room is left ends the run: as much of the notice is
written as fits, and nothing that would come later is. -/
theorem exists_cutOff {earlier : List (Moment Word)} {next : Machine Word} (moment : Moment Word)
    (later : List Notice) (limited : sink.room = some room)
    (path : Path assembly session.machine earlier moment.machine)
    (affords : session.Affords limit earlier.length)
    (within : (session.along earlier moment.machine).limitReached? assembly limit = none)
    (fetched : assembly.fetch? moment.machine.counter = some moment.code)
    (stepped : step assembly moment.machine = .ok moment.event next)
    (fits : (Notice.texts (Moment.notices earlier)).utf8ByteSize ≤ room)
    (beyond : room < (Notice.texts (Moment.notices (earlier ++ [moment]))).utf8ByteSize) :
    ∃ last, EndsWith assembly limit (session.redirect sink) .sinkFull last ∧
      last.sink = sink.write (Notice.texts (Moment.notices (earlier ++ [moment]) ++ later)) ∧
      CutOff assembly session.machine (Moment.notices (earlier ++ [moment]) ++ later) room
        last.machine := by
  have shows : (session.redirect sink).Shows earlier := (accepts_iff_of_room limited _).2 fits
  have full : ¬ sink.accepts (Notice.texts (Moment.notices (earlier ++ [moment]))) = true :=
    fun accepted => Nat.not_le.2 beyond ((accepts_iff_of_room limited _).1 accepted)
  have unshown : ¬ ((session.redirect sink).along earlier moment.machine).Shows [moment] :=
    fun shown => full (shows_append.2 ⟨shows, shown⟩)
  have finishes : Finishes assembly limit ((session.redirect sink).along earlier moment.machine)
      .sinkFull _ := .sinkFull within fetched stepped unshown
  refine ⟨_, endsWith_iff.2 ⟨earlier, moment.machine, path, affords, shows, finishes⟩, ?_, ?_⟩
  · rw [Notice.texts_append, Sink.write_append_of_not_accepts full, Moment.notices_append,
      Notice.texts_append, Sink.write_append]
    rfl
  · rw [Moment.notices_append, Moment.notices_singleton] at beyond ⊢
    cases shown : moment.event.notice? with
    | none =>
        rw [shown] at beyond
        simp only [Option.toList_none, List.append_nil] at beyond
        omega
    | some notice =>
        rw [shown] at beyond
        exact ⟨earlier, moment.machine, moment.code, notice, later, path, fetched,
          tells_of_step fetched stepped shown, by simp, fits, beyond⟩

/-- Whether these are the notices of a run that ends: what it writes where it ends, and what it
would write elsewhere. A sink that accepts all of them changes nothing else. In any other sink the
run ends with the first notice that does not fit. -/
structure Announces (assembly : Assembly) (limit : Option Nat) (session : Session)
    (ending : Ending) (after : Session) (notices : List Notice) : Prop where
  written : after.sink = session.sink.write (Notice.texts notices)
  elsewhere : ∀ sink, sink.accepts (Notice.texts notices) = true →
    EndsWith assembly limit (session.redirect sink) ending
      (after.redirect (sink.write (Notice.texts notices)))
  cutOff : ∀ sink room, sink.room = some room → room < (Notice.texts notices).utf8ByteSize →
    ∃ last, EndsWith assembly limit (session.redirect sink) .sinkFull last ∧
      last.sink = sink.write (Notice.texts notices) ∧
      CutOff assembly session.machine notices room last.machine

theorem EndsWith.exists_notices (ends : EndsWith assembly limit session ending after)
    (unfailed : ending ≠ .sinkFull) :
    ∃ notices, Announces assembly limit session ending after notices := by
  obtain ⟨moments, machine, path, affords, -, finishes⟩ := endsWith_iff.1 ends
  obtain ⟨shown, written, elsewhere⟩ := finishes.exists_shown unfailed
  refine ⟨Moment.notices moments ++ shown, ?_, fun sink fits => ?_, ?_⟩
  · rw [written, Notice.texts_append, Sink.write_append]
    rfl
  · rw [Notice.texts_append, Sink.accepts_append, Bool.and_eq_true] at fits
    rw [Notice.texts_append, Sink.write_append]
    exact endsWith_iff.2 ⟨moments, machine, path, affords, fits.1, (elsewhere _).1 fits.2⟩
  · intro sink room limited overflow
    by_cases fits : (Notice.texts (Moment.notices moments)).utf8ByteSize ≤ room
    · -- All steps that go on fit, so that it is the notice of the halt that does not.
      have refused : ¬ (sink.write (Notice.texts (Moment.notices moments))).accepts
          (Notice.texts shown) = true := by
        intro accepted
        have all : sink.accepts (Notice.texts (Moment.notices moments ++ shown)) = true := by
          rw [Notice.texts_append, Sink.accepts_append, accepted, Bool.and_true]
          exact (accepts_iff_of_room limited _).2 fits
        exact Nat.not_le.2 overflow ((accepts_iff_of_room limited _).1 all)
      obtain ⟨code, next, rfl, within, fetched, stepped⟩ := (elsewhere _).2 refused
      have halt : Moment.notices [⟨machine, code, .halted⟩] = [.halted] := rfl
      rw [← halt, ← Moment.notices_append] at overflow ⊢
      simpa using exists_cutOff ⟨machine, code, .halted⟩ [] limited path affords within fetched
        stepped fits overflow
    · obtain ⟨earlier, moment, later, rfl, before, beyond⟩ :=
        Moment.exists_first_overflow (Nat.lt_of_not_le fits)
      have fewer : earlier.length < (earlier ++ moment :: later).length := by simp
      obtain ⟨middle, onward, rest⟩ := path.exists_of_append
      cases rest with
      | @head _ next _ code event _ fetched stepped going rest =>
          rw [← List.singleton_append, ← List.append_assoc, Moment.notices_append,
            List.append_assoc]
          exact exists_cutOff ⟨middle, code, event⟩ _ limited onward
            (affords.mono (Nat.le_of_lt fewer)) (affords.limitReached?_eq_none fewer middle)
            fetched stepped before beyond

/-- Output that can always be written never fails. -/
theorem EndsWith.ne_sinkFull (ends : EndsWith assembly limit session ending after)
    (accepting : session.sink.room = none) : ending ≠ .sinkFull := by
  intro failed
  subst failed
  obtain ⟨moments, machine, -, -, -, finishes⟩ := endsWith_iff.1 ends
  cases finishes with
  | sinkFull _ _ _ unshown =>
      exact unshown (shows_of_room_eq_none (room_along accepting moments machine) _)

/-! ## The whole run -/

section Conducted

variable {settings : Settings}

/-- A whole run whose output never fails shows the opening, runs, and shows the closing. -/
theorem Conducts.exists_ran (conducts : Conducts settings assembly session ending after)
    (accepting : session.sink.room = none) :
    ∃ ran, EndsWith assembly settings.limits.maxSteps
        (session.put (openingText settings assembly)) ending ran ∧
      ending ≠ .sinkFull ∧ after = ran.put (closingText settings ran.machine) := by
  have opened : (session.put (openingText settings assembly)).sink.room = none := by
    rw [put, Sink.write_of_room_eq_none accepting]
    exact accepting
  cases conducts_iff.1 conducts with
  | unopened refused => simp [Sink.accepts, accepting] at refused
  | unshown _ ends => exact absurd rfl (ends.ne_sinkFull opened)
  | unclosed _ ends unfailed refused =>
      obtain ⟨notices, announces⟩ := ends.exists_notices unfailed
      rw [announces.written, Sink.write_of_room_eq_none opened] at refused
      simp [Sink.accepts, opened] at refused
  | closed _ ends unfailed _ => exact ⟨_, ends, unfailed, rfl⟩

section Redirect

variable {ran : Session} {notices : List Notice}
  (announces : Announces assembly settings.limits.maxSteps
    (session.put (openingText settings assembly)) ending ran notices)
  (unfailed : ending ≠ .sinkFull)

include announces unfailed

/-- Where all of its text is accepted, a whole run ends as it does elsewhere. -/
theorem conducts_of_accepts (accepted : sink.accepts (openingText settings assembly ++
      Notice.texts notices ++ closingText settings ran.machine) = true) :
    Conducts settings assembly (session.redirect sink) ending
      (ran.redirect (sink.write (openingText settings assembly ++ Notice.texts notices ++
        closingText settings ran.machine))) := by
  rw [Sink.accepts_append, Sink.accepts_append, Bool.and_eq_true, Bool.and_eq_true,
    Sink.write_append] at accepted
  obtain ⟨⟨opened, shown⟩, closed⟩ := accepted
  have ends := announces.elsewhere (sink.write (openingText settings assembly)) shown
  have concludes : Concludes settings assembly (session.redirect sink) ending
      ((ran.redirect ((sink.write (openingText settings assembly)).write
        (Notice.texts notices))).put (closingText settings ran.machine)) :=
    .closed opened ends unfailed closed
  rw [Sink.write_append, Sink.write_append]
  exact conducts_iff.2 concludes

/-- Where there is less room than the text of a whole run needs, the output fails where the room
ends: in the opening, on the way, or in the closing. -/
theorem exists_conducts_of_overflow (limited : sink.room = some room)
    (overflow : room < (openingText settings assembly ++ Notice.texts notices ++
      closingText settings ran.machine).utf8ByteSize) :
    ∃ last, Conducts settings assembly (session.redirect sink) .sinkFull last ∧
      last.sink = sink.write (openingText settings assembly ++ Notice.texts notices ++
        closingText settings ran.machine) ∧
      (room < (openingText settings assembly).utf8ByteSize ∧ last.machine = session.machine ∨
        (openingText settings assembly).utf8ByteSize ≤ room ∧
          CutOff assembly session.machine notices
            (room - (openingText settings assembly).utf8ByteSize) last.machine ∨
        (openingText settings assembly ++ Notice.texts notices).utf8ByteSize ≤ room ∧
          last.machine = ran.machine) := by
  have accepted (text : String) : sink.accepts text = true ↔ text.utf8ByteSize ≤ room :=
    accepts_iff_of_room limited text
  by_cases opened : sink.accepts (openingText settings assembly) = true
  · have openedFits := (accepted _).1 opened
    by_cases shown : sink.accepts (openingText settings assembly ++ Notice.texts notices) = true
    · have shownFits := (accepted _).1 shown
      have closed : ¬ (sink.write (openingText settings assembly ++
          Notice.texts notices)).accepts (closingText settings ran.machine) = true := by
        intro closed
        have all : sink.accepts (openingText settings assembly ++ Notice.texts notices ++
            closingText settings ran.machine) = true := by
          rw [Sink.accepts_append, shown, closed, Bool.and_self]
        exact Nat.not_le.2 overflow ((accepted _).1 all)
      rw [Sink.accepts_append, opened, Bool.true_and] at shown
      rw [Sink.write_append] at closed
      have ends := announces.elsewhere (sink.write (openingText settings assembly)) shown
      have concludes : Concludes settings assembly (session.redirect sink) .sinkFull
          ((ran.redirect ((sink.write (openingText settings assembly)).write
            (Notice.texts notices))).put (closingText settings ran.machine)) :=
        .unclosed opened ends unfailed closed
      refine ⟨_, conducts_iff.2 concludes, ?_, .inr (.inr ⟨shownFits, rfl⟩)⟩
      rw [Sink.write_append, Sink.write_append]
      rfl
    · have left : (sink.write (openingText settings assembly)).room =
          some (room - (openingText settings assembly).utf8ByteSize) := by
        simp [Sink.write, limited]
      have beyond : room - (openingText settings assembly).utf8ByteSize <
          (Notice.texts notices).utf8ByteSize := by
        have tooMuch := Nat.lt_of_not_le (mt (accepted _).2 shown)
        rw [String.utf8ByteSize_append] at tooMuch
        omega
      obtain ⟨last, failed, written, cut⟩ := announces.cutOff _ _ left beyond
      have concludes : Concludes settings assembly (session.redirect sink) .sinkFull last :=
        .unshown opened failed
      refine ⟨last, conducts_iff.2 concludes, ?_, .inr (.inl ⟨openedFits, cut⟩)⟩
      rw [Sink.write_append_of_not_accepts shown, written, Sink.write_append]
  · have beyond : room < (openingText settings assembly).utf8ByteSize :=
      Nat.lt_of_not_le (mt (accepted _).2 opened)
    have concludes : Concludes settings assembly (session.redirect sink) .sinkFull
        ((session.redirect sink).put (openingText settings assembly)) := .unopened opened
    refine ⟨_, conducts_iff.2 concludes, ?_, .inl ⟨beyond, rfl⟩⟩
    rw [String.append_assoc, Sink.write_append_of_not_accepts opened]
    rfl

end Redirect

end Conducted

/-! ## Bounded sinks -/

/-- Output that fails is a prefix of the output that would not have failed. Let a run, or a whole
run, end where everything can be written, and take a sink with less room or more. If there is room
for all of the output, nothing changes. Otherwise the output fails, just as much of it is written as
there is room for, and the machine is the one at which that happened: right after the first step
whose notice does not fit any more, with everything before it shown; and of a whole run also the
machine that it starts from, where the opening does not fit, or the one that the run leaves, where
only the closing does not. -/
theorem failing_output_is_prefix (assembly : Assembly) (machine : Machine Word) (log : Log) :
    (∀ limit ending after,
      EndsWith assembly limit (start machine (.empty none) log) ending after →
      ∃ notices, after.sink.written = (Notice.texts notices).toByteArray ∧ ∀ room,
        (after.sink.written.size ≤ room →
          EndsWith assembly limit (start machine (.empty (some room)) log) ending
            { after with
              sink := ⟨after.sink.written, some (room - after.sink.written.size)⟩ }) ∧
        (room < after.sink.written.size → ∃ last,
          EndsWith assembly limit (start machine (.empty (some room)) log) .sinkFull last ∧
          last.sink.written = after.sink.written.extract 0 room ∧
          CutOff assembly machine notices room last.machine)) ∧
    ∀ settings ending after,
      Conducts settings assembly (start machine (.empty none) log) ending after →
      ∃ ran notices,
        EndsWith assembly settings.limits.maxSteps (start machine (.empty none) log) ending ran ∧
        ran.sink.written = (Notice.texts notices).toByteArray ∧
        after.machine = ran.machine ∧
        after.sink.written = (openingText settings assembly ++ Notice.texts notices ++
          closingText settings ran.machine).toByteArray ∧ ∀ room,
        (after.sink.written.size ≤ room →
          Conducts settings assembly (start machine (.empty (some room)) log) ending
            { after with
              sink := ⟨after.sink.written, some (room - after.sink.written.size)⟩ }) ∧
        (room < after.sink.written.size → ∃ last,
          Conducts settings assembly (start machine (.empty (some room)) log) .sinkFull last ∧
          last.sink.written = after.sink.written.extract 0 room ∧
          (room < (openingText settings assembly).utf8ByteSize ∧ last.machine = machine ∨
            (openingText settings assembly).utf8ByteSize ≤ room ∧
              CutOff assembly machine notices
                (room - (openingText settings assembly).utf8ByteSize) last.machine ∨
            (openingText settings assembly ++ Notice.texts notices).utf8ByteSize ≤ room ∧
              last.machine = ran.machine)) := by
  have everything (text : String) : (Sink.empty none).write text = ⟨text.toByteArray, none⟩ := by
    simp [Sink.write, Sink.empty]
  refine ⟨fun limit ending after ends => ?_, fun settings ending after conducts => ?_⟩
  · obtain ⟨notices, announces⟩ := ends.exists_notices (ends.ne_sinkFull rfl)
    have kept : after.sink.written = (Notice.texts notices).toByteArray := by
      rw [announces.written]
      exact congrArg Sink.written (everything _)
    refine ⟨notices, kept, fun room => ⟨fun fits => ?_, fun overflow => ?_⟩⟩
    · rw [kept] at fits ⊢
      rw [← Sink.write_empty_of_size_le fits]
      exact announces.elsewhere _ ((accepts_iff_of_room rfl _).2 fits)
    · rw [kept] at overflow ⊢
      obtain ⟨last, failed, written, cut⟩ :=
        announces.cutOff (.empty (some room)) room rfl overflow
      exact ⟨last, failed, by rw [written, Sink.write_empty_some], cut⟩
  · obtain ⟨ran, ends, unfailed, rfl⟩ := conducts.exists_ran rfl
    obtain ⟨notices, announces⟩ := ends.exists_notices unfailed
    have kept : (ran.put (closingText settings ran.machine)).sink.written =
        (openingText settings assembly ++ Notice.texts notices ++
          closingText settings ran.machine).toByteArray := by
      rw [put, announces.written, put, ← Sink.write_append, ← Sink.write_append,
        ← String.append_assoc]
      exact congrArg Sink.written (everything _)
    have alone := announces.elsewhere (.empty none) rfl
    refine ⟨_, notices, alone, congrArg Sink.written (everything _), rfl, kept, fun room => ?_⟩
    have limited : (Sink.empty (some room)).room = some room := rfl
    rw [kept]
    refine ⟨fun fits => ?_, fun overflow => ?_⟩
    · rw [← Sink.write_empty_of_size_le fits]
      exact conducts_of_accepts announces unfailed ((accepts_iff_of_room limited _).2 fits)
    · obtain ⟨last, failed, written, place⟩ :=
        exists_conducts_of_overflow announces unfailed limited overflow
      exact ⟨last, failed, by rw [written, Sink.write_empty_some], place⟩

/-- A command that is cut off inside its second line, in a run and in a whole run. -/
theorem failing_output_is_prefix_emit :
    ∃ (assembly : Assembly) (after whole : Session),
      EndsWith assembly none (start (.initial {}) (.empty none) #[]) .normal after ∧
      20 < after.sink.written.size ∧
      Conducts {} assembly (start (.initial {}) (.empty none) #[]) .normal whole ∧
      46 < whole.sink.written.size ∧
      (∃ last, EndsWith assembly none (start (.initial {}) (.empty (some 20)) #[]) .sinkFull last ∧
        last.sink.written = after.sink.written.extract 0 20) ∧
      ∃ last, Conducts {} assembly (start (.initial {}) (.empty (some 46)) #[]) .sinkFull last ∧
        last.sink.written = whole.sink.written.extract 0 46 := by
  let assembly : Assembly := ⟨"emit", #[⟨.emit "motor", 1⟩], .empty⟩
  obtain ⟨after, ends, size⟩ : ∃ after,
      EndsWith assembly none (start (.initial {}) (.empty none) #[]) .normal after ∧
        20 < after.sink.written.size := ⟨_, ⟨2, rfl⟩, by decide⟩
  obtain ⟨whole, conducts, wholeSize⟩ : ∃ whole,
      Conducts {} assembly (start (.initial {}) (.empty none) #[]) .normal whole ∧
        46 < whole.sink.written.size := ⟨_, ⟨2, rfl⟩, by decide +kernel⟩
  obtain ⟨runs, wholeRuns⟩ := failing_output_is_prefix assembly (.initial {}) #[]
  obtain ⟨_, -, cut⟩ := runs none .normal after ends
  obtain ⟨_, _, -, -, -, -, wholeCut⟩ := wholeRuns {} .normal whole conducts
  obtain ⟨last, failed, written, -⟩ := (cut 20).2 size
  obtain ⟨wholeLast, wholeFailed, wholeWritten, -⟩ := (wholeCut 46).2 wholeSize
  exact ⟨assembly, after, whole, ends, size, conducts, wholeSize, ⟨last, failed, written⟩,
    wholeLast, wholeFailed, wholeWritten⟩

end Session

end WashController
