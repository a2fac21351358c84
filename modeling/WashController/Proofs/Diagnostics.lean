import WashController.CommandLine
import WashController.Proofs.Addresses
import WashController.Proofs.Locality

/-!
# The diagnostics of a run

What a run logs is told by its trail: an event for each instruction fetched and, where the run ends
in a fault, one more for the fault (`Closes`, `Trail.exists_closes`). Both name lines of the source,
and these are the right ones (`CodeLine.StandsIn`). Nothing in a run depends on the log
(`Trail.exists_events`), and what the command is to show of it has no part in what it does
(`CommandLine.exists_outcome`).
-/

namespace WashController

/-! ## Lines -/

/-- Whether an instruction is the one that a source has at an address: the line with its number
holds code and spells it, and the lines before that hold code for the addresses before. -/
def CodeLine.StandsIn (source : String) (address : Nat) (code : CodeLine) : Prop :=
  ∃ earlier line later, Text.lines source.toList = earlier ++ line :: later ∧
    SourceLine.HoldsCode line ∧ earlier.countP (SourceLine.HoldsCode ·) = address ∧
    code = ⟨SourceLine.spelled line, earlier.length + 1⟩

theorem SourceLine.exists_of_getElem?_filterMap {lines : List (List Char)} {first address : Nat}
    {code : CodeLine}
    (found : ((lines.zipIdx first).filterMap fun (line, number) =>
      if HoldsCode line then some (⟨spelled line, number⟩ : CodeLine) else none)[address]? =
        some code) :
    ∃ earlier line later, lines = earlier ++ line :: later ∧ HoldsCode line ∧
      earlier.countP (HoldsCode ·) = address ∧ code = ⟨spelled line, earlier.length + first⟩ := by
  induction lines generalizing first address with
  | nil => simp at found
  | cons line lines ih =>
      rw [List.zipIdx_cons, List.filterMap_cons] at found
      by_cases holds : HoldsCode line
      · simp only [holds, if_true] at found
        cases address with
        | zero =>
            cases found
            exact ⟨[], line, lines, rfl, holds, rfl, by simp⟩
        | succ address =>
            obtain ⟨earlier, code, later, rfl, spells, count, rfl⟩ := ih found
            refine ⟨line :: earlier, code, later, rfl, spells, ?_, ?_⟩
            · simp [holds, count]
            · simp [Nat.add_assoc, Nat.add_comm 1]
      · simp only [holds, if_false] at found
        obtain ⟨earlier, code, later, rfl, spells, count, rfl⟩ := ih found
        refine ⟨line :: earlier, code, later, rfl, spells, ?_, ?_⟩
        · simp [holds, count]
        · simp [Nat.add_assoc, Nat.add_comm 1]

theorem Assembly.standsIn_of_ofSource {limits : Limits} {name source : String} {log after : Log}
    {assembly : Assembly} (loaded : ofSource limits name source log = .ok assembly after)
    {address : Nat} {code : CodeLine} (fetched : assembly.fetch? address = some code) :
    code.StandsIn source address := by
  rw [fetch?, ← Array.getElem?_toList, program_of_ofSource loaded] at fetched
  exact SourceLine.exists_of_getElem?_filterMap fetched

/-! ## Text -/

namespace Log

theorem push_push (log : Log) (first second : Diagnostic) :
    (Array.push log first).push second = log ++ #[first, second] := by
  rw [← Array.append_singleton, ← Array.append_singleton, Array.append_assoc]
  rfl

variable (minimum : Level) (color : Bool)

/-- The text of a log is that of its events of at least the minimum level, in their order. -/
theorem render_eq (log : Log) : log.render minimum color =
    String.join ((log.toList.filter (·.level.shownUnder minimum)).map (·.entry.text color)) := by
  rw [render, Entry.render, List.filter_map, List.map_map]
  rfl

theorem render_append (log more : Log) :
    (log ++ more).render minimum color = log.render minimum color ++ more.render minimum color := by
  simp only [render_eq, Array.toList_append, List.filter_append, List.map_append,
    String.join_append]

end Log

/-! ## What is logged -/

/-- What is logged of an instruction that is fetched. -/
def Fetch.diagnostic (fetch : Fetch) : Diagnostic :=
  .fetched fetch.address fetch.code

namespace Session

variable {assembly : Assembly} {limit : Option Nat} {session after : Session} {ending : Ending}

/-- How the last turn of a run shows: what it fetches, and what is reported besides. Only a fault is
reported, with the line of the instruction that is under the program counter in the end; the step
limit is one that is reported although nothing is fetched. -/
inductive Closes (assembly : Assembly) (after : Session) :
    Ending → List Fetch → List Diagnostic → Prop
  | stepLimit {most : Nat} {code : CodeLine} :
    assembly.fetch? after.machine.counter = some code →
    Closes assembly after (.fault (.stepLimit most)) []
      [.faulted (some code.line) (.stepLimit most)]
  | fault {fault : Fault} {fetch : Fetch} :
    (∀ most, fault ≠ .stepLimit most) →
    after.machine = { fetch.machine with halted := true } →
    assembly.fetch? after.machine.counter = some fetch.code →
    Closes assembly after (.fault fault) [fetch] [.faulted (some fetch.code.line) fault]
  | sinkFull {fetch : Fetch} : Closes assembly after .sinkFull [fetch] []
  | halted {fetch : Fetch} :
    fetch.code.instruction = .halt → Closes assembly after .normal [fetch] []
  | ended :
    assembly.fetch? after.machine.counter = none → Closes assembly after .normal [] []

/-- A turn that goes on logs what it fetches. -/
theorem log_of_turn_eq_ok (turned : turn assembly limit session = .ok () after) :
    ∃ fetch, session.fetch? assembly limit = some fetch ∧
      after.executed = session.executed + 1 ∧ after.log = session.log ++ #[fetch.diagnostic] := by
  obtain ⟨within, code, event, next, fetched, -, -, -, rfl⟩ := turn_eq_ok_iff.1 turned
  exact ⟨_, fetch?_of_fetched within fetched, rfl, rfl⟩

theorem closes_of_turn_eq_error (turned : turn assembly limit session = .error ending after) :
    ∃ reports, Closes assembly after ending (session.fetch? assembly limit).toList reports ∧
      after.executed = session.executed ∧
      after.log = session.log ++
        ((session.fetch? assembly limit).toList.map Fetch.diagnostic ++ reports).toArray := by
  cases turn_eq_error_iff.1 turned with
  | stepLimit reached =>
      obtain ⟨code, found⟩ :=
        Assembly.exists_fetch? (limitReached?_eq_some_iff.1 reached).2.2
      rw [fetch?_of_limitReached reached]
      refine ⟨_, .stepLimit found, rfl, ?_⟩
      simp [failed, found]
  | @fault code fault within fetched faulted =>
      obtain ⟨_, _, refused, -⟩ := step_eq_error_iff.1 faulted
      rw [fetch?_of_fetched within fetched]
      refine ⟨_, .fault refused.ne_stepLimit rfl fetched, rfl, ?_⟩
      simp only [failed, note, fetched, Log.push_push]
      rfl
  | sinkFull within fetched _ _ =>
      rw [fetch?_of_fetched within fetched]
      exact ⟨_, .sinkFull, rfl, rfl⟩
  | @halted code _ within fetched stepped _ =>
      rw [fetch?_of_fetched within fetched]
      refine ⟨[], .halted ?_, rfl, rfl⟩
      rcases step_eq_ok_iff.1 stepped with ⟨past, -, -⟩ | ⟨_, _, found, rule, -⟩
      · cases fetched.symm.trans past
      · cases fetched.symm.trans found
        exact rule.eq_halt
  | ended within past =>
      rw [fetch?_of_ended past]
      exact ⟨_, .ended past, rfl, by simp⟩

/-- The fault is reported as an error, with its line. -/
theorem Closes.entry_eq {final : List Fetch} {reports : List Diagnostic}
    (closes : Closes assembly after ending final reports) :
    ∀ report ∈ reports, ∃ code fault, ending = .fault fault ∧
      assembly.fetch? after.machine.counter = some code ∧
      report.entry = ⟨.error, "line " ++ code.line.repr ++ ": " ++ fault.message⟩ := by
  cases closes with
  | stepLimit found =>
      rintro report (_ | ⟨_, ⟨⟩⟩)
      exact ⟨_, _, rfl, found, rfl⟩
  | fault _ _ found =>
      rintro report (_ | ⟨_, ⟨⟩⟩)
      exact ⟨_, _, rfl, found, rfl⟩
  | sinkFull | halted | ended => rintro report ⟨⟩

/-- What a run logs. Every instruction that is executed and followed by another turn is fetched
before the last turn. -/
theorem Trail.exists_closes {fetches : List Fetch}
    (trail : Trail assembly limit session fetches ending after) :
    ∃ earlier final reports, fetches = earlier ++ final ∧
      after.executed = session.executed + earlier.length ∧
      Closes assembly after ending final reports ∧
      after.log = session.log ++ (fetches.map Fetch.diagnostic ++ reports).toArray := by
  induction trail with
  | last turned =>
      obtain ⟨reports, closes, executed, logged⟩ := closes_of_turn_eq_error turned
      exact ⟨[], _, reports, rfl, executed, closes, logged⟩
  | next turned _ ih =>
      obtain ⟨fetch, now, counted, noted⟩ := log_of_turn_eq_ok turned
      obtain ⟨earlier, final, reports, rfl, executed, closes, logged⟩ := ih
      refine ⟨fetch :: earlier, final, reports, by rw [now]; rfl, ?_, closes, ?_⟩
      · rw [executed, counted, List.length_cons]
        omega
      · rw [logged, noted, now, Array.append_assoc]
        simp

/-! ## Noninterference -/

/-- What has been logged before makes no difference, neither to a run nor to what it logs. -/
theorem Trail.exists_events {fetches : List Fetch}
    (trail : Trail assembly limit session fetches ending after) :
    ∃ events, after.log = session.log ++ events ∧
      ∀ other, EndsWith assembly limit (session.relog other) ending
        (after.relog (other ++ events)) := by
  have shared : ∀ fetch ∈ fetches, fetch.Shared assembly assembly := by
    intro fetch member
    exact ⟨by rw [trail.fetched fetch member]; rfl, fun _ _ => rfl⟩
  have again (other : Log) := trail.exists_relog rfl (fun _ : True => fun _ => rfl) other shared
  obtain ⟨_, -, alike⟩ := again #[]
  obtain ⟨events, _, grown, -⟩ := alike trivial
  refine ⟨events.toArray, grown, fun other => ?_⟩
  obtain ⟨noted, ends, alike⟩ := again other
  obtain ⟨same, _, grown', rfl, equal⟩ := alike trivial
  rw [List.forall₂_eq_eq_eq] at equal
  obtain rfl : same = events :=
    Array.toList_inj.2 ((Array.append_right_inj session.log).1 (grown'.symm.trans grown))
  rwa [← equal] at ends

end Session

/-- What is reported, and how, makes no difference to what the command does: how it exits, what it
prints and what it logs are the same. Of the log the settings decide what is shown. -/
theorem CommandLine.exists_outcome (settings : Settings) (path : String)
    (content : Except ReadError String) (sink : Sink) (turns : Nat) :
    ∃ outcome : Option (Nat × ByteArray × Log), ∀ trace verbose color : Bool,
      run { settings with trace := trace, verbose := verbose, color := color } path content sink
          turns =
        outcome.map fun (exit, output, log) =>
          ⟨exit, output, log.render
            (if trace then .trace else if verbose then .info else .warn) color⟩ := by
  have sameLoad (trace verbose color : Bool) :
      load { settings with trace := trace, verbose := verbose, color := color } path content =
        load settings path content := rfl
  have sameConduct (trace verbose color : Bool) :
      Session.conduct { settings with trace := trace, verbose := verbose, color := color } =
        Session.conduct settings := rfl
  cases loaded : load settings path content #[] with
  | error error log =>
      refine ⟨some (1, sink.written, log), fun trace verbose color => ?_⟩
      rw [run, sameLoad, loaded]
      rfl
  | ok assembly log =>
      cases conducted : Session.conduct settings assembly turns
          (.start (.initial settings.limits) sink log) with
      | ok _ between =>
          refine ⟨none, fun trace verbose color => ?_⟩
          rw [run, sameLoad, loaded]
          simp only [sameConduct, conducted]
          rfl
      | error ending session =>
          refine ⟨some ((verdict deviceFull ending).1, session.sink.written,
            session.log ++ (verdict deviceFull ending).2.toArray), fun trace verbose color => ?_⟩
          rw [run, sameLoad, loaded]
          simp only [sameConduct, conducted]
          cases ending <;> simp [conclude, verdict, minimumLevel]

namespace Session

variable {assembly : Assembly} {limit : Option Nat} {after : Session} {ending : Ending}

/-- The diagnostics of a run are exact, and do not interfere with it. They are the instructions
fetched, in their order, each with its address, its text and the number of the source line that
spells it. The one that faults is among them, but not the one that the step limit leaves under the
program counter. After them, and only if the run ends in a fault, comes the fault, with the line of
the instruction that is under the program counter then; there always is one. Under any minimum
level, in colour or not, the text of the log is that of the events of at least that level, in the
same order. Whatever has been logged before, the run ends in the same way, after as many turns, with
the same output and on the same machine, and logs the same; and to ask the command for more
diagnostics or for less, or for other colours, only changes what is shown of one and the same
log. -/
theorem diagnostics_are_exact {limits : Limits} {name source : String} {loading noted : Log}
    {machine : Machine Word} {sink : Sink} {log : Log}
    (loaded : Assembly.ofSource limits name source loading = .ok assembly noted)
    (ends : EndsWith assembly limit (start machine sink log) ending after) :
    ∃ fetches reports,
      Trail assembly limit (start machine sink log) fetches ending after ∧
      after.log = log ++ (fetches.map Fetch.diagnostic ++ reports).toArray ∧
      (∃ earlier final, fetches = earlier ++ final ∧ earlier.length = after.executed ∧
        Closes assembly after ending final reports) ∧
      (∀ fetch ∈ fetches, fetch.code.StandsIn source fetch.address) ∧
      (∀ code, assembly.fetch? after.machine.counter = some code →
        code.StandsIn source after.machine.counter) ∧
      (∀ fetch ∈ fetches, fetch.diagnostic.entry = ⟨.trace, "[PC=" ++ Text.index fetch.address ++
        "] line " ++ Text.padLeft 3 ' ' fetch.code.line.repr ++ ": " ++
          fetch.code.instruction.text⟩) ∧
      (∀ report ∈ reports, ∃ code fault, ending = .fault fault ∧
        assembly.fetch? after.machine.counter = some code ∧
        report.entry = ⟨.error, "line " ++ code.line.repr ++ ": " ++ fault.message⟩) ∧
      (∀ minimum color, after.log.render minimum color = log.render minimum color ++
        String.join (((fetches.map Fetch.diagnostic ++ reports).filter
          (·.level.shownUnder minimum)).map fun event =>
            (if color then event.level.paint ++ (event.level.name ++ ":") ++ "\x1b[0m"
              else event.level.name ++ ":") ++ " " ++ event.message ++ "\n")) ∧
      (∀ other, EndsWith assembly limit (start machine sink other) ending
        { after with log := other ++ (fetches.map Fetch.diagnostic ++ reports).toArray }) ∧
      ∀ (settings : Settings) path room turns, ∃ outcome : Option (Nat × ByteArray × Log),
        ∀ trace verbose color : Bool,
          CommandLine.run { settings with trace := trace, verbose := verbose, color := color } path
              (.ok source) room turns =
            outcome.map fun (exit, output, log) =>
              ⟨exit, output, log.render
                (if trace then .trace else if verbose then .info else .warn) color⟩ := by
  obtain ⟨fetches, trail⟩ := endsWith_iff_exists_trail.1 ends
  obtain ⟨earlier, final, reports, parts, executed, closes, logged⟩ := trail.exists_closes
  obtain ⟨events, grown, again⟩ := trail.exists_events
  obtain rfl : events = (fetches.map Fetch.diagnostic ++ reports).toArray :=
    (Array.append_right_inj log).1 (grown.symm.trans logged)
  refine ⟨fetches, reports, trail, logged, ⟨earlier, final, parts, ?_, closes⟩,
    fun fetch member => Assembly.standsIn_of_ofSource loaded (trail.fetched fetch member),
    fun code found => Assembly.standsIn_of_ofSource loaded found, fun fetch _ => rfl, ?_, ?_,
    again, fun settings path => CommandLine.exists_outcome settings path (.ok source)⟩
  · rw [executed, start, Nat.zero_add]
  · exact closes.entry_eq
  · intro minimum color
    rw [logged, Log.render_append]
    refine congrArg (log.render minimum color ++ ·) ?_
    rw [Log.render_eq, List.toList_toArray]
    rfl

/-- A program that takes one value too many from the stack, with all that is logged of it, and with
the one error among it in colour. -/
theorem diagnostics_are_exact_underflow :
    ∃ assembly after,
      Assembly.ofSource {} "pop" "PUSHI 1\n# once\nPOP R0\nPOP R0\n" #[] = .ok assembly #[] ∧
      EndsWith assembly none (start (.initial {}) (.empty none) #[]) (.fault .stackUnderflow)
        after ∧
      after.log.render .trace false = "trace: [PC=0000] line   1: PUSHI 1\n" ++
        "trace: [PC=0001] line   3: POP R0\ntrace: [PC=0002] line   4: POP R0\n" ++
        "error: line 4: stack is empty\n" ∧
      after.log.render .error true =
        "\x1b[0m\x1b[1m\x1b[31merror:\x1b[0m line 4: stack is empty\n" := by
  obtain ⟨assembly, after, loaded, ended, log⟩ : ∃ assembly after,
      Assembly.ofSource {} "pop" "PUSHI 1\n# once\nPOP R0\nPOP R0\n" #[] = .ok assembly #[] ∧
      advance assembly none 3 (start (.initial {}) (.empty none) #[]) =
        .error (.fault .stackUnderflow) after ∧
      after.log = #[.fetched 0 ⟨.pushLiteral 1, 1⟩, .fetched 1 ⟨.pop (some .r0), 3⟩,
        .fetched 2 ⟨.pop (some .r0), 4⟩, .faulted (some 4) .stackUnderflow] :=
    ⟨_, _, rfl, rfl, rfl⟩
  obtain ⟨fetches, reports, -, logged, -, -, -, -, -, shown, -⟩ :=
    diagnostics_are_exact loaded ⟨3, ended⟩
  have events := congrArg Array.toList (log.symm.trans logged)
  simp only [Array.empty_append, List.toList_toArray] at events
  rw [← events] at shown
  exact ⟨assembly, after, loaded, ⟨3, ended⟩, shown .trace false, shown .error true⟩

end Session

end WashController
