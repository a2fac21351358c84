import WashController.CommandLine
import WashController.FileTree
import WashController.Proofs.FailingOutput
import WashController.Proofs.Waits

/-!
# The command

What the command prints, put together from its parts. Of a source that cannot be assembled it prints
nothing (`leaves_iff_of_failed`). Any other source is run, and what the run shows on a panel of its
own stands between an opening and a closing (`conducts_iff_endsWith`, `leaves_iff_of_loaded`). Only
the limits among the settings decide how the run goes; of the others, one adds to the opening, one
adds to the closing, and the rest are about the diagnostics (`Leaves.exists_parts`). The source may
be stored in a file tree: the command runs what is stored at the path that it is given
(`respond_stored`).
-/

namespace WashController

/-! ## Whole runs -/

/-- What is written between two texts is what is written alone. -/
theorem Sink.write_between (first text last : String) :
    (((Sink.empty none).write first).write text).write last =
      ⟨first.toByteArray ++ ((Sink.empty none).write text).written ++ last.toByteArray, none⟩ := by
  simp [write, empty]

namespace Session

variable {settings : Settings} {assembly : Assembly} {machine : Machine Word} {log : Log}
  {ending : Ending} {after : Session}

/-- A whole run is a run on a panel of its own, with its output between the opening and the
closing. -/
theorem conducts_iff_endsWith :
    Conducts settings assembly (start machine (.empty none) log) ending after ↔
      ∃ ran, EndsWith assembly settings.limits.maxSteps (start machine (.empty none) log) ending
          ran ∧
        after = ran.redirect ⟨(openingText settings assembly).toByteArray ++ ran.sink.written ++
          (closingText settings ran.machine).toByteArray, none⟩ := by
  refine ⟨fun conducts => ?_, ?_⟩
  · obtain ⟨ran, ends, unfailed, rfl⟩ := conducts.exists_ran rfl
    obtain ⟨notices, announces⟩ := ends.exists_notices unfailed
    -- The run starts after the opening, but its notices are the same on a panel of its own.
    have alone := announces.elsewhere (.empty none) rfl
    refine ⟨_, alone, ?_⟩
    rw [put, announces.written]
    exact congrArg ran.redirect (Sink.write_between _ _ _)
  · rintro ⟨ran, ends, rfl⟩
    have unfailed := ends.ne_sinkFull rfl
    obtain ⟨notices, announces⟩ := ends.exists_notices unfailed
    have opened := announces.elsewhere ((Sink.empty none).write (openingText settings assembly)) rfl
    have shown : ran.sink = (Sink.empty none).write (Notice.texts notices) := announces.written
    rw [shown, ← Sink.write_between]
    exact conducts_iff.2 (.closed rfl opened unfailed rfl)

end Session

/-! ## Reports -/

namespace CommandLine

variable {settings : Settings} {path source : String} {assembly : Assembly} {log : Log}
  {report : Report}

/-- Whether the command, given turns enough, leaves this report of a source that can be read, on a
panel that takes everything. -/
def Leaves (settings : Settings) (path source : String) (report : Report) : Prop :=
  ∃ turns, run settings path (.ok source) (.empty none) turns = some report

theorem load_congr {others : Settings} (same : others.limits = settings.limits) (path : String)
    (content : Except ReadError String) (log : Log) :
    load others path content log = load settings path content log := by
  rw [load, load, same]

/-- What the command does without a program to run takes no turns. -/
theorem run_of_failed {error : LoadError}
    (failed : load settings path (.ok source) #[] = .error error log) (turns : Nat) :
    run settings path (.ok source) (.empty none) turns =
      some ⟨1, .empty, log.render (minimumLevel settings) settings.color⟩ := by
  rw [run, failed]
  rfl

theorem leaves_iff_of_failed {error : LoadError}
    (failed : load settings path (.ok source) #[] = .error error log) :
    Leaves settings path source report ↔
      report = ⟨1, .empty, log.render (minimumLevel settings) settings.color⟩ := by
  simp only [Leaves, run_of_failed failed, exists_const, Option.some.injEq, eq_comm]

/-- A run whose output does not fail is a success, whatever fault may have ended it. -/
theorem conclude_redirect {ending : Ending} (unfailed : ending ≠ .sinkFull) (ran : Session)
    (sink : Sink) :
    conclude settings ending (ran.redirect sink) =
      ⟨0, sink.written, (conclude settings ending ran).diagnostics⟩ := by
  cases ending with
  | sinkFull => exact absurd rfl unfailed
  | normal | fault => rfl

/-- The report on a run of a program: what its instructions show, between the opening and the
closing. -/
def reportOn (settings : Settings) (assembly : Assembly) (fetches : List Fetch) (ending : Ending)
    (ran : Session) : Report where
  exit := 0
  output := (Session.openingText settings assembly ++
    Notice.texts (fetches.filterMap (Fetch.notice? assembly)) ++
    Session.closingText settings ran.machine).toByteArray
  diagnostics := (conclude settings ending ran).diagnostics

theorem conclude_eq_reportOn {limit : Option Nat} {machine : Machine Word} {fetches : List Fetch}
    {ending : Ending} {ran : Session}
    (trail : Session.Trail assembly limit (.start machine (.empty none) log) fetches ending ran) :
    conclude settings ending (ran.redirect
      ⟨(Session.openingText settings assembly).toByteArray ++ ran.sink.written ++
        (Session.closingText settings ran.machine).toByteArray, none⟩) =
      reportOn settings assembly fetches ending ran := by
  have shown : ran.sink.written =
      (Notice.texts (fetches.filterMap (Fetch.notice? assembly))).toByteArray :=
    (trail.tallies rfl).written.trans ByteArray.empty_append
  rw [conclude_redirect (trail.endsWith.ne_sinkFull rfl), reportOn, String.toByteArray_append,
    String.toByteArray_append, shown]

section Loaded

variable (loaded : load settings path (.ok source) #[] = .ok assembly log)

include loaded

theorem leaves_iff_conducts :
    Leaves settings path source report ↔ ∃ ending after,
      Session.Conducts settings assembly (.start (.initial settings.limits) (.empty none) log)
        ending after ∧
      report = conclude settings ending after := by
  refine ⟨?_, ?_⟩
  · rintro ⟨turns, left⟩
    rw [run, loaded] at left
    dsimp only at left
    split at left
    next => cases left
    next ending after conducted =>
      cases left
      exact ⟨ending, after, ⟨turns, conducted⟩, rfl⟩
  · rintro ⟨ending, after, ⟨turns, conducted⟩, rfl⟩
    refine ⟨turns, ?_⟩
    rw [run, loaded]
    simp only [conducted]

theorem leaves_iff_of_loaded :
    Leaves settings path source report ↔ ∃ fetches ending ran,
      Session.Trail assembly settings.limits.maxSteps
        (.start (.initial settings.limits) (.empty none) log) fetches ending ran ∧
      report = reportOn settings assembly fetches ending ran := by
  rw [leaves_iff_conducts loaded]
  refine ⟨?_, ?_⟩
  · rintro ⟨ending, after, conducts, rfl⟩
    obtain ⟨ran, ends, rfl⟩ := Session.conducts_iff_endsWith.1 conducts
    obtain ⟨fetches, trail⟩ := Session.endsWith_iff_exists_trail.1 ends
    exact ⟨fetches, ending, ran, trail, conclude_eq_reportOn trail⟩
  · rintro ⟨fetches, ending, ran, trail, rfl⟩
    have conducts := Session.conducts_iff_endsWith.2 ⟨ran, trail.endsWith, rfl⟩
    exact ⟨ending, _, conducts, (conclude_eq_reportOn trail).symm⟩

theorem exists_leaves_iff :
    (∃ report, Leaves settings path source report) ↔ ∃ ending ran,
      Session.EndsWith assembly settings.limits.maxSteps
        (.start (.initial settings.limits) (.empty none) log) ending ran := by
  simp only [leaves_iff_of_loaded loaded]
  refine ⟨?_, ?_⟩
  · rintro ⟨-, fetches, ending, ran, trail, -⟩
    exact ⟨ending, ran, trail.endsWith⟩
  · rintro ⟨ending, ran, ends⟩
    obtain ⟨fetches, trail⟩ := Session.endsWith_iff_exists_trail.1 ends
    exact ⟨_, fetches, ending, ran, trail, rfl⟩

end Loaded

/-! ## Reports under other settings -/

/-- Of the output, the settings only choose which of its parts are there. -/
theorem output_reportOn (settings : Settings) (assembly : Assembly) (fetches : List Fetch)
    (ending : Ending) (ran : Session) :
    (reportOn settings assembly fetches ending ran).output =
      (if settings.listing then (assembly.listing ++ "\n").toByteArray else .empty) ++
        (Panel.banner ++ Notice.texts (fetches.filterMap (Fetch.notice? assembly)) ++
          Panel.summary ran.machine).toByteArray ++
        (if settings.dumpState then (Panel.dump ran.machine).toByteArray else .empty) := by
  unfold reportOn Session.openingText Session.closingText
  cases settings.listing <;> cases settings.dumpState <;>
    simp [String.toByteArray_append, ByteArray.append_assoc]

/-- The exit code and the parts of the output are the same under all settings with the same
limits. -/
theorem Leaves.exists_parts (leaves : Leaves settings path source report) :
    ∃ listing between dump : ByteArray, ∀ others : Settings, others.limits = settings.limits →
      (∃ again, Leaves others path source again) ∧
      ∀ again, Leaves others path source again → again.exit = report.exit ∧
        again.output = (if others.listing then listing else .empty) ++ between ++
          (if others.dumpState then dump else .empty) := by
  cases loaded : load settings path (.ok source) #[] with
  | error error log =>
      obtain rfl := (leaves_iff_of_failed loaded).1 leaves
      refine ⟨.empty, .empty, .empty, fun others same => ?_⟩
      have failed := (load_congr same path (.ok source) #[]).trans loaded
      simp [leaves_iff_of_failed failed]
  | ok assembly log =>
      obtain ⟨fetches, ending, ran, trail, rfl⟩ := (leaves_iff_of_loaded loaded).1 leaves
      refine ⟨(assembly.listing ++ "\n").toByteArray, (Panel.banner ++
        Notice.texts (fetches.filterMap (Fetch.notice? assembly)) ++
          Panel.summary ran.machine).toByteArray, (Panel.dump ran.machine).toByteArray,
        fun others same => ?_⟩
      have alike := (load_congr same path (.ok source) #[]).trans loaded
      rw [← same] at trail
      refine ⟨⟨_, (leaves_iff_of_loaded alike).2 ⟨fetches, ending, ran, trail, rfl⟩⟩, ?_⟩
      intro again left
      obtain ⟨others', ending', ran', trail', rfl⟩ := (leaves_iff_of_loaded alike).1 left
      -- With the same limits, there is only one run to report on.
      obtain rfl := trail.unique trail'
      obtain ⟨rfl, rfl⟩ := trail.endsWith.unique trail'.endsWith
      exact ⟨rfl, output_reportOn others assembly _ _ _⟩

/-! ## Stored sources -/

/-- The command runs what is stored at the path that its arguments give. -/
theorem respond_stored {arguments : List String} {found : Arguments}
    (understood : Arguments.ofList arguments = .ok found) (given : found.path = some path)
    (filed : FileTree.IsFilePath path) (tree : FileTree) (sink : Sink) (turns : Nat) :
    respond arguments (FileTree.Place.read ⟨tree.insert source.toUTF8 (FileTree.names path), []⟩)
        sink turns =
      (run (found.settings false none) path (.ok source) sink turns).map .report := by
  simp only [respond, understood, given, FileTree.read_insert filed, decodeSource_toUTF8]

/-! ## The output as a whole -/

/-- What the command prints is composed of its parts. Let the source be any text and the panel take
everything. If the program cannot be loaded, the command fails and prints nothing. If it is loaded,
the command leaves a report just where the run comes to an end, whatever that is, and then it
succeeds. It prints the listing with an empty line, if asked for; the banner, the notices of the
instructions in their order, and the summary of the machine that the run leaves; and the dump of
that machine, if asked for. The summary shows the registers, the ticks and how many cells there are,
and the dump the cells, the stack from the top down and the sensors. Other settings with the same
limits make no difference to the exit code, nor to whether there is a report; and of the output they
leave everything in place, so that only the listing adds something before it and only the dump
something after it. -/
theorem output_is_composed (path source : String) :
    (Panel.banner = "=== Running washer VM ===\n\n" ∧
      (∀ machine, Panel.summary machine = "\n=== Final state ===\nR0 = " ++
        machine.registers.r0.text ++ "\nR1 = " ++ machine.registers.r1.text ++
        "\nTotal ticks: " ++ machine.ticks.text ++
        "\nMemory allocated: " ++ machine.memory.size.repr ++ " variables\n") ∧
      ∀ machine, Panel.dump machine =
        "Memory:\n" ++ String.join (machine.memory.toList.map fun (name, value) =>
          "  " ++ name ++ " = " ++ value.text ++ "\n") ++
        "Stack:\n" ++ String.join (machine.stack.values.zipIdx.map fun (value, distance) =>
          "  [" ++ Text.index distance ++ "] " ++ value.text ++ "\n") ++
        "Sensors:\n" ++ String.join (machine.sensors.readings.map fun (name, value) =>
          "  " ++ name ++ " = " ++ value.text ++ "\n")) ∧
    (∀ settings error log, load settings path (.ok source) #[] = .error error log → ∀ turns,
      ∃ report, run settings path (.ok source) (.empty none) turns = some report ∧
        report.exit = 1 ∧ report.output = .empty) ∧
    (∀ settings assembly log, load settings path (.ok source) #[] = .ok assembly log →
      ((∃ report, Leaves settings path source report) ↔ ∃ ending ran,
        Session.EndsWith assembly settings.limits.maxSteps
          (.start (.initial settings.limits) (.empty none) log) ending ran) ∧
      ∀ report, Leaves settings path source report → ∃ fetches ending ran,
        Session.Trail assembly settings.limits.maxSteps
          (.start (.initial settings.limits) (.empty none) log) fetches ending ran ∧
        report.exit = 0 ∧
        report.output = ((if settings.listing then assembly.listing ++ "\n" else "") ++
          Panel.banner ++ Notice.texts (fetches.filterMap (Fetch.notice? assembly)) ++
          (Panel.summary ran.machine ++
            if settings.dumpState then Panel.dump ran.machine else "")).toByteArray) ∧
    ∀ settings report, Leaves settings path source report →
      ∃ listing between dump : ByteArray, ∀ others : Settings, others.limits = settings.limits →
        (∃ again, Leaves others path source again) ∧
        ∀ again, Leaves others path source again → again.exit = report.exit ∧
          again.output = (if others.listing then listing else .empty) ++ between ++
            (if others.dumpState then dump else .empty) := by
  refine ⟨⟨rfl, fun _ => rfl, fun _ => rfl⟩, ?_, ?_, fun _ _ => Leaves.exists_parts⟩
  · intro settings error log failed turns
    exact ⟨_, run_of_failed failed turns, rfl, rfl⟩
  · intro settings assembly log loaded
    refine ⟨exists_leaves_iff loaded, fun report leaves => ?_⟩
    obtain ⟨fetches, ending, ran, trail, rfl⟩ := (leaves_iff_of_loaded loaded).1 leaves
    exact ⟨fetches, ending, ran, trail, rfl, rfl⟩

/-- A program that waits and then divides by zero, with all that is printed of it. It is no failure,
but not to be let in is one. Nothing else is printed if diagnostics are asked for instead of the
listing and the dump. -/
theorem output_is_composed_division :
    ∃ report plain refused : Report,
      Leaves { listing := true, dumpState := true } "zero" "PUSHI 3\nALLOC a\nWAIT\nDIV R0 R1"
        report ∧
      report.exit = 0 ∧
      report.output = ("Assembly 'zero' - 4 instructions:\n" ++
        "  [0000] PUSHI 3                  ; line 1\n" ++
        "  [0001] ALLOC a                  ; line 2\n" ++
        "  [0002] WAIT                     ; line 3\n" ++
        "  [0003] DIV R0 R1                ; line 4\n" ++ "\n" ++
        "=== Running washer VM ===\n\n" ++ "[WAIT] waiting 0 ticks (total: 0)\n" ++
        "\n=== Final state ===\nR0 = 0\nR1 = 0\nTotal ticks: 0\n" ++
        "Memory allocated: 1 variables\n" ++
        "Memory:\n  a = 0\nStack:\n  [0000] 3\nSensors:\n  water_level = 50\n" ++
        "  temperature = 20\n  door_closed = 1\n  weight = 5\n").toByteArray ∧
      Leaves { trace := true, verbose := true, color := true } "zero"
        "PUSHI 3\nALLOC a\nWAIT\nDIV R0 R1" plain ∧
      plain.exit = 0 ∧
      plain.output = ("=== Running washer VM ===\n\n" ++ "[WAIT] waiting 0 ticks (total: 0)\n" ++
        "\n=== Final state ===\nR0 = 0\nR1 = 0\nTotal ticks: 0\n" ++
        "Memory allocated: 1 variables\n").toByteArray ∧
      run { limits := { maxInstructions := 0 } } "zero" (.ok "PUSHI 3\nALLOC a\nWAIT\nDIV R0 R1")
        (.empty none) 0 = some refused ∧
      refused.exit = 1 ∧ refused.output = .empty := by
  let assembly : Assembly := ⟨"zero", #[⟨.pushLiteral 3, 1⟩, ⟨.alloc "a", 2⟩, ⟨.wait, 3⟩,
    ⟨.binary .div (some .r0) (some .r1), 4⟩], .empty⟩
  let start := Session.start (.initial {}) (.empty none) #[.loaded "zero" 4 0]
  obtain ⟨fetches, ran, trail, noticed, registers, ticks, cells, memory, stack, sensors⟩ :
      ∃ fetches ran, Session.Trail assembly none start fetches (.fault .divisionByZero) ran ∧
        fetches.filterMap (Fetch.notice? assembly) = [.waited 0 0] ∧
        ran.machine.registers = ⟨0, 0⟩ ∧ ran.machine.ticks = 0 ∧
        ran.machine.memory.size = 1 ∧ ran.machine.memory.toList = [("a", 0)] ∧
        ran.machine.stack.values = [3] ∧ ran.machine.sensors = .washer :=
    ⟨_, _, .next rfl (.next rfl (.next rfl (.last rfl))), rfl, rfl, rfl, rfl, rfl, rfl, rfl⟩
  have only {others : List Fetch} {ending : Ending} {other : Session}
      (again : Session.Trail assembly none start others ending other) :
      others = fetches ∧ other = ran :=
    ⟨trail.unique again, (trail.endsWith.unique again.endsWith).2⟩
  obtain ⟨⟨banner, summary, dump⟩, failing, loading, varying⟩ :=
    output_is_composed "zero" "PUSHI 3\nALLOC a\nWAIT\nDIV R0 R1"
  have listed : assembly.listing = "Assembly 'zero' - 4 instructions:\n" ++
      "  [0000] PUSHI 3                  ; line 1\n" ++
      "  [0001] ALLOC a                  ; line 2\n" ++
      "  [0002] WAIT                     ; line 3\n" ++
      "  [0003] DIV R0 R1                ; line 4\n" := by
    simp only [Assembly.listing, Assembly.rows, assembly, LabelTable.sorted_empty]
    rfl
  have notices : Notice.texts [.waited 0 0] = "[WAIT] waiting 0 ticks (total: 0)\n" := by decide
  have summarized : Panel.summary ran.machine =
      "\n=== Final state ===\nR0 = 0\nR1 = 0\nTotal ticks: 0\n" ++
        "Memory allocated: 1 variables\n" := by
    rw [summary, registers, ticks, cells]
    rfl
  have dumped : Panel.dump ran.machine =
      "Memory:\n  a = 0\nStack:\n  [0000] 3\nSensors:\n  water_level = 50\n" ++
        "  temperature = 20\n  door_closed = 1\n  weight = 5\n" := by
    rw [dump, memory, stack, sensors]
    rfl
  obtain ⟨refused, left, exit, nothing⟩ :=
    failing { limits := { maxInstructions := 0 } } _ _ rfl 0
  obtain ⟨returns, composed⟩ :=
    loading { listing := true, dumpState := true } assembly #[.loaded "zero" 4 0] rfl
  obtain ⟨report, leaves⟩ := returns.2 ⟨_, ran, trail.endsWith⟩
  obtain ⟨others, ending, other, again, success, output⟩ := composed report leaves
  rw [(only again).1, (only again).2, listed, banner, noticed, notices, summarized, dumped]
    at output
  obtain ⟨listing, between, after, parts⟩ := varying _ report leaves
  obtain ⟨⟨plain, leavesPlain⟩, same⟩ := parts { trace := true, verbose := true, color := true } rfl
  obtain ⟨-, composedPlain⟩ := loading { trace := true, verbose := true, color := true } assembly
    #[.loaded "zero" 4 0] rfl
  obtain ⟨others, ending, other, again, -, outputPlain⟩ := composedPlain plain leavesPlain
  rw [(only again).1, (only again).2, banner, noticed, notices, summarized] at outputPlain
  refine ⟨report, plain, refused, leaves, success, ?_, leavesPlain,
    (same plain leavesPlain).1.trans success, ?_, left, exit, nothing⟩
  · simpa only [if_true, String.append_assoc] using output
  · simpa only [Bool.false_eq_true, if_false, String.empty_append, String.append_empty,
      String.append_assoc] using outputPlain

end CommandLine

end WashController
