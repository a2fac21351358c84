import WashController.Proofs.Relocation

/-!
# The parts of a program

A source made of two parts, one after the other, and the programs of the parts. Both are embedded in
the program of the whole, the first one where it is (`embeds_front`) and the second one behind it
(`embeds_back`). So the second part runs inside the whole as it runs alone (`back_runs_as_alone`),
and so does the first part unless it runs off its end (`front_runs_as_alone`). Both need the jumps
of the part to be its own: in the whole the last declaration of a label counts, so that a label of
the other part may catch a jump.
-/

namespace WashController

namespace Assembly

variable {limits : Limits} {name : String} {log after : Log} {front back : String}
  {whole first second : Assembly}

/-- An assembly that a source gives, whatever its name and the limits on it. -/
def AssembledFrom (assembly : Assembly) (source : String) : Prop :=
  ∃ limits name log after, ofSource limits name source log = .ok assembly after

theorem AssembledFrom.size_eq (assembled : first.AssembledFrom front) :
    first.size = SourceLine.codeCount (SourceLine.ofSource front) := by
  obtain ⟨limits, name, log, after, loaded⟩ := assembled
  exact size_of_ofLines loaded (SourceLine.readable_ofSource front)

section Parts

variable (loaded : ofSource limits name (front ++ back) log = .ok whole after)
  (closed : SourceLine.Sealed front)

include loaded closed

/-- Both parts of a source that is assembled can be assembled alone. -/
theorem exists_parts (other : String) (start : Log) :
    (∃ first final, ofSource limits other front start = .ok first final) ∧
      ∃ second final, ofSource limits other back start = .ok second final := by
  rw [ofSource, SourceLine.ofSource_append closed] at loaded
  exact ⟨exists_ofLines_of_sublist loaded (List.sublist_append_left _ _) other start,
    exists_ofLines_of_sublist loaded (List.sublist_append_right _ _) other start⟩

theorem size_parts (assembledFront : first.AssembledFrom front)
    (assembledBack : second.AssembledFrom back) : whole.size = second.size + first.size := by
  obtain ⟨_, _, _, _, loadedFront⟩ := assembledFront
  obtain ⟨_, _, _, _, loadedBack⟩ := assembledBack
  rw [ofSource, SourceLine.ofSource_append closed] at loaded
  rw [size_append loaded loadedFront loadedBack, Nat.add_comm]

/-- The second part stands behind the first, where labels that only the first part declares are
unknown to its jumps. -/
theorem embeds_back (assembledFront : first.AssembledFrom front)
    (assembledBack : second.AssembledFrom back)
    (own : ∀ label ∈ second.destinations,
      .label label ∈ SourceLine.ofSource back ∨ .label label ∉ SourceLine.ofSource front) :
    second.Embeds whole first.size (SourceLine.ofSource front).length := by
  have size := assembledFront.size_eq
  obtain ⟨_, _, _, _, loadedFront⟩ := assembledFront
  obtain ⟨_, _, _, _, loadedBack⟩ := assembledBack
  rw [ofSource, SourceLine.ofSource_append closed] at loaded
  refine ⟨fun {address code} fetched => ?_, fun label jumps => ?_⟩
  · rw [fetch?_append_right loaded loadedFront loadedBack, fetched]
    rfl
  · by_cases declared : .label label ∈ SourceLine.ofSource back
    · rw [get?_append_of_mem loaded loadedBack declared, size]
    · have undeclared : .label label ∉ SourceLine.ofSource front :=
        (own label jumps).resolve_left declared
      -- A label that no line declares is undefined in the part and in the whole.
      rw [get?_append_of_not_mem loaded loadedFront declared,
        get?_of_ofLines_of_undeclared loadedFront
          fun line member same => undeclared (same ▸ member),
        get?_of_ofLines_of_undeclared loadedBack
          fun line member same => declared (same ▸ member)]
      rfl

/-- The first part stands where it is, if its jumps do not know the labels of the second. -/
theorem embeds_front (assembledFront : first.AssembledFrom front)
    (own : ∀ label ∈ first.destinations, .label label ∉ SourceLine.ofSource back) :
    first.Embeds whole 0 0 := by
  obtain ⟨-, second, _, loadedBack⟩ := exists_parts loaded closed name log
  obtain ⟨_, _, _, _, loadedFront⟩ := assembledFront
  rw [ofSource, SourceLine.ofSource_append closed] at loaded
  refine ⟨fun {address code} fetched => ?_, fun label jumps => ?_⟩
  · have inFront : address < first.size := lt_size_of_fetch? fetched
    rw [Nat.add_zero, fetch?_append_left loaded loadedFront loadedBack inFront, fetched]
    rfl
  · rw [get?_append_of_not_mem loaded loadedFront (own label jumps)]
    simp

end Parts

end Assembly

namespace Session

variable {limits : Limits} {name : String} {log after : Log} {front back : String}
  {whole : Assembly}

/-- The second part of a program runs as it runs alone. Each part of a source that is assembled can
be assembled alone. If no jump of the second part goes to a label that only the first part
declares, then a run of the whole program from the second part on, and a run of the second part
alone from the same place in it, both end or neither does; and they end in the same way, with the
same output, and with the same machine but for the program counter, which in the whole program is
larger by the number of instructions of the first part. -/
theorem back_runs_as_alone
    (loaded : Assembly.ofSource limits name (front ++ back) log = .ok whole after)
    (closed : SourceLine.Sealed front) :
    (∀ other start,
      (∃ first final, Assembly.ofSource limits other front start = .ok first final) ∧
        ∃ second final, Assembly.ofSource limits other back start = .ok second final) ∧
    ∀ first second : Assembly, first.AssembledFrom front → second.AssembledFrom back →
      (∀ label ∈ second.destinations,
        .label label ∈ SourceLine.ofSource back ∨ .label label ∉ SourceLine.ofSource front) →
      ∀ (limit : Option Nat) (machine : Machine Word) (sink : Sink) (log : Log) (ending : Ending),
        (∀ after, EndsWith second limit (start machine sink log) ending after →
          ∃ noted, EndsWith whole limit (start (machine.relocate first.size) sink log) ending
            (after.relocate first.size noted)) ∧
        ∀ last, EndsWith whole limit (start (machine.relocate first.size) sink log) ending last →
          ∃ after noted, EndsWith second limit (start machine sink log) ending after ∧
            last = after.relocate first.size noted := by
  refine ⟨Assembly.exists_parts loaded closed, ?_⟩
  intro first second assembledFront assembledBack own limit machine sink log ending
  have size := Assembly.size_parts loaded closed assembledFront assembledBack
  have embeds := Assembly.embeds_back loaded closed assembledFront assembledBack own
  refine ⟨fun after ends => ?_, fun last ends => ?_⟩
  · have atEnd : RanOff second ending after → whole.size ≤ after.machine.counter + first.size := by
      intro ranOff
      have past := ranOff.2
      omega
    obtain ⟨_, -, there⟩ := ends.relocate embeds atEnd log
    exact ⟨_, there⟩
  · exact EndsWith.of_relocate embeds size ends

/-- A loop on a label that both parts declare, which a step limit ends. -/
theorem back_runs_as_alone_loop :
    ∃ (whole first second : Assembly) (after : Session) (noted : Log),
      EndsWith second (some 3) (start (.initial {}) (.empty none) #[]) (.fault (.stepLimit 3))
        after ∧
      EndsWith whole (some 3) (start ((Machine.initial {}).relocate first.size) (.empty none) #[])
        (.fault (.stepLimit 3)) (after.relocate first.size noted) := by
  have joined : "again:\nHALT\n" ++ "again:\nWAIT\nJMP again\n" =
      "again:\nHALT\nagain:\nWAIT\nJMP again\n" := by decide
  obtain ⟨whole, _, loaded⟩ : ∃ whole final, Assembly.ofSource {} "whole"
      ("again:\nHALT\n" ++ "again:\nWAIT\nJMP again\n") #[] = .ok whole final := by
    rw [joined]
    exact ⟨_, _, rfl⟩
  let second : Assembly :=
    ⟨"back", #[⟨.wait, 2⟩, ⟨.jump .always "again", 3⟩], ⟨{("again", 0)}⟩⟩
  have loadedBack : Assembly.ofSource {} "back" "again:\nWAIT\nJMP again\n" #[] =
      .ok second #[] := rfl
  obtain ⟨after, ends⟩ : ∃ after, EndsWith second (some 3)
      (start (.initial {}) (.empty none) #[]) (.fault (.stepLimit 3)) after := ⟨_, 4, rfl⟩
  have own : ∀ label ∈ second.destinations,
      .label label ∈ SourceLine.ofSource "again:\nWAIT\nJMP again\n" ∨
        .label label ∉ SourceLine.ofSource "again:\nHALT\n" := by decide
  obtain ⟨parts, alone⟩ := back_runs_as_alone loaded (.inr ⟨"again:\nHALT", by decide⟩)
  obtain ⟨⟨first, _, loadedFront⟩, -⟩ := parts "front" #[]
  obtain ⟨noted, there⟩ := (alone first second ⟨_, _, _, _, loadedFront⟩ ⟨_, _, _, _, loadedBack⟩
    own (some 3) (.initial {}) (.empty none) #[] _).1 after ends
  exact ⟨whole, first, second, after, noted, ends, there⟩

/-- What follows a program does not disturb it. If no jump of the first part of a source goes to a
label that the second part declares, then every run of the first part that does not run off its end
is also a run of the whole program from the same machine: it ends in the same way, with the same
machine, output and diagnostics. -/
theorem front_runs_as_alone
    (loaded : Assembly.ofSource limits name (front ++ back) log = .ok whole after)
    (closed : SourceLine.Sealed front) :
    (∀ other start, ∃ first final,
      Assembly.ofSource limits other front start = .ok first final) ∧
    ∀ first : Assembly, first.AssembledFrom front →
      (∀ label ∈ first.destinations, .label label ∉ SourceLine.ofSource back) →
      ∀ (limit : Option Nat) (machine : Machine Word) (sink : Sink) (log : Log) (ending : Ending)
        (after : Session), EndsWith first limit (start machine sink log) ending after →
          ¬ RanOff first ending after →
          EndsWith whole limit (start machine sink log) ending after := by
  refine ⟨fun other start => (Assembly.exists_parts loaded closed other start).1, ?_⟩
  intro first assembledFront own limit machine sink log ending after ends stopped
  have embeds := Assembly.embeds_front loaded closed assembledFront own
  obtain ⟨entries, logged, there⟩ :=
    ends.relocate embeds (fun ranOff => absurd ranOff stopped) log
  have same : log ++ (entries.map (Diagnostic.relocate 0 0)).toArray = after.log := by
    rw [Diagnostic.relocate_zero, List.map_id, logged]
    rfl
  rwa [same] at there

/-- A jump to a label that nothing declares is the same fault before another program. -/
theorem front_runs_as_alone_undefined :
    ∃ (whole first : Assembly) (after : Session),
      EndsWith first none (start (.initial {}) (.empty none) #[]) (.fault (.undefinedLabel "away"))
        after ∧
      EndsWith whole none (start (.initial {}) (.empty none) #[]) (.fault (.undefinedLabel "away"))
        after := by
  have joined : "WAIT\nJMP away\n" ++ "home:\nHALT\n" =
      "WAIT\nJMP away\nhome:\nHALT\n" := by decide
  obtain ⟨whole, _, loaded⟩ : ∃ whole final, Assembly.ofSource {} "whole"
      ("WAIT\nJMP away\n" ++ "home:\nHALT\n") #[] = .ok whole final := by
    rw [joined]
    exact ⟨_, _, rfl⟩
  let first : Assembly := ⟨"front", #[⟨.wait, 1⟩, ⟨.jump .always "away", 2⟩], .empty⟩
  have loadedFront : Assembly.ofSource {} "front" "WAIT\nJMP away\n" #[] = .ok first #[] := rfl
  obtain ⟨after, ends⟩ : ∃ after, EndsWith first none (start (.initial {}) (.empty none) #[])
      (.fault (.undefinedLabel "away")) after := ⟨_, 2, rfl⟩
  have own : ∀ label ∈ first.destinations,
      .label label ∉ SourceLine.ofSource "home:\nHALT\n" := by decide
  have stopped : ¬ RanOff first (.fault (.undefinedLabel "away")) after := by
    intro ranOff
    cases ranOff.1
  obtain ⟨-, alone⟩ := front_runs_as_alone loaded (.inr ⟨"WAIT\nJMP away", by decide⟩)
  exact ⟨whole, first, after, ends,
    alone first ⟨_, _, _, _, loadedFront⟩ own none (.initial {}) (.empty none) #[] _ after ends
      stopped⟩

end Session

end WashController
