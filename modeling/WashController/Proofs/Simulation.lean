import Mathlib.Data.List.Forall2
import WashController.Proofs.Trail

/-!
# Simulations

A program runs as another one does if each of its steps is also taken there, by machines that are
alike in some way and are alike again after it. It takes one induction to get from steps to paths,
and another one to get to runs; they are done here, for any two programs and any likeness between
their machines. `Follows` is what has to be known of a step, and then paths are followed
(`Follows.path`). For a run there is more to see than the machine: notices, faults, and the lines
that faults are reported with. `Mirrors` has what this takes, and then a run is mirrored turn by
turn (`Mirrors.turn_ok`, `Mirrors.turn_error`), as far as it goes on (`Mirrors.advance`) and to its
end (`Mirrors.endsWith`). What is logged meanwhile corresponds event by event (`Log.GrowAlike`).
-/

namespace WashController

/-- If each item is mapped to the one at its place, the others are all mapped items. -/
theorem eq_map_of_forall₂ {α β : Type} {f : α → β} {items : List α} {others : List β}
    (same : List.Forall₂ (fun item other => f item = other) items others) :
    others = items.map f := by
  rw [← List.forall₂_map_left_iff (R := Eq), List.forall₂_eq_eq_eq] at same
  exact same.symm

/-! ## Paths -/

section Paths

variable {α β : Type} [Arithmetic α] [Arithmetic β]

/-- Whether an instruction is carried out at this moment, and leaves this machine. -/
structure Moment.Leads (assembly : Assembly) (moment : Moment α) (next : Machine α) : Prop where
  fetched : assembly.fetch? moment.machine.counter = some moment.code
  stepped : step assembly moment.machine = .ok moment.event next

theorem Moment.leads_iff {assembly : Assembly} {moment : Moment α} {next : Machine α} :
    moment.Leads assembly next ↔ assembly.fetch? moment.machine.counter = some moment.code ∧
      ∃ between,
        Executes assembly.labels moment.machine moment.code.instruction moment.event between ∧
          next = moment.event.settle between := by
  refine ⟨?_, ?_⟩
  · rintro ⟨fetched, stepped⟩
    rcases step_eq_ok_iff.1 stepped with ⟨past, -, -⟩ | ⟨code, between, found, rule, settled⟩
    · cases fetched.symm.trans past
    · cases fetched.symm.trans found
      exact ⟨fetched, between, rule, settled⟩
  · rintro ⟨fetched, between, rule, settled⟩
    exact ⟨fetched, step_eq_ok_iff.2 (.inr ⟨moment.code, between, fetched, rule, settled⟩)⟩

/-- Whether another program has a step like every step of a program, those given: from any machine
that is alike, and to one that is alike again. -/
def Follows (assembly other : Assembly) (given : Moment α → Prop)
    (alike : Machine α → Machine β → Prop) (likewise : Moment α → Moment β → Prop) : Prop :=
  ∀ ⦃moment next twin⦄, moment.Leads assembly next → given moment → alike moment.machine twin →
    ∃ image after, image.machine = twin ∧ image.Leads other after ∧
      image.event.goesOn = moment.event.goesOn ∧ likewise moment image ∧ alike next after

/-- It does not have to follow more steps than it can, nor tell all that is known of them. -/
theorem Follows.imp {assembly other : Assembly} {given fewer : Moment α → Prop}
    {alike : Machine α → Machine β → Prop} {likewise weaker : Moment α → Moment β → Prop}
    (follows : Follows assembly other given alike likewise)
    (among : ∀ moment, fewer moment → given moment)
    (tells : ∀ moment image, likewise moment image → weaker moment image) :
    Follows assembly other fewer alike weaker := by
  intro moment next twin leads now same
  obtain ⟨image, after, place, answer, goes, like, onward⟩ := follows leads (among moment now) same
  exact ⟨image, after, place, answer, goes, tells moment image like, onward⟩

theorem Path.goesOn {assembly : Assembly} {first last : Machine α} {moments : List (Moment α)}
    (path : Path assembly first moments last) :
    ∀ moment ∈ moments, moment.event.goesOn = true := by
  induction path with
  | refl => simp
  | head _ _ going _ ih => exact List.forall_mem_cons.2 ⟨going, ih⟩

/-- A program that follows each step follows each path. -/
theorem Follows.path {assembly other : Assembly} {given : Moment α → Prop}
    {alike : Machine α → Machine β → Prop} {likewise : Moment α → Moment β → Prop}
    (follows : Follows assembly other given alike likewise) {first last : Machine α}
    {twin : Machine β} {moments : List (Moment α)} (path : Path assembly first moments last)
    (all : ∀ moment ∈ moments, given moment) (start : alike first twin) :
    ∃ images final, Path other twin images final ∧ List.Forall₂ likewise moments images ∧
      alike last final := by
  induction path generalizing twin with
  | refl => exact ⟨[], twin, .refl, .nil, start⟩
  | head fetched stepped going _ ih =>
      obtain ⟨now, later⟩ := List.forall_mem_cons.1 all
      obtain ⟨image, after, rfl, leads, goes, like, onward⟩ := follows ⟨fetched, stepped⟩ now start
      obtain ⟨images, final, rest, likes, ends⟩ := ih later onward
      exact ⟨image :: images, final, .head leads.fetched leads.stepped (goes.trans going) rest,
        .cons like likes, ends⟩

end Paths

/-! ## What is logged -/

/-- Whether two logs have grown by events that correspond one by one. -/
def Log.GrowAlike (worded : Diagnostic → Diagnostic → Prop)
    (before after twinBefore twinAfter : Log) : Prop :=
  ∃ events others, after = before ++ List.toArray events ∧
    twinAfter = twinBefore ++ List.toArray others ∧ List.Forall₂ worded events others

namespace Log.GrowAlike

variable {worded : Diagnostic → Diagnostic → Prop}
  {before between after twinBefore twinBetween twinAfter : Log}

theorem refl (worded : Diagnostic → Diagnostic → Prop) (before twinBefore : Log) :
    GrowAlike worded before before twinBefore twinBefore :=
  ⟨[], [], by simp, by simp, .nil⟩

theorem trans (first : GrowAlike worded before between twinBefore twinBetween)
    (rest : GrowAlike worded between after twinBetween twinAfter) :
    GrowAlike worded before after twinBefore twinAfter := by
  obtain ⟨earlier, others, rfl, rfl, alike⟩ := first
  obtain ⟨later, more, rfl, rfl, alikeLater⟩ := rest
  refine ⟨earlier ++ later, others ++ more, ?_, ?_, List.rel_append alike alikeLater⟩
  · rw [Array.append_assoc, List.append_toArray earlier later]
  · rw [Array.append_assoc, List.append_toArray others more]

theorem push {event other : Diagnostic}
    (grown : GrowAlike worded before after twinBefore twinAfter) (alike : worded event other) :
    GrowAlike worded before (Array.push after event) twinBefore (Array.push twinAfter other) :=
  grown.trans ⟨[event], [other], Array.append_singleton.symm, Array.append_singleton.symm,
    .cons alike .nil⟩

/-- Logs that were the same and have grown by the same events are the same. -/
theorem eq (grown : GrowAlike (fun event other => event = other) before after before twinAfter) :
    twinAfter = after := by
  obtain ⟨events, others, rfl, rfl, same⟩ := grown
  rw [List.forall₂_eq_eq_eq] at same
  rw [same]

end Log.GrowAlike

/-! ## Turns and runs -/

namespace Session

/-- Whether two sessions have come equally far, on machines that are alike. What is logged is left
out. -/
structure Paired (alike : Machine Word → Machine Word → Prop) (session twin : Session) : Prop where
  machine : alike session.machine twin.machine
  sink : twin.sink = session.sink
  executed : twin.executed = session.executed

/-- Such a session is known by its machine and its log. -/
theorem Paired.eq {alike : Machine Word → Machine Word → Prop} {session twin : Session}
    (paired : Paired alike session twin) {machine : Machine Word} {log : Log}
    (sameMachine : twin.machine = machine) (sameLog : twin.log = log) :
    twin = { session with machine := machine, log := log } := by
  obtain ⟨-, sink, executed⟩ := paired
  cases twin
  cases sameMachine
  cases sameLog
  cases sink
  cases executed
  rfl

/-- Whether a run that has come to an ending has run past the last instruction. A program that stops
itself stays at the instruction that does so. -/
def RanOff (assembly : Assembly) (ending : Ending) (after : Session) : Prop :=
  ending = .normal ∧ assembly.size ≤ after.machine.counter

/-- What it takes for another program to run as a program does, at the instructions given. What
stands under the counter has its counterpart there, each step has a step that is like it and shows
the same, and a fault that is not excepted is the same fault there. -/
structure Mirrors (assembly other : Assembly) (given : Fetch → Prop) (spared : Fault → Prop)
    (alike : Machine Word → Machine Word → Prop) (worded : Diagnostic → Diagnostic → Prop) :
    Prop where
  stands : ∀ {machine twin code}, alike machine twin →
    assembly.fetch? machine.counter = some code →
    ∃ image, other.fetch? twin.counter = some image ∧
      (given ⟨machine, code⟩ → worded (.fetched machine.counter code)
        (.fetched twin.counter image)) ∧
      ∀ fault, worded (.faulted (some code.line) fault) (.faulted (some image.line) fault)
  follows : Follows assembly other (fun moment => given ⟨moment.machine, moment.code⟩) alike
    fun moment image => image.event.notice? = moment.event.notice?
  faults : ∀ {machine twin code image fault}, alike machine twin →
    assembly.fetch? machine.counter = some code → other.fetch? twin.counter = some image →
    given ⟨machine, code⟩ → Refuses assembly.labels machine code.instruction fault →
    spared fault → Refuses other.labels twin image.instruction fault
  halts : ∀ {machine twin}, alike machine twin →
    alike { machine with halted := true } { twin with halted := true }

namespace Mirrors

variable {assembly other : Assembly} {given : Fetch → Prop} {spared : Fault → Prop}
  {alike : Machine Word → Machine Word → Prop} {worded : Diagnostic → Diagnostic → Prop}
  {limit : Option Nat} {session twin after : Session} {ending : Ending}
  (mirrors : Mirrors assembly other given spared alike worded)

include mirrors

/-- Inside the program, the step limit is reached in both runs or in neither. -/
theorem limitReached?_eq (paired : Paired alike session twin) {code : CodeLine}
    (fetched : assembly.fetch? session.machine.counter = some code) (limit : Option Nat) :
    twin.limitReached? other limit = session.limitReached? assembly limit := by
  obtain ⟨image, found, -⟩ := mirrors.stands paired.machine fetched
  have here := Assembly.lt_size_of_fetch? fetched
  have there := Assembly.lt_size_of_fetch? found
  simp only [limitReached?, paired.executed, here, there]

/-- A fault is reported with lines that correspond. -/
theorem failed (paired : Paired alike session twin) {code : CodeLine}
    (fetched : assembly.fetch? session.machine.counter = some code) (fault : Fault) :
    Paired alike (session.failed assembly fault) (twin.failed other fault) ∧
      Log.GrowAlike worded session.log (session.failed assembly fault).log twin.log
        (twin.failed other fault).log := by
  obtain ⟨image, found, -, reported⟩ := mirrors.stands paired.machine fetched
  refine ⟨⟨mirrors.halts paired.machine, paired.sink, paired.executed⟩, ?_⟩
  simp only [Session.failed, fetched, found, Option.map_some]
  exact (Log.GrowAlike.refl worded _ _).push (reported fault)

/-- What a step shows, logs and counts is mirrored. -/
theorem along {code : CodeLine} {event : Event Word} {next : Machine Word}
    (paired : Paired alike session twin)
    (fetched : assembly.fetch? session.machine.counter = some code)
    (stepped : step assembly session.machine = .ok event next)
    (among : given ⟨session.machine, code⟩) :
    ∃ image reply final, other.fetch? twin.machine.counter = some image ∧
      step other twin.machine = .ok reply final ∧ reply.goesOn = event.goesOn ∧
      (twin.Shows [⟨twin.machine, image, reply⟩] ↔
        session.Shows [⟨session.machine, code, event⟩]) ∧
      Paired alike (session.along [⟨session.machine, code, event⟩] next)
        (twin.along [⟨twin.machine, image, reply⟩] final) ∧
      Log.GrowAlike worded session.log (session.along [⟨session.machine, code, event⟩] next).log
        twin.log (twin.along [⟨twin.machine, image, reply⟩] final).log := by
  obtain ⟨image, found, announced, -⟩ := mirrors.stands paired.machine fetched
  have leads : Moment.Leads assembly ⟨session.machine, code, event⟩ next := ⟨fetched, stepped⟩
  obtain ⟨⟨machine, code', reply⟩, final, same, answer, goes, notice, onward⟩ :=
    mirrors.follows leads among paired.machine
  obtain rfl : machine = twin.machine := same
  obtain rfl : image = code' := Option.some.inj (found.symm.trans answer.fetched)
  have notices : Moment.notices [⟨twin.machine, image, reply⟩] =
      Moment.notices [⟨session.machine, code, event⟩] := by
    rw [Moment.notices_singleton, Moment.notices_singleton]
    exact congrArg Option.toList notice
  refine ⟨image, reply, final, found, answer.stepped, goes, ?_, ⟨onward, ?_, ?_⟩, ?_⟩
  · rw [Shows, Shows, notices, paired.sink]
  · rw [Session.along, Session.along, notices, paired.sink]
  · rw [Session.along, Session.along, paired.executed, List.length_singleton,
      List.length_singleton]
  · exact ⟨_, _, rfl, rfl, .cons (announced among) .nil⟩

/-- A turn that goes on goes on in both runs. -/
theorem turn_ok (turned : turn assembly limit session = .ok () after)
    (paired : Paired alike session twin)
    (among : ∀ fetch ∈ session.fetch? assembly limit, given fetch) :
    ∃ final, turn other limit twin = .ok () final ∧ Paired alike after final ∧
      Log.GrowAlike worded session.log after.log twin.log final.log := by
  obtain ⟨within, code, event, next, fetched, stepped, going, shown, rfl⟩ :=
    turn_eq_ok_iff.1 turned
  obtain ⟨image, reply, final, found, answered, goes, shows, pairedAfter, grown⟩ :=
    mirrors.along paired fetched stepped (among _ (fetch?_of_fetched within fetched))
  have within' := (mirrors.limitReached?_eq paired fetched limit).trans within
  exact ⟨_, turn_eq_ok_iff.2 ⟨within', image, reply, final, found, answered, goes.trans going,
    shows.2 shown, rfl⟩, pairedAfter, grown⟩

/-- A turn that ends a run ends both, unless by a fault that is excepted. Where the one program is
at its end, the other one has to be at its own. -/
theorem turn_error (turned : turn assembly limit session = .error ending after)
    (paired : Paired alike session twin)
    (among : ∀ fetch ∈ session.fetch? assembly limit, given fetch)
    (unexcepted : ∀ fault, ending = .fault fault → spared fault)
    (atEnd : RanOff assembly ending after → ∀ last, alike after.machine last →
      other.size ≤ last.counter) :
    ∃ final, turn other limit twin = .error ending final ∧ Paired alike after final ∧
      Log.GrowAlike worded session.log after.log twin.log final.log := by
  cases turn_eq_error_iff.1 turned with
  | @stepLimit most reached =>
      obtain ⟨-, -, inProgram⟩ := limitReached?_eq_some_iff.1 reached
      obtain ⟨code, fetched⟩ := Assembly.exists_fetch? inProgram
      have reached' := (mirrors.limitReached?_eq paired fetched limit).trans reached
      obtain ⟨pairedAfter, grown⟩ := mirrors.failed paired fetched (.stepLimit most)
      exact ⟨_, turn_of_limitReached reached', pairedAfter, grown⟩
  | @fault code fault within fetched faulted =>
      obtain ⟨image, found, announced, -⟩ := mirrors.stands paired.machine fetched
      have here := among _ (fetch?_of_fetched within fetched)
      have within' := (mirrors.limitReached?_eq paired fetched limit).trans within
      obtain ⟨_, fetched', rule, -⟩ := step_eq_error_iff.1 faulted
      cases fetched.symm.trans fetched'
      have faulted' : step other twin.machine = .error fault twin.machine :=
        step_eq_error_iff.2 ⟨image, found,
          mirrors.faults paired.machine fetched found here rule (unexcepted fault rfl), rfl⟩
      -- The instruction is logged before it faults.
      have noted : Paired alike (session.note (.fetched session.machine.counter code))
          (twin.note (.fetched twin.machine.counter image)) :=
        ⟨paired.machine, paired.sink, paired.executed⟩
      obtain ⟨pairedAfter, grown⟩ := mirrors.failed noted fetched fault
      have first : Log.GrowAlike worded session.log
          (session.note (.fetched session.machine.counter code)).log twin.log
          (twin.note (.fetched twin.machine.counter image)).log :=
        (Log.GrowAlike.refl worded _ _).push (announced here)
      exact ⟨_, turn_of_fault within' found faulted', pairedAfter, first.trans grown⟩
  | @sinkFull code event next within fetched stepped unshown =>
      obtain ⟨image, reply, final, found, answered, -, shows, pairedAfter, grown⟩ :=
        mirrors.along paired fetched stepped (among _ (fetch?_of_fetched within fetched))
      have within' := (mirrors.limitReached?_eq paired fetched limit).trans within
      exact ⟨_, turn_eq_error_iff.2 (.sinkFull within' found answered (mt shows.1 unshown)),
        ⟨pairedAfter.machine, pairedAfter.sink, paired.executed⟩, grown⟩
  | @halted code next within fetched stepped shown =>
      obtain ⟨image, reply, final, found, answered, goes, shows, pairedAfter, grown⟩ :=
        mirrors.along paired fetched stepped (among _ (fetch?_of_fetched within fetched))
      have within' := (mirrors.limitReached?_eq paired fetched limit).trans within
      obtain rfl : reply = .halted :=
        eq_halted_of_step found answered (by rw [goes]; exact Bool.false_ne_true)
      exact ⟨_, turn_eq_error_iff.2 (.halted within' found answered (shows.2 shown)),
        ⟨pairedAfter.machine, pairedAfter.sink, paired.executed⟩, grown⟩
  | ended within past =>
      have beyond := atEnd ⟨rfl, Assembly.fetch?_eq_none_iff.1 past⟩ _ paired.machine
      have within' : twin.limitReached? other limit = none :=
        limitReached?_eq_none_iff.2 fun _ _ inProgram => absurd inProgram (Nat.not_lt.2 beyond)
      exact ⟨twin, turn_of_ended within' (Assembly.fetch?_eq_none_iff.2 beyond), paired,
        .refl worded _ _⟩

/-- A run goes on for as many turns as the other one does. -/
theorem advance {turns : Nat} (onward : advance assembly limit turns session = .ok () after)
    (paired : Paired alike session twin) (all : ∀ fetch, given fetch) :
    ∃ final, Session.advance other limit turns twin = .ok () final ∧ Paired alike after final := by
  induction turns generalizing session twin with
  | zero =>
      cases onward
      exact ⟨twin, rfl, paired⟩
  | succ turns ih =>
      obtain ⟨between, turned, onward⟩ := advance_succ_eq_ok_iff.1 onward
      obtain ⟨_, turned, paired, -⟩ := mirrors.turn_ok turned paired fun fetch _ => all fetch
      obtain ⟨final, onward, paired⟩ := ih onward paired
      exact ⟨final, advance_succ_eq_ok_iff.2 ⟨_, turned, onward⟩, paired⟩

/-- A run that ends is mirrored to its end. -/
theorem endsWith {fetches : List Fetch} (trail : Trail assembly limit session fetches ending after)
    (paired : Paired alike session twin) (all : ∀ fetch ∈ fetches, given fetch)
    (unexcepted : ∀ fault, ending = .fault fault → spared fault)
    (atEnd : RanOff assembly ending after → ∀ last, alike after.machine last →
      other.size ≤ last.counter) :
    ∃ final, EndsWith other limit twin ending final ∧ Paired alike after final ∧
      Log.GrowAlike worded session.log after.log twin.log final.log := by
  induction trail generalizing twin with
  | last turned =>
      obtain ⟨final, turned, paired, grown⟩ := mirrors.turn_error turned paired
        (fun fetch now => all fetch (Option.mem_toList.2 now)) unexcepted atEnd
      exact ⟨final, endsWith_of_turn_eq_error turned, paired, grown⟩
  | next turned _ ih =>
      obtain ⟨between, turned, paired, grown⟩ := mirrors.turn_ok turned paired
        fun fetch now => all fetch (List.mem_append_left _ (Option.mem_toList.2 now))
      obtain ⟨final, ends, paired, grownLater⟩ :=
        ih paired (fun fetch later => all fetch (List.mem_append_right _ later)) unexcepted atEnd
      exact ⟨final, endsWith_of_turn_eq_ok turned ends, paired, grown.trans grownLater⟩

end Mirrors

end Session

end WashController
