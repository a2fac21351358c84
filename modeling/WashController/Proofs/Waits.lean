import Mathlib.Algebra.Ring.Int.Defs
import WashController.Proofs.Reduction
import WashController.Proofs.Trail

/-!
# Waiting

How long a program waits, and what is said about it. A wait counts its amount into the ticks of the
machine, and the panel shows the amount and the new total. So the totals on the panel are those of a
running `tally`: every turn does its part of it (`Tallies`), whatever its instruction is, and a run
puts the parts together (`Trail.tallies`). The total of a tally is what exact arithmetic gives,
reduced to a word (`foldl_add_eq_reduce`).
-/

namespace WashController

/-! ## Notices of waits -/

namespace Notice

/-- The amount and the total that the notice of a wait shows. -/
def wait? : Notice → Option (Word × Word)
  | waited amount total => some (amount, total)
  | _ => none

/-- Just the notices of waits have this mark, and each shows its amount and its total. -/
theorem filter_map_text (notices : List Notice) :
    (notices.map text).filter (fun text => "[WAIT]".toList.isPrefixOf text.toList) =
      (notices.filterMap wait?).map fun (amount, total) =>
        "[WAIT] waiting " ++ amount.text ++ " ticks (total: " ++ total.text ++ ")\n" := by
  induction notices with
  | nil => rfl
  | cons notice notices ih =>
      rw [List.map_cons, List.filterMap_cons]
      cases notice with
      | waited amount total =>
          rw [List.filter_cons_of_pos (by simp [toList_waited]), ih]
          rfl
      | emitted actuator value =>
          rw [List.filter_cons_of_neg (by simp [toList_emitted]), ih]
          rfl
      | halted =>
          rw [List.filter_cons_of_neg (by simp [toList_halted]), ih]
          rfl

end Notice

/-! ## Amounts and totals -/

/-- How long an instruction waits. -/
def Instruction.amount? (machine : Machine Word) : Instruction → Option Word
  | wait => some machine.registers.r0
  | _ => none

/-- Every amount with the total that it brings the ticks to. -/
def tally (ticks : Word) : List Word → List (Word × Word)
  | [] => []
  | amount :: amounts => (amount, ticks + amount) :: tally (ticks + amount) amounts

theorem tally_append (ticks : Word) (earlier later : List Word) :
    tally ticks (earlier ++ later) =
      tally ticks earlier ++ tally (earlier.foldl (· + ·) ticks) later := by
  induction earlier generalizing ticks with
  | nil => rfl
  | cons amount earlier ih => rw [List.cons_append, tally, ih, tally, List.cons_append,
      List.foldl_cons]

theorem getElem?_tally (ticks : Word) (amounts : List Word) (index : Nat) :
    (tally ticks amounts)[index]? =
      amounts[index]?.map fun amount =>
        (amount, (amounts.take (index + 1)).foldl (· + ·) ticks) := by
  induction amounts generalizing ticks index with
  | nil => rfl
  | cons amount amounts ih =>
      cases index with
      | zero => rfl
      | succ index => exact ih (ticks + amount) index

theorem length_tally (ticks : Word) (amounts : List Word) :
    (tally ticks amounts).length = amounts.length := by
  induction amounts generalizing ticks with
  | nil => rfl
  | cons amount amounts ih => exact congrArg Nat.succ (ih (ticks + amount))

/-- The ticks come to the last total. -/
theorem getLast?_tally (ticks : Word) (amounts : List Word) :
    ((tally ticks amounts).getLast?.map Prod.snd).getD ticks = amounts.foldl (· + ·) ticks := by
  induction amounts generalizing ticks with
  | nil => rfl
  | cons amount amounts ih =>
      rw [tally, List.foldl_cons, ← ih, List.getLast?_cons]
      cases (tally (ticks + amount) amounts).getLast? <;> rfl

/-- Ticks that wrap around at every wait are the exact total, reduced once. -/
theorem foldl_add_eq_reduce (ticks : Word) (amounts : List Word) :
    amounts.foldl (· + ·) ticks =
      Word.reduce (ticks.toInt + (amounts.map Int32.toInt).sum) := by
  induction amounts generalizing ticks with
  | nil => rw [List.foldl_nil, List.map_nil, List.sum_nil, Int.add_zero, Word.reduce_toInt]
  | cons amount amounts ih =>
      have split (left right : Int) :
          Word.reduce (left + right) = Word.reduce left + Word.reduce right :=
        Word.hom_reduce.add left right
      rw [List.foldl_cons, ih, List.map_cons, List.sum_cons, ← Int.add_assoc, split, split,
        split ticks.toInt, Word.reduce_toInt, Word.reduce_toInt, Word.reduce_toInt]

/-! ## Instructions -/

section Instruction

variable {labels : LabelTable} {instruction : Instruction} {machine after : Machine Word}
  {event : Event Word} {fault : Fault}

/-- What is said about a wait is what the instruction waits, and the ticks it brings about. -/
theorem Executes.filterMap_wait? (rule : Executes labels machine instruction event after) :
    event.notice?.toList.filterMap Notice.wait? =
      tally machine.ticks (instruction.amount? machine).toList := by
  cases rule <;> rfl

theorem Executes.ticks_eq_foldl (rule : Executes labels machine instruction event after) :
    after.ticks = (instruction.amount? machine).toList.foldl (· + ·) machine.ticks := by
  cases rule <;> rfl

/-- An instruction that faults does not wait. -/
theorem Refuses.amount?_eq_none (rule : Refuses labels machine instruction fault) :
    instruction.amount? machine = none := by
  cases rule <;> rfl

end Instruction

/-! ## Runs -/

/-- What the panel shows of an instruction. One that faults shows nothing. -/
def Fetch.notice? (assembly : Assembly) (fetch : Fetch) : Option Notice :=
  match step assembly fetch.machine with
  | .ok event _ => event.notice?
  | .error _ _ => none

/-- How long the program waits. -/
def Fetch.amount? (fetch : Fetch) : Option Word :=
  fetch.code.instruction.amount? fetch.machine

namespace Session

variable {assembly : Assembly} {limit : Option Nat} {session between after : Session}
  {ending : Ending} {fetches earlier later : List Fetch}

/-- Whether all that is fetched is shown and timed, from one session to another. -/
structure Tallies (assembly : Assembly) (session : Session) (fetches : List Fetch)
    (after : Session) : Prop where
  room : after.sink.room = none
  written : after.sink.written = session.sink.written ++
    (Notice.texts (fetches.filterMap (Fetch.notice? assembly))).toByteArray
  waits : (fetches.filterMap (Fetch.notice? assembly)).filterMap Notice.wait? =
    tally session.machine.ticks (fetches.filterMap Fetch.amount?)
  ticks : after.machine.ticks =
    (fetches.filterMap Fetch.amount?).foldl (· + ·) session.machine.ticks

namespace Tallies

theorem nil (accepting : session.sink.room = none) (sink : after.sink = session.sink)
    (ticks : after.machine.ticks = session.machine.ticks) :
    Tallies assembly session [] after where
  room := by rw [sink, accepting]
  written := by simp [sink]
  waits := rfl
  ticks := ticks

theorem trans (first : Tallies assembly session earlier between)
    (second : Tallies assembly between later after) :
    Tallies assembly session (earlier ++ later) after where
  room := second.room
  written := by
    rw [second.written, first.written, List.filterMap_append, Notice.texts_append,
      String.toByteArray_append, ByteArray.append_assoc]
  waits := by
    rw [List.filterMap_append, List.filterMap_append, List.filterMap_append, first.waits,
      second.waits, first.ticks, tally_append]
  ticks := by
    rw [second.ticks, first.ticks, List.filterMap_append, List.foldl_append]

section Fetched

variable {code : CodeLine} (accepting : session.sink.room = none)
  (fetched : assembly.fetch? session.machine.counter = some code)

include accepting fetched

/-- An instruction that is carried out. How many there have been makes no difference. -/
theorem of_step {event : Event Word} {next : Machine Word} (executed : Nat)
    (stepped : step assembly session.machine = .ok event next) :
    Tallies assembly session [⟨session.machine, code⟩]
      { session.along [⟨session.machine, code, event⟩] next with executed := executed } := by
  rcases step_eq_ok_iff.1 stepped with ⟨past, -, -⟩ | ⟨_, carried, fetched', rule, rfl⟩
  · cases fetched.symm.trans past
  cases fetched.symm.trans fetched'
  have notices : [⟨session.machine, code⟩].filterMap (Fetch.notice? assembly) =
      event.notice?.toList := by
    rw [filterMap_singleton, Fetch.notice?, stepped]
  have amounts : [⟨session.machine, code⟩].filterMap Fetch.amount? =
      (code.instruction.amount? session.machine).toList :=
    filterMap_singleton Fetch.amount? _
  refine ⟨room_along accepting [⟨session.machine, code, event⟩] (event.settle carried), ?_, ?_, ?_⟩
  · rw [notices, ← Moment.notices_singleton ⟨session.machine, code, event⟩]
    exact written_along accepting _ (event.settle carried)
  · rw [notices, amounts, rule.filterMap_wait?]
  · rw [amounts, ← rule.ticks_eq_foldl]
    exact event.settle_ticks carried

/-- An instruction that faults. -/
theorem of_fault {fault : Fault}
    (faulted : step assembly session.machine = .error fault session.machine) :
    Tallies assembly session [⟨session.machine, code⟩]
      ((session.note (.fetched session.machine.counter code)).failed assembly fault) := by
  obtain ⟨_, fetched', rule, -⟩ := step_eq_error_iff.1 faulted
  cases fetched.symm.trans fetched'
  have unnoticed : [⟨session.machine, code⟩].filterMap (Fetch.notice? assembly) = [] := by
    rw [filterMap_singleton, Fetch.notice?, faulted]
    rfl
  have unwaited : [⟨session.machine, code⟩].filterMap Fetch.amount? = [] := by
    rw [filterMap_singleton, Fetch.amount?, rule.amount?_eq_none]
    rfl
  refine ⟨accepting, ?_, ?_, ?_⟩
  · rw [unnoticed]
    simp [failed, note]
  · rw [unnoticed, unwaited]
    rfl
  · rw [unwaited]
    rfl

end Fetched

end Tallies

theorem tallies_of_turn_eq_ok (accepting : session.sink.room = none)
    (turned : turn assembly limit session = .ok () after) :
    Tallies assembly session (session.fetch? assembly limit).toList after := by
  obtain ⟨within, code, event, next, fetched, stepped, -, -, rfl⟩ := turn_eq_ok_iff.1 turned
  rw [fetch?_of_fetched within fetched]
  exact .of_step accepting fetched _ stepped

theorem tallies_of_turn_eq_error (accepting : session.sink.room = none)
    (turned : turn assembly limit session = .error ending after) :
    Tallies assembly session (session.fetch? assembly limit).toList after := by
  cases turn_eq_error_iff.1 turned with
  | stepLimit reached =>
      rw [fetch?_of_limitReached reached]
      exact .nil accepting rfl rfl
  | fault within fetched faulted =>
      rw [fetch?_of_fetched within fetched]
      exact .of_fault accepting fetched faulted
  | sinkFull _ _ _ unshown => exact absurd (shows_of_room_eq_none accepting _) unshown
  | halted within fetched stepped =>
      rw [fetch?_of_fetched within fetched]
      exact .of_step accepting fetched _ stepped
  | ended within past =>
      rw [fetch?_of_ended past]
      exact .nil accepting rfl rfl

theorem Trail.tallies (trail : Trail assembly limit session fetches ending after)
    (accepting : session.sink.room = none) : Tallies assembly session fetches after := by
  induction trail with
  | last turned => exact tallies_of_turn_eq_error accepting turned
  | next turned _ ih =>
      have now := tallies_of_turn_eq_ok accepting turned
      exact now.trans (ih now.room)

/-- The ticks agree with what the panel says of them. Let a run end whose output is always accepted.
Its instructions, in their order, show their notices and nothing else is written. The notices of
waits are just as many as the waits that it carries out. Each shows what R0 is when the instruction
is carried out, as its amount, and as its total what the ticks are at first and all amounts so far,
this one included, added up exactly and reduced to a word; and this is what it says, as the only
notices that are marked in this way. In the end the ticks are the last of the totals, or what they
are at first if there is none. -/
theorem ticks_agree_with_notices (ends : EndsWith assembly limit session ending after)
    (accepting : session.sink.room = none) :
    ∃ fetches notices amounts, Trail assembly limit session fetches ending after ∧
      notices = fetches.filterMap (Fetch.notice? assembly) ∧
      amounts = fetches.filterMap Fetch.amount? ∧
      after.sink.written =
        session.sink.written ++ (String.join (notices.map Notice.text)).toByteArray ∧
      (notices.filterMap Notice.wait?).length = amounts.length ∧
      (∀ index : Nat, (notices.filterMap Notice.wait?)[index]? =
        amounts[index]?.map fun amount =>
          (amount, Word.reduce (session.machine.ticks.toInt +
            ((amounts.take (index + 1)).map Int32.toInt).sum))) ∧
      (∀ index : Nat, ((notices.map Notice.text).filter fun text =>
          "[WAIT]".toList.isPrefixOf text.toList)[index]? =
        amounts[index]?.map fun amount =>
          "[WAIT] waiting " ++ amount.text ++ " ticks (total: " ++
            (Word.reduce (session.machine.ticks.toInt +
              ((amounts.take (index + 1)).map Int32.toInt).sum)).text ++ ")\n") ∧
      after.machine.ticks =
        ((notices.filterMap Notice.wait?).getLast?.map Prod.snd).getD session.machine.ticks := by
  obtain ⟨fetches, trail⟩ := endsWith_iff_exists_trail.1 ends
  have tallies := trail.tallies accepting
  have shown (index : Nat) := getElem?_tally session.machine.ticks
    (fetches.filterMap Fetch.amount?) index
  simp only [← tallies.waits, foldl_add_eq_reduce] at shown
  refine ⟨fetches, _, _, trail, rfl, rfl, tallies.written, ?_, shown, fun index => ?_, ?_⟩
  · rw [tallies.waits, length_tally]
  · rw [Notice.filter_map_text, List.getElem?_map, shown, Option.map_map]
    rfl
  · rw [tallies.waits, getLast?_tally, tallies.ticks]

/-- The largest amount, and then the smallest, as the panel shows them. Both times the ticks wrap
around, and they come to zero. -/
theorem ticks_agree_with_notices_wrapping :
    ∃ (assembly : Assembly) (machine : Machine Word) (after : Session) (notices : List Notice),
      EndsWith assembly none (start machine (.empty none) #[]) .normal after ∧
      machine.ticks = 1 ∧
      notices.filterMap Notice.wait? = [(2147483647, -2147483648), (-2147483648, 0)] ∧
      after.sink.written = (String.join (notices.map Notice.text)).toByteArray ∧
      after.sink.written = String.toByteArray
        ("[WAIT] waiting 2147483647 ticks (total: -2147483648)\n" ++
          "[WAIT] waiting -2147483648 ticks (total: 0)\n") ∧
      after.machine.ticks = 0 := by
  let assembly : Assembly :=
    ⟨"wrapping", #[⟨.wait, 1⟩, ⟨.subLiteral (some .r0) (-1), 2⟩, ⟨.wait, 3⟩], .empty⟩
  let machine : Machine Word := { Machine.initial {} with registers := ⟨2147483647, 0⟩, ticks := 1 }
  let session := start machine (.empty none) #[]
  obtain ⟨after, fetches, trail, amounts, notified⟩ : ∃ after fetches,
      Trail assembly none session fetches .normal after ∧
        fetches.filterMap Fetch.amount? = [2147483647, -2147483648] ∧
        fetches.filterMap (Fetch.notice? assembly) =
          [.waited 2147483647 (-2147483648), .waited (-2147483648) 0] :=
    ⟨_, _, .next rfl (.next rfl (.next rfl (.last rfl))), by decide, by decide⟩
  obtain ⟨others, notices, _, again, which, rfl, written, length, waits, -, ticks⟩ :=
    ticks_agree_with_notices trail.endsWith rfl
  rw [trail.unique again, amounts] at length waits
  rw [trail.unique again, notified] at which
  have shown : notices.filterMap Notice.wait? = [(2147483647, -2147483648), (-2147483648, 0)] := by
    refine List.ext_getElem? fun index => ?_
    rw [waits]
    rcases index with _ | _ | index
    · decide
    · decide
    · rfl
  rw [shown] at ticks
  have all : after.sink.written = (String.join (notices.map Notice.text)).toByteArray :=
    written.trans ByteArray.empty_append
  refine ⟨assembly, machine, after, notices, trail.endsWith, rfl, shown, all, ?_, ticks⟩
  rw [all, which]
  rfl

end Session

end WashController
