import WashController.Panel.Notice
import WashController.Proofs.Rules

/-!
# Paths

A path is a sequence of steps that leave the program going, with nothing left out: its moments are
the instructions carried out, each with the machine that it found and what it amounted to. Paths
compose (`Path.trans`) and come apart at any place (`Path.exists_of_append`). What holds at the
start and is kept by every step holds at the end (`Path.invariant`).
-/

namespace WashController

section Path

variable {α : Type}

/-- Whether a program goes on after an event. -/
def Event.goesOn : Event α → Bool
  | .halted | .ended => false
  | _ => true

/-- The one event of an instruction at which a program does not go on is that it stops itself. -/
theorem eq_halted_of_step [Arithmetic α] {assembly : Assembly} {machine next : Machine α}
    {code : CodeLine} {event : Event α} (fetched : assembly.fetch? machine.counter = some code)
    (stepped : step assembly machine = .ok event next) (stopped : ¬ event.goesOn = true) :
    event = .halted := by
  rcases step_eq_ok_iff.1 stepped with ⟨past, -, -⟩ | ⟨_, _, -, rule, -⟩
  · cases fetched.symm.trans past
  · cases event with
    | halted => rfl
    | ended => exact absurd rfl rule.event_ne_ended
    | _ => exact absurd rfl stopped

/-- An instruction being carried out. -/
structure Moment (α : Type) where
  /-- The machine as the instruction finds it. -/
  machine : Machine α
  code : CodeLine
  event : Event α

/-- The machine after so many of the steps that lead to the last machine. -/
def Moment.machineAfter (moments : List (Moment α)) (last : Machine α) (count : Nat) : Machine α :=
  (moments[count]?.map (·.machine)).getD last

/-- A moment between two places of a path finds the machine of one of the places. -/
theorem Moment.exists_machineAfter_eq {moments : List (Moment α)} {moment : Moment α}
    {start stop : Nat} (member : moment ∈ (moments.take stop).drop start) (last : Machine α) :
    ∃ place, start ≤ place ∧ place < stop ∧ machineAfter moments last place = moment.machine := by
  obtain ⟨index, found⟩ := List.mem_iff_getElem?.1 member
  rw [List.getElem?_drop, List.getElem?_take] at found
  split at found
  next before =>
    refine ⟨start + index, Nat.le_add_right start index, before, ?_⟩
    rw [machineAfter, found]
    rfl
  next => cases found

variable [Arithmetic α]

/-- The steps from one machine to another, none of which stops the program. -/
inductive Path (assembly : Assembly) : Machine α → List (Moment α) → Machine α → Prop
  | refl {machine} : Path assembly machine [] machine
  | head {machine next last code event moments} :
    assembly.fetch? machine.counter = some code →
    step assembly machine = .ok event next →
    event.goesOn = true →
    Path assembly next moments last →
    Path assembly machine (⟨machine, code, event⟩ :: moments) last

namespace Path

variable {assembly : Assembly} {first middle last : Machine α}
  {moments earlier later : List (Moment α)}

theorem trans (before : Path assembly first earlier middle)
    (after : Path assembly middle later last) : Path assembly first (earlier ++ later) last := by
  induction before with
  | refl => exact after
  | head fetched stepped going _ ih => exact .head fetched stepped going (ih after)

theorem exists_of_append (path : Path assembly first (earlier ++ later) last) :
    ∃ middle, Path assembly first earlier middle ∧ Path assembly middle later last := by
  induction earlier generalizing first with
  | nil => exact ⟨first, .refl, path⟩
  | cons moment earlier ih =>
      cases path with
      | head fetched stepped going rest =>
          obtain ⟨middle, before, after⟩ := ih rest
          exact ⟨middle, .head fetched stepped going before, after⟩

/-- A path comes apart after any number of its steps. -/
theorem take_drop (path : Path assembly first moments last) (count : Nat) :
    Path assembly first (moments.take count) (Moment.machineAfter moments last count) ∧
      Path assembly (Moment.machineAfter moments last count) (moments.drop count) last := by
  induction path generalizing count with
  | refl =>
      rw [List.take_nil, List.drop_nil]
      exact ⟨.refl, .refl⟩
  | head fetched stepped going rest ih =>
      cases count with
      | zero => exact ⟨.refl, .head fetched stepped going rest⟩
      | succ count =>
          obtain ⟨before, after⟩ := ih count
          exact ⟨.head fetched stepped going before, after⟩

/-- The steps between two places of a path are a path. -/
theorem between (path : Path assembly first moments last) {start stop : Nat}
    (le : start ≤ stop) :
    Path assembly (Moment.machineAfter moments last start) ((moments.take stop).drop start)
      (Moment.machineAfter moments last stop) := by
  have onward := ((path.take_drop stop).1.take_drop start).2
  have same : Moment.machineAfter (moments.take stop) (Moment.machineAfter moments last stop)
      start = Moment.machineAfter moments last start := by
    simp only [Moment.machineAfter, List.getElem?_take]
    split
    next lt =>
      cases moment : moments[start]? with
      | some => rfl
      | none =>
          -- The path is over before either place.
          have beyond : moments[stop]? = none :=
            List.getElem?_eq_none (Nat.le_trans (List.getElem?_eq_none_iff.1 moment) le)
          rw [beyond]
          rfl
    next notLt =>
      obtain rfl : start = stop := Nat.le_antisymm le (Nat.not_lt.1 notLt)
      rfl
  rwa [same] at onward

/-- What every step keeps, a path keeps. -/
theorem invariant {holds : Machine α → Prop}
    (kept : ∀ machine event next,
      holds machine → step assembly machine = .ok event next → holds next)
    (path : Path assembly first moments last) (start : holds first) : holds last := by
  induction path with
  | refl => exact start
  | head _ stepped _ _ ih => exact ih (kept _ _ _ start stepped)

end Path

end Path

/-! ## What the panel shows -/

/-- The text of several notices, one after the other. -/
def Notice.texts (notices : List Notice) : String :=
  String.join (notices.map Notice.text)

@[simp]
theorem Notice.texts_nil : texts [] = "" :=
  String.join_nil

@[simp]
theorem Notice.texts_singleton (notice : Notice) : texts [notice] = notice.text := by
  simp [texts]

@[simp]
theorem Notice.texts_append (notices more : List Notice) :
    texts (notices ++ more) = texts notices ++ texts more := by
  rw [texts, List.map_append, String.join_append]
  rfl

namespace Notice

theorem toList_emitted (actuator : String) (value : Word) :
    (emitted actuator value).text.toList = "[EMIT] ".toList ++ (actuator.toList ++ ' ' ::
      ("= ".toList ++ (value.text.toList ++ '\n' ::
        ("  -> " ++ (Actuator.ofName actuator).describe value ++ "\n").toList))) := by
  have written : (emitted actuator value).text = "[EMIT] " ++ actuator ++ " = " ++ value.text ++
    "\n  -> " ++ (Actuator.ofName actuator).describe value ++ "\n" := rfl
  simp [written]

theorem toList_waited (amount total : Word) :
    (waited amount total).text.toList = "[WAIT] waiting ".toList ++ (amount.text.toList ++ ' ' ::
      ("ticks (total: ".toList ++ (total.text.toList ++ ')' :: ['\n']))) := by
  have written : (waited amount total).text =
    "[WAIT] waiting " ++ amount.text ++ " ticks (total: " ++ total.text ++ ")\n" := rfl
  simp [written]

theorem toList_halted : halted.text.toList = "[HALT] program finished\n".toList :=
  rfl

end Notice

/-- The notices that the panel shows of the instructions carried out, in their order. -/
def Moment.notices (moments : List (Moment Word)) : List Notice :=
  moments.filterMap fun moment => moment.event.notice?

@[simp]
theorem Moment.notices_nil : notices [] = [] :=
  rfl

theorem filterMap_singleton {α β : Type} (f : α → Option β) (a : α) :
    [a].filterMap f = (f a).toList := by
  rw [List.filterMap_cons]
  cases f a <;> rfl

theorem Moment.notices_singleton (moment : Moment Word) :
    notices [moment] = moment.event.notice?.toList :=
  filterMap_singleton _ moment

@[simp]
theorem Moment.notices_append (moments more : List (Moment Word)) :
    notices (moments ++ more) = notices moments ++ notices more :=
  List.filterMap_append

end WashController
