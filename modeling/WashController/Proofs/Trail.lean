import WashController.Proofs.RunLoop

/-!
# Trails

What a run fetches, turn by turn. A turn fetches the instruction under the program counter, unless
the step limit is reached or the program is over (`fetch?`), and the trail of a run is what its
turns fetch, in their order. The last turn belongs to it, so that an instruction that faults, or
whose output fails, is on the trail although it is not on the path of the run. Every run that ends
has a trail (`endsWith_iff_exists_trail`), and only one (`Trail.unique`).
-/

namespace WashController

/-- An instruction being fetched, with the machine that it finds. -/
structure Fetch where
  machine : Machine Word
  code : CodeLine

namespace Session

variable {assembly : Assembly} {limit : Option Nat} {session after : Session} {ending : Ending}
  {fetches : List Fetch}

/-- What the next turn fetches. -/
def fetch? (session : Session) (assembly : Assembly) (limit : Option Nat) : Option Fetch :=
  match session.limitReached? assembly limit with
  | some _ => none
  | none => (assembly.fetch? session.machine.counter).map fun code => ⟨session.machine, code⟩

theorem fetch?_of_limitReached {most : Nat}
    (reached : session.limitReached? assembly limit = some most) :
    session.fetch? assembly limit = none := by
  rw [fetch?, reached]

theorem fetch?_of_ended (past : assembly.fetch? session.machine.counter = none) :
    session.fetch? assembly limit = none := by
  rw [fetch?, past]
  cases session.limitReached? assembly limit <;> rfl

theorem fetch?_of_fetched {code : CodeLine}
    (within : session.limitReached? assembly limit = none)
    (fetched : assembly.fetch? session.machine.counter = some code) :
    session.fetch? assembly limit = some ⟨session.machine, code⟩ := by
  rw [fetch?, within, fetched]
  rfl

/-- What is fetched stands under the program counter. -/
theorem fetched_of_fetch? {fetch : Fetch} (fetches : session.fetch? assembly limit = some fetch) :
    assembly.fetch? fetch.machine.counter = some fetch.code := by
  unfold fetch? at fetches
  split at fetches
  next => cases fetches
  next =>
    obtain ⟨code, fetched, rfl⟩ := Option.map_eq_some_iff.1 fetches
    exact fetched

/-- What is fetched finds the machine of the session. -/
theorem machine_of_fetch? {fetch : Fetch} (fetches : session.fetch? assembly limit = some fetch) :
    fetch.machine = session.machine := by
  unfold fetch? at fetches
  split at fetches
  next => cases fetches
  next =>
    obtain ⟨code, -, rfl⟩ := Option.map_eq_some_iff.1 fetches
    rfl

/-- The turns of a run that ends, and what they fetch. -/
inductive Trail (assembly : Assembly) (limit : Option Nat) :
    Session → List Fetch → Ending → Session → Prop
  | last {session after : Session} {ending : Ending} :
    turn assembly limit session = .error ending after →
    Trail assembly limit session (session.fetch? assembly limit).toList ending after
  | next {session between after : Session} {fetches : List Fetch} {ending : Ending} :
    turn assembly limit session = .ok () between →
    Trail assembly limit between fetches ending after →
    Trail assembly limit session ((session.fetch? assembly limit).toList ++ fetches) ending after

theorem Trail.endsWith (trail : Trail assembly limit session fetches ending after) :
    EndsWith assembly limit session ending after := by
  induction trail with
  | last turned => exact endsWith_of_turn_eq_error turned
  | next turned _ ih => exact endsWith_of_turn_eq_ok turned ih

theorem exists_trail_of_advance {turns : Nat}
    (ended : advance assembly limit turns session = .error ending after) :
    ∃ fetches, Trail assembly limit session fetches ending after := by
  induction turns generalizing session with
  | zero => cases ended
  | succ turns ih =>
      rw [advance] at ended
      cases turned : turn assembly limit session with
      | ok _ between =>
          rw [turned] at ended
          obtain ⟨fetches, trail⟩ := ih ended
          exact ⟨_, .next turned trail⟩
      | error other last =>
          rw [turned] at ended
          cases ended
          exact ⟨_, .last turned⟩

theorem endsWith_iff_exists_trail :
    EndsWith assembly limit session ending after ↔
      ∃ fetches, Trail assembly limit session fetches ending after :=
  ⟨fun ⟨_, ended⟩ => exists_trail_of_advance ended, fun ⟨_, trail⟩ => trail.endsWith⟩

/-- A run has one trail only. -/
theorem Trail.unique {others : List Fetch} {other : Ending} {last : Session}
    (trail : Trail assembly limit session fetches ending after)
    (again : Trail assembly limit session others other last) : others = fetches := by
  induction trail generalizing others with
  | last turned =>
      cases again with
      | last => rfl
      | next turned' => cases turned.symm.trans turned'
  | next turned _ ih =>
      cases again with
      | last turned' => cases turned.symm.trans turned'
      | next turned' rest =>
          cases turned.symm.trans turned'
          rw [ih rest]

theorem Trail.fetched (trail : Trail assembly limit session fetches ending after) :
    ∀ fetch ∈ fetches, assembly.fetch? fetch.machine.counter = some fetch.code := by
  induction trail with
  | last =>
      intro fetch member
      exact fetched_of_fetch? (Option.mem_toList.1 member)
  | next _ _ ih =>
      intro fetch member
      rcases List.mem_append.1 member with now | later
      · exact fetched_of_fetch? (Option.mem_toList.1 now)
      · exact ih fetch later

end Session

end WashController
