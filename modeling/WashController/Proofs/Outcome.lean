import Mathlib.Data.List.Induction

/-!
# Outcomes of stateful computations

Assembling, executing and running are computations with a state, which end in a value or in an
error and keep the state in either case. The lemmas here take such a computation apart at a bind:
`bind_eq_ok_iff` and `bind_eq_error_iff` say what its outcome tells about the two halves. Nothing
is rolled back at an error, which is why the second one names the state in between. What is read or
shown item by item comes to an error at the first item that is too much (`exists_first_failure`).
-/

namespace WashController

section Bind

variable {ε σ α β : Type} {first : EStateM ε σ α} {next : α → EStateM ε σ β} {before after : σ}

/-- A sequence succeeds exactly when both halves do. -/
theorem bind_eq_ok_iff {result : β} :
    (first >>= next) before = .ok result after ↔
      ∃ value between, first before = .ok value between ∧
        next value between = .ok result after := by
  change EStateM.bind first next before = _ ↔ _
  cases outcome : first before with
  | ok value between =>
      simp only [EStateM.bind, outcome, EStateM.Result.ok.injEq]
      refine ⟨fun rest => ⟨value, between, ⟨rfl, rfl⟩, rest⟩, ?_⟩
      intro given
      rcases given with ⟨_, _, ⟨rfl, rfl⟩, rest⟩
      exact rest
  | error => simp [EStateM.bind, outcome]

/-- A sequence fails exactly when one of its halves does. -/
theorem bind_eq_error_iff {error : ε} :
    (first >>= next) before = .error error after ↔
      first before = .error error after ∨
        ∃ value between, first before = .ok value between ∧
          next value between = .error error after := by
  change EStateM.bind first next before = _ ↔ _
  cases outcome : first before with
  | ok value between =>
      simp only [EStateM.bind, outcome, EStateM.Result.ok.injEq, reduceCtorEq, false_or]
      refine ⟨fun rest => ⟨value, between, ⟨rfl, rfl⟩, rest⟩, ?_⟩
      intro given
      rcases given with ⟨_, _, ⟨rfl, rfl⟩, rest⟩
      exact rest
  | error => simp [EStateM.bind, outcome]

@[simp]
theorem pure_eq_ok_iff {value result : α} :
    (pure value : EStateM ε σ α) before = .ok result after ↔ value = result ∧ before = after := by
  change EStateM.Result.ok value before = _ ↔ _
  simp

@[simp]
theorem pure_ne_error {value : α} {error : ε} :
    (pure value : EStateM ε σ α) before ≠ .error error after := by
  change EStateM.Result.ok value before ≠ _
  simp

@[simp]
theorem throw_eq_error_iff {thrown error : ε} :
    (throw thrown : EStateM ε σ α) before = .error error after ↔
      thrown = error ∧ before = after := by
  change EStateM.Result.error thrown before = _ ↔ _
  simp

@[simp]
theorem throw_ne_ok {thrown : ε} {result : α} :
    (throw thrown : EStateM ε σ α) before ≠ .ok result after := by
  change EStateM.Result.error thrown before ≠ _
  simp

end Bind

/-- A property that holds of no items and not of all of them fails with one item first. -/
theorem exists_first_failure {α : Type} (holds : List α → Prop) (start : holds [])
    {items : List α} (fails : ¬ holds items) :
    ∃ earlier item later, items = earlier ++ item :: later ∧ holds earlier ∧
      ¬ holds (earlier ++ [item]) := by
  induction items using List.reverseRecOn with
  | nil => exact absurd start fails
  | append_singleton items item ih =>
      by_cases before : holds items
      · exact ⟨items, item, [], rfl, before, fails⟩
      · obtain ⟨earlier, first, later, rfl, within, failure⟩ := ih before
        exact ⟨earlier, first, later ++ [item], by simp, within, failure⟩

end WashController
