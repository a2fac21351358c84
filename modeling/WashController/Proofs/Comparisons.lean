import WashController.Proofs.Causes

/-!
# Comparisons

What a comparison comes to once the instruction after it has looked at the result. `CMP` leaves the
order of two values in R0, as the sign of a number; `SETGT` and its kin turn a sign into a truth
value, `NOT` turns that over, and a jump looks at the sign itself. Each hands on all that the next
one needs (`Word.sign_ofOrdering`, `Word.truth_ofTruth`), so that what comes out in the end is the
order of the two values as integers (`Relation.holds_compare_iff`, `Condition.holds_compare_iff`).
The values are never subtracted, and nothing wraps around. A comparison writes R0 only when it has
read both operands, R0 among them or not, and no instruction of the sequence touches any other part
of the machine (`Machine.resultAt`).
-/

namespace WashController

/-! ## Orders of integers -/

/-- The comparison of two integers that a relation stands for. -/
def Relation.Compares (left right : Int) : Relation → Prop
  | gt => left > right
  | lt => left < right
  | eq => left = right
  | ne => left ≠ right
  | ge => left ≥ right
  | le => left ≤ right

instance (left right : Int) : DecidablePred (Relation.Compares left right)
  | .gt => inferInstanceAs (Decidable (left > right))
  | .lt => inferInstanceAs (Decidable (left < right))
  | .eq => inferInstanceAs (Decidable (left = right))
  | .ne => inferInstanceAs (Decidable (left ≠ right))
  | .ge => inferInstanceAs (Decidable (left ≥ right))
  | .le => inferInstanceAs (Decidable (left ≤ right))

/-- The relation that holds where another one does not. -/
def Relation.complement : Relation → Relation
  | gt => le
  | lt => ge
  | eq => ne
  | ne => eq
  | ge => lt
  | le => gt

/-- The comparison of two integers for which a jump after it is taken. -/
def Condition.Compares (left right : Int) : Condition → Prop
  | always => True
  | zero => left = right
  | lessOrEqual => left ≤ right

instance (left right : Int) : DecidablePred (Condition.Compares left right)
  | .always => inferInstanceAs (Decidable True)
  | .zero => inferInstanceAs (Decidable (left = right))
  | .lessOrEqual => inferInstanceAs (Decidable (left ≤ right))

theorem Relation.holds_complement (relation : Relation) (sign : Ordering) :
    relation.complement.holds sign = ! relation.holds sign := by
  cases relation <;> cases sign <;> rfl

section Orders

variable {left right : Int}

/-- A relation of the order of two integers to zero is a comparison of the integers. -/
theorem Relation.holds_compare_iff (relation : Relation) :
    relation.holds (compare left right) = true ↔ relation.Compares left right := by
  cases relation with
  | gt => exact Ordering.isGT_iff_eq_gt.trans Int.compare_eq_gt
  | lt => exact Ordering.isLT_iff_eq_lt.trans Int.compare_eq_lt
  | eq => exact Ordering.isEq_iff_eq_eq.trans Int.compare_eq_eq
  | ne => exact Ordering.isNe_iff_ne_eq.trans (not_congr Int.compare_eq_eq)
  | ge => exact Int.isGE_compare
  | le => exact Int.isLE_compare

theorem Condition.holds_compare_iff (condition : Condition) :
    condition.holds (compare left right) = true ↔ condition.Compares left right := by
  cases condition with
  | always => simp [holds, Compares]
  | zero => exact Relation.holds_compare_iff .eq
  | lessOrEqual => exact Relation.holds_compare_iff .le

end Orders

/-! ## Results as words -/

namespace Word

/-- Whoever looks at the sign of a comparison finds the order that was compared. -/
theorem sign_ofOrdering (order : Ordering) :
    Arithmetic.sign (Arithmetic.ofOrdering order : Word) = order := by
  cases order <;> rfl

theorem truth_ofTruth (holds : Bool) :
    Arithmetic.truth (Arithmetic.ofTruth holds : Word) = holds := by
  cases holds <;> rfl

/-- One where a comparison of integers is true, and zero where it is not. -/
theorem ofTruth_holds_compare (relation : Relation) (left right : Int) :
    (Arithmetic.ofTruth (relation.holds (compare left right)) : Word) =
      if relation.Compares left right then 1 else 0 := by
  simp only [Arithmetic.ofTruth, relation.holds_compare_iff]
  rfl

end Word

/-! ## Steps -/

/-- The machine with another value in R0, and at another address. Everything else is as it was. -/
def Machine.resultAt (machine : Machine Word) (result : Word) (address : Nat) : Machine Word :=
  { machine with registers := machine.registers.set .r0 result, counter := address }

section Step

variable {assembly : Assembly} {machine : Machine Word} {result : Word} {address line : Nat}

theorem step_of_compare {left right : Operand}
    (fetched : assembly.fetch? machine.counter = some ⟨.compare left right, line⟩) :
    step assembly machine = .ok .advanced (machine.resultAt
      (Arithmetic.ofOrdering (compare (machine.registers.evaluate left).toInt
        (machine.registers.evaluate right).toInt)) (machine.counter + 1)) :=
  step_eq_ok_iff.2 (.inr ⟨_, _, fetched, .compare, rfl⟩)

theorem step_of_set {relation : Relation}
    (fetched : assembly.fetch? address = some ⟨.set relation, line⟩) :
    step assembly (machine.resultAt result address) = .ok .advanced (machine.resultAt
      (Arithmetic.ofTruth (relation.holds (Arithmetic.sign result))) (address + 1)) :=
  step_eq_ok_iff.2 (.inr ⟨_, _, fetched, .set, rfl⟩)

theorem step_of_not (fetched : assembly.fetch? address = some ⟨.not, line⟩) :
    step assembly (machine.resultAt result address) = .ok .advanced (machine.resultAt
      (Arithmetic.ofTruth (! Arithmetic.truth result)) (address + 1)) :=
  step_eq_ok_iff.2 (.inr ⟨_, _, fetched, .not, rfl⟩)

/-- A jump that is taken goes to its label, or faults where there is none. -/
theorem step_of_jump {condition : Condition} {label : String}
    (fetched : assembly.fetch? address = some ⟨.jump condition label, line⟩) :
    step assembly (machine.resultAt result address) =
      if condition.holds (Arithmetic.sign result) then
        match assembly.labels.get? label with
        | some target => .ok (.jumped target) (machine.resultAt result target)
        | none => .error (.undefinedLabel label) (machine.resultAt result address)
      else .ok .advanced (machine.resultAt result (address + 1)) := by
  cases taken : condition.holds (Arithmetic.sign result) with
  | false => exact step_eq_ok_iff.2 (.inr ⟨_, _, fetched, .jumpNothing taken, rfl⟩)
  | true =>
      cases found : assembly.labels.get? label with
      | none => exact step_eq_error_iff.2 ⟨_, fetched, .jump taken found, rfl⟩
      | some target => exact step_eq_ok_iff.2 (.inr ⟨_, _, fetched, .jump taken found, rfl⟩)

end Step

/-- Comparisons are exact over the whole range of words. After a `CMP` the instruction that sets R0
by a relation leaves one in R0 if the two values that the operands had before the `CMP` stand in
the relation as integers, and zero if not; a `NOT` after that leaves the result of the opposite
comparison. A jump after the `CMP` is taken just if the values compare as its condition says. The
machine is otherwise what it was before the `CMP`. -/
theorem comparisons_are_exact {assembly : Assembly} {machine : Machine Word}
    {left right : Operand} {line : Nat}
    (fetched : assembly.fetch? machine.counter = some ⟨.compare left right, line⟩) :
    let first := (machine.registers.evaluate left).toInt
    let second := (machine.registers.evaluate right).toInt
    ∃ sign : Word,
      step assembly machine = .ok .advanced (machine.resultAt sign (machine.counter + 1)) ∧
      (∀ relation line,
        assembly.fetch? (machine.counter + 1) = some ⟨.set relation, line⟩ →
        let truth := if relation.Compares first second then 1 else 0
        step assembly (machine.resultAt sign (machine.counter + 1)) =
          .ok .advanced (machine.resultAt truth (machine.counter + 2)) ∧
        ∀ line, assembly.fetch? (machine.counter + 2) = some ⟨.not, line⟩ →
          let opposite := if relation.complement.Compares first second then 1 else 0
          step assembly (machine.resultAt truth (machine.counter + 2)) =
            .ok .advanced (machine.resultAt opposite (machine.counter + 3))) ∧
      ∀ condition label line,
        assembly.fetch? (machine.counter + 1) = some ⟨.jump condition label, line⟩ →
        step assembly (machine.resultAt sign (machine.counter + 1)) =
          if condition.Compares first second then
            match assembly.labels.get? label with
            | some target => .ok (.jumped target) (machine.resultAt sign target)
            | none =>
              .error (.undefinedLabel label) (machine.resultAt sign (machine.counter + 1))
          else .ok .advanced (machine.resultAt sign (machine.counter + 2)) := by
  intro first second
  refine ⟨Arithmetic.ofOrdering (compare first second), step_of_compare fetched, ?_, ?_⟩
  · intro relation line set
    refine ⟨?_, fun line negated => ?_⟩
    · rw [step_of_set set, Word.sign_ofOrdering, Word.ofTruth_holds_compare]
    · -- What `NOT` finds is a truth value, which is the result of the relation again.
      rw [step_of_not negated, ← Word.ofTruth_holds_compare relation, Word.truth_ofTruth,
        ← Relation.holds_complement, Word.ofTruth_holds_compare]
  · intro condition label line jump
    simp only [step_of_jump jump, Word.sign_ofOrdering, condition.holds_compare_iff]

/-- The lowest word is not greater than one, although their difference as words is. -/
theorem comparisons_are_exact_lowest :
    ∃ (assembly : Assembly) (machine : Machine Word) (sign : Word),
      machine.registers = ⟨-2147483648, 1⟩ ∧ (-2147483648 : Word) - 1 > 0 ∧
      step assembly machine = .ok .advanced (machine.resultAt sign 1) ∧
      step assembly (machine.resultAt sign 1) = .ok .advanced (machine.resultAt 0 2) ∧
      step assembly (machine.resultAt 0 2) = .ok .advanced (machine.resultAt 1 3) := by
  let assembly : Assembly :=
    ⟨"lowest", #[⟨.compare (.register .r0) (.register .r1), 1⟩, ⟨.set .gt, 2⟩, ⟨.not, 3⟩], .empty⟩
  let machine : Machine Word :=
    { Machine.initial {} with registers := ⟨-2147483648, 1⟩ }
  have fetched : assembly.fetch? machine.counter =
      some ⟨.compare (.register .r0) (.register .r1), 1⟩ := rfl
  obtain ⟨sign, compared, tested, -⟩ := comparisons_are_exact fetched
  obtain ⟨set, negated⟩ := tested .gt 2 rfl
  exact ⟨assembly, machine, sign, rfl, by decide, compared, set, negated 3 rfl⟩

end WashController
