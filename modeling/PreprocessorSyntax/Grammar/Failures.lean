import PreprocessorSyntax.Rule
import Std.Data.TreeSet

/-!
# Failed attempts

A rule that failed at some position fails there again, so the parser notes
every failure and never repeats an attempt.  This keeps ordered choice with
unlimited backtracking from taking exponential time.
-/

namespace PreprocessorSyntax

/-- The attempts, each a rule at a token position, that are known to fail. -/
structure Failures where
  /-- One number for each attempt, see `Failures.key`. -/
  keys : Std.TreeSet Nat

namespace Failures

/-- The number that stands for an attempt. -/
def key (rule : Rule) (position : Nat) : Nat :=
  position * 54 + rule.index

/-- Different attempts have different numbers. -/
theorem key_injective {first second : Rule} {firstPosition secondPosition : Nat}
    (equal : key first firstPosition = key second secondPosition) :
    first = second ∧ firstPosition = secondPosition := by
  have firstBound := first.index_lt
  have secondBound := second.index_lt
  unfold key at equal
  have positions : firstPosition = secondPosition := by omega
  subst positions
  exact ⟨Rule.index_injective (by omega), rfl⟩

/-- No attempt has failed yet. -/
def empty : Failures :=
  ⟨∅⟩

/-- Whether an attempt is known to fail. -/
def contains (failures : Failures) (rule : Rule) (position : Nat) : Bool :=
  failures.keys.contains (key rule position)

/-- Note that an attempt failed. -/
def insert (failures : Failures) (rule : Rule) (position : Nat) : Failures :=
  ⟨failures.keys.insert (key rule position)⟩

@[simp] theorem contains_empty (rule : Rule) (position : Nat) :
    empty.contains rule position = false := by
  simp [empty, contains]

theorem contains_insert (failures : Failures) (noted rule : Rule) (notedPosition position : Nat) :
    (failures.insert noted notedPosition).contains rule position =
      (decide (noted = rule ∧ notedPosition = position) || failures.contains rule position) := by
  have same : (compare (key noted notedPosition) (key rule position) == .eq) =
      decide (noted = rule ∧ notedPosition = position) := by
    rw [Bool.eq_iff_iff]
    simp only [beq_iff_eq, decide_eq_true_eq, Nat.compare_eq_eq]
    constructor
    · exact key_injective
    · rintro ⟨rfl, rfl⟩
      rfl
  simp [insert, contains, Std.TreeSet.contains_insert, same]

end Failures
end PreprocessorSyntax
