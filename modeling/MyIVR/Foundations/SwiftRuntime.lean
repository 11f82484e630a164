import Mathlib.Data.Int.Order.Basic
import Mathlib.Tactic.Ring

/-! The part of the Swift runtime that a partial operation can reach: force
unwrapping, truncating division, closed ranges and short-circuit conjunction.
A fault ends the process, so it is the error of an Except computation. -/
namespace Swift
universe u

/-- Ways in which a run can fail to return. `endless` marks a loop that was cut
off at its iteration bound; the others are runtime traps, `missingKey` for nil
where a value is forced. -/
inductive Fault where
  | missingKey | reversedRange | divisionByZero | badCast | endless
  deriving DecidableEq, Repr

section bind
variable {ε : Type*} {α β : Type u}

@[simp] theorem ok_bind (x : α) (f : α → Except ε β) : (Except.ok x >>= f) = f x := rfl

@[simp] theorem error_bind (e : ε) (f : α → Except ε β) :
    ((Except.error e : Except ε α) >>= f) = .error e := rfl

@[simp] theorem pure_eq_ok (x : α) : (pure x : Except ε α) = .ok x := rfl

theorem bind_eq_ok {m : Except ε α} {f : α → Except ε β} {y : β} (h : m >>= f = .ok y) :
    ∃ x, m = .ok x ∧ f x = .ok y := by
  cases m with
  | error e => simp at h
  | ok x => exact ⟨x, rfl, h⟩

theorem bind_eq_error {m : Except ε α} {f : α → Except ε β} {e : ε} (h : m >>= f = .error e) :
    m = .error e ∨ ∃ x, m = .ok x ∧ f x = .error e := by
  cases m with
  | error e' =>
    rw [error_bind, Except.error.injEq] at h
    exact .inl (congrArg _ h)
  | ok x => exact .inr ⟨x, rfl, h⟩

end bind

/-- `value!` -/
def force {α : Type*} : Option α → Except Fault α
  | some x => .ok x
  | none => .error .missingKey

@[simp] theorem force_some {α : Type*} (x : α) : force (some x) = .ok x := rfl

/-- `a / b`, which truncates toward zero and traps on a zero divisor. -/
def divide (a b : Int) : Except Fault Int :=
  if b = 0 then .error .divisionByZero else .ok (a.tdiv b)

/-- The integers from lo to hi, in order. -/
def upTo (lo hi : Int) : List Int := (List.range (hi + 1 - lo).toNat).map (fun k : Nat => lo + k)

/-- `lo...hi` -/
def closedRange (lo hi : Int) : Except Fault (List Int) :=
  if hi < lo then .error .reversedRange else .ok (upTo lo hi)

/-- `a && b`: the right operand is only evaluated when the left one holds. -/
def andThen {ε : Type*} (a : Prop) [Decidable a] (b : Except ε Bool) : Except ε Bool :=
  if a then b else .ok false

@[simp] theorem andThen_true {ε : Type*} {a : Prop} [Decidable a] (h : a) (b : Except ε Bool) :
    andThen a b = b := if_pos h

@[simp] theorem andThen_false {ε : Type*} {a : Prop} [Decidable a] (h : ¬ a) (b : Except ε Bool) :
    andThen a b = .ok false := if_neg h

theorem closedRange_of_le {lo hi : Int} (h : lo ≤ hi) : closedRange lo hi = .ok (upTo lo hi) :=
  if_neg (by omega)

theorem mem_upTo {lo hi i : Int} : i ∈ upTo lo hi ↔ lo ≤ i ∧ i ≤ hi := by
  simp only [upTo, List.mem_map, List.mem_range]
  constructor
  · rintro ⟨k, hk, rfl⟩
    omega
  · rintro ⟨hlo, hhi⟩
    exact ⟨(i - lo).toNat, by omega, by omega⟩

theorem upTo_increasing (lo hi : Int) : (upTo lo hi).Pairwise (· < ·) := by
  apply List.Pairwise.map _ _ List.pairwise_lt_range
  intro a b hab
  omega

/-- The quotient of a number by its own absolute value is its sign. -/
theorem divide_abs {a : Int} (h : a ≠ 0) : divide a |a| = .ok a.sign := by
  have habs : |a| ≠ 0 := abs_ne_zero.mpr h
  rw [divide, if_neg habs]
  rcases lt_or_gt_of_ne h with hneg | hpos
  · rw [abs_of_neg hneg, Int.sign_eq_neg_one_of_neg hneg, Int.tdiv_neg, Int.tdiv_self h]
  · rw [abs_of_pos hpos, Int.sign_eq_one_of_pos hpos, Int.tdiv_self h]

end Swift
