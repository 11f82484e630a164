import MyIVR.Store.DataService

/-! Decimal numerals: what the database stores for a number is read back as that
number, up to the range of a machine integer. -/
namespace MyIVR

/-- The number a numeral denotes, whatever its size. -/
def decimal (s : String) : Option Int :=
  match s.toList with
  | '-' :: l => (digits l).map (fun n => -(n : Int))
  | '+' :: l => (digits l).map (fun n => (n : Int))
  | l => (digits l).map (fun n => (n : Int))

/-- The range of Int. -/
def Fits (n : Int) : Prop := -2 ^ 63 ≤ n ∧ n < 2 ^ 63

instance (n : Int) : Decidable (Fits n) := inferInstanceAs (Decidable (_ ∧ _))

theorem parseInt_eq (s : String) :
    parseInt s = (decimal s).bind (fun n => if Fits n then some n else none) := by
  rw [parseInt, decimal]
  generalize s.toList = l
  rcases l with _ | ⟨c, l⟩
  · rfl
  · by_cases hm : c = '-'
    · subst c
      rfl
    by_cases hp : c = '+'
    · subst c
      rfl
    · split <;> simp_all
      rfl

/-- A numeral is read as an integer exactly when its number fits. -/
theorem parseInt_isSome_iff {s : String} {n : Int} (h : decimal s = some n) :
    (parseInt s).isSome ↔ Fits n := by
  rw [parseInt_eq, h, Option.bind_some]
  split <;> simp [*]

private theorem digits_toDigits (n : Nat) : digits (Nat.toDigits 10 n) = some n := by
  have hdigit : (Nat.toDigits 10 n).all Char.isDigit = true :=
    List.all_eq_true.mpr (fun c hc => Nat.isDigit_of_mem_toDigits (by decide) (by decide) hc)
  have hvalue : (Nat.toDigits 10 n).foldl (fun m c => m * 10 + (c.toNat - 48)) 0 = n := by
    have h := Nat.ofDigitChars_ten_toDigits (n := n)
    rw [Nat.ofDigitChars_eq_foldl] at h
    simpa [Nat.mul_comm 10] using h
  rw [digits, if_pos ⟨Nat.toDigits_ne_nil, hdigit⟩, hvalue]

private theorem decimal_of_digits {s : String} {n : Nat} (h : digits s.toList = some n) :
    decimal s = some (n : Int) := by
  rw [decimal]
  split
  · rename_i l heq
    rw [heq] at h
    simp [digits] at h
  · rename_i l heq
    rw [heq] at h
    simp [digits] at h
  · rw [h]
    rfl

theorem decimal_toString (n : Int) : decimal (toString n) = some n := by
  cases n with
  | ofNat n =>
    apply decimal_of_digits
    change digits (Nat.repr n).toList = some n
    rw [Nat.toList_repr, digits_toDigits]
  | negSucc n =>
    have hlist : (toString (Int.negSucc n)).toList = '-' :: Nat.toDigits 10 (n + 1) := by
      change ("-" ++ Nat.repr (n + 1)).toList = _
      rw [String.toList_append, Nat.toList_repr]
      rfl
    rw [decimal, hlist]
    simp only [digits_toDigits]
    rfl

theorem toString_inj {m n : Int} (h : toString m = toString n) : m = n := by
  rw [← Option.some.injEq, ← decimal_toString, h, decimal_toString]

theorem parseInt_toString (n : Int) : parseInt (toString n) = if Fits n then some n else none := by
  rw [parseInt_eq, decimal_toString, Option.bind_some]

end MyIVR
