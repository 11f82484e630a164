import MyIVR.Game.FullBoard
import Mathlib.Tactic.LinearCombination

/-! What each branch of the move test computes on a full board. Only the rook's
column scan and the queen's diagonal walk look up keys outside the board; every
other branch stays on it, divides by nonzero differences and ends. -/
namespace MyIVR
open Swift

/-- The key the rook's column scan looks up in round `i`, for `i` in 0...7. -/
def rookKey (p i : Int) : Int := (row p + max i 1) * 8 + max i 1

/-- Along a column the rook's scan passes row 7 before it meets an occupied key. -/
def rookLeaves (free : Int → Bool) (p q : Int) : Prop :=
  col p = col q ∧ row p ≠ row q ∧ 8 ≤ row p + max (row p) (row q) ∧
    ∀ i ∈ upTo (min (row p) (row q)) (max (row p) (row q)),
      row p + max i 1 ≤ 7 → free (rookKey p i) = true

/-- The key a diagonal walk from p looks up in its k-th round, for the
numerators its step is computed from. -/
def walkKey (p dRow dCol k : Int) : Int := (row p + k * dRow.sign) * 8 + (col p + k * dCol.sign)

/-- The queen's walk starts on p and moves away from q. -/
def queenKey (p q k : Int) : Int := walkKey p (row p - row q) (col p - col q) k

/-- The bishop's walk starts on p and moves toward q. -/
def bishopKey (p q k : Int) : Int := walkKey p (row q - row p) (col q - col p) k

/-- Along a diagonal the queen's walk leaves the keys before it meets an occupied one. -/
def queenLeaves (free : Int → Bool) (p q : Int) : Prop :=
  |row p - row q| = |col p - col q| ∧ row p ≠ row q ∧
    ∀ k ∈ upTo 1 9, 0 ≤ queenKey p q k ∧ queenKey p q k ≤ 63 →
      free (queenKey p q k) = true

instance (free : Int → Bool) (p q : Int) : Decidable (rookLeaves free p q) :=
  inferInstanceAs (Decidable (_ ∧ _))

instance (free : Int → Bool) (p q : Int) : Decidable (queenLeaves free p q) :=
  inferInstanceAs (Decidable (_ ∧ _))

theorem need_eq (r c r₁ c₁ : Int) :
    need r c r₁ c₁ = if r = r₁ then (min c c₁, max c c₁) else (min r r₁, max r r₁) := by
  unfold need
  split <;> split <;> ext <;> simp only <;> omega

namespace Full
variable {b : Board}

private theorem rook_round {i : Int} (hi : 0 ≤ i ∧ i ≤ 7) :
    (if i = 0 then 1 else if i = 8 then 7 else i) = max i 1 := by
  rw [if_neg (by omega : ¬ i = 8)]
  split <;> omega

theorem rookBlocked_column (h : Full b) (p q : Square) (hc : col p.key = col q.key)
    (hr : row p.key ≠ row q.key) {i : Int} (hi : 0 ≤ i ∧ i ≤ 7) :
    (row p.key + max i 1 ≤ 7 →
      rookBlocked b (row p.key) (col p.key) (row q.key) (col q.key) i =
        .ok (!emptyAt b (rookKey p.key i))) ∧
    (¬ row p.key + max i 1 ≤ 7 →
      rookBlocked b (row p.key) (col p.key) (row q.key) (col q.key) i = .error .missingKey) := by
  have hp := p.row_range
  have hq := q.row_range
  constructor
  · intro hin
    have hk : 0 ≤ rookKey p.key i ∧ rookKey p.key i ≤ 63 := by
      unfold rookKey
      omega
    have hkey : occupied b ((row p.key + max i 1) * 8 + max i 1) =
        .ok (!emptyAt b (rookKey p.key i)) := h.occupied_inside hk
    obtain ⟨x, hx⟩ := h.exists_piece (k := row q.key * 8 + max i 1) (by omega)
    simp only [rookBlocked, rook_round hi, andThen_true hc, andThen_false hr, hkey, ok_bind, hx, force_some,
      pure_eq_ok]
    cases emptyAt b (rookKey p.key i) <;> rfl
  · intro hout
    have hk : ¬ (0 ≤ rookKey p.key i ∧ rookKey p.key i ≤ 63) := by
      unfold rookKey
      omega
    have hkey : occupied b ((row p.key + max i 1) * 8 + max i 1) = .error .missingKey :=
      h.occupied_outside hk
    simp only [rookBlocked, rook_round hi, andThen_true hc, hkey, error_bind]

theorem rookBlocked_row (h : Full b) (p q : Square) (hc : col p.key ≠ col q.key)
    (hr : row p.key = row q.key) {i : Int} (hi : 0 ≤ i ∧ i ≤ 7) :
    rookBlocked b (row p.key) (col p.key) (row q.key) (col q.key) i =
      .ok (!emptyAt b (max i 1 * 8 + col p.key)) := by
  have hp := p.col_range
  have hk : 0 ≤ max i 1 * 8 + col p.key ∧ max i 1 * 8 + col p.key ≤ 63 := by omega
  simp only [rookBlocked, rook_round hi, andThen_false hc, andThen_true hr, ok_bind, h.occupied_inside hk]
  rfl

/-- The indices both straight loops run over. -/
def line (p q : Int) : List Int :=
  if row p = row q then upTo (min (col p) (col q)) (max (col p) (col q))
  else upTo (min (row p) (row q)) (max (row p) (row q))

theorem closedRange_need (p q : Int) :
    closedRange (need (row p) (col p) (row q) (col q)).1 (need (row p) (col p) (row q) (col q)).2 =
      .ok (line p q) := by
  rw [need_eq, line]
  split <;> exact closedRange_of_le (by simp only; omega)

theorem line_range (p q : Square) {i : Int} (hi : i ∈ line p.key q.key) : 0 ≤ i ∧ i ≤ 7 := by
  have hrp := p.row_range
  have hcp := p.col_range
  have hrq := q.row_range
  have hcq := q.col_range
  rw [line] at hi
  split at hi
  all_goals
    have hrange := mem_upTo.mp hi
    omega

private def walkPath (p dRow dCol : Int) (k : Nat) : Int × Int :=
  (row p + k * dRow.sign, col p + k * dCol.sign)

private theorem sign_cases {a : Int} (h : a ≠ 0) : a.sign = 1 ∧ 0 < a ∨ a.sign = -1 ∧ a < 0 := by
  rcases lt_or_gt_of_ne h with hn | hp
  · exact .inr ⟨Int.sign_eq_neg_one_of_neg hn, hn⟩
  · exact .inl ⟨Int.sign_eq_one_of_pos hp, hp⟩

/-- The keys of a walk run in one direction, by 7 or by 9 a round. -/
theorem walkKey_cases (p : Int) {dRow dCol : Int} (hr : dRow ≠ 0) (hc : dCol ≠ 0) :
    ∃ step : Int, (step = 7 ∨ step = 9 ∨ step = -7 ∨ step = -9) ∧
      ∀ k, walkKey p dRow dCol k = p + k * step := by
  refine ⟨dRow.sign * 8 + dCol.sign, ?_, fun k => ?_⟩
  · rcases sign_cases hr with ⟨h, _⟩ | ⟨h, _⟩ <;>
      rcases sign_cases hc with ⟨h', _⟩ | ⟨h', _⟩ <;> simp [h, h']
  · rw [walkKey]
    linear_combination row_col p

private theorem walkPath_next {p q dRow dCol : Int} (hr : dRow ≠ 0) (hc : dCol ≠ 0)
    (har : |row p - row q| = |dRow|) (hac : |col p - col q| = |dCol|) (k : Nat) :
    (do
      let down ← divide dRow |row p - row q|
      let right ← divide dCol |col p - col q|
      return ((walkPath p dRow dCol k).1 + down, (walkPath p dRow dCol k).2 + right)) =
      Except.ok (walkPath p dRow dCol (k + 1)) := by
  rw [har, hac, divide_abs hr, divide_abs hc]
  simp only [ok_bind, pure_eq_ok, walkPath, Except.ok.injEq, Prod.mk.injEq]
  constructor <;> push_cast <;> ring

private theorem walkPath_key (p dRow dCol : Int) (k : Nat) :
    (walkPath p dRow dCol (k + 1)).1 * 8 + (walkPath p dRow dCol (k + 1)).2 =
      walkKey p dRow dCol (k + 1) := by
  simp only [walkPath, walkKey]
  push_cast
  ring

private theorem walkPath_zero (p dRow dCol : Int) : (row p, col p) = walkPath p dRow dCol 0 := by
  simp [walkPath]

theorem queenKey_outside (p q : Square) (hr : row p.key ≠ row q.key)
    (hc : col p.key ≠ col q.key) {k : Int} (hk : 9 < k) :
    ¬ (0 ≤ queenKey p.key q.key k ∧ queenKey p.key q.key k ≤ 63) := by
  obtain ⟨step, hstep, hkey⟩ := walkKey_cases p.key (sub_ne_zero.mpr hr) (sub_ne_zero.mpr hc)
  have hp := p.key_range
  rw [queenKey, hkey]
  rcases hstep with rfl | rfl | rfl | rfl <;> omega

/-- On a proper diagonal the queen's walk never comes to its target, for every
round takes it farther from that row: it ends at an occupied square or at a
missing key, and never by answering true. -/
theorem queenWalk_eq (h : Full b) (p q : Square) (hr : row p.key ≠ row q.key)
    (hc : col p.key ≠ col q.key) :
    diagonalWalk b (row p.key) (col p.key) (row q.key) (col q.key)
      (row p.key - row q.key) (col p.key - col q.key) =
      Loops.scan (fun k : Nat => occupied b (queenKey p.key q.key (k + 1))) (List.range rounds) ∧
    Loops.scan (fun k : Nat => occupied b (queenKey p.key q.key (k + 1))) (List.range rounds) ≠
      .ok true := by
  have hgo (k : Nat) : (walkPath p.key (row p.key - row q.key) (col p.key - col q.key) k ==
      (row q.key, col q.key)) = false := by
    rw [beq_eq_false_iff_ne, ne_eq, Prod.mk.injEq, not_and_or, walkPath]
    left
    simp only
    rcases sign_cases (sub_ne_zero.mpr hr) with ⟨h, hs⟩ | ⟨h, hs⟩ <;> rw [h] <;> omega
  have hends : Loops.scan (fun k : Nat => occupied b (queenKey p.key q.key (k + 1)))
      (List.range rounds) ≠ .ok true := by
    intro hclear
    have hten : occupied b (queenKey p.key q.key ((9 : Nat) + 1)) = .ok false :=
      (Loops.scan_eq_true_iff _ _).mp hclear 9 (by simp [rounds])
    rw [h.occupied_outside (queenKey_outside p q hr hc (by norm_num))] at hten
    cases hten
  refine ⟨?_, hends⟩
  rw [diagonalWalk, walkWithin, walkPath_zero p.key (row p.key - row q.key) (col p.key - col q.key),
    Loops.walk_eq_late _ _ (walkPath_next (sub_ne_zero.mpr hr) (sub_ne_zero.mpr hc) rfl rfl) hgo]
  simp only [walkPath_key]
  split
  · rename_i hclear
    exact absurd hclear hends
  · rfl

theorem queenLeaves_col {free : Int → Bool} {p q : Int} (h : queenLeaves free p q) :
    col p ≠ col q := by
  obtain ⟨hd, hr, _⟩ := h
  have hrow := abs_pos.mpr (sub_ne_zero.mpr hr)
  rw [hd] at hrow
  exact sub_ne_zero.mp (abs_pos.mp hrow)

/-- A step of the pawn: one row forward, or two from its start row. Columns are not compared. -/
def pawnStep (c : Color) (p q : Int) : Prop :=
  let direction : Int := if c = .black then -1 else 1
  let startRow : Int := if c = .black then 6 else 1
  row p + direction = row q ∨ startRow = row p ∧ row p + direction * 2 = row q

instance (c : Color) (p q : Int) : Decidable (pawnStep c p q) := inferInstanceAs (Decidable (_ ∨ _))

theorem pawnTest_eq (h : Full b) (x : Piece) (p : Int) (q : Square) :
    pawnTest b x p q.key = .ok (decide (pawnStep x.color p q.key) && emptyAt b q.key) := by
  obtain ⟨y, hy⟩ := h.at_square q
  have reach (direction startRow : Int) :
      (if row p + direction = row q.key ∧ y.pieceType = .empty then .ok true
        else if startRow = row p ∧ row p + direction * 2 = row q.key ∧ y.pieceType = .empty then .ok true
        else (.ok false : Except Fault Bool)) =
      .ok (decide (row p + direction = row q.key ∨
        startRow = row p ∧ row p + direction * 2 = row q.key) && y.pieceType == .empty) := by
    by_cases he : y.pieceType = .empty
    · by_cases hone : row p + direction = row q.key
      · simp [he, hone]
      · by_cases htwo : startRow = row p ∧ row p + direction * 2 = row q.key <;> simp [he, hone, htwo]
    · simp [he]
  simp only [pawnTest, hy, force_some, ok_bind, pure_eq_ok, emptyAt_some hy, pawnStep]
  cases x.color with
  | white => exact reach 1 1
  | black => exact reach (-1) 6

theorem knightTest_eq (h : Full b) (p : Int) (q : Square) :
    knightTest b p q.key =
      .ok (decide (knightJump (row p) (col p) (row q.key) (col q.key)) && emptyAt b q.key) := by
  rw [knightTest, andThen, h.vacant_inside q.key_range]
  split <;> simp [*]

theorem diagonal_natAbs {p q : Int} (hd : |row p - row q| = |col p - col q|) :
    (row q - row p).natAbs = (col q - col p).natAbs := by
  rw [Int.abs_eq_natAbs, Int.abs_eq_natAbs] at hd
  omega

/-- The bishop's walk stays between its two squares, so on rows and columns of the board. -/
theorem bishop_coordinates (p q : Square) (hd : |row p.key - row q.key| = |col p.key - col q.key|)
    {k : Nat} (hk : k ≤ (row q.key - row p.key).natAbs) :
    (0 ≤ row p.key + k * (row q.key - row p.key).sign ∧
      row p.key + k * (row q.key - row p.key).sign ≤ 7) ∧
    0 ≤ col p.key + k * (col q.key - col p.key).sign ∧
      col p.key + k * (col q.key - col p.key).sign ≤ 7 := by
  have hrp := p.row_range
  have hcp := p.col_range
  have hrq := q.row_range
  have hcq := q.col_range
  have between {a d : Int} (h : k ≤ d.natAbs) (ha : 0 ≤ a ∧ a ≤ 7) (hd : 0 ≤ a + d ∧ a + d ≤ 7) :
      0 ≤ a + k * d.sign ∧ a + k * d.sign ≤ 7 := by
    rcases lt_trichotomy d 0 with hn | rfl | hp
    · rw [Int.sign_eq_neg_one_of_neg hn]
      omega
    · simpa using ha
    · rw [Int.sign_eq_one_of_pos hp]
      omega
  exact ⟨between hk hrp (by omega), between (diagonal_natAbs hd ▸ hk) hcp (by omega)⟩

theorem bishopKey_range (p q : Square)
    (hd : |row p.key - row q.key| = |col p.key - col q.key|) {k : Nat}
    (hk : k ≤ (row q.key - row p.key).natAbs) :
    0 ≤ bishopKey p.key q.key k ∧ bishopKey p.key q.key k ≤ 63 := by
  obtain ⟨hrow, hcol⟩ := bishop_coordinates p q hd hk
  rw [bishopKey, walkKey]
  omega

private theorem arrive (d : Int) : (d.natAbs : Int) * d.sign = d := by
  rw [mul_comm, Int.sign_mul_natAbs]

theorem bishopKey_last {p q : Int} (hd : |row p - row q| = |col p - col q|) :
    bishopKey p q (row q - row p).natAbs = q := by
  rw [bishopKey, walkKey, arrive, diagonal_natAbs hd, arrive]
  linear_combination row_col q

/-- The bishop's branch scans the diagonal up to and including its target. On
its own square the walk stops before the first round and answers true. -/
theorem bishopTest_eq (b : Board) (p q : Square) :
    bishopTest b p.key q.key =
      if |row p.key - row q.key| = |col p.key - col q.key| then
        Loops.scan (fun k : Nat => occupied b (bishopKey p.key q.key (k + 1)))
          (List.range (row q.key - row p.key).natAbs)
      else .ok false := by
  have hrp := p.row_range
  have hrq := q.row_range
  rw [bishopTest]
  simp only [pure_eq_ok]
  split
  case isFalse => rfl
  case isTrue hd =>
    rw [diagonalWalk, walkWithin, walkPath_zero p.key (row q.key - row p.key) (col q.key - col p.key),
      Loops.walk_eq_scan (walkPath p.key (row q.key - row p.key) (col q.key - col p.key))
        (row q.key - row p.key).natAbs rounds]
    · simp only [walkPath_key]
      rfl
    · unfold rounds
      omega
    · intro k hk
      have hc := diagonal_natAbs hd
      exact walkPath_next (by omega) (by omega) (abs_sub_comm _ _) (abs_sub_comm _ _) k
    · intro k hk
      rw [beq_eq_false_iff_ne, ne_eq, Prod.mk.injEq, not_and_or, walkPath]
      left
      simp only
      rcases sign_cases (a := row q.key - row p.key) (by omega) with ⟨h, hs⟩ | ⟨h, hs⟩ <;>
        rw [h] <;> omega
    · rw [beq_iff_eq, walkPath, Prod.mk.injEq]
      constructor
      · rw [arrive]
        ring
      · rw [diagonal_natAbs hd, arrive]
        ring

theorem bishopTest_ok (h : Full b) (p q : Square) :
    ∃ r, bishopTest b p.key q.key = .ok r := by
  rw [bishopTest_eq]
  split
  · rename_i hd
    apply Loops.scan_ok
    intro k hk
    have hrange := bishopKey_range p q hd (Nat.succ_le_of_lt (List.mem_range.mp hk))
    push_cast at hrange
    exact ⟨_, h.occupied_inside hrange⟩
  · exact ⟨false, rfl⟩

/-- The bound on the diagonal loops is immaterial: on a full board a loop that
runs at all ends within it, and a larger bound changes no answer. -/
theorem diagonalWalk_bound (h : Full b) (p q : Square)
    (hd : |row p.key - row q.key| = |col p.key - col q.key|) (hr : row p.key ≠ row q.key)
    {more : Nat} (hm : rounds ≤ more) :
    walkWithin more b (row p.key) (col p.key) (row q.key) (col q.key)
        (row p.key - row q.key) (col p.key - col q.key) =
      diagonalWalk b (row p.key) (col p.key) (row q.key) (col q.key)
        (row p.key - row q.key) (col p.key - col q.key) ∧
    walkWithin more b (row p.key) (col p.key) (row q.key) (col q.key)
        (row q.key - row p.key) (col q.key - col p.key) =
      diagonalWalk b (row p.key) (col p.key) (row q.key) (col q.key)
        (row q.key - row p.key) (col q.key - col p.key) := by
  have hc := diagonal_natAbs hd
  constructor
  · apply Loops.walk_fuel_mono hm
    intro hlate
    change diagonalWalk b _ _ _ _ _ _ = _ at hlate
    rw [(queenWalk_eq h p q hr (by omega)).1] at hlate
    obtain ⟨k, _, hk⟩ := Loops.scan_error hlate
    by_cases hin : 0 ≤ queenKey p.key q.key (k + 1) ∧ queenKey p.key q.key (k + 1) ≤ 63
    · rw [h.occupied_inside hin] at hk
      cases hk
    · rw [h.occupied_outside hin] at hk
      cases hk
  · apply Loops.walk_fuel_mono hm
    intro hlate
    obtain ⟨r, hr⟩ := h.bishopTest_ok p q
    rw [bishopTest] at hr
    simp only [if_pos hd] at hr
    rw [diagonalWalk, walkWithin, hlate] at hr
    cases hr

end Full
end MyIVR
