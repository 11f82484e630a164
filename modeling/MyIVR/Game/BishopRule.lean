import MyIVR.Game.Acceptance
import MyIVR.Game.InitialBoard

/-! Bishop and knight as the turn loop accepts them. Their branches follow the
rules of the game: the bishop's walk visits the squares between and then the
target, which the capture test has emptied. -/
namespace MyIVR
open Swift Full

/-- k lies strictly between p and q on their common diagonal. -/
def BetweenDiagonally (p q k : Int) : Prop :=
  |row k - row p| = |col k - col p| ∧ |row k - row q| = |col k - col q| ∧
    (min (row p) (row q) < row k ∧ row k < max (row p) (row q)) ∧
    min (col p) (col q) < col k ∧ col k < max (col p) (col q)

instance (p q k : Int) : Decidable (BetweenDiagonally p q k) := inferInstanceAs (Decidable (_ ∧ _))

def DiagonalEmpty (b : Board) (p q : Square) : Prop :=
  ∀ s : Square, BetweenDiagonally p.key q.key s.key → emptyAt b s.key = true

instance (b : Board) (p q : Square) : Decidable (DiagonalEmpty b p q) :=
  inferInstanceAs (Decidable (∀ _ : Square, _ → _))

def BishopRule (b : Board) (p q : Square) : Prop :=
  |row p.key - row q.key| = |col p.key - col q.key| ∧ DiagonalEmpty b p q ∧ Takeable b p.key q.key

instance (b : Board) (p q : Square) : Decidable (BishopRule b p q) := inferInstanceAs (Decidable (_ ∧ _))

def KnightRule (b : Board) (p q : Square) : Prop :=
  (|row p.key - row q.key| = 1 ∧ |col p.key - col q.key| = 2 ∨
    |row p.key - row q.key| = 2 ∧ |col p.key - col q.key| = 1) ∧ Takeable b p.key q.key

instance (b : Board) (p q : Square) : Decidable (KnightRule b p q) := inferInstanceAs (Decidable (_ ∧ _))

section diagonal
variable {p q : Square} (hd : |row p.key - row q.key| = |col p.key - col q.key|)
include hd

private theorem bishopKey_coordinates {k : Nat} (hk : k ≤ (row q.key - row p.key).natAbs) :
    row (bishopKey p.key q.key k) = row p.key + k * (row q.key - row p.key).sign ∧
      col (bishopKey p.key q.key k) = col p.key + k * (col q.key - col p.key).sign := by
  obtain ⟨hrow, hcol⟩ := bishop_coordinates p q hd hk
  exact ⟨row_coordinates hrow.1 hcol, col_coordinates hrow.1 hcol⟩

private theorem bishopKey_between {k : Nat} (hpos : 0 < k) (hk : k < (row q.key - row p.key).natAbs) :
    BetweenDiagonally p.key q.key (bishopKey p.key q.key k) := by
  obtain ⟨hrow, hcol⟩ := bishopKey_coordinates hd hk.le
  have hcols := diagonal_natAbs hd
  rw [BetweenDiagonally, hrow, hcol]
  simp only [Int.abs_eq_natAbs]
  rcases Int.lt_or_lt_of_ne (show row q.key - row p.key ≠ 0 by omega) with hr | hr <;>
    rcases Int.lt_or_lt_of_ne (show col q.key - col p.key ≠ 0 by omega) with hc | hc <;>
      simp only [Int.sign_eq_neg_one_of_neg, Int.sign_eq_one_of_pos, hr, hc] <;> omega

private theorem between_bishopKey {s : Square} (hs : BetweenDiagonally p.key q.key s.key) :
    ∃ k : Nat, 0 < k ∧ k < (row q.key - row p.key).natAbs ∧ bishopKey p.key q.key k = s.key := by
  obtain ⟨hp, _, hrows, hcols⟩ := hs
  have hkey := row_col s.key
  simp only [Int.abs_eq_natAbs] at hp hd
  refine ⟨(row s.key - row p.key).natAbs, by omega, by omega, ?_⟩
  rw [bishopKey, walkKey]
  rcases Int.lt_or_lt_of_ne (show row q.key - row p.key ≠ 0 by omega) with hr | hr <;>
    rcases Int.lt_or_lt_of_ne (show col q.key - col p.key ≠ 0 by omega) with hc | hc <;>
      simp only [Int.sign_eq_neg_one_of_neg, Int.sign_eq_one_of_pos, hr, hc] <;> omega

/-- The bishop's line is free up to its target exactly when the squares between are empty. -/
theorem bishop_lineFree_iff (b : Board) : LineFree b .bishop p.key q.key ↔ DiagonalEmpty b p q := by
  constructor
  · intro hfree s hs
    obtain ⟨k, hpos, hk, hkey⟩ := between_bishopKey hd hs
    have hmem : s.key ∈ sightline .bishop p.key q.key := by
      refine List.mem_map.mpr ⟨k - 1, List.mem_range.mpr (by omega), ?_⟩
      rw [← Nat.cast_add_one, Nat.sub_add_cancel hpos, hkey]
    refine (hfree _ hmem).2.resolve_left (fun heq => ?_)
    have hrows := hs.2.2.1
    rw [heq] at hrows
    omega
  · intro hempty key hmem
    refine ⟨bishop_line_inside hd key hmem, ?_⟩
    obtain ⟨s, rfl⟩ := exists_square (bishop_line_inside hd key hmem)
    obtain ⟨k, hk, hkey⟩ := List.mem_map.mp hmem
    rw [List.mem_range] at hk
    by_cases hlast : k + 1 = (row q.key - row p.key).natAbs
    · left
      rw [← hkey, ← Nat.cast_add_one, hlast, bishopKey_last hd]
    · right
      have hbetween := bishopKey_between hd (k := k + 1) (by omega) (by omega)
      rw [Nat.cast_add_one, hkey] at hbetween
      exact hempty s hbetween

end diagonal

theorem knightJump_iff (r c r₁ c₁ : Int) :
    knightJump r c r₁ c₁ ↔ |r - r₁| = 1 ∧ |c - c₁| = 2 ∨ |r - r₁| = 2 ∧ |c - c₁| = 1 := by
  simp only [knightJump, Int.abs_eq_natAbs]
  omega

namespace Full
variable {g : GameData} {p q : Square}

private theorem bishop_answers (h : Full g.boardA) (hne : p ≠ q)
    (hbishop : typeAt g.boardA p.key = some .bishop) :
    acceptance g p.key q.key = .ok (decide (BishopRule g.boardA p q)) := by
  obtain ⟨x, hx⟩ := h.at_square p
  have ht : x.pieceType = .bishop := by rwa [typeAt_some hx, Option.some.injEq] at hbishop
  have follows := h.acceptance_follows_iff p q hx (fun _ => hne) (P := BishopRule g.boardA p q)
  rw [ht] at follows
  refine (follows fun hrule => ⟨hrule.1, hrule.2.2⟩).mpr ?_
  rintro ⟨hd, htarget⟩
  refine ⟨by simp, ?_⟩
  rw [bishop_lineFree_iff hd]
  exact ⟨fun hempty => ⟨hd, hempty, htarget⟩, fun hrule => hrule.2.1⟩

private theorem knight_answers (h : Full g.boardA) (hknight : typeAt g.boardA p.key = some .knight) :
    acceptance g p.key q.key = .ok (decide (KnightRule g.boardA p q)) := by
  obtain ⟨x, hx⟩ := h.at_square p
  have ht : x.pieceType = .knight := by rwa [typeAt_some hx, Option.some.injEq] at hknight
  have follows := h.acceptance_follows_iff p q hx (fun hb => by rw [ht] at hb; cases hb)
    (P := KnightRule g.boardA p q)
  have lineFree : LineFree g.boardA .knight p.key q.key := by simp [LineFree, sightline]
  have rule : KnightRule g.boardA p q ↔
      Reaches .knight x.color p.key q.key ∧ Takeable g.boardA p.key q.key := by
    rw [KnightRule, Reaches, knightJump_iff]
  rw [ht] at follows
  exact (follows rule.mp).mpr fun both => ⟨by simp, iff_of_true lineFree (rule.mpr both)⟩

/-- Between two different squares of a full board the loop's condition returns
and follows the rule of the game, for a bishop and for a knight. -/
theorem bishop_and_knight_rules (h : Full g.boardA) (hne : p ≠ q) :
    (typeAt g.boardA p.key = some .bishop →
      acceptance g p.key q.key = .ok (decide (BishopRule g.boardA p q))) ∧
    (typeAt g.boardA p.key = some .knight →
      acceptance g p.key q.key = .ok (decide (KnightRule g.boardA p q))) :=
  ⟨h.bishop_answers hne, h.knight_answers⟩

end Full

/-- A white bishop takes a black pawn two steps along its diagonal. -/
theorem bishop_takes_pawn :
    acceptance ((GameData.new.initBoardA.goTo 11 27).goTo 52 20) 2 20 = .ok true :=
  ((Full.bishop_and_knight_rules (p := 2) (q := 20)
    (GameData.full_goTo (GameData.full_goTo full_newGame (p := 11) (q := 27)
      (by decide) (by decide)) (p := 52) (q := 20) (by decide) (by decide)) (by decide)).1
        (by decide +kernel)).trans (by decide +kernel)

end MyIVR
