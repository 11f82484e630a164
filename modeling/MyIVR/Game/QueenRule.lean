import MyIVR.Game.BishopRule
import MyIVR.Game.RookRule

/-! The queen's moves as the turn loop accepts them, against the rule of the
game. Along a row or column the loop looks at squares that are not the ones
between; along a diagonal the walk goes away from its target. -/
namespace MyIVR
open Swift Full

/-- p and q lie on one diagonal and on no common row. -/
def OnDiagonal (p q : Int) : Prop := |row p - row q| = |col p - col q| ∧ row p ≠ row q

instance (p q : Int) : Decidable (OnDiagonal p q) := inferInstanceAs (Decidable (_ ∧ _))

def QueenRule (b : Board) (p q : Square) : Prop :=
  q ≠ p ∧ (row p.key = row q.key ∨ col p.key = col q.key ∨ |row p.key - row q.key| = |col p.key - col q.key|) ∧
    PathEmpty b p q ∧ DiagonalEmpty b p q ∧ Takeable b p.key q.key

instance (b : Board) (p q : Square) : Decidable (QueenRule b p q) := inferInstanceAs (Decidable (_ ∧ _))

theorem not_straight {p q : Square} (hd : OnDiagonal p.key q.key) :
    ¬ (row p.key = row q.key ∨ col p.key = col q.key) := by
  have hcol := diagonal_natAbs hd.1
  have hrow := hd.2
  omega

theorem diagonalEmpty_of_straight (b : Board) {p q : Square}
    (hs : row p.key = row q.key ∨ col p.key = col q.key) : DiagonalEmpty b p q := by
  rintro s ⟨_, _, hrows, hcols⟩
  omega

theorem pathEmpty_of_diagonal (b : Board) {p q : Square} (hr : row p.key ≠ row q.key)
    (hc : col p.key ≠ col q.key) : PathEmpty b p q := by
  rintro s (⟨hp, hq, _⟩ | ⟨hp, hq, _⟩)
  · exact absurd (hp.symm.trans hq) hr
  · exact absurd (hp.symm.trans hq) hc

theorem queen_reaches_iff {c : Color} {p q : Int} :
    Reaches .queen c p q ↔ (row p = row q ∨ col p = col q) ∨ OnDiagonal p q := by
  constructor
  · rintro (hd | hc | hr)
    · by_cases hr : row p = row q
      · exact .inl (.inl hr)
      · exact .inr ⟨hd, hr⟩
    · exact .inl (.inr hc)
    · exact .inl (.inl hr)
  · rintro ((hr | hc) | ⟨hd, _⟩)
    · exact .inr (.inr hr)
    · exact .inr (.inl hc)
    · exact .inl hd

/-- The queen's walk has no free line: it leaves the board. -/
theorem queen_diagonal_not_free (b : Board) {p q : Square} (hr : row p.key ≠ row q.key)
    (hc : col p.key ≠ col q.key) : ¬ LineFree b .queen p.key q.key := by
  intro hfree
  have hmem : queenKey p.key q.key ((9 : Nat) + 1) ∈ sightline .queen p.key q.key := by
    rw [sightline, if_neg hr, if_neg hc]
    exact List.mem_map.mpr ⟨9, by simp [rounds], rfl⟩
  exact queenKey_outside p q hr hc (by norm_num) (hfree _ hmem).1

namespace Full
variable {g : GameData}

/-- The acceptance test follows the queen rule on a pair exactly when, for a
target that can be taken: on a row or column the squares the loop looks up are
free if and only if the squares between are, and on a diagonal some square
between is occupied and the walk, which goes the other way, does not leave the
board before an occupied square stops it. -/
theorem queen_rule_iff (h : Full g.boardA) (p q : Square)
    (hqueen : typeAt g.boardA p.key = some .queen) :
    acceptance g p.key q.key = .ok (decide (QueenRule g.boardA p q)) ↔
      (Takeable g.boardA p.key q.key →
        (row p.key = row q.key ∨ col p.key = col q.key →
          (LineFree g.boardA .queen p.key q.key ↔ PathEmpty g.boardA p q)) ∧
        (OnDiagonal p.key q.key → ¬ DiagonalEmpty g.boardA p q ∧
          ¬ queenLeaves (freeFor g.boardA q.key) p.key q.key)) := by
  obtain ⟨x, hx⟩ := h.at_square p
  have ht : x.pieceType = .queen := by rwa [typeAt_some hx, Option.some.injEq] at hqueen
  have hself (htarget : Takeable g.boardA p.key q.key) : q ≠ p := by
    rintro rfl
    exact not_takeable_self (by simp [emptyAt, hqueen]) htarget
  have follows := h.acceptance_follows_iff p q hx (fun hb => by rw [ht] at hb; cases hb)
    (P := QueenRule g.boardA p q)
  rw [ht] at follows
  have geometry (hrule : QueenRule g.boardA p q) : Reaches .queen x.color p.key q.key :=
    hrule.2.1.elim (fun hr => .inr (.inr hr)) (Or.elim · (fun hc => .inr (.inl hc)) .inl)
  rw [follows (fun hrule => ⟨geometry hrule, hrule.2.2.2.2⟩), queen_reaches_iff, and_comm, and_imp]
  refine imp_congr_right fun htarget => ?_
  by_cases hs : row p.key = row q.key ∨ col p.key = col q.key
  · have hrule : QueenRule g.boardA p q ↔ PathEmpty g.boardA p q :=
      ⟨fun all => all.2.2.1, fun hpath =>
        ⟨hself htarget, or_assoc.mp (.inl hs), hpath, diagonalEmpty_of_straight _ hs, htarget⟩⟩
    have hstay : ¬ queenLeaves (freeFor g.boardA q.key) p.key q.key :=
      fun hl => hs.elim hl.2.1 (queenLeaves_col hl)
    have hstraight : ¬ OnDiagonal p.key q.key := fun hd => absurd hs (not_straight hd)
    simp [hs, hrule, hstay, hstraight]
  · obtain ⟨hr, hc⟩ := not_or.mp hs
    have hline : ¬ LineFree g.boardA .queen p.key q.key := queen_diagonal_not_free _ hr hc
    by_cases hd : OnDiagonal p.key q.key
    · have hrule : QueenRule g.boardA p q ↔ DiagonalEmpty g.boardA p q :=
        ⟨fun all => all.2.2.2.1, fun hempty =>
          ⟨hself htarget, .inr (.inr hd.1), pathEmpty_of_diagonal _ hr hc, hempty, htarget⟩⟩
      simp [hs, hd, hrule, hline, and_comm]
    · simp [hs, hd]

end Full

/-- White's queen is refused the square in front of it after its pawn left that
square: the loop looks at 8 and 9, where pawns stand. -/
theorem freed_queen_refused :
    Full (GameData.new.initBoardA.goTo 11 27).boardA ∧
      typeAt (GameData.new.initBoardA.goTo 11 27).boardA 3 = some .queen ∧
      QueenRule (GameData.new.initBoardA.goTo 11 27).boardA 3 11 ∧
      acceptance (GameData.new.initBoardA.goTo 11 27) 3 11 = .ok false := by
  refine ⟨GameData.full_goTo full_newGame (by decide) (by decide), ?_, ?_, ?_⟩ <;> decide +kernel

/-- A queen on 19 is let through to 27, one step up its column with an empty row ahead. -/
theorem advanced_queen_accepted :
    acceptance (GameData.new.initBoardA.goTo 3 19) 19 27 = .ok true :=
  ((Full.queen_rule_iff (GameData.full_goTo full_newGame (p := 3) (q := 19) (by decide) (by decide)) 19 27
    (by decide +kernel)).mpr (by decide +kernel)).trans (by decide +kernel)

end MyIVR
