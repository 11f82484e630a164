import MyIVR.Game.Acceptance
import MyIVR.Game.InitialBoard

/-! The rook's moves as the turn loop accepts them, against the rule of the
game. The loop asks the right geometry and the right target, and then looks at
squares that are not the ones between. -/
namespace MyIVR
open Swift Full

/-- k lies strictly between p and q on their common row or column. -/
def Between (p q k : Int) : Prop :=
  row k = row p ∧ row k = row q ∧ min (col p) (col q) < col k ∧ col k < max (col p) (col q) ∨
    col k = col p ∧ col k = col q ∧ min (row p) (row q) < row k ∧ row k < max (row p) (row q)

instance (p q k : Int) : Decidable (Between p q k) := inferInstanceAs (Decidable (_ ∨ _))

def PathEmpty (b : Board) (p q : Square) : Prop :=
  ∀ s : Square, Between p.key q.key s.key → emptyAt b s.key = true

instance (b : Board) (p q : Square) : Decidable (PathEmpty b p q) :=
  inferInstanceAs (Decidable (∀ _ : Square, _ → _))

def RookRule (b : Board) (p q : Square) : Prop :=
  q ≠ p ∧ (row p.key = row q.key ∨ col p.key = col q.key) ∧ PathEmpty b p q ∧ Takeable b p.key q.key

instance (b : Board) (p q : Square) : Decidable (RookRule b p q) := inferInstanceAs (Decidable (_ ∧ _))

/-- The acceptance test follows the rook rule on a pair exactly when, for a target in
line that can be taken, the loop does not leave the board before an occupied square stops
it, and the squares it looks up are free if and only if the squares between are. -/
theorem Full.rook_rule_iff {g : GameData} (h : Full g.boardA) (p q : Square)
    (hrook : typeAt g.boardA p.key = some .rook) :
    acceptance g p.key q.key = .ok (decide (RookRule g.boardA p q)) ↔
      ((row p.key = row q.key ∨ col p.key = col q.key) ∧ Takeable g.boardA p.key q.key →
        ¬ rookLeaves (freeFor g.boardA q.key) p.key q.key ∧
          (LineFree g.boardA .rook p.key q.key ↔ PathEmpty g.boardA p q)) := by
  obtain ⟨x, hx⟩ := h.at_square p
  have ht : x.pieceType = .rook := by rwa [typeAt_some hx, Option.some.injEq] at hrook
  have hself (htarget : Takeable g.boardA p.key q.key) : q ≠ p := by
    rintro rfl
    exact not_takeable_self (by simp [emptyAt, hrook]) htarget
  have follows := h.acceptance_follows_iff p q hx (fun hb => by rw [ht] at hb; cases hb)
    (P := RookRule g.boardA p q)
  rw [ht] at follows
  rw [follows (fun hrule => ⟨hrule.2.1.symm, hrule.2.2.2⟩), Reaches, or_comm]
  refine imp_congr_right fun reached => ?_
  obtain ⟨hline, htarget⟩ := reached
  have hrule : RookRule g.boardA p q ↔ PathEmpty g.boardA p q :=
    ⟨fun all => all.2.2.1, fun hpath => ⟨hself htarget, hline, hpath, htarget⟩⟩
  rw [hrule]
  simp

/-- White's rook is refused the square in front of it after its pawn left that
square: the loop looks at 9, where the next pawn stands. -/
theorem freed_rook_refused :
    Full (GameData.new.initBoardA.goTo 8 24).boardA ∧
      typeAt (GameData.new.initBoardA.goTo 8 24).boardA 0 = some .rook ∧
      RookRule (GameData.new.initBoardA.goTo 8 24).boardA 0 8 ∧
      acceptance (GameData.new.initBoardA.goTo 8 24) 0 8 = .ok false := by
  refine ⟨GameData.full_goTo full_newGame (by decide) (by decide), ?_, ?_, ?_⟩ <;> decide +kernel

/-- A rook on 1 is let through to 9, the one step up a column on which the loop looks at its target alone. -/
theorem second_file_rook_accepted :
    acceptance ((GameData.new.initBoardA.goTo 9 25).goTo 0 1) 1 9 = .ok true :=
  ((Full.rook_rule_iff (GameData.full_goTo (GameData.full_goTo full_newGame (p := 9) (q := 25)
    (by decide) (by decide)) (p := 0) (q := 1) (by decide) (by decide)) 1 9 (by decide +kernel)).mpr
      (by decide +kernel)).trans (by decide +kernel)

end MyIVR
