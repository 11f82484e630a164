import MyIVR.Game.Acceptance
import MyIVR.Game.InitialBoard

/-! The pawn's moves as the turn loop accepts them, against the rule of the game.
The branch compares rows only, and the capture test asks it again with the
target emptied, so a pawn reaches every column and takes what stands ahead. -/
namespace MyIVR
open Swift Full

def Color.direction : Color → Int
  | .white => 1
  | .black => -1

def Color.startRow : Color → Int
  | .white => 1
  | .black => 6

/-- How a pawn of a colour moves: one step ahead, two from its start row, or a
capture one step ahead in an adjacent column. -/
def PawnRule (b : Board) (c : Color) (p q : Square) : Prop :=
  row q.key = row p.key + c.direction ∧ col q.key = col p.key ∧ emptyAt b q.key = true ∨
    row p.key = c.startRow ∧ row q.key = row p.key + c.direction * 2 ∧ col q.key = col p.key ∧
      emptyAt b q.key = true ∧ emptyAt b (p.key + c.direction * 8) = true ∨
    row q.key = row p.key + c.direction ∧ |col q.key - col p.key| = 1 ∧ emptyAt b q.key = false ∧
      colorAt b q.key ≠ some c

instance (b : Board) (c : Color) (p q : Square) : Decidable (PawnRule b c p q) :=
  inferInstanceAs (Decidable (_ ∨ _))

/-- What the branch leaves unasked of a target it lets the pawn go to or take. -/
def PawnKeepsFile (b : Board) (c : Color) (p q : Square) : Prop :=
  (row q.key = row p.key + c.direction →
    if emptyAt b q.key = true then col q.key = col p.key else |col q.key - col p.key| = 1) ∧
  (row p.key = c.startRow ∧ row q.key = row p.key + c.direction * 2 →
    col q.key = col p.key ∧ emptyAt b q.key = true ∧ emptyAt b (p.key + c.direction * 8) = true)

instance (b : Board) (c : Color) (p q : Square) : Decidable (PawnKeepsFile b c p q) :=
  inferInstanceAs (Decidable (_ ∧ _))

theorem pawnStep_iff (c : Color) (p q : Int) :
    pawnStep c p q ↔
      row q = row p + c.direction ∨ row p = c.startRow ∧ row q = row p + c.direction * 2 := by
  cases c <;> simp only [pawnStep, Color.direction, Color.startRow, reduceCtorEq, if_true, if_false] <;> omega

namespace Full
variable {g : GameData} {c : Color}

private theorem pawn_takeable {b : Board} {p q : Int} (hcolor : colorAt b p = some c) :
    Takeable b p q ↔ emptyAt b q = true ∨ colorAt b q ≠ some c := by
  rw [Takeable, hcolor]

/-- The pawn is let through to every target it can take in the rows it steps to. -/
theorem pawn_accepted_iff (h : Full g.boardA) (p q : Square) (hpawn : typeAt g.boardA p.key = some .pawn)
    (hcolor : colorAt g.boardA p.key = some c) :
    acceptance g p.key q.key = .ok true ↔ pawnStep c p.key q.key ∧ Takeable g.boardA p.key q.key := by
  obtain ⟨x, hx⟩ := h.at_square p
  have ht : x.pieceType = .pawn := by rwa [typeAt_some hx, Option.some.injEq] at hpawn
  have hc : x.color = c := by rwa [colorAt_some hx, Option.some.injEq] at hcolor
  have accepted := h.accepted_iff p q hx (fun hb => by rw [ht] at hb; cases hb)
  have lineFree : LineFree g.boardA .pawn p.key q.key := by simp [LineFree, sightline]
  rwa [ht, hc, and_iff_left lineFree] at accepted

theorem pawn_rule_accepted (h : Full g.boardA) {p q : Square} (hpawn : typeAt g.boardA p.key = some .pawn)
    (hcolor : colorAt g.boardA p.key = some c) (hrule : PawnRule g.boardA c p q) :
    acceptance g p.key q.key = .ok true := by
  rw [h.pawn_accepted_iff p q hpawn hcolor, pawnStep_iff, pawn_takeable hcolor]
  rcases hrule with ⟨hr, _, hq⟩ | ⟨hs, hr, _, hq, _⟩ | ⟨hr, _, _, hne⟩
  · exact ⟨.inl hr, .inl hq⟩
  · exact ⟨.inr ⟨hs, hr⟩, .inl hq⟩
  · exact ⟨.inl hr, .inr hne⟩

/-- The acceptance test follows the pawn rule on a pair exactly when, for a
target that can be taken: one row ahead it is empty in the same column or
occupied in an adjacent one, and two rows ahead of the start row it and the
square passed over are empty and it is in the same column. -/
theorem pawn_rule_iff (h : Full g.boardA) (p q : Square) (hpawn : typeAt g.boardA p.key = some .pawn)
    (hcolor : colorAt g.boardA p.key = some c) :
    (acceptance g p.key q.key = .ok true ↔ PawnRule g.boardA c p q) ↔
      (Takeable g.boardA p.key q.key → PawnKeepsFile g.boardA c p q) := by
  have haccepted := h.pawn_accepted_iff p q hpawn hcolor
  rw [pawnStep_iff] at haccepted
  have hdir : c.direction ≠ c.direction * 2 := by cases c <;> decide
  constructor
  · intro hiff htarget
    constructor
    · intro hr
      rcases hiff.mp (haccepted.mpr ⟨.inl hr, htarget⟩) with ⟨_, hc, hq⟩ | ⟨_, hr', _⟩ | ⟨_, hc, hq, _⟩
      · rwa [if_pos hq]
      · omega
      · rwa [if_neg (by simp [hq])]
    · rintro ⟨hs, hr⟩
      rcases hiff.mp (haccepted.mpr ⟨.inr ⟨hs, hr⟩, htarget⟩) with ⟨hr', _⟩ | ⟨_, _, hc, hq, hmid⟩ | ⟨hr', _⟩
      · omega
      · exact ⟨hc, hq, hmid⟩
      · omega
  · intro hfile
    refine ⟨fun hacc => ?_, h.pawn_rule_accepted hpawn hcolor⟩
    obtain ⟨hstep, htarget⟩ := haccepted.mp hacc
    obtain ⟨hone, htwo⟩ := hfile htarget
    rcases hstep with hr | ⟨hs, hr⟩
    · cases hq : emptyAt g.boardA q.key with
      | true => exact .inl ⟨hr, by simpa [hq] using hone hr, hq⟩
      | false =>
        have hne := ((pawn_takeable hcolor).mp htarget).resolve_left (by simp [hq])
        exact .inr (.inr ⟨hr, by simpa [hq] using hone hr, hq, hne⟩)
    · obtain ⟨hc, hq, hmid⟩ := htwo ⟨hs, hr⟩
      exact .inr (.inl ⟨hs, hr, hc, hq, hmid⟩)

end Full

/-- In a new game white's pawn on 8 is let through to 17, one row ahead in the next column. -/
theorem pawn_changes_file :
    Full GameData.new.initBoardA.boardA ∧ typeAt GameData.new.initBoardA.boardA 8 = some .pawn ∧
      colorAt GameData.new.initBoardA.boardA 8 = some .white ∧
      ¬ PawnRule GameData.new.initBoardA.boardA .white 8 17 ∧
      acceptance GameData.new.initBoardA 8 17 = .ok true := by
  refine ⟨full_newGame, ?_, ?_, ?_, ?_⟩ <;> decide +kernel

/-- In a new game white's pawn on 8 is let through two rows ahead to 24, as it should. -/
theorem pawn_double_step : acceptance GameData.new.initBoardA 8 24 = .ok true :=
  ((Full.pawn_rule_iff (c := .white) full_newGame 8 24 (by decide +kernel) (by decide +kernel)).mpr
    (by decide +kernel)).mpr (by decide +kernel)

end MyIVR
