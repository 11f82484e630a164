import MyIVR.Game.Acceptance
import MyIVR.Game.TurnInvariant

/-! The kind of a move. CanGoTo is meant for empty targets and canKill for
occupied ones, and the loop asks CanGoTo first. A bishop on its own square and
some captures by rooks pass as quiet moves, and for black, to whom empty squares
look like white pieces, quiet moves pass as captures too. -/
namespace MyIVR
open Swift Full

/-- CanGoTo holds for empty targets only, canKill for pieces of the other colour
only, and never both. -/
def Separated (g : GameData) (p q : Int) : Prop :=
  (canGoTo g.boardA p q = .ok true → emptyAt g.boardA q = true) ∧
    (kills g p q = .ok true → emptyAt g.boardA q = false ∧ colorAt g.boardA q ≠ colorAt g.boardA p) ∧
    ¬ (canGoTo g.boardA p q = .ok true ∧ kills g p q = .ok true)

/-- Every key the branch looks up is on the board and empty, the target too if it is among them. -/
def LineEmpty (b : Board) (type : PieceType) (p q : Int) : Prop :=
  ∀ k ∈ sightline type p q, OnBoard k ∧ emptyAt b k = true

instance (b : Board) (type : PieceType) (p q : Int) : Decidable (LineEmpty b type p q) :=
  inferInstanceAs (Decidable (∀ _ ∈ _, _))

/-- The pair is not that of a bishop with its own square, nor that of a rook with
a piece of the other colour in its row or column behind keys that are all empty. -/
def QuietOnly (b : Board) (p q : Int) : Prop :=
  ∀ x ∈ b p, (x.pieceType = .bishop → p ≠ q) ∧
    (x.pieceType = .rook → Reaches .rook x.color p q → emptyAt b q = false → colorAt b q ≠ some x.color →
      ¬ LineEmpty b .rook p q)

/-- The pair is not that of a black piece with an empty square of its geometry
behind keys that are all empty. -/
def CaptureOnly (b : Board) (p q : Int) : Prop :=
  ∀ x ∈ b p, x.color = .black → emptyAt b q = true → Reaches x.pieceType x.color p q →
    ¬ LineEmpty b x.pieceType p q

/-- The branch that ran is the one for the target: GoTo for an empty square, kill
for a piece of the other colour. -/
def Move.FitsBranch (m : Move) : Prop :=
  match m.kind with
  | .goTo => emptyAt m.before.boardA m.nextPosition = true
  | .kill => emptyAt m.before.boardA m.nextPosition = false ∧
      colorAt m.before.boardA m.nextPosition ≠ colorAt m.before.boardA m.position

theorem lineEmpty_iff {b : Board} {type : PieceType} {p q : Int} :
    LineEmpty b type p q ↔ look (emptyAt b) (sightline type p q) = .clear := look_eq_clear_iff.symm

private theorem answer_true_iff {s : Sight} : s.answer = .ok true ↔ s = .clear :=
  Sight.answer_inj (t := .clear)

namespace Full
variable {g : GameData}

theorem canGoTo_true_iff {b : Board} (h : Full b) (p q : Square) {x : Piece} (hx : b p.key = some x) :
    canGoTo b p.key q.key = .ok true ↔
      (Reaches x.pieceType x.color p.key q.key ∧ Admits b x.pieceType x.color q.key) ∧
        LineEmpty b x.pieceType p.key q.key := by
  rw [h.canGoTo_look p q hx, lineEmpty_iff]
  split
  · rename_i both
    rw [answer_true_iff, and_iff_right both]
  · rename_i hno
    simp [hno]

theorem kills_true_iff (h : Full g.boardA) (p q : Square) {x : Piece} (hx : g.boardA p.key = some x) :
    kills g p.key q.key = .ok true ↔
      (colorAt g.boardA q.key ≠ some x.color ∧ Reaches x.pieceType x.color p.key q.key) ∧
        LineFree g.boardA x.pieceType p.key q.key := by
  rw [h.kills_look p q hx, ← look_freeFor_iff]
  split
  · rename_i both
    rw [answer_true_iff, and_iff_right both]
  · rename_i hno
    simp [hno]

theorem lineFree_of_empty {b : Board} {type : PieceType} {p q : Int} (hq : emptyAt b q = true) :
    LineFree b type p q ↔ LineEmpty b type p q := by
  rw [← look_freeFor_iff, lineEmpty_iff, freeFor_of_emptyAt hq]

theorem quietOnly_iff {b : Board} (h : Full b) (p q : Square) :
    (canGoTo b p.key q.key = .ok true → emptyAt b q.key = true) ↔ QuietOnly b p.key q.key := by
  obtain ⟨x, hx⟩ := h.at_square p
  have hgo := h.canGoTo_true_iff p q hx
  constructor
  · intro hquiet y hy
    cases hx.symm.trans hy
    constructor
    · intro ht heq
      have hstays : canGoTo b p.key q.key = .ok true := by
        rw [hgo, ht, ← heq]
        exact ⟨⟨by simp [Reaches], trivial⟩, by simp [LineEmpty, sightline]⟩
      have hempty := hquiet hstays
      rw [← heq, emptyAt_some hx, ht] at hempty
      cases hempty
    · intro ht hr hq hne hline
      have hempty := hquiet (hgo.mpr (by rw [ht]; exact ⟨⟨hr, .inr hne⟩, hline⟩))
      rw [hq] at hempty
      cases hempty
  · intro hquiet hgoes
    obtain ⟨⟨hr, admits⟩, hline⟩ := hgo.mp hgoes
    obtain ⟨hbishop, hrook⟩ := hquiet x hx
    cases hq : emptyAt b q.key with
    | true => rfl
    | false =>
      rcases (admits_occupied hq).mp admits with ht | ⟨ht, hne⟩
      · rw [ht] at hr hline
        have hmem := target_mem_bishop_line (fun heq => hbishop ht (congrArg Square.key heq)) hr
        exact hq.symm.trans (hline _ hmem).2
      · rw [ht] at hr hline
        exact absurd hline (hrook ht hr hq hne)

theorem captureOnly_iff (h : Full g.boardA) (hw : EmptiesWhite g.boardA) (p q : Square) :
    (kills g p.key q.key = .ok true →
      emptyAt g.boardA q.key = false ∧ colorAt g.boardA q.key ≠ colorAt g.boardA p.key) ↔
      CaptureOnly g.boardA p.key q.key := by
  obtain ⟨x, hx⟩ := h.at_square p
  have hkills := h.kills_true_iff p q hx
  constructor
  · intro hcapture y hy hblack hq hr hline
    cases hx.symm.trans hy
    have hne : colorAt g.boardA q.key ≠ some x.color := by
      rw [hw _ hq, hblack]
      decide
    have htaken := (hcapture (hkills.mpr ⟨⟨hne, hr⟩, (lineFree_of_empty hq).mpr hline⟩)).1
    rw [hq] at htaken
    cases htaken
  · intro hcapture hkilled
    obtain ⟨⟨hne, hr⟩, hline⟩ := hkills.mp hkilled
    rw [colorAt_some hx]
    refine ⟨?_, hne⟩
    cases hq : emptyAt g.boardA q.key with
    | false => rfl
    | true =>
      have hblack : x.color = .black := by
        rw [hw _ hq] at hne
        cases hc : x.color with
        | white => exact absurd (congrArg some hc.symm) hne
        | black => rfl
      exact absurd ((lineFree_of_empty hq).mp hline) (hcapture x hx hblack hq hr)

/-- On a full board with white empty squares the two tests separate a pair
exactly when it is none of the kinds that pass as the other. -/
theorem separated_iff (h : Full g.boardA) (hw : EmptiesWhite g.boardA) (p q : Square) :
    Separated g p.key q.key ↔ QuietOnly g.boardA p.key q.key ∧ CaptureOnly g.boardA p.key q.key := by
  rw [← h.quietOnly_iff p q, ← h.captureOnly_iff hw p q, Separated]
  constructor
  · rintro ⟨hquiet, hcapture, _⟩
    exact ⟨hquiet, hcapture⟩
  · rintro ⟨hquiet, hcapture⟩
    refine ⟨hquiet, hcapture, fun both => ?_⟩
    have hempty := hquiet both.1
    rw [(hcapture both.2).1] at hempty
    cases hempty

theorem occupied_of_kill (h : Full g.boardA) {p q : Square} (ha : Accepts g p.key q.key .kill) :
    emptyAt g.boardA q.key = false ∧ colorAt g.boardA q.key ≠ colorAt g.boardA p.key := by
  obtain ⟨x, hx⟩ := h.at_square p
  obtain ⟨hgo, hkilled⟩ := ha
  obtain ⟨⟨hne, hr⟩, hline⟩ := (h.kills_true_iff p q hx).mp hkilled
  rw [colorAt_some hx]
  refine ⟨?_, hne⟩
  cases hq : emptyAt g.boardA q.key with
  | false => rfl
  | true =>
    have hquiet := (h.canGoTo_true_iff p q hx).mpr
      ⟨⟨hr, admits_empty x.pieceType x.color hq⟩, (lineFree_of_empty hq).mp hline⟩
    rw [hgo] at hquiet
    cases hquiet

end Full

/-- A capture always runs in its branch, and a quiet move unless the pair is one
of those that only pass as quiet. -/
theorem Worker.Executes.fitsBranch_iff {w : Worker} {p q : Square} {m : Move} (h : Worker.Executes w p q m) :
    m.FitsBranch ↔ QuietOnly m.before.boardA m.position m.nextPosition := by
  have haccept := h.accept
  rw [h.position, h.nextPosition, ← h.full.quietOnly_iff p q, Move.FitsBranch, h.position, h.nextPosition]
  cases hk : m.kind with
  | goTo =>
    rw [hk] at haccept
    exact (imp_iff_right haccept).symm
  | kill =>
    rw [hk] at haccept
    refine iff_of_true (h.full.occupied_of_kill haccept) (fun hgo => ?_)
    cases haccept.1.symm.trans hgo

/-- In every run of a new game the two tests separate a pair of squares exactly
when it is none of the kinds that pass as the other, and an executed update is
of the kind of its branch exactly when its pair does not only pass as quiet. -/
theorem tests_separated_iff (taps : List Square) :
    (∀ p q : Square, Separated (startNewGame.run taps).verf p.key q.key ↔
      QuietOnly (startNewGame.run taps).verf.boardA p.key q.key ∧
        CaptureOnly (startNewGame.run taps).verf.boardA p.key q.key) ∧
    ∀ m ∈ startNewGame.executed taps,
      m.FitsBranch ↔ QuietOnly m.before.boardA m.position m.nextPosition := by
  have hplaying := playing_newGame taps
  refine ⟨hplaying.full.separated_iff hplaying.whites, fun m hm => ?_⟩
  obtain ⟨ts, p, q, us, _, h⟩ := executed_newGame hm
  exact h.fitsBranch_iff

/-- On the board of a new game both tests accept the black knight's move from 57
to the empty square 42, and two taps on a white bishop run the branch for empty targets. -/
theorem newGame_tests_overlap :
    ¬ Separated (startNewGame.run []).verf 57 42 ∧
      (canGoTo (startNewGame.run []).verf.boardA 57 42 = .ok true ∧
        kills (startNewGame.run []).verf 57 42 = .ok true) ∧
      ∃ m ∈ startNewGame.executed [2, 2], ¬ m.FitsBranch := by
  have hboth : canGoTo (startNewGame.run []).verf.boardA 57 42 = .ok true ∧
      kills (startNewGame.run []).verf 57 42 = .ok true := by
    constructor <;> decide +kernel
  refine ⟨fun hsep => hsep.2.2 hboth, hboth, ?_⟩
  have hmoves : (startNewGame.executed [2, 2]).map
      (fun m => (m.kind, emptyAt m.before.boardA m.nextPosition)) = [(.goTo, false)] := by decide +kernel
  obtain ⟨m, hm, heq⟩ := List.mem_map.mp (hmoves ▸ List.mem_singleton_self (MoveKind.goTo, false))
  rw [Prod.mk.injEq] at heq
  refine ⟨m, hm, fun hfits => ?_⟩
  rw [Move.FitsBranch, heq.1] at hfits
  cases heq.2.symm.trans hfits

end MyIVR
