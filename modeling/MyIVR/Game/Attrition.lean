import MyIVR.Game.Journeys

/-! Updates that cannot be taken back. Each capture lowers the number of pieces and
each pawn climbs six rows, so however long a game lasts, they are few. -/
namespace MyIVR
open Swift

def Move.Takes (m : Move) : Prop := emptyAt m.before.boardA m.nextPosition = false

instance (m : Move) : Decidable m.Takes := inferInstanceAs (Decidable (_ = _))

def Move.ByPawn (m : Move) : Prop := m.mover.map Piece.pieceType = some .pawn

instance (m : Move) : Decidable m.ByPawn := inferInstanceAs (Decidable (_ = _))

def pieceCount (b : Board) : Nat := (Placement.census (occupants b)).card

private theorem pieceCount_start : pieceCount startNewGame.verf.boardA = 32 := by decide +kernel

private theorem pieceCount_run (taps : List Square) :
    pieceCount (startNewGame.run taps).verf.boardA +
      ((startNewGame.executed taps).filter (fun m => m.Takes)).length = 32 := by
  refine newGame_induction (fun b done => pieceCount b + (done.filter (fun m => m.Takes)).length = 32)
    (by rw [pieceCount_start]; rfl) (fun w done p q m _ he ih => ?_) taps
  obtain ⟨x, hx⟩ := he.full.at_square q
  have htakes : m.Takes ↔ (occupants m.before.boardA q).isSome := by
    rw [Move.Takes, he.nextPosition, emptyAt_some hx, occupants, hx, Option.isSome_filter]
    simp
  have hcount := Placement.card_census_relocate p q (occupants m.before.boardA)
  rw [← he.occupants_after] at hcount
  rw [← he.before, pieceCount, ← hcount] at ih
  rw [pieceCount, List.filter_append, List.length_append, ← ih]
  by_cases ht : m.Takes
  · rw [if_pos (htakes.mp ht), List.filter_cons_of_pos (by simpa using ht), List.filter_nil, List.length_singleton]
    omega
  · rw [if_neg (fun h => ht (htakes.mpr h)), List.filter_cons_of_neg (by simpa using ht), List.filter_nil,
      List.length_nil]
    omega

private def pawnSquares : Finset Square :=
  Finset.univ.filter (fun s => typeAt startNewGame.verf.boardA s.key = some .pawn)

private theorem pawnSquares_card : pawnSquares.card = 16 := by decide +kernel

private def firstPiece (s : Square) : Piece :=
  (startNewGame.verf.boardA s.key).getD ⟨0, .empty, 0, .white⟩

private theorem startsOn_firstPiece {s : Square} (hs : s ∈ pawnSquares) :
    StartsOn (firstPiece s) s ∧ (firstPiece s).pieceType = .pawn := by
  rw [pawnSquares, Finset.mem_filter] at hs
  obtain ⟨x, hx⟩ := full_newGame.at_square s
  have htype := hs.2
  rw [startNewGame, Worker.start, typeAt_some hx, Option.some.injEq] at htype
  have hfirst : firstPiece s = x := by rw [firstPiece, startNewGame, Worker.start, hx, Option.getD_some]
  rw [hfirst]
  exact ⟨occupants_eq_some.mpr ⟨hx, by rw [htype]; decide⟩, htype⟩

private theorem pawn_updates (taps : List Square) :
    ((startNewGame.executed taps).filter (fun m => m.ByPawn)).length ≤ 16 * 6 := by
  have h := PawnsClimb.run taps
  have hmovers : ∀ m ∈ startNewGame.executed taps, m.ByPawn → ∃ s ∈ pawnSquares, m.Moves (firstPiece s).ref := by
    intro m hm hpawn
    obtain ⟨x, ⟨s, hs⟩, hmover, _⟩ := h.movers m hm
    rw [Move.ByPawn, hmover, Option.map_some, Option.some.injEq] at hpawn
    have hx : startNewGame.verf.boardA s.key = some x := (occupants_eq_some.mp hs).1
    refine ⟨s, ?_, ?_⟩
    · rw [pawnSquares, Finset.mem_filter, typeAt_some hx, hpawn]
      exact ⟨Finset.mem_univ s, rfl⟩
    · rw [Move.Moves, hmover, firstPiece, hx]
      rfl
  have hclimbs : ∀ s ∈ pawnSquares, Climbing.Climbs (fun m : Move => (firstPiece s).color.advance m.position)
      (fun m => (firstPiece s).color.advance m.nextPosition) 6
        ((startNewGame.executed taps).filter (fun m => m.Moves (firstPiece s).ref)) := by
    intro s hs
    obtain ⟨hstarts, hpawn⟩ := startsOn_firstPiece hs
    exact h.climbs (firstPiece s) ⟨s, hstarts⟩ hpawn
  rw [← pawnSquares_card]
  exact Climbing.length_le_family pawnSquares _ hmovers hclimbs

/-- In every run of a new game the pieces left are 32 less the updates onto occupied
squares. Updates that move a pawn or go to an occupied square are at most 128,
however long the run is. -/
theorem irreversible_updates_bounded (taps : List Square) :
    pieceCount (startNewGame.run taps).verf.boardA +
        ((startNewGame.executed taps).filter (fun m => m.Takes)).length = 32 ∧
      ((startNewGame.executed taps).filter (fun m => m.ByPawn ∨ m.Takes)).length ≤ 128 := by
  have hpieces := pieceCount_run taps
  have hpawns := pawn_updates taps
  refine ⟨hpieces, ?_⟩
  have hunion (l : List Move) : (l.filter (fun m => m.ByPawn ∨ m.Takes)).length ≤
      (l.filter (fun m => m.ByPawn)).length + (l.filter (fun m => m.Takes)).length := by
    induction l with
    | nil => simp
    | cons m rest ih =>
      simp only [Bool.decide_or] at ih ⊢
      by_cases hp : m.ByPawn <;> by_cases ht : m.Takes <;> simp [hp, ht] <;> omega
  exact (hunion _).trans (by omega)

end MyIVR
