import MyIVR.Foundations.Climbing
import MyIVR.Game.Branches
import MyIVR.Game.Objects
import MyIVR.Game.PawnRule

/-! The way of a pawn. Each executed update takes it one or two rows ahead, so its
moves climb the six rows between its start row and the last one. -/
namespace MyIVR
open Swift Full

/-- The rows a pawn of the colour has behind it on a square. -/
def Color.advance (c : Color) (k : Int) : Int := (row k - c.startRow) * c.direction

def Color.lastRow : Color → Int
  | .white => 7
  | .black => 0

def Move.mover (m : Move) : Option Piece := m.before.boardA m.position

def Move.Moves (ref : Nat) (m : Move) : Prop := m.mover.map Piece.ref = some ref

instance (ref : Nat) (m : Move) : Decidable (m.Moves ref) := inferInstanceAs (Decidable (_ = _))

def journey (ref : Nat) (done : List Move) : List Move := done.filter (fun m => m.Moves ref)

theorem advance_top (c : Color) (s : Square) : c.advance s.key ≤ 6 := by
  have hs := s.row_range
  cases c <;> simp only [Color.advance, Color.startRow, Color.direction] <;> omega

theorem advance_lastRow {c : Color} {k : Int} (h : row k = c.lastRow) : c.advance k = 6 := by
  rw [Color.advance, h]
  cases c <;> rfl

/-- A pawn's step in terms of its advance: one row, or two from none. -/
theorem advance_pawnStep {c : Color} {p q : Int} (h : pawnStep c p q) :
    c.advance q = c.advance p + 1 ∨ c.advance p = 0 ∧ c.advance q = 2 := by
  rw [pawnStep_iff] at h
  cases c <;> simp only [Color.advance, Color.startRow, Color.direction] at h ⊢ <;> omega

theorem advance_two {c : Color} {p q : Int} (h : row q = row p + c.direction * 2) :
    c.advance q = c.advance p + 2 := by
  cases c <;> simp only [Color.advance, Color.startRow, Color.direction] at h ⊢ <;> omega

theorem initial_pawn_row {g : GameData} {s : Square} {x : Piece}
    (hx : g.initBoardA.boardA s.key = some x) (hpawn : x.pieceType = .pawn) : x.color.advance s.key = 0 := by
  have hrows : ∀ s : Square, ∀ write ∈ lastWrite initScript s.key, write.2.1 = .pawn →
      write.2.2.advance s.key = 0 := by decide +kernel
  obtain ⟨n, type, color, hw, hs⟩ := initBoardA_square g s
  cases hx.symm.trans hs
  exact hrows s _ hw hpawn

namespace Worker.Executes
variable {w : Worker} {p q : Square} {m : Move}

/-- An update that moves a pawn takes the step of the pawn's branch, quiet or not. -/
theorem pawn_step (h : Executes w p q m) {x : Piece} (hx : m.mover = some x) (hpawn : x.pieceType = .pawn) :
    pawnStep x.color p.key q.key := by
  rw [Move.mover, h.position] at hx
  have haccept := h.accept
  cases hk : m.kind with
  | goTo =>
    rw [hk] at haccept
    have hr := ((h.full.canGoTo_true_iff p q hx).mp haccept).1.1
    rwa [hpawn] at hr
  | kill =>
    rw [hk] at haccept
    have hr := ((h.full.kills_true_iff p q hx).mp haccept.2).1.2
    rwa [hpawn] at hr

end Worker.Executes

/-- What holds of the pawns of a new game between taps: every object was there
from the start, and where a pawn stands it is at least as far as any update took it. -/
structure PawnsClimb (w : Worker) (done : List Move) : Prop where
  playing : Worker.Playing GameData.new.initBoardA w done
  movers : ∀ m ∈ done, ∃ x ∈ initialPieces .new, m.mover = some x ∧
    (x.pieceType = .pawn → pawnStep x.color m.position m.nextPosition)
  climbs : ∀ x ∈ initialPieces .new, x.pieceType = .pawn →
    Climbing.Climbs (fun m => x.color.advance m.position) (fun m => x.color.advance m.nextPosition) 6
      (journey x.ref done)
  stands : ∀ s x, occupants w.verf.boardA s = some x → x.pieceType = .pawn →
    0 ≤ x.color.advance s.key ∧
      ∀ m ∈ journey x.ref done, x.color.advance m.nextPosition ≤ x.color.advance s.key

theorem journey_moved {ref : Nat} {m : Move} (h : m.Moves ref) (done : List Move) :
    journey ref (done ++ [m]) = journey ref done ++ [m] := by
  rw [journey, List.filter_append, List.filter_cons_of_pos (by simpa using h), List.filter_nil]
  rfl

theorem journey_other {ref : Nat} {m : Move} (h : ¬ m.Moves ref) (done : List Move) :
    journey ref (done ++ [m]) = journey ref done := by
  rw [journey, List.filter_append, List.filter_cons_of_neg (by simpa using h), List.filter_nil, List.append_nil]
  rfl

namespace PawnsClimb
variable {w : Worker} {done : List Move}

private theorem start : PawnsClimb startNewGame [] where
  playing := .start full_newGame emptiesWhite_newGame
  movers := List.forall_mem_nil _
  climbs := fun _ _ _ => .nil
  stands := by
    intro s x hx hpawn
    exact ⟨(initial_pawn_row (occupants_eq_some.mp hx).1 hpawn).ge, List.forall_mem_nil _⟩

private theorem represents (h : PawnsClimb w done) : Represents .new w.verf.boardA :=
  represents_of_reaches h.playing.full h.playing.reaches

private theorem executed (h : PawnsClimb w done) {p q : Square} {m : Move}
    (he : Worker.Executes w p q m) (hplaying : Worker.Playing GameData.new.initBoardA (w.tap q).1 (done ++ [m])) :
    PawnsClimb (w.tap q).1 (done ++ [m]) := by
  obtain ⟨x, hx, hoccupied, _⟩ := he.source_occupied
  have hmover : m.mover = some x := by rw [Move.mover, he.position, hx]
  have hmoves (ref : Nat) : m.Moves ref ↔ x.ref = ref := by
    rw [Move.Moves, hmover, Option.map_some, Option.some.injEq]
  have hstand : occupants w.verf.boardA p = some x :=
    occupants_eq_some.mpr ⟨he.before ▸ hx, hoccupied⟩
  have hinitial : x ∈ initialPieces .new := h.represents.drawn p x hstand
  have hstep (hpawn : x.pieceType = .pawn) := he.pawn_step hmover hpawn
  refine ⟨hplaying, ?_, ?_, ?_⟩
  · refine List.forall_mem_append.mpr ⟨h.movers, List.forall_mem_singleton.mpr ⟨x, hinitial, hmover, ?_⟩⟩
    rw [he.position, he.nextPosition]
    exact hstep
  · intro y hy hpawn
    by_cases href : x.ref = y.ref
    · have hxy := initialPieces_eq hinitial hy href
      subst y
      obtain ⟨hfoot, hpast⟩ := h.stands p x hstand hpawn
      have hadvance := advance_pawnStep (hstep hpawn)
      rw [journey_moved ((hmoves _).mpr rfl)]
      refine (h.climbs x hy hpawn).snoc ?_ ?_ ?_ ?_ <;> simp only [he.position, he.nextPosition]
      · exact hfoot
      · omega
      · exact advance_top x.color q
      · exact hpast
    · rw [journey_other (fun hm => href ((hmoves _).mp hm))]
      exact h.climbs y hy hpawn
  · intro s y hy hpawn
    rw [he.after, he.occupants_after, he.before] at hy
    obtain ⟨hsp, ⟨rfl, hyp⟩ | ⟨_, hys⟩⟩ := Placement.relocate_origin hy
    · cases hstand.symm.trans hyp
      obtain ⟨hfoot, hpast⟩ := h.stands p x hstand hpawn
      have hadvance := advance_pawnStep (hstep hpawn)
      refine ⟨by omega, fun m' hm' => ?_⟩
      rw [journey_moved ((hmoves _).mpr rfl)] at hm'
      rcases List.mem_append.mp hm' with hm' | hm'
      · have hbefore := hpast m' hm'
        omega
      · rw [List.mem_singleton.mp hm', he.nextPosition]
    · have href : x.ref ≠ y.ref := fun heq => hsp (h.represents.apart s p y x hys hstand heq.symm)
      rw [journey_other (fun hm => href ((hmoves _).mp hm))]
      exact h.stands s y hys hpawn

private theorem tap (h : PawnsClimb w done) (s : Square) :
    PawnsClimb (w.tap s).1 (done ++ (w.tap s).2.toList) := by
  have hplaying := h.playing.tap s
  cases ho : (w.tap s).2 with
  | none =>
    have hboard := h.playing.same_board ho
    rw [ho, Option.toList_none, List.append_nil] at hplaying
    rw [Option.toList_none, List.append_nil]
    exact ⟨hplaying, h.movers, h.climbs, by rw [hboard]; exact h.stands⟩
  | some m =>
    rw [ho, Option.toList_some] at hplaying
    obtain ⟨p, he⟩ := h.playing.executes ho
    exact h.executed he hplaying

theorem run (taps : List Square) : PawnsClimb (startNewGame.run taps) (startNewGame.executed taps) :=
  Mealy.run_induction PawnsClimb .start (fun _ _ s h => h.tap s) taps

end PawnsClimb

/-- In every run of a new game: an update moves an object of the initial board,
and a pawn one or two rows ahead. Of the updates that move one pawn, only the
first goes two rows, none follows one that ends on the last row, and there are
at most six. -/
theorem pawns_progress (taps : List Square) :
    (∀ m ∈ startNewGame.executed taps, ∃ x ∈ initialPieces .new, m.mover = some x ∧
      (x.pieceType = .pawn → row m.nextPosition = row m.position + x.color.direction ∨
        row m.nextPosition = row m.position + x.color.direction * 2)) ∧
    ∀ x ∈ initialPieces .new, x.pieceType = .pawn →
      (∀ past m rest, startNewGame.executed taps = past ++ m :: rest → m.Moves x.ref →
        (row m.nextPosition = row m.position + x.color.direction * 2 → ∀ m' ∈ past, ¬ m'.Moves x.ref) ∧
        (row m.nextPosition = x.color.lastRow → ∀ m' ∈ rest, ¬ m'.Moves x.ref)) ∧
      (journey x.ref (startNewGame.executed taps)).length ≤ 6 := by
  have h := PawnsClimb.run taps
  constructor
  · intro m hm
    obtain ⟨x, hx, hmover, hstep⟩ := h.movers m hm
    exact ⟨x, hx, hmover, fun hpawn => ((pawnStep_iff _ _ _).mp (hstep hpawn)).imp_right And.right⟩
  · intro x hx hpawn
    have hclimbs := h.climbs x hx hpawn
    refine ⟨fun past m rest heq hm => ?_, by exact_mod_cast hclimbs.length_le (by norm_num)⟩
    have hjourney : journey x.ref (startNewGame.executed taps) =
        journey x.ref past ++ m :: journey x.ref rest := by
      rw [heq, journey, List.filter_append, List.filter_cons_of_pos (by simpa using hm)]
      rfl
    rw [hjourney] at hclimbs
    constructor
    · intro htwo m' hm' hmoves
      obtain ⟨y, hy, hmover, hstep⟩ := h.movers m (by simp [heq])
      rw [Move.Moves, hmover, Option.map_some, Option.some.injEq] at hm
      have hxy := initialPieces_eq hy hx hm
      subst y
      have hfoot : x.color.advance m.position = 0 := by
        have hrise := advance_two htwo
        rcases advance_pawnStep (hstep hpawn) with hone | ⟨hfoot, _⟩
        · omega
        · exact hfoot
      have hnone := hclimbs.past_eq_nil hfoot
      exact List.filter_eq_nil_iff.mp hnone m' hm' (by simpa using hmoves)
    · intro hlast m' hm' hmoves
      have hnone := hclimbs.rest_eq_nil (advance_lastRow hlast)
      exact List.filter_eq_nil_iff.mp hnone m' hm' (by simpa using hmoves)

end MyIVR
