import MyIVR.Game.TurnInvariant

/-! The pieces of a player as a multiset, and what an executed update does to
them. The update relocates one object, so all it can take off the board is the
former occupant of its target. -/
namespace MyIVR

def Piece.kind (x : Piece) : PieceType × Color := (x.pieceType, x.color)

def army (b : Board) (c : Color) : Multiset (PieceType × Color) :=
  ((Placement.census (occupants b)).map Piece.kind).filter (fun kind => kind.2 = c)

def garrison (b : Board) (k : Int) : Multiset (PieceType × Color) :=
  match b k with
  | some x => if x.pieceType = .empty then 0 else {x.kind}
  | none => 0

/-- The mover keeps all its pieces, and the opponent loses what stood on the
target: nothing from an empty square, otherwise that one piece. -/
def Move.Conserves (m : Move) : Prop :=
  ∃ x, m.before.boardA m.position = some x ∧
    army m.after.boardA x.color = army m.before.boardA x.color ∧
    army m.before.boardA x.color.other =
      army m.after.boardA x.color.other + garrison m.before.boardA m.nextPosition

theorem garrison_some {b : Board} {k : Int} {x : Piece} (h : b k = some x) :
    garrison b k = if x.pieceType = .empty then 0 else {x.kind} := by
  rw [garrison, h]

theorem garrison_eq {b : Board} (hb : Full b) (s : Square) :
    garrison b s.key = (Placement.standing (occupants b s)).map Piece.kind := by
  obtain ⟨x, hx⟩ := hb.at_square s
  rw [garrison_some hx]
  split
  · rename_i h
    rw [occupants_of_emptyAt (by rw [emptyAt_some hx, beq_iff_eq, h])]
    rfl
  · rename_i h
    rw [occupants_eq_some.mpr ⟨hx, h⟩]
    rfl

namespace Worker.Executes
variable {w : Worker} {p q : Square} {m : Move}

/-- What an update takes from an army: the part of it that stood on the target. -/
theorem army_before (h : Executes w p q m) (c : Color) :
    army m.before.boardA c =
      army m.after.boardA c + (garrison m.before.boardA q.key).filter (fun kind => kind.2 = c) := by
  have hcensus := Placement.census_relocate p q (occupants m.before.boardA)
  rw [army, army, h.occupants_after, garrison_eq h.full, ← Multiset.filter_add, ← Multiset.map_add, hcensus]

theorem garrison_other (h : Executes w p q m) (hne : p ≠ q) {x : Piece}
    (hx : m.before.boardA p.key = some x) :
    ∀ kind ∈ garrison m.before.boardA q.key, kind.2 = x.color.other := by
  obtain ⟨y, hy⟩ := h.full.at_square q
  have htarget := h.target.resolve_left hne
  rw [emptyAt_some hy, colorAt_some hy, colorAt_some hx, beq_iff_eq, ne_eq, Option.some.injEq]
    at htarget
  intro kind hk
  rw [garrison_some hy] at hk
  split at hk
  · cases hk
  · rename_i hoccupied
    rw [Multiset.mem_singleton] at hk
    rw [hk]
    exact Color.eq_other_of_ne (htarget.resolve_left hoccupied)

/-- An update conserves the pieces exactly when it ends on another square. -/
theorem conserves_iff (h : Executes w p q m) : m.Conserves ↔ m.position ≠ m.nextPosition := by
  obtain ⟨x, hx, hoccupied, _⟩ := h.source_occupied
  rw [Move.Conserves, h.position, h.nextPosition]
  constructor
  · rintro ⟨y, hy, hown, _⟩ heq
    have same : p = q := Square.key_inj.mp heq
    have hxy : x = y := Option.some.inj (hx.symm.trans hy)
    have hbefore := h.army_before y.color
    rw [hown, ← same, garrison_some hy, if_neg (hxy ▸ hoccupied), eq_comm, add_eq_left,
      Multiset.filter_singleton, if_pos (show y.kind.2 = y.color from rfl)] at hbefore
    exact Multiset.singleton_ne_zero _ hbefore
  · intro hne
    have hother := h.garrison_other (fun heq => hne (congrArg Square.key heq)) hx
    refine ⟨x, hx, ?_, ?_⟩
    · have hown := h.army_before x.color
      have none_own : (garrison m.before.boardA q.key).filter (fun kind => kind.2 = x.color) = 0 := by
        rw [Multiset.filter_eq_nil]
        intro kind hk hc
        exact Color.other_ne x.color ((hother kind hk).symm.trans hc)
      rw [none_own, add_zero] at hown
      exact hown.symm
    · rw [h.army_before x.color.other, Multiset.filter_eq_self.mpr hother]

end Worker.Executes

/-- In every run of a new game, an executed update loses no piece except by
capture exactly when its two squares differ. -/
theorem conserves_iff_squares_differ (taps : List Square) :
    ∀ m ∈ startNewGame.executed taps, m.Conserves ↔ m.position ≠ m.nextPosition := by
  intro m hm
  obtain ⟨ts, p, q, us, _, h⟩ := executed_newGame hm
  exact h.conserves_iff

theorem newGame_knight_conserves :
    ∃ m ∈ startNewGame.executed [1, 18], m.position = 1 ∧ m.nextPosition = 18 ∧ m.Conserves := by
  have hsquares : (startNewGame.executed [1, 18]).map (fun m => (m.position, m.nextPosition)) =
      [(1, 18)] := by decide +kernel
  obtain ⟨m, hm, heq⟩ := List.mem_map.mp (hsquares ▸ List.mem_singleton_self ((1 : Int), (18 : Int)))
  rw [Prod.mk.injEq] at heq
  refine ⟨m, hm, heq.1, heq.2, (conserves_iff_squares_differ [1, 18] m hm).mpr ?_⟩
  rw [heq.1, heq.2]
  decide

/-- Tapping a white bishop twice is executed as a move and takes the bishop off the board. -/
theorem newGame_bishop_vanishes :
    ∃ m ∈ startNewGame.executed [2, 2], m.position = 2 ∧ m.nextPosition = 2 ∧ ¬ m.Conserves := by
  have hsquares : (startNewGame.executed [2, 2]).map (fun m => (m.position, m.nextPosition)) =
      [(2, 2)] := by decide +kernel
  obtain ⟨m, hm, heq⟩ := List.mem_map.mp (hsquares ▸ List.mem_singleton_self ((2 : Int), (2 : Int)))
  rw [Prod.mk.injEq] at heq
  obtain ⟨_, _, _, _, _, h⟩ := executed_newGame hm
  exact ⟨m, hm, heq.1, heq.2, fun hc => h.conserves_iff.mp hc (heq.1.trans heq.2.symm)⟩

end MyIVR
