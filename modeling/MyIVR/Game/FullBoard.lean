import MyIVR.Game.GameData

/-! Boards whose key set is exactly 0...63, and what a lookup says on them. -/
namespace MyIVR
open Swift

/-- The key set is exactly 0...63. -/
def Full (b : Board) : Prop := ∀ k, (b k).isSome ↔ 0 ≤ k ∧ k ≤ 63

def typeAt (b : Board) (k : Int) : Option PieceType := (b k).map Piece.pieceType

def colorAt (b : Board) (k : Int) : Option Color := (b k).map Piece.color

def emptyAt (b : Board) (k : Int) : Bool := typeAt b k == some .empty

theorem typeAt_some {b : Board} {k : Int} {x : Piece} (h : b k = some x) :
    typeAt b k = some x.pieceType := by rw [typeAt, h]; rfl

theorem colorAt_some {b : Board} {k : Int} {x : Piece} (h : b k = some x) :
    colorAt b k = some x.color := by rw [colorAt, h]; rfl

theorem emptyAt_some {b : Board} {k : Int} {x : Piece} (h : b k = some x) :
    emptyAt b k = (x.pieceType == .empty) := by
  rw [emptyAt, typeAt_some h]
  rfl

namespace Full
variable {b : Board}

theorem exists_piece (h : Full b) {k : Int} (hk : 0 ≤ k ∧ k ≤ 63) : ∃ x, b k = some x :=
  Option.isSome_iff_exists.mp ((h k).mpr hk)

theorem missing (h : Full b) {k : Int} (hk : ¬ (0 ≤ k ∧ k ≤ 63)) : b k = none := by
  cases hb : b k with
  | none => rfl
  | some x => exact absurd ((h k).mp (by rw [hb]; rfl)) hk

theorem at_square (h : Full b) (s : Square) : ∃ x, b s.key = some x := h.exists_piece s.key_range

theorem assign (h : Full b) {k : Int} (hk : 0 ≤ k ∧ k ≤ 63) (x : Piece) :
    Full (b.assign k (some x)) := by
  intro i
  by_cases hi : i = k
  · subst i
    simp [hk]
  · rw [Board.assign_ne b hi]
    exact h i

theorem occupied_inside (h : Full b) {k : Int} (hk : 0 ≤ k ∧ k ≤ 63) :
    occupied b k = .ok (!emptyAt b k) := by
  obtain ⟨x, hx⟩ := h.exists_piece hk
  rw [occupied, emptyAt_some hx, hx]
  rfl

theorem occupied_outside (h : Full b) {k : Int} (hk : ¬ (0 ≤ k ∧ k ≤ 63)) :
    occupied b k = .error .missingKey := by
  rw [occupied, h.missing hk]
  rfl

theorem vacant_inside (h : Full b) {k : Int} (hk : 0 ≤ k ∧ k ≤ 63) :
    vacant b k = .ok (emptyAt b k) := by
  obtain ⟨x, hx⟩ := h.exists_piece hk
  rw [vacant, emptyAt_some hx, hx]
  rfl

end Full

section assign
variable (b : Board) {i k : Int} (x : Piece)

@[simp] theorem typeAt_assign_same : typeAt (b.assign k (some x)) k = some x.pieceType := by
  simp [typeAt]

@[simp] theorem colorAt_assign_same : colorAt (b.assign k (some x)) k = some x.color := by
  simp [colorAt]

theorem typeAt_assign_ne (h : i ≠ k) (v : Option Piece) : typeAt (b.assign k v) i = typeAt b i := by
  rw [typeAt, typeAt, Board.assign_ne b h]

theorem colorAt_assign_ne (h : i ≠ k) (v : Option Piece) :
    colorAt (b.assign k v) i = colorAt b i := by
  rw [colorAt, colorAt, Board.assign_ne b h]

theorem emptyAt_assign_ne (h : i ≠ k) (v : Option Piece) :
    emptyAt (b.assign k v) i = emptyAt b i := by
  rw [emptyAt, emptyAt, typeAt_assign_ne b h]

end assign

namespace GameData

/-- Moving a piece is the same update whether it is called a move or a kill. -/
theorem kill_eq_goTo (g : GameData) (p q : Int) : g.kill p q = g.goTo p q := rfl

theorem place_boardA (g : GameData) (k : Int) (type : PieceType) (color : Color) :
    (g.place k type color).boardA = g.boardA.assign k (some ⟨g.fresh, type, k, color⟩) := rfl

theorem goTo_boardA (g : GameData) (p q : Int) :
    (g.goTo p q).boardA =
      (g.boardA.assign q (g.boardA p)).assign p (some ⟨g.fresh, .empty, p, .white⟩) := rfl

theorem full_goTo {g : GameData} (h : Full g.boardA) {p q : Int} (hp : 0 ≤ p ∧ p ≤ 63)
    (hq : 0 ≤ q ∧ q ≤ 63) : Full (g.goTo p q).boardA := by
  obtain ⟨x, hx⟩ := h.exists_piece hp
  rw [goTo_boardA, hx]
  exact (h.assign hq x).assign hp _

/-- Both exits of the capture test put the target object back: whatever it
answers, the dictionary afterwards is the one before. -/
theorem canKill_boardA {g g' : GameData} {p q : Int} {r : Bool}
    (h : g.canKill p q = .ok (r, g')) : g'.boardA = g.boardA := by
  have restored (x : Option Piece) :
      (g.boardA.assign q x).assign q (g.boardA q) = g.boardA := by
    rw [Board.assign_assign, Board.assign_self]
  rw [canKill] at h
  obtain ⟨next, _, h⟩ := bind_eq_ok h
  obtain ⟨piece, _, h⟩ := bind_eq_ok h
  split at h
  · obtain ⟨answer, _, h⟩ := bind_eq_ok h
    cases answer <;> cases h <;> exact restored _
  · cases h
    rfl

end GameData
end MyIVR
