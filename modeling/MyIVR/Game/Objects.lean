import MyIVR.Game.TurnInvariant

/-! The Piece objects of a game. initBoardA makes them with different identities,
and relocations move them about without making new ones. -/
namespace MyIVR
open Swift

/-- The objects on non-empty squares when initBoardA returns. -/
def initialPieces (g : GameData) : Set Piece := {x | ∃ s, occupants g.initBoardA.boardA s = some x}

/-- The keys are 0...63, the non-empty squares hold initial objects, and no
object stands on two squares. -/
structure Represents (g : GameData) (b : Board) : Prop where
  full : Full b
  drawn : Placement.DrawnFrom (initialPieces g) (occupants b)
  apart : ∀ i j x y, occupants b i = some x → occupants b j = some y → x.ref = y.ref → i = j

private theorem initial_apart {g : GameData} {s t : Square} {x y : Piece}
    (hx : g.initBoardA.boardA s.key = some x) (hy : g.initBoardA.boardA t.key = some y)
    (h : x.ref = y.ref) : s = t := by
  obtain ⟨n, type, color, hn, hs⟩ := initBoardA_square g s
  obtain ⟨m, type', color', hm, ht⟩ := initBoardA_square g t
  cases hx.symm.trans hs
  cases hy.symm.trans ht
  have hnm : n = m := Nat.add_left_cancel h
  subst m
  have hentry := (lastWrite_key hn).symm.trans (lastWrite_key hm)
  rw [Option.some.injEq, Prod.mk.injEq] at hentry
  exact Square.key_inj.mp hentry.1

theorem initialPieces_eq {g : GameData} {x y : Piece} (hx : x ∈ initialPieces g)
    (hy : y ∈ initialPieces g) (h : x.ref = y.ref) : x = y := by
  obtain ⟨s, hs⟩ := hx
  obtain ⟨t, ht⟩ := hy
  have hst := initial_apart (occupants_eq_some.mp hs).1 (occupants_eq_some.mp ht).1 h
  subst t
  exact Option.some.inj (hs.symm.trans ht)

private theorem initial_distinct (g : GameData) :
    Placement.Distinct (occupants g.initBoardA.boardA) := by
  intro s t x hs ht
  exact initial_apart (occupants_eq_some.mp hs).1 (occupants_eq_some.mp ht).1 rfl

/-- Relocations of the initial objects keep the representation. -/
theorem represents_of_reaches {g : GameData} {b : Board} (hfull : Full b)
    (h : Placement.Reaches (occupants g.initBoardA.boardA) (occupants b)) : Represents g b := by
  have hdrawn : Placement.DrawnFrom (initialPieces g) (occupants b) :=
    Placement.DrawnFrom.reaches h (fun s x hx => ⟨s, hx⟩)
  refine ⟨hfull, hdrawn, fun i j x y hx hy href => ?_⟩
  have hxy := initialPieces_eq (hdrawn i x hx) (hdrawn j y hy) href
  subst y
  exact ((initial_distinct g).reaches h) i j x hx hy

end MyIVR
