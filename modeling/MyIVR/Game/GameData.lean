import MyIVR.Foundations.Loops
import MyIVR.Game.Piece

/-! The board dictionary and the functions of GameData, as the source computes
them. A forced lookup faults on a missing key; the output of print is dropped,
but the lookups in its arguments are kept. -/
namespace MyIVR
open Swift

/-- `[Int : Piece]` -/
abbrev Board := Int → Option Piece

/-- `board[k] = value`. Assigning nil removes the key. -/
def Board.assign (b : Board) (k : Int) (value : Option Piece) : Board :=
  fun i => if i = k then value else b i

@[simp] theorem Board.assign_same (b : Board) (k : Int) (v : Option Piece) :
    b.assign k v k = v := if_pos rfl

theorem Board.assign_ne (b : Board) {i k : Int} (h : i ≠ k) (v : Option Piece) :
    b.assign k v i = b i := if_neg h

theorem Board.assign_assign (b : Board) (k : Int) (v w : Option Piece) :
    (b.assign k v).assign k w = b.assign k w := by
  funext i
  by_cases h : i = k <;> simp [Board.assign, h]

theorem Board.assign_self (b : Board) (k : Int) : b.assign k (b k) = b := by
  funext i
  by_cases h : i = k <;> simp [Board.assign, h]

/-- A GameData object. `fresh` is the identity of the next Piece object. -/
structure GameData where
  boardA : Board
  fresh : Nat

/-- `GameData()` -/
def GameData.new : GameData := ⟨fun _ => none, 0⟩

namespace GameData

/-- `boardA[k] = Piece(pieceType: type, position: k, color: color)` -/
def place (g : GameData) (k : Int) (type : PieceType) (color : Color) : GameData :=
  ⟨g.boardA.assign k (some ⟨g.fresh, type, k, color⟩), g.fresh + 1⟩

/-- `for i in lo...hi { boardA[i] = Piece(pieceType: type, position: i, color: color) }` -/
def placeRange (g : GameData) (lo hi : Nat) (type : PieceType) (color : Color) : GameData :=
  (List.range' lo (hi + 1 - lo)).foldl (fun g (i : Nat) => g.place i type color) g

def initBoardA (g : GameData) : GameData :=
  let g := g.place 0 .rook .white
  let g := g.place 1 .knight .white
  let g := g.place 2 .bishop .white
  let g := g.place 3 .queen .white
  let g := g.place 4 .king .white
  let g := g.place 5 .bishop .white
  let g := g.place 6 .knight .white
  let g := g.place 7 .rook .white
  let g := g.placeRange 8 16 .pawn .white
  let g := g.placeRange 16 48 .empty .white
  let g := g.placeRange 48 56 .pawn .black
  let g := g.place 56 .rook .black
  let g := g.place 57 .knight .black
  let g := g.place 58 .bishop .black
  let g := g.place 59 .queen .black
  let g := g.place 60 .king .black
  let g := g.place 61 .bishop .black
  let g := g.place 62 .knight .black
  g.place 63 .rook .black

def goTo (g : GameData) (position nextPosition : Int) : GameData :=
  let g := { g with boardA := g.boardA.assign nextPosition (g.boardA position) }
  g.place position .empty .white

end GameData

/-- `boardA[k]!.PType != PieceType.empty` -/
def occupied (b : Board) (k : Int) : Except Fault Bool := do
  let piece ← force (b k)
  return piece.pieceType != .empty

/-- `boardA[k]!.PType == PieceType.empty` -/
def vacant (b : Board) (k : Int) : Except Fault Bool := do
  let piece ← force (b k)
  return piece.pieceType == .empty

/-- The first two entries of `need`; the third, a direction, is never read. -/
def need (row col row1 col1 : Int) : Int × Int :=
  if row = row1 then
    if col > col1 then (col1, col) else (col, col1)
  else
    if row > row1 then (row1, row) else (row, row1)

/-- One round of the rook's loop; true where the source returns false. -/
def rookBlocked (b : Board) (row col row1 col1 i : Int) : Except Fault Bool := do
  let j := if i = 0 then 1 else if i = 8 then 7 else i
  if ← andThen (col = col1) (occupied b ((row + j) * 8 + j)) then
    let _ ← force (b (row1 * 8 + j))
    return true
  andThen (row = row1) (occupied b (j * 8 + col))

def rookTest (b : Board) (piece : Piece) (position nextPosition : Int) : Except Fault Bool := do
  let (row, col, row1, col1) := (row position, col position, row nextPosition, col nextPosition)
  let next ← force (b nextPosition)
  if (col = col1 ∨ row = row1) ∧ (next.pieceType = .empty ∨ next.color ≠ piece.color) then
    let (lo, hi) := need row col row1 col1
    let range ← closedRange lo hi
    Loops.scan (rookBlocked b row col row1 col1) range
  else
    return false

def pawnTest (b : Board) (piece : Piece) (position nextPosition : Int) : Except Fault Bool := do
  let (row, row1) := (row position, row nextPosition)
  let direction : Int := if piece.color = .black then -1 else 1
  let startRow : Int := if piece.color = .black then 6 else 1
  let next ← force (b nextPosition)
  if row + direction = row1 ∧ next.pieceType = .empty then
    return true
  if startRow = row ∧ row + direction * 2 = row1 ∧ next.pieceType = .empty then
    return true
  return false

/-- One round of the queen's straight loop. -/
def queenBlocked (b : Board) (row col row1 col1 i : Int) : Except Fault Bool := do
  if ← andThen (col = col1) (occupied b (row1 * 8 + i)) then
    return true
  andThen (row = row1) (occupied b (i * 8 + col))

/-- `while coords != [row1, col1] { coords[0] += dRow / abs(row - row1); ... }`,
cut off after `fuel` rounds. Queen and bishop differ in the numerators only. -/
def walkWithin (fuel : Nat) (b : Board) (row col row1 col1 dRow dCol : Int) : Except Fault Bool :=
  Loops.walk (fun coords => coords == (row1, col1))
    (fun coords => do
      let down ← divide dRow |row - row1|
      let right ← divide dCol |col - col1|
      return (coords.1 + down, coords.2 + right))
    (fun coords => occupied b (coords.1 * 8 + coords.2))
    .endless fuel (row, col)

/-- The bound the model runs a diagonal loop with. The keys a loop visits change
by 7 or 9 each time in one direction, so on 64 keys it is never reached. -/
def rounds : Nat := 64

def diagonalWalk (b : Board) (row col row1 col1 dRow dCol : Int) : Except Fault Bool :=
  walkWithin rounds b row col row1 col1 dRow dCol

def queenTest (b : Board) (position nextPosition : Int) : Except Fault Bool := do
  let (row, col, row1, col1) := (row position, col position, row nextPosition, col nextPosition)
  if ← andThen (|row - row1| = |col - col1| ∨ (col = col1 ∨ row = row1)) (vacant b nextPosition) then
    if col = col1 ∨ row = row1 then
      let (lo, hi) := need row col row1 col1
      let range ← closedRange lo hi
      Loops.scan (queenBlocked b row col row1 col1) range
    else if |row - row1| = |col - col1| then
      diagonalWalk b row col row1 col1 (row - row1) (col - col1)
    else
      return false
  else
    return false

def bishopTest (b : Board) (position nextPosition : Int) : Except Fault Bool := do
  let (row, col, row1, col1) := (row position, col position, row nextPosition, col nextPosition)
  if |row - row1| = |col - col1| then
    diagonalWalk b row col row1 col1 (row1 - row) (col1 - col)
  else
    return false

/-- The knight's jump between two squares given by row and column. -/
def knightJump (row col row1 col1 : Int) : Prop :=
  ((row1 - 2 = row ∨ row1 + 2 = row) ∧ (col1 - 1 = col ∨ col1 + 1 = col)) ∨
    ((row1 - 1 = row ∨ row1 + 1 = row) ∧ (col1 - 2 = col ∨ col1 + 2 = col))

instance (row col row1 col1 : Int) : Decidable (knightJump row col row1 col1) :=
  inferInstanceAs (Decidable (_ ∨ _))

def knightTest (b : Board) (position nextPosition : Int) : Except Fault Bool :=
  andThen (knightJump (row position) (col position) (row nextPosition) (col nextPosition))
    (vacant b nextPosition)

/-- The function assigns nothing outside its own variables, so it takes the
dictionary and returns the answer only. -/
def canGoTo (b : Board) (position nextPosition : Int) : Except Fault Bool := do
  let piece ← force (b position)
  match piece.pieceType with
  | .rook => rookTest b piece position nextPosition
  | .pawn => pawnTest b piece position nextPosition
  | .king => return false
  | .queen => queenTest b position nextPosition
  | .bishop => bishopTest b position nextPosition
  | .knight => knightTest b position nextPosition
  | .empty => return false

namespace GameData

def canKill (g : GameData) (position nextPosition : Int) : Except Fault (Bool × GameData) := do
  let next ← force (g.boardA nextPosition)
  let piece ← force (g.boardA position)
  if next.color ≠ piece.color then
    let a := g.boardA nextPosition
    let g := g.place nextPosition .empty .white
    if ← canGoTo g.boardA position nextPosition then
      return (true, { g with boardA := g.boardA.assign nextPosition a })
    return (false, { g with boardA := g.boardA.assign nextPosition a })
  return (false, g)

def kill (g : GameData) (position nextPosition : Int) : GameData :=
  let g := { g with boardA := g.boardA.assign nextPosition (g.boardA position) }
  g.place position .empty .white

/-- The source leaves this function as a constant. -/
def check (_ : GameData) (_position _killerPosition : Int) : Bool := false

end GameData
end MyIVR
