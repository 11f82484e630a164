import MyIVR.Game.GameData

/-! The buttons of TwoPlayerGame: button objects, the dictionary boardButton and
the subviews of the controller's view. All coordinates of the source are whole
numbers, so frames are kept as integers. -/
namespace MyIVR
open Swift

structure Frame where
  x : Int
  y : Int
  width : Int
  height : Int
  deriving DecidableEq, Repr

def cellFrame (i : Int) : Frame := ⟨42 + col i * 38, 439 - row i * 38, 38, 38⟩

/-- The square that buttonPressed computes from the centre of its sender. -/
def decodeCenter (f : Frame) : Int :=
  let centerX := f.x + f.width.tdiv 2
  let centerY := f.y + f.height.tdiv 2
  ((centerX - 19 - 42).tdiv 38).tmod 8 + (-1 * centerY + 19 + 439).tdiv 38 * 8

/-- A button object; `target` tells whether a press of it calls buttonPressed. -/
structure UIButton where
  frame : Frame
  image : Option String
  target : Bool
  deriving DecidableEq, Repr

/-- `UIButton()` -/
def UIButton.new : UIButton := ⟨⟨0, 0, 0, 0⟩, none, false⟩

/-- Button objects by identity, with the identity of the next one; the
dictionary; and the identities of the subviews in the order they were added. -/
structure View where
  button : Nat → UIButton
  fresh : Nat
  boardButton : Int → Option Nat
  subviews : List Nat

def View.new : View := ⟨fun _ => .new, 0, fun _ => none, []⟩

namespace View

/-- `boardButton[k] = value` -/
def assign (v : View) (k : Int) (value : Option Nat) : View :=
  { v with boardButton := fun i => if i = k then value else v.boardButton i }

/-- `boardButton[k] = UIButton()` -/
def placeNew (v : View) (k : Int) : View :=
  { v with button := fun r => if r = v.fresh then .new else v.button r, fresh := v.fresh + 1 }.assign
    k (some v.fresh)

/-- `boardButton[k]?.property = ...` -/
def modify (v : View) (k : Int) (f : UIButton → UIButton) : View :=
  match v.boardButton k with
  | none => v
  | some r => { v with button := fun s => if s = r then f (v.button r) else v.button s }

def setFrame (v : View) (k : Int) (frame : Frame) : View := v.modify k (fun b => { b with frame })

/-- `view.addSubview(boardButton[k]!)` -/
def addSubview (v : View) (k : Int) : Except Fault View := do
  let r ← force (v.boardButton k)
  return { v with subviews := v.subviews ++ [r] }

end View

/-- The image of a piece in a figure set: the set's number, the first letter of
the colour and the raw value of the type. -/
def imageName (figureNumber : String) (piece : Piece) : String :=
  figureNumber ++ (String.ofList (piece.color.rawValue.toList.take 1) ++ piece.pieceType.rawValue)

/-- The body of paint's loop. -/
def paintSquare (figureNumber : String) (board : Board) (v : View) (i : Int) : Except Fault View := do
  let v := (v.placeNew i).setFrame i (cellFrame i)
  let v ← (if (board i).map Piece.pieceType ≠ some .empty then do
      let piece ← force (board i)
      return v.modify i (fun b => { b with image := some (imageName figureNumber piece) })
    else return v : Except Fault View)
  let v ← v.addSubview i
  return v.modify i (fun b => { b with target := true })

def paint (figureNumber : String) (board : Board) (v : View) : Except Fault View :=
  (upTo 0 63).foldlM (paintSquare figureNumber board) v

/-- The closure that replaceButton queues. -/
def replaceButton (v : View) (position nextPosition : Int) : View :=
  let v := v.setFrame position (cellFrame nextPosition)
  let v := v.setFrame nextPosition (cellFrame position)
  let a := v.boardButton nextPosition
  let v := v.assign nextPosition (v.boardButton position)
  v.assign position a

/-- The closure that the kill branch queues. It reads the loop's variables when it runs. -/
def captureButton (v : View) (row col row1 col1 : Int) : View :=
  let position := row * 8 + col
  let nextPosition := row1 * 8 + col1
  let v := v.setFrame position (cellFrame nextPosition)
  let v := v.assign nextPosition (v.boardButton position)
  let v := v.placeNew position
  v.setFrame position (cellFrame position)

namespace View

theorem modify_button {v : View} {k : Int} {r : Nat} (h : v.boardButton k = some r)
    (f : UIButton → UIButton) : (v.modify k f).button = Function.update v.button r (f (v.button r)) := by
  funext s
  rw [modify, h, Function.update_apply]

section modify
variable (v : View) (k : Int) (f : UIButton → UIButton) (frame : Frame)

@[simp] theorem modify_boardButton : (v.modify k f).boardButton = v.boardButton := by
  rw [modify]
  split <;> rfl

@[simp] theorem modify_subviews : (v.modify k f).subviews = v.subviews := by
  rw [modify]
  split <;> rfl

@[simp] theorem modify_fresh : (v.modify k f).fresh = v.fresh := by
  rw [modify]
  split <;> rfl

@[simp] theorem setFrame_boardButton : (v.setFrame k frame).boardButton = v.boardButton :=
  v.modify_boardButton k _

@[simp] theorem setFrame_subviews : (v.setFrame k frame).subviews = v.subviews :=
  v.modify_subviews k _

@[simp] theorem setFrame_fresh : (v.setFrame k frame).fresh = v.fresh := v.modify_fresh k _

end modify
end View

/-- A press of the button of a cell is decoded to the square of the cell. -/
theorem decode_cellFrame (s : Square) : decodeCenter (cellFrame s.key) = s.key := by
  have hr := s.row_range
  have hc := s.col_range
  have hx : 42 + col s.key * 38 + 19 - 19 - 42 = col s.key * 38 := by ring
  have hy : -1 * (439 - row s.key * 38 + 19) + 19 + 439 = row s.key * 38 := by ring
  have hhalf : (38 : Int).tdiv 2 = 19 := rfl
  have hmod : (col s.key).tmod 8 = col s.key := Int.tmod_eq_of_lt hc.1 (by omega)
  simp only [decodeCenter, cellFrame, hhalf, hx, hy]
  rw [Int.mul_tdiv_cancel _ (by norm_num), Int.mul_tdiv_cancel _ (by norm_num), hmod, add_comm]
  exact row_col s.key

/-- Different squares have cells in different places. -/
theorem cellFrame_inj {s t : Square} (h : cellFrame s.key = cellFrame t.key) : s = t := by
  rw [← Square.key_inj, ← decode_cellFrame s, ← decode_cellFrame t, h]

end MyIVR
