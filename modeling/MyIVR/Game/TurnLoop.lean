import MyIVR.Foundations.Mealy
import MyIVR.Game.GameData

/-! The worker of TwoPlayerGame.startNewGame as a machine that consumes one
square per successful wait and runs to its next wait. -/
namespace MyIVR
open Swift

/-- The four waits of the loop body, in source order. -/
inductive Site where
  | source | sourceAgain | target | targetAgain
  deriving DecidableEq, Repr

def Site.isSource : Site → Bool
  | source | sourceAgain => true
  | target | targetAgain => false

inductive Status where
  | waiting (site : Site)
  | faulted (fault : Fault)
  | ended (announcement : String)
  deriving DecidableEq, Repr

inductive MoveKind where
  | goTo | kill
  deriving DecidableEq, Repr

/-- An executed update: the branch that ran, its arguments, and the board it was
called on. -/
structure Move where
  kind : MoveKind
  position : Int
  nextPosition : Int
  before : GameData

def Move.after (m : Move) : GameData :=
  match m.kind with
  | .goTo => m.before.goTo m.position m.nextPosition
  | .kill => m.before.kill m.position m.nextPosition

/-- The variables the worker's closure captures, and where it is blocked. -/
structure Worker where
  verf : GameData
  winner : Bool
  row : Int
  col : Int
  row1 : Int
  col1 : Int
  color : Int
  moves : Int
  status : Status

/-- The condition of the target loop: neither test accepts. -/
def rejectsTarget (g : GameData) (position nextPosition : Int) : Except Fault (Bool × GameData) := do
  if ← canGoTo g.boardA position nextPosition then
    return (false, g)
  let (killed, g) ← g.canKill position nextPosition
  return (!killed, g)

/-- The update that follows the target loop, with both tests asked again. -/
def updateBoard (g : GameData) (position nextPosition : Int) :
    Except Fault (GameData × Option Move) := do
  if ← canGoTo g.boardA position nextPosition then
    return (g.goTo position nextPosition, some ⟨.goTo, position, nextPosition, g⟩)
  let (killed, g) ← g.canKill position nextPosition
  if killed then
    return (g.kill position nextPosition, some ⟨.kill, position, nextPosition, g⟩)
  return (g, none)

/-- One round of the king scan; it returns the value of `winner`. -/
def kingRound (g : GameData) (killer : Int) (winner : Bool) (i : Int) : Except Fault Bool := do
  let king ← force (g.boardA i)
  let attacked ← andThen (king.pieceType = .king) (do
    let piece ← force (g.boardA i)
    let last ← force (g.boardA killer)
    return piece.color != last.color)
  return if attacked && g.check i killer then false else winner

def kingScan (g : GameData) (killer : Int) (winner : Bool) : Except Fault Bool :=
  (upTo 0 63).foldlM (kingRound g killer) winner

/-- The line printed after the loop. -/
def announcement (moves : Int) : String :=
  if moves.tmod 2 = 1 then "Black Win" else "White Win"

namespace Worker

/-- The worker when the loop is entered, on a board already set up. -/
def start (verf : GameData) : Worker :=
  ⟨verf, true, -1, -1, -1, -1, 0, 0, .waiting .source⟩

def ptcolor (w : Worker) : Color := if w.color = 1 then .black else .white

def position (w : Worker) : Int := w.row * 8 + w.col

def nextPosition (w : Worker) : Int := w.row1 * 8 + w.col1

/-- The condition of the source loop. Its lookups are optional chains: on a
missing key the second comparison holds. -/
def rejectsSource (w : Worker) : Bool :=
  (w.verf.boardA w.position).map Piece.pieceType == some .empty ||
    (w.verf.boardA w.position).map Piece.color != some w.ptcolor

/-- `row = self.number / 8`, or `row1` at the target waits. -/
def readRow (w : Worker) (number : Int) : Worker :=
  match w.status with
  | .waiting site => if site.isSource then { w with row := MyIVR.row number }
    else { w with row1 := MyIVR.row number }
  | _ => w

/-- `col = self.number % 8`, or `col1` at the target waits. -/
def readCol (w : Worker) (number : Int) : Worker :=
  match w.status with
  | .waiting site => if site.isSource then { w with col := MyIVR.col number }
    else { w with col1 := MyIVR.col number }
  | _ => w

def loopHead (w : Worker) : Worker :=
  { w with status := if w.winner then .waiting .source else .ended (announcement w.moves) }

/-- From the end of the target loop to the head of the outer loop. -/
def finishTurn (w : Worker) : Worker × Option Move :=
  match updateBoard w.verf w.position w.nextPosition with
  | .error fault => ({ w with status := .faulted fault }, none)
  | .ok (verf, move) =>
    match kingScan verf w.nextPosition w.winner with
    | .error fault => ({ w with verf := verf, status := .faulted fault }, move)
    | .ok winner =>
      (loopHead { w with
        verf := verf, winner := winner, moves := w.moves + 1, color := |w.color - 1| }, move)

def sourceHead (w : Worker) : Worker × Option Move :=
  ({ w with status := .waiting (if w.rejectsSource then .sourceAgain else .target) }, none)

def targetHead (w : Worker) : Worker × Option Move :=
  match rejectsTarget w.verf w.position w.nextPosition with
  | .error fault => ({ w with status := .faulted fault }, none)
  | .ok (true, verf) => ({ w with verf := verf, status := .waiting .targetAgain }, none)
  | .ok (false, verf) => finishTurn { w with verf := verf }

/-- From the two reads of a square to the next wait. -/
def resume (w : Worker) : Worker × Option Move :=
  match w.status with
  | .waiting site => if site.isSource then w.sourceHead else w.targetHead
  | _ => (w, none)

/-- A successful wait that finds `number`, up to the next wait. -/
def step (w : Worker) (number : Int) : Worker × Option Move := ((w.readRow number).readCol number).resume

/-- A successful wait after a tap on the square, up to the next wait. -/
def tap (w : Worker) (s : Square) : Worker × Option Move := w.step s.key

def run (w : Worker) (squares : List Square) : Worker := Mealy.state tap w squares

def executed (w : Worker) (squares : List Square) : List Move := Mealy.outputs tap w squares

theorem run_append (w : Worker) (ts us : List Square) : w.run (ts ++ us) = (w.run ts).run us :=
  Mealy.state_append ..

theorem executed_append (w : Worker) (ts us : List Square) :
    w.executed (ts ++ us) = w.executed ts ++ (w.run ts).executed us := Mealy.outputs_append ..

theorem run_snoc (w : Worker) (squares : List Square) (s : Square) :
    w.run (squares ++ [s]) = ((w.run squares).tap s).1 := Mealy.state_snoc ..

theorem executed_snoc (w : Worker) (squares : List Square) (s : Square) :
    w.executed (squares ++ [s]) = w.executed squares ++ ((w.run squares).tap s).2.toList :=
  Mealy.outputs_snoc ..

end Worker

/-- The worker of a new game. -/
def startNewGame : Worker := .start GameData.new.initBoardA

end MyIVR
