import MyIVR.Game.TurnInvariant

/-! The turn loop of TwoPlayerGame cut at its statements, with the presses that
can come between any two of them. A statement writes at most one shared variable.
CanGoTo writes none, so a call of it is one step; canKill, GoTo and kill are cut open. -/
namespace MyIVR
open Swift

/-- Where a test is asked: in the condition of the target loop or behind it. -/
inductive Asker where
  | loop | update
  deriving DecidableEq, Repr

/-- The statement the worker executes next. -/
inductive Point where
  | head
  | copy
  | wait (site : Site)
  | readRow (site : Site)
  | readCol (site : Site)
  | sourceTest
  | askMove (asker : Asker)
  | compare (asker : Asker)
  | keep (asker : Asker)
  | vacate (asker : Asker) (a : Option Piece)
  | askEmptied (asker : Asker) (a : Option Piece)
  | restore (asker : Asker) (a : Option Piece) (answer : Bool)
  | assign (kind : MoveKind)
  | clear (kind : MoveKind)
  | display (kind : MoveKind)
  | scan (i : Nat)
  | count
  | swapColor
  | stopped (status : Status)
  deriving DecidableEq, Repr

/-- An executed GoTo or kill with its arguments. -/
structure Update where
  kind : MoveKind
  position : Int
  nextPosition : Int
  deriving DecidableEq, Repr

/-- `boardA[nextPosition]!.Color != boardA[position]!.Color` -/
def colorsDiffer (b : Board) (position nextPosition : Int) : Except Fault Bool := do
  let next ← force (b nextPosition)
  let piece ← force (b position)
  return next.color != piece.color

/-- The controller and the variables of the worker's closure. GameData is a class:
`coppy` and `verf` name objects, and an assignment between them copies no board. -/
structure TwoPlayerGame where
  objects : Nat → GameData
  coppy : Nat
  verf : Nat
  number : Int
  semaphore : Nat
  moves : Int
  winner : Bool
  row : Int
  col : Int
  row1 : Int
  col1 : Int
  color : Int
  point : Point

inductive Signal where
  | press (s : Square)
  | work
  deriving DecidableEq, Repr

namespace TwoPlayerGame

/-- When startNewGame has started the worker: object 1 is `verf`, and object 0 the
one `coppy` was initialized with. -/
def startNewGame : TwoPlayerGame where
  objects := Function.update (fun _ => GameData.new) 1 GameData.new.initBoardA
  coppy := 1
  verf := 1
  number := 0
  semaphore := 0
  moves := 0
  winner := true
  row := -1
  col := -1
  row1 := -1
  col1 := -1
  color := 0
  point := .head

variable (t : TwoPlayerGame)

def game : GameData := t.objects t.verf

def position : Int := t.row * 8 + t.col

def nextPosition : Int := t.row1 * 8 + t.col1

/-- The worker of the loop that runs from wait to wait, with the same variables. -/
def worker (site : Site) : Worker :=
  ⟨t.game, t.winner, t.row, t.col, t.row1, t.col1, t.color, t.moves, .waiting site⟩

/-- A press of Save reads the counter and the board of `coppy`. -/
def saveGame : Int × Board := (t.moves, (t.objects t.coppy).boardA)

def goto (point : Point) : TwoPlayerGame := { t with point := point }

def trap (fault : Fault) : TwoPlayerGame := t.goto (.stopped (.faulted fault))

def write (g : GameData) : TwoPlayerGame := { t with objects := Function.update t.objects t.verf g }

def answered (asker : Asker) (kind : MoveKind) (answer : Bool) : TwoPlayerGame :=
  match asker, kind, answer with
  | .loop, _, true => t.goto (.askMove .update)
  | .loop, .goTo, false => t.goto (.compare .loop)
  | .loop, .kill, false => t.goto (.wait .targetAgain)
  | .update, kind, true => t.goto (.assign kind)
  | .update, .goTo, false => t.goto (.compare .update)
  | .update, .kill, false => t.goto (.scan 0)

/-- Execute the next statement. At a wait that does not succeed nothing happens. -/
def execute : TwoPlayerGame × Option Update :=
  match t.point with
  | .head => (if t.winner then t.goto .copy else t.goto (.stopped (.ended (announcement t.moves))), none)
  | .copy => ({ t with coppy := t.verf, point := .wait .source }, none)
  | .wait site =>
    (if 0 < t.semaphore then { t with semaphore := t.semaphore - 1, point := .readRow site } else t, none)
  | .readRow site =>
    (if site.isSource then { t with row := MyIVR.row t.number, point := .readCol site }
      else { t with row1 := MyIVR.row t.number, point := .readCol site }, none)
  | .readCol site =>
    (if site.isSource then { t with col := MyIVR.col t.number, point := .sourceTest }
      else { t with col1 := MyIVR.col t.number, point := .askMove .loop }, none)
  | .sourceTest => (t.goto (.wait (if (t.worker .source).rejectsSource then .sourceAgain else .target)), none)
  | .askMove asker =>
    (match canGoTo t.game.boardA t.position t.nextPosition with
      | .error fault => t.trap fault
      | .ok answer => t.answered asker .goTo answer, none)
  | .compare asker =>
    (match colorsDiffer t.game.boardA t.position t.nextPosition with
      | .error fault => t.trap fault
      | .ok differ => if differ then t.goto (.keep asker) else t.answered asker .kill false, none)
  | .keep asker => (t.goto (.vacate asker (t.game.boardA t.nextPosition)), none)
  | .vacate asker a =>
    ((t.write (t.game.place t.nextPosition .empty .white)).goto (.askEmptied asker a), none)
  | .askEmptied asker a =>
    (match canGoTo t.game.boardA t.position t.nextPosition with
      | .error fault => t.trap fault
      | .ok answer => t.goto (.restore asker a answer), none)
  | .restore asker a answer =>
    ((t.write { t.game with boardA := t.game.boardA.assign t.nextPosition a }).answered asker .kill answer, none)
  | .assign kind =>
    ((t.write { t.game with boardA := t.game.boardA.assign t.nextPosition (t.game.boardA t.position) }).goto
      (.clear kind), none)
  | .clear kind =>
    ((t.write (t.game.place t.position .empty .white)).goto (.display kind),
      some ⟨kind, t.position, t.nextPosition⟩)
  | .display _ => (t.goto (.scan 0), none)
  | .scan i =>
    (match kingRound t.game t.nextPosition t.winner i with
      | .error fault => t.trap fault
      | .ok winner => { t with winner := winner, point := if i = 63 then .count else .scan (i + 1) }, none)
  | .count => ({ t with moves := t.moves + 1, point := .swapColor }, none)
  | .swapColor => ({ t with color := |t.color - 1|, point := .head }, none)
  | .stopped _ => (t, none)

/-- A press of a button on the main thread, or the worker's next statement. -/
def step : Signal → TwoPlayerGame × Option Update
  | .press s => ({ t with number := s.key, semaphore := t.semaphore + 1 }, none)
  | .work => t.execute

def run (signals : List Signal) : TwoPlayerGame := Mealy.state step t signals

def executed (signals : List Signal) : List Update := Mealy.outputs step t signals

end TwoPlayerGame
end MyIVR
