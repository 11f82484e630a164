import MyIVR.Foundations.KeyTree
import MyIVR.Game.GameData
import Mathlib.Data.String.Basic

/-! The functions of DataService. A write is applied to the database at once; the
keys of childByAutoId and the date are parameters. A read is a pair of the calls
its handler receives and the fault that ended it, if one did. Ids and the names of boards
are single keys: `child` would split one at a slash, and rejects some characters. -/
namespace MyIVR
open Swift KeyTree

/-- A value at a leaf of the database. -/
inductive Value where
  | str (s : String)
  | num (n : Int)
  deriving DecidableEq, Repr

abbrev Snapshot := Node String Value

/-- `value as! String` -/
def asString : Snapshot → Except Fault String
  | .leaf (.str s) => .ok s
  | _ => .error .badCast

/-- `value as? String` -/
def asString? : Snapshot → Option String
  | .leaf (.str s) => some s
  | _ => none

def digits (l : List Char) : Option Nat :=
  if l ≠ [] ∧ l.all Char.isDigit then some (l.foldl (fun n c => n * 10 + (c.toNat - 48)) 0) else none

/-- `Int(s)`: an optional sign and decimal digits, with a value of 64 bits. -/
def parseInt (s : String) : Option Int := do
  let n ← match s.toList with
    | '-' :: l => (digits l).map (fun n => -(n : Int))
    | '+' :: l => (digits l).map (fun n => (n : Int))
    | l => (digits l).map (fun n => (n : Int))
  if -2 ^ 63 ≤ n ∧ n < 2 ^ 63 then some n else none

/-- The prefix of a square's fields. -/
def squareKey (i : Int) : String :=
  let k := toString i
  if i < 10 then "0" ++ k else k

def text (s : String) : Snapshot := .leaf (.str s)

/-- `snapshot.forEach { handler(...) }` -/
def callEach {α : Type} (body : Snapshot → Except Fault α) : List Snapshot → List α × Option Fault
  | [] => ([], none)
  | snap :: rest =>
    match body snap with
    | .error fault => ([], some fault)
    | .ok call =>
      let (calls, fault) := callEach body rest
      (call :: calls, fault)

def setBoard (userID number : String) (db : Snapshot) : Snapshot :=
  db.modify (fun t => t.merge [("board", text number)]) ["users", userID]

def board (userID : String) (db : Snapshot) : List String × Option Fault :=
  callEach (fun snap => return (asString? (snap.child "number")).getD "1")
    ((db.get ["users", userID]).children.map Prod.snd)

def setFigure (userID number : String) (db : Snapshot) : Snapshot :=
  db.modify (fun t => t.merge [("figure", text number)]) ["users", userID]

def figure (userID : String) (db : Snapshot) : List String × Option Fault :=
  callEach (fun snap => return (asString? (snap.child "figure")).getD "1")
    ((db.get ["users", userID]).children.map Prod.snd)

/-- The two keys are those of the game and of the entry under userGames. The
second component is the argument of `success`. -/
def createGame (name senderID : String) (rait : Int) (key entryKey : String) (db : Snapshot) :
    Snapshot × String :=
  let db := db.modify (fun t => t.merge
    [("name", text name), ("status", text "1"), ("senderID", text senderID), ("uuid", text key),
      ("rait", text (toString rait))]) ["games", key]
  (db.modify (fun _ => text key) ["users", senderID, "userGames", entryKey], key)

structure Game where
  name : String
  status : String
  senderID : String
  uuid : String
  rait : String
  deriving DecidableEq, Repr

/-- One round of the loop in the callback of searchGame. -/
def searchRound (gameArray : List Game) (snap : Snapshot) : Except Fault (List Game) := do
  let gameName ← asString (snap.child "name")
  let gameStatus ← asString (snap.child "status")
  let senderID ← asString (snap.child "senderID")
  let uuid ← asString (snap.child "uuid")
  let rait ← asString (snap.child "rait")
  let game : Game := ⟨gameName, gameStatus, senderID, uuid, rait⟩
  if (← force (parseInt gameStatus)) < 4 then return gameArray ++ [game] else return gameArray

/-- The node that holds the games, and the saves of all users below one key. -/
def games (db : Snapshot) : Snapshot := db.child "games"

/-- The handler is called after the callback is registered and before it runs,
with the array it has yet to fill. -/
def searchGame (db : Snapshot) : List (List Game) × Option Fault :=
  ([[]], match ((games db).children.map Prod.snd).foldlM searchRound [] with
    | .error fault => some fault
    | .ok _ => none)

def enterGame (userID gameID status entryKey : String) (db : Snapshot) : Snapshot :=
  let db := db.modify (fun _ => text gameID) ["users", userID, "userGames", entryKey]
  db.modify (fun t => t.merge [("status", text status)]) ["games", gameID]

/-- Each child of the game is asked for its own child `status`. -/
def checkStatus (gameID : String) (db : Snapshot) : List String × Option Fault :=
  callEach (fun snap => asString (snap.child "status")) ((db.get ["games", gameID]).children.map Prod.snd)

def updateGame (gameID board : String) (db : Snapshot) :
    List (Option Int × Option Int) × Option Fault :=
  callEach (fun snap => do
    let pos := parseInt (← asString (snap.child "LastFrom"))
    let pos1 := parseInt (← asString (snap.child "LastTo"))
    return (pos, pos1)) ((db.get ["games", gameID, board]).children.map Prod.snd)

def makeMove (gameID board : String) (pos pos1 : Int) (db : Snapshot) : Snapshot :=
  db.modify (fun t => t.merge [("LastFrom", text (toString pos)), ("LastTo", text (toString pos1))])
    ["games", gameID, board]

/-- An update under the empty key writes the node itself. -/
def setDead (gameID board figure : String) (db : Snapshot) : Snapshot :=
  db.modify (fun _ => text figure) ["games", gameID, board]

def checkDead (gameID board : String) (db : Snapshot) : List (List String) × Option Fault :=
  callEach (fun snap => do return [← asString (snap.child "LastTo")])
    ((db.get ["games", gameID, board]).children.map Prod.snd)

/-- One round of the loop of saveGame. -/
def saveSquare (ref : List String) (board : Board) (db : Snapshot) (i : Int) : Except Fault Snapshot := do
  let k := squareKey i
  let piece ← force (board i)
  return db.modify (fun t => t.merge
    [(k ++ "PieceType", text piece.pieceType.rawValue), (k ++ "Color", text piece.color.rawValue)]) ref

def saveGame (userID : String) (players color moves : Int) (board : Board)
    (gameID saveKey date : String) (db : Snapshot) : Except Fault Snapshot := do
  let ref := ["games", "saves", gameID]
  let db ← (upTo 0 63).foldlM (saveSquare ref board) db
  let db := db.modify (fun t => t.merge [("players", text (toString players))]) ref
  let db := db.modify (fun t => t.merge [("moves", text (toString moves))]) ref
  let db := db.modify (fun t => t.merge [("date", text date)]) ref
  let db := db.modify (fun t => t.merge [("color", .leaf (.num color))]) ref
  return db.modify (fun _ => text gameID) ["users", userID, "userSaves", saveKey]

def checkSaves (userID : String) (db : Snapshot) : List (List String) × Option Fault :=
  match ((db.get ["users", userID, "userSaves"]).children.map Prod.snd).foldlM
    (fun saveGamesID snap => do return saveGamesID ++ [← asString snap]) [] with
  | .error fault => ([], some fault)
  | .ok saveGamesID => ([saveGamesID], none)

/-- The arguments of a call of loadGame's handler. -/
structure Save where
  save : Board
  players : Int
  color : Int
  date : String
  moves : Int

/-- One round of the inner loop of loadGame. -/
def loadSquare (snap : Snapshot) (pieces : GameData) (i : Int) : Except Fault GameData := do
  let k := squareKey i
  let piece ← asString (snap.child (k ++ "PieceType"))
  let color ← asString (snap.child (k ++ "Color"))
  let type ← force (PieceType.ofRawValue piece)
  let color ← force (Color.ofRawValue color)
  return pieces.place i type color

/-- The body of loadGame's loop over the saves. The dictionary `pieces` is
declared outside and carried on. -/
def loadRecord (snap : Snapshot) (pieces : GameData) : Except Fault (GameData × Save) := do
  let pieces ← (upTo 0 63).foldlM (loadSquare snap) pieces
  let players := parseInt (← asString (snap.child "players"))
  let color := parseInt (← asString (snap.child "color"))
  let date := asString? (snap.child "date")
  let moves := parseInt (← asString (snap.child "moves"))
  return (pieces, ⟨pieces.boardA, ← force players, ← force color, ← force date, ← force moves⟩)

/-- The loop: the calls of the handler, and the fault that ended it if one did. -/
def loadRecords : List Snapshot → GameData → List Save × Option Fault
  | [], _ => ([], none)
  | snap :: rest, pieces =>
    match loadRecord snap pieces with
    | .error fault => ([], some fault)
    | .ok (pieces, save) =>
      let (calls, fault) := loadRecords rest pieces
      (save :: calls, fault)

/-- The node that holds the saves of all users. -/
def saves (db : Snapshot) : Snapshot := db.get ["games", "saves"]

/-- The source never reads its argument. -/
def loadGame (_gameID : String) (db : Snapshot) : List Save × Option Fault :=
  loadRecords ((saves db).children.map Prod.snd) .new

end MyIVR
