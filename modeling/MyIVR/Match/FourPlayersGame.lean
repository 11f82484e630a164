import MyIVR.Game.TurnSteps
import MyIVR.Store.Decimal

/-! The controller FourPlayersGame: presses and polls on the main thread, and the
worker of playGame, which stops between any two accesses to what they share. Both
copies of the turn code in playGame are the same, so it stands here once. -/
namespace MyIVR
open Swift KeyTree

/-- Where the worker of playGame stands. -/
inductive Stage where
  | waiting (site : Site)
  | woken (site : Site)
  | rowRead (site : Site)
  | publishing
  | cheking
  | confirming
  | faulted (fault : Fault)
  | ended
  deriving DecidableEq, Repr

/-- The worker has selected a piece and asks for its target. -/
def Stage.atTarget : Stage → Bool
  | waiting site | woken site | rowRead site => !site.isSource
  | _ => false

/-- The controller, with the variables of playGame's closure. `boardID` is the
parameter `number` of playGame, which hides the property; `pending` counts the
closures that cheking has queued on the main thread. -/
structure FourPlayersGame where
  person : Int
  gameID : String
  winner : Bool
  number : Int
  semaphore : Nat
  semaphore2 : Nat
  position : Int × Int
  position1 : Int × Int
  sucsess : Bool
  board : GameData
  boardID : Int
  row : Int
  col : Int
  row1 : Int
  col1 : Int
  pending : Nat
  stage : Stage

/-- What can be seen of a step: a local move, a message, and a poll with the pair
it took as new. -/
inductive Sign where
  | turn (position nextPosition : Int) (color : Option Color)
  | published (pair : Int × Int)
  | polled (number : Int) (accepted : Option (Int × Int))
  deriving DecidableEq, Repr

/-- The square that buttonPressed computes from the centre of its sender. -/
def tappedNumber (centerX centerY : Int) : Int :=
  ((centerX - 19 - 34).tdiv 38).tmod 8 + (-1 * centerY + 19 + 234).tdiv 38 * 8

/-- `if board.CanGoTo(...) { board.GoTo(...) }` -/
def moveIfFree (board : GameData) (position nextPosition : Int) : Except Fault GameData := do
  if ← canGoTo board.boardA position nextPosition then
    return board.goTo position nextPosition
  return board

/-- An idealised read: the pair that the two fields at the node of a board hold. The
source's updateGame, which Store.DataService has, looks one level below them, and on a
node that makeMove has written it traps. -/
def storedPair (gameID board : String) (db : Snapshot) : Option (Option Int × Option Int) := do
  let pos ← asString? ((db.get ["games", gameID, board]).child "LastFrom")
  let pos1 ← asString? ((db.get ["games", gameID, board]).child "LastTo")
  return (parseInt pos, parseInt pos1)

private theorem moveIfFree_ok {g g' : GameData} {p q : Int} {r : Bool}
    (h : rejectsTarget g p q = .ok (r, g')) : ∃ moved, moveIfFree g' p q = .ok moved := by
  rw [moveIfFree, rejectsTarget_boardA h]
  rw [rejectsTarget] at h
  obtain ⟨answer, ha, _⟩ := bind_eq_ok h
  rw [ha]
  cases answer with
  | true => exact ⟨_, rfl⟩
  | false => exact ⟨_, rfl⟩

namespace FourPlayersGame

def source (c : FourPlayersGame) : Int := c.row * 8 + c.col

def target (c : FourPlayersGame) : Int := c.row1 * 8 + c.col1

def buttonPressed (c : FourPlayersGame) (centerX centerY : Int) : FourPlayersGame :=
  { c with number := tappedNumber centerX centerY, semaphore := c.semaphore + 1 }

/-- The handler in cheking. It forces both numbers before it compares them. -/
def handler (c : FourPlayersGame) (pair : Option Int × Option Int) :
    FourPlayersGame × Option (Int × Int) :=
  match pair with
  | (some pos, some pos1) =>
    if c.position1 ≠ (pos, pos1) then
      ({ c with position := c.position1, position1 := (pos, pos1), sucsess := true }, some (pos, pos1))
    else (c, none)
  | _ => ({ c with stage := .faulted .missingKey }, none)

/-- A closure queued by cheking runs, with the idealised read of storedPair in place of
updateGame. The node it reads is named by the last tapped square. -/
def poll (c : FourPlayersGame) (db : Snapshot) : FourPlayersGame × Option Sign :=
  if c.pending = 0 then (c, none)
  else
    let c := { c with pending := c.pending - 1 }
    match storedPair c.gameID (toString c.number) db with
    | none => (c, some (.polled c.number none))
    | some pair => ((c.handler pair).1, some (.polled c.number (c.handler pair).2))

/-- The head of the loop of playGame, with the assignment that opens cheking. -/
def loopHead (c : FourPlayersGame) : FourPlayersGame :=
  if c.winner then { c with stage := .ended } else { c with sucsess := false, stage := .cheking }

/-- The condition of the source loop, with optional chains as in TwoPlayerGame. -/
def rejectsSource (c : FourPlayersGame) : Bool :=
  (c.board.boardA c.source).map Piece.pieceType == some .empty ||
    (c.board.boardA c.source).map Piece.color != some .black

def sourceHead (c : FourPlayersGame) : FourPlayersGame :=
  { c with stage := .waiting (if c.rejectsSource then .sourceAgain else .target) }

/-- The head of the target loop, and the update behind it. -/
def targetHead (c : FourPlayersGame) : FourPlayersGame × Option Sign :=
  match rejectsTarget c.board c.source c.target with
  | .error fault => ({ c with stage := .faulted fault }, none)
  | .ok (true, board) => ({ c with board := board, stage := .waiting .targetAgain }, none)
  | .ok (false, board) =>
    match moveIfFree board c.source c.target with
    | .error fault => ({ c with board := board, stage := .faulted fault }, none)
    | .ok moved =>
      ({ c with board := moved, stage := .publishing },
        some (.turn c.source c.target ((c.board.boardA c.source).map Piece.color)))

/-- What the target loop does with a square it has read: it faults, goes on
asking on the same dictionary, or makes the move. -/
theorem targetHead_cases (c : FourPlayersGame) :
    (∃ fault, rejectsTarget c.board c.source c.target = .error fault ∧
      c.targetHead = ({ c with stage := .faulted fault }, none)) ∨
    (∃ board, rejectsTarget c.board c.source c.target = .ok (true, board) ∧
      board.boardA = c.board.boardA ∧
      c.targetHead = ({ c with board := board, stage := .waiting .targetAgain }, none)) ∨
    ∃ board moved, rejectsTarget c.board c.source c.target = .ok (false, board) ∧
      board.boardA = c.board.boardA ∧ moveIfFree board c.source c.target = .ok moved ∧
      c.targetHead = ({ c with board := moved, stage := .publishing },
        some (.turn c.source c.target ((c.board.boardA c.source).map Piece.color))) := by
  rw [targetHead]
  cases hr : rejectsTarget c.board c.source c.target with
  | error fault => exact .inl ⟨fault, rfl, rfl⟩
  | ok answer =>
    obtain ⟨rejected, board⟩ := answer
    have hb := rejectsTarget_boardA hr
    cases rejected with
    | true => exact .inr (.inl ⟨board, rfl, hb, rfl⟩)
    | false =>
      obtain ⟨moved, hm⟩ := moveIfFree_ok hr
      exact .inr (.inr ⟨board, moved, rfl, hb, hm, by simp only [hm]⟩)

/-- The arguments of makeMove: `let pos = number` names the parameter. -/
def message (c : FourPlayersGame) : Int × Int :=
  let pos := c.boardID
  (pos, c.number)

/-- Behind the wait on semaphore2. -/
def receive (c : FourPlayersGame) : FourPlayersGame :=
  match moveIfFree c.board c.position1.1 c.position1.2 with
  | .error fault => { c with stage := .faulted fault }
  | .ok board => { c with board := board, stage := .waiting .source }

/-- `row = self.number / 8`, or `row1` at the target waits. -/
def readRow (c : FourPlayersGame) (site : Site) : FourPlayersGame :=
  if site.isSource then { c with row := MyIVR.row c.number } else { c with row1 := MyIVR.row c.number }

/-- `col = self.number % 8`, or `col1` at the target waits. -/
def readCol (c : FourPlayersGame) (site : Site) : FourPlayersGame :=
  if site.isSource then { c with col := MyIVR.col c.number } else { c with col1 := MyIVR.col c.number }

/-- The worker up to its next access to a shared variable. A wait that does not
succeed and an ended worker change nothing. -/
def work (c : FourPlayersGame) (db : Snapshot) : FourPlayersGame × Snapshot × Option Sign :=
  match c.stage with
  | .waiting site =>
    if 0 < c.semaphore then ({ c with semaphore := c.semaphore - 1, stage := .woken site }, db, none)
    else (c, db, none)
  | .woken site =>
    ({ c.readRow site with stage := .rowRead site }, db, none)
  | .rowRead site =>
    if site.isSource then ((c.readCol site).sourceHead, db, none)
    else ((c.readCol site).targetHead.1, db, (c.readCol site).targetHead.2)
  | .publishing =>
    (c.loopHead, makeMove c.gameID (toString c.boardID) c.message.1 c.message.2 db,
      some (.published c.message))
  | .cheking =>
    if c.sucsess then ({ c with stage := .confirming }, db, none)
    else ({ c with pending := c.pending + 1 }, db, none)
  | .confirming =>
    if 0 < c.semaphore2 then ({ c.receive with semaphore2 := c.semaphore2 - 1 }, db, none)
    else (c, db, none)
  | .faulted _ | .ended => (c, db, none)

/-- The fields of a client that decide what is sent, where, and what counts as new. -/
def SameAddress (c c' : FourPlayersGame) : Prop :=
  c'.gameID = c.gameID ∧ c'.boardID = c.boardID ∧ c'.position1 = c.position1

theorem sameAddress_readCol (c : FourPlayersGame) (site : Site) : SameAddress c (c.readCol site) := by
  rw [readCol]
  split <;> exact ⟨rfl, rfl, rfl⟩

theorem readCol_target {c : FourPlayersGame} {site : Site} (h : site.isSource = false) :
    (c.readCol site).board = c.board ∧ (c.readCol site).source = c.source ∧
      (c.readCol site).target = c.row1 * 8 + MyIVR.col c.number := by
  rw [readCol, h]
  exact ⟨rfl, rfl, rfl⟩

/-- The board is as before, and no square has been selected since. -/
def SameSelection (c c' : FourPlayersGame) : Prop :=
  c'.board = c.board ∧ (c'.stage.atTarget = true → c.stage.atTarget = true ∧ c'.source = c.source)

theorem sameSelection_poll (c : FourPlayersGame) (db : Snapshot) : SameSelection c (c.poll db).1 := by
  rw [poll]
  split
  · exact ⟨rfl, fun h => ⟨h, rfl⟩⟩
  · simp only
    cases storedPair c.gameID (toString c.number) db with
    | none => exact ⟨rfl, fun h => ⟨h, rfl⟩⟩
    | some pair =>
      simp only [handler]
      split
      · split <;> exact ⟨rfl, fun h => ⟨h, rfl⟩⟩
      · exact ⟨rfl, fun h => by cases h⟩

/-- What a step of the worker can do: nothing that touches the board, the
database or a selected square; the heads of the two loops, with a column read;
publish; or make the other client's move. -/
theorem work_cases (c : FourPlayersGame) (db : Snapshot) :
    (∃ c', c.work db = (c', db, none) ∧ SameAddress c c' ∧ SameSelection c c' ∧
      ∀ site, c.stage ≠ .rowRead site) ∨
    (∃ site, c.stage = .rowRead site ∧ site.isSource = true ∧
      c.work db = ((c.readCol site).sourceHead, db, none)) ∨
    (∃ site, c.stage = .rowRead site ∧ site.isSource = false ∧
      c.work db = ((c.readCol site).targetHead.1, db, (c.readCol site).targetHead.2)) ∨
    (c.stage = .publishing ∧
      c.work db = (c.loopHead, makeMove c.gameID (toString c.boardID) c.boardID c.number db,
        some (.published (c.boardID, c.number)))) ∨
    c.stage = .confirming ∧
      c.work db = ({ c.receive with semaphore2 := c.semaphore2 - 1 }, db, none) := by
  cases hs : c.stage with
  | waiting site =>
    left
    simp only [work, hs]
    split
    · exact ⟨_, rfl, ⟨rfl, rfl, rfl⟩, ⟨rfl, fun hsel => ⟨by rw [hs]; exact hsel, rfl⟩⟩, by simp⟩
    · exact ⟨c, rfl, ⟨rfl, rfl, rfl⟩, ⟨rfl, fun hsel => ⟨hsel, rfl⟩⟩, by simp⟩
  | woken site =>
    left
    simp only [work, hs, readRow]
    cases ht : site.isSource with
    | true =>
      refine ⟨_, rfl, ⟨rfl, rfl, rfl⟩, ⟨rfl, fun hsel => ?_⟩, by simp⟩
      simp [Stage.atTarget, ht] at hsel
    | false =>
      refine ⟨_, rfl, ⟨rfl, rfl, rfl⟩, ⟨rfl, fun _ => ⟨?_, rfl⟩⟩, by simp⟩
      simp [hs, Stage.atTarget, ht]
  | rowRead site =>
    cases ht : site.isSource with
    | true => exact .inr (.inl ⟨site, rfl, ht, by simp [work, hs, ht]⟩)
    | false => exact .inr (.inr (.inl ⟨site, rfl, ht, by simp [work, hs, ht]⟩))
  | publishing => exact .inr (.inr (.inr (.inl ⟨rfl, by simp only [work, hs, message]⟩)))
  | cheking =>
    left
    simp only [work, hs]
    split <;> refine ⟨_, rfl, ⟨rfl, rfl, rfl⟩, ⟨rfl, fun hsel => ?_⟩, by simp⟩ <;>
      simp [Stage.atTarget] at hsel
  | confirming =>
    by_cases hp : 0 < c.semaphore2
    · exact .inr (.inr (.inr (.inr ⟨rfl, by simp [work, hs, hp]⟩)))
    · exact .inl ⟨c, by simp [work, hs, hp], ⟨rfl, rfl, rfl⟩, ⟨rfl, fun hsel => ⟨hsel, rfl⟩⟩, by simp⟩
  | faulted fault | ended =>
    exact .inl ⟨c, by simp [work, hs], ⟨rfl, rfl, rfl⟩, ⟨rfl, fun hsel => ⟨hsel, rfl⟩⟩, by simp⟩

def playGame (c : FourPlayersGame) (board : GameData) (number : Int) : FourPlayersGame :=
  let c := { c with board := board, boardID := number, row := 1, col := 1, row1 := 1, col1 := 1 }
  if c.person.tmod 2 = 0 then { c with stage := .waiting .source } else c.loopHead

def startNewGames (c : FourPlayersGame) : FourPlayersGame :=
  let board1 := GameData.new
  let board2 := GameData.new
  if c.person < 3 then c.playGame board1 1 else c.playGame board2 2

/-- The controller when waitPlayers calls startNewGames. -/
def entered (person : Int) (gameID : String) : FourPlayersGame :=
  ⟨person, gameID, false, 0, 0, 0, (0, 0), (0, 0), true, .new, 0, 1, 1, 1, 1, 0, .ended⟩

end FourPlayersGame

/-- The two clients of a board. -/
inductive Side where
  | even | odd
  deriving DecidableEq, Repr

def Side.other : Side → Side
  | even => odd
  | odd => even

inductive ClientEvent where
  | tap (centerX centerY : Int)
  | work
  | poll
  deriving DecidableEq, Repr

/-- The database and the clients that share it. -/
structure Match where
  db : Snapshot
  client : Side → FourPlayersGame

namespace Match

def set (m : Match) (i : Side) (c : FourPlayersGame) : Match :=
  { m with client := Function.update m.client i c }

theorem set_same (m : Match) (i : Side) (c : FourPlayersGame) : (m.set i c).client i = c :=
  Function.update_self ..

theorem set_other (m : Match) {i j : Side} (h : i ≠ j) (c : FourPlayersGame) :
    (m.set j c).client i = m.client i := Function.update_of_ne h ..

/-- One step of one client. A crashed client takes no steps. -/
def step (m : Match) (e : Side × ClientEvent) : Match × Option (Side × Sign) :=
  match (m.client e.1).stage, e.2 with
  | .faulted _, _ => (m, none)
  | _, .tap x y => (m.set e.1 ((m.client e.1).buttonPressed x y), none)
  | _, .work =>
    let (c, db, sign) := (m.client e.1).work m.db
    ({ m.set e.1 c with db := db }, sign.map (fun s => (e.1, s)))
  | _, .poll =>
    let (c, sign) := (m.client e.1).poll m.db
    (m.set e.1 c, sign.map (fun s => (e.1, s)))

theorem step_work (m : Match) (i : Side) :
    m.step (i, .work) =
      ({ m.set i ((m.client i).work m.db).1 with db := ((m.client i).work m.db).2.1 },
        ((m.client i).work m.db).2.2.map (fun s => (i, s))) := by
  cases hs : (m.client i).stage with
  | faulted fault => simp [step, FourPlayersGame.work, set, hs]
  | _ => simp only [step, hs]

theorem step_tap (m : Match) (i : Side) (x y : Int) :
    m.step (i, .tap x y) = (m, none) ∨
      m.step (i, .tap x y) = (m.set i ((m.client i).buttonPressed x y), none) := by
  cases hs : (m.client i).stage with
  | faulted fault => exact .inl (by simp only [step, hs])
  | _ => exact .inr (by simp only [step, hs])

theorem step_poll (m : Match) (i : Side) :
    m.step (i, .poll) = (m, none) ∨
      m.step (i, .poll) = (m.set i ((m.client i).poll m.db).1,
        ((m.client i).poll m.db).2.map (fun s => (i, s))) := by
  cases hs : (m.client i).stage with
  | faulted fault => exact .inl (by simp only [step, hs])
  | _ => exact .inr (by simp only [step, hs])

def run (m : Match) (events : List (Side × ClientEvent)) : Match := Mealy.state step m events

/-- What one client's presses, polls and worker keep, every step keeps of both clients. -/
theorem step_invariant {P : FourPlayersGame → Prop}
    (tap : ∀ c x y, P c → P (c.buttonPressed x y)) (poll : ∀ c db, P c → P (c.poll db).1)
    (work : ∀ c db, P c → P (c.work db).1) {m : Match} (h : ∀ i, P (m.client i))
    (e : Side × ClientEvent) : ∀ i, P ((m.step e).1.client i) := by
  obtain ⟨j, ev⟩ := e
  have kept {c : FourPlayersGame} (hc : P c) (i : Side) : P (Function.update m.client j c i) := by
    by_cases hi : i = j
    · subst hi
      simpa using hc
    · simpa [Function.update_of_ne hi] using h i
  cases ev with
  | tap x y =>
    rcases m.step_tap j x y with hstep | hstep <;> rw [hstep]
    · exact h
    · exact kept (tap _ x y (h j))
  | poll =>
    rcases m.step_poll j with hstep | hstep <;> rw [hstep]
    · exact h
    · exact kept (poll _ m.db (h j))
  | work =>
    rw [step_work]
    exact kept (work _ m.db (h j))

theorem run_invariant {P : FourPlayersGame → Prop}
    (tap : ∀ c x y, P c → P (c.buttonPressed x y)) (poll : ∀ c db, P c → P (c.poll db).1)
    (work : ∀ c db, P c → P (c.work db).1) {m : Match} (h : ∀ i, P (m.client i))
    (events : List (Side × ClientEvent)) : ∀ i, P ((m.run events).client i) :=
  Mealy.run_induction (fun (m : Match) _ => ∀ i, P (m.client i)) h
    (fun _ _ e hm => step_invariant tap poll work hm e) events

def signs (m : Match) (events : List (Side × ClientEvent)) : List (Side × Sign) :=
  Mealy.outputs step m events

end Match
end MyIVR
