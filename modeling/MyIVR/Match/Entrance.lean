import MyIVR.Match.FourPlayersGame
import MyIVR.Store.GameSearch
import MyIVR.Store.Tables

/-! The ways into the four-player game: StartFourPlayerGame, SearchGameController, and
the wait of FourPlayersGame for its players. The wait keeps the main thread busy, which
alone could run the closures that end it. -/
namespace MyIVR
open Swift KeyTree

structure StartFourPlayerGame where
  rait : Int
  key : String
  deriving DecidableEq, Repr

namespace StartFourPlayerGame

def initial : StartFourPlayerGame := ⟨1, ""⟩

def raitGame (c : StartFourPlayerGame) : StartFourPlayerGame := { c with rait := |c.rait - 1| }

def request (c : StartFourPlayerGame) (uid key entryKey : String) : Request :=
  .createGame "MyGame" uid c.rait key entryKey

end StartFourPlayerGame

structure SearchGameController where
  games : List Game
  numberGame : Nat
  deriving DecidableEq, Repr

namespace SearchGameController

def initial : SearchGameController := ⟨[], 0⟩

/-- The handler stores the games of each call. -/
def getGames (c : SearchGameController) (db : Snapshot) : SearchGameController :=
  (searchGame db).1.foldl (fun c games => { c with games := games }) c

/-- The rait and the game that the segue hands over. An index out of range and text
that is no number trap. -/
def prepare (c : SearchGameController) : Option (Int × Game) := do
  let game ← c.games[c.numberGame]?
  return (← parseInt game.rait, game)

end SearchGameController

/-- The controller FourPlayersGame up to startNewGames; `queued` counts the closures
that waitPlayers has queued on the main thread. -/
structure Waiting where
  rait : Int
  game : Option Game
  sucsess : Bool
  queued : Nat
  deriving DecidableEq, Repr

/-- A closure of waitPlayers, with the read it starts: each call of the handler tests the
status. The closure forces the game, and it faults with checkStatus. -/
def Waiting.closure (w : Waiting) (db : Snapshot) : Option Waiting := do
  let game ← w.game
  match checkStatus game.uuid db with
  | (statuses, none) =>
    return { w with
      sucsess := w.sucsess || statuses.any (fun status => parseInt status == some 4)
      game := some { game with status := statuses.getLast?.getD game.status }
      queued := w.queued - 1 }
  | (_, some _) => none

/-- What the main thread is at. It is busy in `waitPlayers`, and free on the other
screens. A search lies above the screen that it was opened from. -/
inductive AppScreen where
  | welcome
  | start (c : StartFourPlayerGame)
  | search (below : StartFourPlayerGame) (c : SearchGameController)
  | waitPlayers (w : Waiting)
  | startNewGames (w : Waiting)
  | trapped
  deriving DecidableEq, Repr

inductive AppEvent where
  | start
  | search
  | back
  | raitGame
  | pressedMakeGame (key entryKey : String)
  | getGames
  | searched
  | didSelectRow (row : Nat)
  | round
  | closure
  | remote (r : Request)

/-- One user's app, and the database that it shares with others; `searches` counts the
reads of searchGame that are under way. -/
structure App where
  uid : String
  db : Snapshot
  searches : Nat
  screen : AppScreen

namespace App

/-- The callback of searchGame. Its array is no longer read, but a bad cast traps. -/
def searched (a : App) : App :=
  match a.searches, (searchGame a.db).2 with
  | 0, _ => a
  | n + 1, none => { a with searches := n }
  | _ + 1, some _ => { a with screen := .trapped }

/-- One step of the main thread, or a call of another client. Presses and closures are
served only when the main thread is free. -/
def step (a : App) (e : AppEvent) : App :=
  match a.screen, e with
  | _, .remote r => { a with db := r.perform a.db }
  | .welcome, .start => { a with screen := .start .initial }
  | .start _, .back => { a with screen := .welcome }
  | .start c, .search => { a with screen := .search c .initial }
  | .search below _, .back => { a with screen := .start below }
  | .start c, .raitGame => { a with screen := .start c.raitGame }
  | .start c, .pressedMakeGame key entryKey =>
    { a with db := (c.request a.uid key entryKey).perform a.db, screen := .waitPlayers ⟨c.rait, none, false, 0⟩ }
  | .search below c, .getGames => { a with searches := a.searches + 1, screen := .search below (c.getGames a.db) }
  | .welcome, .searched | .start _, .searched | .search _ _, .searched | .startNewGames _, .searched => a.searched
  | .search _ c, .didSelectRow row =>
    match ({ c with numberGame := row } : SearchGameController).prepare with
    | some (rait, game) => { a with screen := .waitPlayers ⟨rait, some game, false, 0⟩ }
    | none => { a with screen := .trapped }
  | .waitPlayers w, .round =>
    if w.sucsess then { a with screen := .startNewGames w }
    else { a with screen := .waitPlayers { w with queued := w.queued + 1 } }
  | .startNewGames w, .closure =>
    match w.closure a.db with
    | some w => { a with screen := .startNewGames w }
    | none => { a with screen := .trapped }
  | _, _ => a

def run (a : App) (events : List AppEvent) : App := events.foldl step a

@[simp] theorem run_snoc (a : App) (events : List AppEvent) (e : AppEvent) :
    a.run (events ++ [e]) = (a.run events).step e := by
  rw [run, List.foldl_append]
  rfl

theorem run_append (a : App) (events later : List AppEvent) :
    a.run (events ++ later) = (a.run events).run later := List.foldl_append

def launched (uid : String) (db : Snapshot) : App := ⟨uid, db, 0, .welcome⟩

/-- What holds of a screen that has been reached. -/
inductive Barred : AppScreen → Prop where
  | welcome : Barred .welcome
  | start {c : StartFourPlayerGame} (rait : c.rait = 0 ∨ c.rait = 1) : Barred (.start c)
  | search {below : StartFourPlayerGame} {c : SearchGameController} (rait : below.rait = 0 ∨ below.rait = 1)
      (games : c.games = []) : Barred (.search below c)
  | waitPlayers {w : Waiting} (sucsess : w.sucsess = false) (game : w.game = none) : Barred (.waitPlayers w)
  | trapped : Barred .trapped

private theorem getGames_empty (c : SearchGameController) (db : Snapshot) : (c.getGames db).games = [] := rfl

private theorem prepare_empty {c : SearchGameController} (h : c.games = []) (row : Nat) :
    ({ c with numberGame := row } : SearchGameController).prepare = none := by
  rw [SearchGameController.prepare, h]
  rfl

private theorem raitGame_range {c : StartFourPlayerGame} (h : c.rait = 0 ∨ c.rait = 1) :
    c.raitGame.rait = 0 ∨ c.raitGame.rait = 1 := by
  rcases h with hzero | hone
  · right
    rw [StartFourPlayerGame.raitGame, hzero]
    rfl
  · left
    rw [StartFourPlayerGame.raitGame, hone]
    rfl

private theorem Barred.searched {a : App} (h : Barred a.screen) : Barred a.searched.screen := by
  rw [App.searched]
  split
  · exact h
  · exact h
  · exact .trapped

private theorem Barred.step {a : App} (h : Barred a.screen) (e : AppEvent) : Barred (a.step e).screen := by
  cases hs : a.screen with
  | welcome =>
    cases e with
    | start =>
      simp only [App.step, hs]
      exact .start (.inr rfl)
    | searched =>
      simp only [App.step, hs]
      exact h.searched
    | _ =>
      simp only [App.step, hs]
      exact .welcome
  | start c =>
    have hbarred := h
    rw [hs] at hbarred
    cases hbarred with
    | start hrait =>
      cases e with
      | back => simp only [App.step, hs]; exact .welcome
      | search => simp only [App.step, hs]; exact .search hrait rfl
      | raitGame => simp only [App.step, hs]; exact .start (raitGame_range hrait)
      | pressedMakeGame => simp only [App.step, hs]; exact .waitPlayers rfl rfl
      | searched => simp only [App.step, hs]; exact h.searched
      | _ => simp only [App.step, hs]; exact .start hrait
  | search below c =>
    have hbarred := h
    rw [hs] at hbarred
    cases hbarred with
    | search hrait hgames =>
      cases e with
      | back => simp only [App.step, hs]; exact .start hrait
      | getGames => simp only [App.step, hs]; exact .search hrait (getGames_empty c a.db)
      | searched => simp only [App.step, hs]; exact h.searched
      | didSelectRow row =>
        simp only [App.step, hs, prepare_empty hgames]
        exact .trapped
      | _ => simp only [App.step, hs]; exact .search hrait hgames
  | waitPlayers w =>
    rw [hs] at h
    cases h with
    | waitPlayers hsucsess hgame =>
      cases e with
      | round =>
        simp only [App.step, hs, hsucsess]
        exact .waitPlayers rfl hgame
      | _ => simp only [App.step, hs]; exact .waitPlayers hsucsess hgame
  | startNewGames w =>
    rw [hs] at h
    cases h
  | trapped => cases e <;> simp only [App.step, hs] <;> exact .trapped

theorem barred_run (uid : String) (db : Snapshot) (events : List AppEvent) :
    Barred ((launched uid db).run events).screen := by
  induction events using List.reverseRecOn with
  | nil => exact .welcome
  | append_singleton events e ih =>
    rw [run_snoc]
    exact ih.step e

def rounds (events : List AppEvent) : Nat :=
  events.countP (fun | .round => true | _ => false)

def remotes (events : List AppEvent) : List Request :=
  events.filterMap (fun | .remote r => some r | _ => none)

/-- The wait for players goes on for ever, while closures pile up behind it and the
other clients go on writing. -/
theorem waits_on {a : App} {w : Waiting} (hscreen : a.screen = .waitPlayers w) (hsucsess : w.sucsess = false)
    (events : List AppEvent) :
    (a.run events).screen = .waitPlayers { w with queued := w.queued + rounds events } ∧
      (a.run events).db = performAll (remotes events) a.db := by
  induction events using List.reverseRecOn with
  | nil => exact ⟨hscreen, rfl⟩
  | append_singleton events e ih =>
    obtain ⟨hs, hdb⟩ := ih
    have hrounds : rounds (events ++ [e]) = rounds events + rounds [e] := List.countP_append
    have hremotes : remotes (events ++ [e]) = remotes events ++ remotes [e] := List.filterMap_append
    rw [run_snoc, hrounds, hremotes, performAll_append, ← hdb]
    cases e with
    | round =>
      simp only [step, hs, hsucsess]
      exact ⟨rfl, rfl⟩
    | remote r =>
      simp only [step]
      exact ⟨hs, rfl⟩
    | _ =>
      simp only [step, hs]
      exact ⟨rfl, rfl⟩

end App

/-- From its launch on, in every order of presses, rounds, closures and calls of other
clients, the app never gets to startNewGames: the wait for players, once begun, goes on
for ever and runs none of the closures it has queued, and a row of the search traps. -/
theorem four_players_never_play (uid : String) (db : Snapshot) (events : List AppEvent) :
    let a := (App.launched uid db).run events
    (∀ w, a.screen ≠ .startNewGames w) ∧
      (∀ w, a.screen = .waitPlayers w → ∀ later, (a.run later).screen =
        .waitPlayers { w with queued := w.queued + App.rounds later }) ∧
      ∀ below c, a.screen = .search below c → ∀ row, (a.step (.didSelectRow row)).screen = .trapped := by
  intro a
  have hbarred : App.Barred a.screen := App.barred_run uid db events
  refine ⟨fun w hs => ?_, fun w hs later => ?_, fun below c hs row => ?_⟩ <;> rw [hs] at hbarred <;> cases hbarred
  · rename_i hsucsess _
    exact (App.waits_on hs hsucsess later).1
  · rename_i _ hgames
    simp only [App.step, hs, App.prepare_empty hgames]

end MyIVR
