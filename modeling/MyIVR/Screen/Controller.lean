import MyIVR.Game.TurnInvariant
import MyIVR.Screen.View

/-! The controller TwoPlayerGame as a machine: presses on the main thread, the
worker's thread between two waits, and the closures queued for the main thread,
interleaved in any order. -/
namespace MyIVR
open Swift

/-- A closure queued for the main thread. The one of a capture has no arguments
of its own, it reads the worker's variables when it runs. -/
inductive Closure where
  | replace (position nextPosition : Int)
  | capture
  deriving DecidableEq, Repr

/-- The closure that an executed update queues. -/
def Move.closure (m : Move) : Closure :=
  match m.kind with
  | .goTo => .replace m.position m.nextPosition
  | .kill => .capture

/-- Where the worker's thread stands: at a wait, behind it, or between its reads. -/
inductive Phase where
  | blocked | woken | rowRead
  deriving DecidableEq, Repr

structure Controller where
  number : Int
  semaphore : Nat
  worker : Worker
  phase : Phase
  view : View
  mainQueue : List Closure

inductive Event where
  | tap (s : Square)
  | wait
  | readRow
  | readCol
  | main
  deriving DecidableEq, Repr

/-- What the worker did with a square it read. -/
abbrev Use := Int × Option Move

/-- The square the worker has just read. -/
def Worker.usedSquare (w : Worker) : Int :=
  match w.status with
  | .waiting site => if site.isSource then w.position else w.nextPosition
  | _ => w.nextPosition

namespace Controller

def start (view : View) : Controller := ⟨0, 0, startNewGame, .blocked, view, []⟩

/-- The controller when startNewGame has painted the board and started the worker. -/
def newGame (figureNumber : String) : Except Fault Controller := do
  let view ← paint figureNumber startNewGame.verf.boardA .new
  return start view

def buttonPressed (c : Controller) (sender : Frame) : Controller :=
  { c with number := decodeCenter sender, semaphore := c.semaphore + 1 }

/-- A semaphore.wait that succeeds. -/
def wait (c : Controller) : Controller :=
  match c.phase, c.worker.status with
  | .blocked, .waiting _ =>
    if 0 < c.semaphore then { c with semaphore := c.semaphore - 1, phase := .woken } else c
  | _, _ => c

def readRow (c : Controller) : Controller :=
  match c.phase with
  | .woken => { c with worker := c.worker.readRow c.number, phase := .rowRead }
  | _ => c

/-- The second read, and everything up to the next wait. -/
def readCol (c : Controller) : Controller × Option Use :=
  match c.phase with
  | .rowRead =>
    let w := c.worker.readCol c.number
    let (worker, move) := w.resume
    ({ c with worker := worker, phase := .blocked,
              mainQueue := c.mainQueue ++ move.toList.map Move.closure }, some (w.usedSquare, move))
  | _ => (c, none)

def runClosure (w : Worker) (v : View) : Closure → View
  | .replace position nextPosition => replaceButton v position nextPosition
  | .capture => captureButton v w.row w.col w.row1 w.col1

/-- The main thread runs the oldest closure of its queue. -/
def main (c : Controller) : Controller :=
  match c.mainQueue with
  | [] => c
  | closure :: rest => { c with view := runClosure c.worker c.view closure, mainQueue := rest }

/-- One step of any of the threads. A step that its thread cannot take changes nothing. -/
def step (c : Controller) : Event → Controller × Option Use
  | .tap s => (c.buttonPressed (cellFrame s.key), none)
  | .wait => (c.wait, none)
  | .readRow => (c.readRow, none)
  | .readCol => c.readCol
  | .main => (c.main, none)

def run (c : Controller) (events : List Event) : Controller := Mealy.state step c events

def uses (c : Controller) (events : List Event) : List Use := Mealy.outputs step c events

def moves (c : Controller) (events : List Event) : List Move := (c.uses events).filterMap Prod.snd

@[simp] theorem step_tap (c : Controller) (s : Square) :
    c.step (.tap s) = ({ c with number := s.key, semaphore := c.semaphore + 1 }, none) := by
  simp only [step, buttonPressed, decode_cellFrame]

end Controller

namespace Worker

/-- Two reads that a press came between read the square in the row of the one
number and the column of the other. -/
theorem torn_reads (w : Worker) (s t : Square) : ∃ u : Square,
    (w.readRow s.key).readCol t.key = (w.readRow u.key).readCol u.key := by
  have hr := s.row_range
  have hc := t.col_range
  obtain ⟨u, hu⟩ := exists_square (k := MyIVR.row s.key * 8 + MyIVR.col t.key) (by omega)
  have hrow : MyIVR.row u.key = MyIVR.row s.key := by
    rw [row_eq u.key_range.1]
    omega
  have hcol : MyIVR.col u.key = MyIVR.col t.key := by
    rw [col_eq u.key_range.1]
    omega
  refine ⟨u, ?_⟩
  simp only [readRow, readCol, hrow, hcol]

theorem usedSquare_read (w : Worker) (h : ∃ site, w.status = .waiting site) (k : Int) :
    ((w.readRow k).readCol k).usedSquare = k := by
  obtain ⟨site, h⟩ := h
  cases site <;> simp [readRow, readCol, usedSquare, h, Site.isSource, position, nextPosition]

end Worker

/-- The controller's worker is the one that consumed `squares` in a run of its
own, up to a read under way. -/
structure Controller.Follows (c : Controller) (done : List Use) (squares : List Square) : Prop where
  number : ∃ s : Square, c.number = s.key
  used : done.map Prod.fst = squares.map Square.key
  executed : done.filterMap Prod.snd = startNewGame.executed squares
  between : c.phase ≠ .rowRead → c.worker = startNewGame.run squares
  reading : c.phase = .rowRead → ∃ s : Square, c.worker = (startNewGame.run squares).readRow s.key
  waiting : c.phase ≠ .blocked → ∃ site, (startNewGame.run squares).status = .waiting site

namespace Controller

theorem Follows.start (view : View) : (Controller.start view).Follows [] [] where
  number := ⟨0, rfl⟩
  used := rfl
  executed := rfl
  between _ := rfl
  reading h := by cases h
  waiting h := absurd rfl h

variable {c : Controller} {done : List Use} {squares : List Square}

private theorem Follows.wait (h : c.Follows done squares) : c.wait.Follows done squares := by
  unfold Controller.wait
  split
  · rename_i site hphase hstatus
    split
    · have hworker := h.between (by rw [hphase]; exact nofun)
      exact ⟨h.number, h.used, h.executed, fun _ => hworker, nofun, fun _ => ⟨site, hworker ▸ hstatus⟩⟩
    · exact h
  · exact h

private theorem Follows.readRow (h : c.Follows done squares) : c.readRow.Follows done squares := by
  unfold Controller.readRow
  split
  · rename_i hphase
    obtain ⟨s, hs⟩ := h.number
    have hworker := h.between (by rw [hphase]; exact nofun)
    refine ⟨h.number, h.used, h.executed, fun hne => absurd rfl hne, fun _ => ⟨s, ?_⟩,
      fun _ => h.waiting (by rw [hphase]; exact nofun)⟩
    simp only [hs, hworker]
  · exact h

private theorem Follows.main (h : c.Follows done squares) : c.main.Follows done squares := by
  unfold Controller.main
  split
  · exact h
  · exact ⟨h.number, h.used, h.executed, h.between, h.reading, h.waiting⟩

/-- The second read and what follows are one tap of the worker, on a square
that it read row and column of. -/
theorem Follows.readCol (h : c.Follows done squares) (hphase : c.phase = .rowRead) :
    ∃ u : Square, c.readCol =
      ({ c with worker := ((startNewGame.run squares).tap u).1, phase := .blocked,
                mainQueue := c.mainQueue ++
                  ((startNewGame.run squares).tap u).2.toList.map Move.closure },
        some (u.key, ((startNewGame.run squares).tap u).2)) := by
  obtain ⟨t, ht⟩ := h.number
  obtain ⟨s, hs⟩ := h.reading hphase
  obtain ⟨u, hu⟩ := (startNewGame.run squares).torn_reads s t
  have hused := (startNewGame.run squares).usedSquare_read
    (h.waiting (by rw [hphase]; exact nofun)) u.key
  refine ⟨u, ?_⟩
  simp only [Controller.readCol, hphase, hs, ht, hu, hused, Worker.tap, Worker.step]

theorem Follows.step (h : c.Follows done squares) (e : Event) : ∃ rest,
    (c.step e).1.Follows (done ++ (c.step e).2.toList) (squares ++ rest) := by
  cases e with
  | tap s =>
    refine ⟨[], ?_⟩
    rw [step_tap, Option.toList_none, List.append_nil, List.append_nil]
    exact ⟨⟨s, rfl⟩, h.used, h.executed, h.between, h.reading, h.waiting⟩
  | wait => exact ⟨[], by simpa [Controller.step] using h.wait⟩
  | readRow => exact ⟨[], by simpa [Controller.step] using h.readRow⟩
  | main => exact ⟨[], by simpa [Controller.step] using h.main⟩
  | readCol =>
    by_cases hphase : c.phase = .rowRead
    · obtain ⟨u, hu⟩ := h.readCol hphase
      refine ⟨[u], ?_⟩
      rw [Controller.step, hu]
      refine ⟨h.number, ?_, ?_, fun _ => ?_, nofun, fun hne => absurd rfl hne⟩
      · simp [h.used]
      · rw [Worker.executed_snoc, List.filterMap_append, h.executed]
        cases ((startNewGame.run squares).tap u).2 <;> rfl
      · exact (Worker.run_snoc _ _ _).symm
    · refine ⟨[], ?_⟩
      have hnone : c.readCol = (c, none) := by
        unfold Controller.readCol
        split
        · contradiction
        · rfl
      simpa [Controller.step, hnone] using h

/-- In every interleaving the worker is the one of a run of its own. -/
theorem Follows.run (view : View) (events : List Event) : ∃ squares,
    ((Controller.start view).run events).Follows ((Controller.start view).uses events) squares := by
  refine Mealy.run_induction (fun c done => ∃ squares, Follows c done squares)
    ⟨[], .start view⟩ ?_ events
  rintro c done e ⟨squares, h⟩
  obtain ⟨rest, hrest⟩ := h.step e
  exact ⟨squares ++ rest, hrest⟩

end Controller
end MyIVR
