import MyIVR.Store.MoveMessage

/-! The figures captured on a board. setDead writes each figure over the whole node of
the board, together with the move stored there; checkDead asks the children of that
node for a child of their own, where no call puts a figure. -/
namespace MyIVR
open Swift KeyTree

/-- A call that writes to the node of one board. -/
inductive BoardWrite where
  | setDead (figure : String)
  | makeMove (pos pos1 : Int)
  deriving DecidableEq, Repr

namespace BoardWrite

def request (gameID board : String) : BoardWrite → Request
  | setDead figure => .setDead gameID board figure
  | makeMove pos pos1 => .makeMove gameID board pos pos1

def figure : BoardWrite → Option String
  | setDead figure => some figure
  | makeMove .. => none

/-- What a call does to the node of its board. -/
def change : BoardWrite → Snapshot → Snapshot
  | setDead figure, _ => text figure
  | makeMove pos pos1, t =>
    t.merge [("LastFrom", text (toString pos)), ("LastTo", text (toString pos1))]

end BoardWrite

def figures (calls : List BoardWrite) : List String := calls.filterMap BoardWrite.figure

def afterCalls (gameID board : String) (calls : List BoardWrite) (db : Snapshot) : Snapshot :=
  performAll (calls.map (BoardWrite.request gameID board)) db

/-- The two fields of the latest move, null where they are missing. -/
def latestMove (gameID board : String) (db : Snapshot) : Snapshot × Snapshot :=
  (db.get ["games", gameID, board, "LastFrom"], db.get ["games", gameID, board, "LastTo"])

/-- The reader returns, its handler receives the recorded figures in order, in one call
or in several, and no record of a figure touches the latest move. -/
structure FiguresKept (gameID board : String) (calls : List BoardWrite) (db : Snapshot) : Prop where
  returned : (checkDead gameID board (afterCalls gameID board calls db)).2 = none
  handed : (checkDead gameID board (afterCalls gameID board calls db)).1.flatten = figures calls
  move : ∀ earlier figure later, calls = earlier ++ .setDead figure :: later →
    latestMove gameID board (afterCalls gameID board (earlier ++ [.setDead figure]) db) =
      latestMove gameID board (afterCalls gameID board earlier db)

section node
variable (gameID board : String) (calls : List BoardWrite) (db : Snapshot)

private theorem node_snoc (call : BoardWrite) :
    (afterCalls gameID board (calls ++ [call]) db).get ["games", gameID, board] =
      call.change ((afterCalls gameID board calls db).get ["games", gameID, board]) := by
  rw [afterCalls, List.map_append, List.map_singleton, performAll_snoc]
  cases call <;> exact Node.get_modify _ _ _

private theorem latestMove_eq : latestMove gameID board db =
    ((db.get ["games", gameID, board]).child "LastFrom", (db.get ["games", gameID, board]).child "LastTo") :=
  rfl

theorem latestMove_setDead (figure : String) :
    latestMove gameID board (afterCalls gameID board (calls ++ [.setDead figure]) db) = (.null, .null) := by
  rw [latestMove_eq, node_snoc]
  rfl

theorem latestMove_makeMove (pos pos1 : Int) :
    latestMove gameID board (afterCalls gameID board (calls ++ [.makeMove pos pos1]) db) =
      (text (toString pos), text (toString pos1)) := by
  rw [latestMove_eq, node_snoc]
  exact Prod.ext (Node.child_merge _ (by simp) (by simp)) (Node.child_merge _ (by simp) (by simp))

/-- A recorded figure leaves the latest move alone only where there is none. -/
theorem setDead_keeps_move_iff (figure : String) :
    latestMove gameID board (afterCalls gameID board (calls ++ [.setDead figure]) db) =
        latestMove gameID board (afterCalls gameID board calls db) ↔
      latestMove gameID board (afterCalls gameID board calls db) = (.null, .null) := by
  rw [latestMove_setDead]
  exact eq_comm

end node

private def readFigure (snap : Snapshot) : Except Fault (List String) := do
  return [← asString (snap.child "LastTo")]

private theorem readFigure_error {snap : Snapshot} {e : Fault} (h : readFigure snap = .error e) :
    e = .badCast := by
  rcases bind_eq_error h with hto | ⟨_, _, h⟩
  · exact asString_error hto
  · cases h

section reader
variable (gameID board : String) (calls : List BoardWrite) (db : Snapshot)

private theorem checkDead_eq : checkDead gameID board db =
    callEach readFigure ((db.get ["games", gameID, board]).children.map Prod.snd) := rfl

private theorem checkDead_childless {gameID board : String} {db : Snapshot}
    (h : (db.get ["games", gameID, board]).keys = ∅) : checkDead gameID board db = ([], none) := by
  have hnil : (db.get ["games", gameID, board]).children = [] := by
    rw [← List.length_eq_zero_iff, Node.length_children, h, Finset.card_empty]
  rw [checkDead_eq, hnil]
  rfl

/-- After a figure the node is a leaf: the handler is not called. -/
theorem checkDead_setDead (figure : String) :
    checkDead gameID board (afterCalls gameID board (calls ++ [.setDead figure]) db) = ([], none) := by
  apply checkDead_childless
  rw [node_snoc]
  rfl

/-- After a move the reader faults at one of the move's own fields, or before. -/
theorem checkDead_makeMove (pos pos1 : Int) :
    (checkDead gameID board (afterCalls gameID board (calls ++ [.makeMove pos pos1]) db)).2 =
      some .badCast := by
  refine callEach_faults readFigure (fun snap e => readFigure_error) ?_
  refine ⟨text (toString pos), List.mem_map.mpr ⟨("LastFrom", text (toString pos)), ?_, rfl⟩, .badCast, rfl⟩
  rw [node_snoc]
  refine Node.mem_children.mpr ⟨?_, (Node.child_merge _ (by simp) (by simp)).symm⟩
  rw [BoardWrite.change, Node.keys_merge]
  simp

private theorem childless {gameID board : String} {db : Snapshot}
    (hreturned : (checkDead gameID board db).2 = none) (hhanded : (checkDead gameID board db).1.flatten = []) :
    (db.get ["games", gameID, board]).keys = ∅ := by
  rw [← Finset.card_eq_zero, ← Node.length_children, ← List.length_map Prod.snd, List.length_eq_zero_iff]
  rw [checkDead_eq] at hreturned hhanded
  cases hl : (db.get ["games", gameID, board]).children.map Prod.snd with
  | nil => rfl
  | cons snap rest =>
    rw [hl, callEach] at hreturned hhanded
    cases hto : asString (snap.child "LastTo") with
    | error e => simp [readFigure, hto] at hreturned
    | ok s => simp [readFigure, hto] at hhanded

/-- After any calls the reader has nothing to hand over, though there are figures, or faults. -/
theorem checkDead_cases : calls = [] ∨
    figures calls ≠ [] ∧ checkDead gameID board (afterCalls gameID board calls db) = ([], none) ∨
      (checkDead gameID board (afterCalls gameID board calls db)).2 = some .badCast := by
  rcases calls.eq_nil_or_concat with rfl | ⟨past, call, rfl⟩
  · exact .inl rfl
  · right
    rw [List.concat_eq_append]
    cases call with
    | setDead figure =>
      left
      refine ⟨?_, checkDead_setDead gameID board past db figure⟩
      rw [figures, List.filterMap_append]
      simp [BoardWrite.figure]
    | makeMove pos pos1 => exact .inr (checkDead_makeMove gameID board past db pos pos1)

private theorem not_kept {calls : List BoardWrite} (hcalls : calls ≠ []) :
    ¬ FiguresKept gameID board calls db := by
  intro hkept
  have hhanded := hkept.handed
  have hreturned := hkept.returned
  rcases checkDead_cases gameID board calls db with hnil | ⟨hfigures, hread⟩ | hfault
  · exact hcalls hnil
  · rw [hread] at hhanded
    exact hfigures hhanded.symm
  · rw [hfault] at hreturned
    cases hreturned

private theorem never_handed_whole :
    checkDead gameID board (afterCalls gameID board calls db) ≠ ([figures calls], none) := by
  intro hwhole
  rcases checkDead_cases gameID board calls db with rfl | ⟨_, hread⟩ | hfault
  · have hchildless := childless (congrArg Prod.snd hwhole) (congrArg (fun r => r.1.flatten) hwhole)
    rw [checkDead_childless hchildless] at hwhole
    cases hwhole
  · rw [hread] at hwhole
    cases hwhole
  · rw [hwhole] at hfault
    cases hfault

/-- The figures are kept only where nothing is written: no call, and a node without
children. Even there the handler is not called with the empty list. -/
theorem figuresKept_iff :
    (FiguresKept gameID board calls db ↔ calls = [] ∧ (db.get ["games", gameID, board]).keys = ∅) ∧
      checkDead gameID board (afterCalls gameID board calls db) ≠ ([figures calls], none) := by
  refine ⟨⟨fun hkept => ?_, ?_⟩, never_handed_whole gameID board calls db⟩
  · by_cases hcalls : calls = []
    · subst hcalls
      exact ⟨rfl, childless hkept.returned hkept.handed⟩
    · exact absurd hkept (not_kept gameID board db hcalls)
  · rintro ⟨rfl, hkeys⟩
    have hread : checkDead gameID board (afterCalls gameID board [] db) = ([], none) :=
      checkDead_childless hkeys
    refine ⟨by rw [hread], by rw [hread]; rfl, fun earlier figure later h => ?_⟩
    simp at h

end reader

/-- A pawn takes and the captured pawn is recorded: its figure is not read back, and
the move is gone. -/
theorem capturedPawn_lost :
    ¬ FiguresKept "-K1" "1" [.makeMove 28 35, .setDead "bpawn"] .null ∧
      checkDead "-K1" "1" (afterCalls "-K1" "1" [.makeMove 28 35, .setDead "bpawn"] .null) = ([], none) ∧
      latestMove "-K1" "1" (afterCalls "-K1" "1" [.makeMove 28 35] .null) = (text "28", text "35") ∧
      latestMove "-K1" "1" (afterCalls "-K1" "1" [.makeMove 28 35, .setDead "bpawn"] .null) =
        (.null, .null) :=
  ⟨not_kept "-K1" "1" .null (List.cons_ne_nil _ _),
    checkDead_setDead "-K1" "1" [.makeMove 28 35] .null "bpawn",
    latestMove_makeMove "-K1" "1" [] .null 28 35,
    latestMove_setDead "-K1" "1" [.makeMove 28 35] .null "bpawn"⟩

end MyIVR
