import MyIVR.Match.FourPlayersGame

/-! The colours of the moves in a match. Both copies of the turn code let a client
select black pieces only, so every local move is black, whoever makes it. -/
namespace MyIVR
open Swift

/-- Who moved, and the colour of the piece. -/
abbrev LocalMove := Side × Option Color

def turnOf : Side × Sign → Option LocalMove
  | (i, .turn _ _ color) => some (i, color)
  | _ => none

def Match.turns (m : Match) (events : List (Side × ClientEvent)) : List LocalMove :=
  (m.signs events).filterMap turnOf

/-- Each client has one colour, the two differ, white moves first, and no colour
moves twice in a row. -/
structure ColoursAlternate (turns : List LocalMove) : Prop where
  fixed : ∃ colour : Side → Color, colour .even ≠ colour .odd ∧ ∀ t ∈ turns, t.2 = some (colour t.1)
  first : ∀ t ∈ turns.head?, t.2 = some .white
  alternate : turns.IsChain (fun t u => t.2 ≠ u.2)

def Match.start (db : Snapshot) (client : Side → FourPlayersGame) (board : Side → GameData)
    (number : Int) : Match :=
  ⟨db, fun i => (client i).playGame (board i) number⟩

/-- The step is that of a worker with a selected piece that reads a target which
one of the tests accepts. -/
def Match.Completes (m : Match) (e : Side × ClientEvent) : Prop :=
  e.2 = .work ∧ ∃ site, (m.client e.1).stage = .rowRead site ∧ site.isSource = false ∧
    ∃ board, rejectsTarget (m.client e.1).board (m.client e.1).source
      ((m.client e.1).row1 * 8 + col (m.client e.1).number) = .ok (false, board)

namespace FourPlayersGame

def Chosen (c : FourPlayersGame) : Prop :=
  c.stage.atTarget = true → (c.board.boardA c.source).map Piece.color = some .black

theorem chosen_playGame (c : FourPlayersGame) (board : GameData) (number : Int) :
    (c.playGame board number).Chosen := by
  intro h
  rw [playGame] at h
  split at h
  · cases h
  · rw [loopHead] at h
    split at h <;> cases h

private theorem chosen_keep {c c' : FourPlayersGame} (h : c.Chosen) (hsame : SameSelection c c') :
    c'.Chosen := by
  intro htarget
  obtain ⟨hwas, hsource⟩ := hsame.2 htarget
  rw [hsame.1, hsource]
  exact h hwas

private theorem chosen_of_idle {c : FourPlayersGame} (h : c.stage.atTarget = false) : c.Chosen := by
  intro ht
  rw [h] at ht
  cases ht

private theorem loopHead_idle (c : FourPlayersGame) : c.loopHead.stage.atTarget = false := by
  rw [loopHead]
  split <;> rfl

private theorem receive_idle (c : FourPlayersGame) : c.receive.stage.atTarget = false := by
  rw [receive]
  split <;> rfl

private theorem chosen_sourceHead (c : FourPlayersGame) : c.sourceHead.Chosen := by
  intro h
  simp only [sourceHead] at h ⊢
  cases hr : c.rejectsSource with
  | true => simp [hr, Stage.atTarget, Site.isSource] at h
  | false =>
    rw [rejectsSource, Bool.or_eq_false_iff] at hr
    exact bne_eq_false_iff_eq.mp hr.2

/-- The worker keeps a selected piece black, and moves only such pieces. -/
theorem chosen_work {c : FourPlayersGame} (h : c.Chosen) (db : Snapshot) :
    (c.work db).1.Chosen ∧
      ∀ p q color, (c.work db).2.2 = some (.turn p q color) → color = some .black := by
  rcases c.work_cases db with ⟨c', hw, _, hsame, _⟩ | ⟨site, _, _, hw⟩ | ⟨site, hs, ht, hw⟩ |
    ⟨_, hw⟩ | ⟨_, hw⟩ <;> rw [hw]
  · exact ⟨chosen_keep h hsame, by simp⟩
  · exact ⟨chosen_sourceHead _, by simp⟩
  · obtain ⟨hboard, hsource, _⟩ := readCol_target (c := c) ht
    have hblack : ((c.readCol site).board.boardA (c.readCol site).source).map Piece.color =
        some .black := by
      rw [hboard, hsource]
      exact h (by simp [hs, Stage.atTarget, ht])
    rcases (c.readCol site).targetHead_cases with
      ⟨fault, _, heq⟩ | ⟨board, _, hb, heq⟩ | ⟨board, moved, _, hb, _, heq⟩ <;> rw [heq]
    · exact ⟨chosen_of_idle rfl, by simp⟩
    · refine ⟨fun _ => ?_, by simp⟩
      rw [← hb] at hblack
      exact hblack
    · refine ⟨chosen_of_idle rfl, fun p q color hsign => ?_⟩
      rw [Option.some.injEq, Sign.turn.injEq] at hsign
      rw [← hsign.2.2]
      exact hblack
  · exact ⟨chosen_of_idle (loopHead_idle c), by simp⟩
  · exact ⟨chosen_of_idle (receive_idle c), by simp⟩

/-- The worker makes a move exactly when it reads a target that a test accepts. -/
theorem work_turn_iff (c : FourPlayersGame) (db : Snapshot) :
    (∃ p q color, (c.work db).2.2 = some (.turn p q color)) ↔
      ∃ site, c.stage = .rowRead site ∧ site.isSource = false ∧
        ∃ board, rejectsTarget c.board c.source (c.row1 * 8 + MyIVR.col c.number) = .ok (false, board) := by
  rcases c.work_cases db with ⟨c', hw, _, _, hs⟩ | ⟨site, hs, ht, hw⟩ | ⟨site, hs, ht, hw⟩ |
    ⟨hs, hw⟩ | ⟨hs, hw⟩ <;> rw [hw]
  · simp [hs]
  · simp [hs, ht]
  · obtain ⟨hboard, hsource, htarget⟩ := readCol_target (c := c) ht
    rw [← hboard, ← hsource, ← htarget]
    rcases (c.readCol site).targetHead_cases with
      ⟨fault, hr, heq⟩ | ⟨board, hr, _, heq⟩ | ⟨board, moved, hr, _, _, heq⟩ <;>
        simp [heq, hr, hs, ht]
  · simp [hs]
  · simp [hs]

theorem poll_no_turn (c : FourPlayersGame) (db : Snapshot) (i : Side) :
    ((c.poll db).2.map (fun s => (i, s))).bind turnOf = none := by
  rw [poll]
  split
  · rfl
  · simp only
    split <;> rfl

end FourPlayersGame

namespace Match
open FourPlayersGame

theorem chosen_run {m : Match} (h : ∀ i, (m.client i).Chosen) (events : List (Side × ClientEvent)) :
    ∀ i, ((m.run events).client i).Chosen :=
  run_invariant (P := Chosen) (fun _ _ _ hc => hc) (fun c db hc => chosen_keep hc (c.sameSelection_poll db))
    (fun _ db hc => (chosen_work hc db).1) h events

/-- Every local move is black. -/
theorem turns_black {m : Match} (h : ∀ i, (m.client i).Chosen) (events : List (Side × ClientEvent)) :
    ∀ t ∈ m.turns events, t.2 = some .black := by
  intro t ht
  obtain ⟨s, hs, hturn⟩ := List.mem_filterMap.mp ht
  obtain ⟨past, ⟨i, ev⟩, later, _, hsign⟩ := Mealy.mem_outputs hs
  have hc := chosen_run h past i
  change ((m.run past).step (i, ev)).2 = some s at hsign
  cases ev with
  | tap x y => rcases (m.run past).step_tap i x y with hstep | hstep <;> simp [hstep] at hsign
  | poll =>
    rcases (m.run past).step_poll i with hstep | hstep <;> rw [hstep] at hsign
    · cases hsign
    · have hno := poll_no_turn ((m.run past).client i) (m.run past).db i
      dsimp only at hsign
      rw [hsign, Option.bind_some, hturn] at hno
      cases hno
  | work =>
    rw [step_work] at hsign
    obtain ⟨sign, hwork, rfl⟩ := Option.map_eq_some_iff.mp hsign
    cases sign <;> cases hturn
    exact (chosen_work hc _).2 _ _ _ hwork

private theorem step_turn_iff (m : Match) (e : Side × ClientEvent) :
    (m.step e).2.bind turnOf = none ↔ ¬ m.Completes e := by
  obtain ⟨i, ev⟩ := e
  rw [iff_not_comm, Completes]
  cases ev with
  | tap x y => rcases m.step_tap i x y with hstep | hstep <;> simp [hstep]
  | poll => rcases m.step_poll i with hstep | hstep <;> simp [hstep, poll_no_turn]
  | work =>
    rw [step_work, and_iff_right rfl, ← work_turn_iff (m.client i) m.db, ← ne_eq,
      Option.ne_none_iff_exists']
    constructor
    · rintro ⟨p, q, color, hsign⟩
      exact ⟨(i, color), by rw [hsign]; rfl⟩
    · rintro ⟨t, ht⟩
      simp only [Option.bind_map, Option.bind_eq_some_iff] at ht
      obtain ⟨s, hs, ht⟩ := ht
      cases s <;> cases ht
      exact ⟨_, _, _, hs⟩

end Match

/-- In a match the moves alternate in colour as they should exactly when nobody
makes a move: no worker with a selected piece reads a target that a test accepts. -/
theorem colours_alternate_iff (db : Snapshot) (client : Side → FourPlayersGame)
    (board : Side → GameData) (number : Int) (events : List (Side × ClientEvent)) :
    ColoursAlternate ((Match.start db client board number).turns events) ↔
      ∀ past e later, events = past ++ e :: later →
        ¬ ((Match.start db client board number).run past).Completes e := by
  have hblack := Match.turns_black (m := Match.start db client board number)
    (fun i => FourPlayersGame.chosen_playGame (client i) (board i) number) events
  have hempty : (Match.start db client board number).turns events = [] ↔ _ :=
    Mealy.filterMap_outputs_eq_nil_iff events
  simp only [Match.step_turn_iff] at hempty
  refine Iff.trans ?_ hempty
  cases hturns : (Match.start db client board number).turns events with
  | nil => exact iff_of_true ⟨⟨fun i => if i = .even then .white else .black, by simp⟩, by simp, by simp⟩ rfl
  | cons t rest =>
    refine iff_of_false (fun h => ?_) (by simp)
    rw [hturns] at hblack
    have hwhite := h.first t rfl
    rw [hblack t List.mem_cons_self] at hwhite
    cases hwhite

def twoClients : Match :=
  .start .null (fun | .even => .entered 2 "-K1" | .odd => .entered 1 "-K1")
    (fun _ => GameData.new.initBoardA) 1

def knightTaps : List (Side × ClientEvent) :=
  [(.even, .tap 91 (-13)), (.even, .work), (.even, .work), (.even, .work),
    (.even, .tap 129 63), (.even, .work), (.even, .work), (.even, .work)]

/-- The first move of the board is a black knight's. -/
theorem black_moves_first :
    (twoClients.turns knightTaps).head? = some (.even, some .black) ∧
      ¬ ColoursAlternate (twoClients.turns knightTaps) := by
  have hturns : (twoClients.turns knightTaps).head? = some (.even, some .black) := by decide +kernel
  refine ⟨hturns, fun h => ?_⟩
  cases h.first _ hturns

section emptyBoards

/-- The board has no pieces and the worker has selected none. -/
private def FourPlayersGame.Barren (c : FourPlayersGame) : Prop :=
  c.board.boardA = (fun _ => none) ∧ c.stage.atTarget = false

private theorem barren_keep {c c' : FourPlayersGame} (h : c.Barren) (hsame : c.SameSelection c') :
    c'.Barren := by
  refine ⟨hsame.1 ▸ h.1, Bool.eq_false_of_not_eq_true fun htarget => ?_⟩
  have hidle := h.2
  rw [(hsame.2 htarget).1] at hidle
  cases hidle

private theorem barren_work {c : FourPlayersGame} (h : c.Barren) (db : Snapshot) :
    (c.work db).1.Barren := by
  obtain ⟨hb, ha⟩ := h
  rcases c.work_cases db with ⟨c', hw, _, hsame, _⟩ | ⟨site, _, ht, hw⟩ | ⟨site, hs, ht, _⟩ |
    ⟨_, hw⟩ | ⟨_, hw⟩
  · rw [hw]
    exact barren_keep ⟨hb, ha⟩ hsame
  · rw [hw, FourPlayersGame.readCol, ht]
    refine ⟨hb, ?_⟩
    simp [FourPlayersGame.sourceHead, FourPlayersGame.rejectsSource, hb, Stage.atTarget, Site.isSource]
  · simp [hs, Stage.atTarget, ht] at ha
  · rw [hw, FourPlayersGame.loopHead]
    split <;> exact ⟨hb, rfl⟩
  · have hfault : moveIfFree c.board c.position1.1 c.position1.2 = .error .missingKey := by
      simp [moveIfFree, canGoTo, hb, force]
    rw [hw, FourPlayersGame.receive]
    simp only [hfault]
    exact ⟨hb, rfl⟩

/-- The clients that startNewGames starts get a board without pieces, so they
never make a move. -/
theorem startNewGames_no_turns (db : Snapshot) (client : Side → FourPlayersGame)
    (events : List (Side × ClientEvent)) :
    (Match.mk db (fun i => (client i).startNewGames)).turns events = [] := by
  have barren_playGame (c : FourPlayersGame) (n : Int) : (c.playGame .new n).Barren := by
    rw [FourPlayersGame.playGame]
    split
    · exact ⟨rfl, rfl⟩
    · rw [FourPlayersGame.loopHead]
      split <;> exact ⟨rfl, rfl⟩
  have start (i : Side) : (client i).startNewGames.Barren := by
    rw [FourPlayersGame.startNewGames]
    split
    · exact barren_playGame _ 1
    · exact barren_playGame _ 2
  refine (Mealy.filterMap_outputs_eq_nil_iff events).mpr fun past e later _ => ?_
  rw [Match.step_turn_iff]
  rintro ⟨_, site, hs, ht, _⟩
  have hbarren : ∀ i, ((Match.run ⟨db, fun i => (client i).startNewGames⟩ past).client i).Barren :=
    Match.run_invariant (P := FourPlayersGame.Barren) (fun _ _ _ hc => hc)
      (fun c db hc => barren_keep hc (c.sameSelection_poll db)) (fun _ db hc => barren_work hc db) start past
  have hidle := (hbarren e.1).2
  rw [Match.run, hs] at hidle
  simp [Stage.atTarget, ht] at hidle

end emptyBoards

end MyIVR
