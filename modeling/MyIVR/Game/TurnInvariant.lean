import MyIVR.Foundations.Placement
import MyIVR.Game.InitialBoard
import MyIVR.Game.TurnSteps

/-! The invariant of the turn loop. The worker refines a board of objects on
which every executed update relocates one object; counters and the selected
square are tied to the number of updates. -/
namespace MyIVR
open Swift

/-- The objects on a board: what stands on each square, empty pieces aside. -/
def occupants (b : Board) (s : Square) : Option Piece :=
  (b s.key).filter (fun x => x.pieceType != .empty)

theorem occupants_eq_some {b : Board} {s : Square} {x : Piece} :
    occupants b s = some x ↔ b s.key = some x ∧ x.pieceType ≠ .empty := by
  rw [occupants, Option.filter_eq_some_iff, bne_iff_ne]

theorem occupants_of_emptyAt {b : Board} {s : Square} (h : emptyAt b s.key = true) :
    occupants b s = none := by
  cases ho : occupants b s with
  | none => rfl
  | some x =>
    obtain ⟨hx, ht⟩ := occupants_eq_some.mp ho
    rw [emptyAt_some hx, beq_iff_eq] at h
    exact absurd h ht

/-- On the board of objects the update is a relocation. -/
theorem occupants_goTo (g : GameData) (p q : Square) :
    occupants (g.goTo p.key q.key).boardA = Placement.relocate p q (occupants g.boardA) := by
  funext i
  rw [occupants, GameData.goTo_boardA]
  by_cases hp : i = p
  · subst i
    simp
  · rw [Board.assign_ne _ (fun hk => hp (Square.key_inj.mp hk))]
    by_cases hq : i = q
    · subst i
      rw [Board.assign_same, Placement.relocate_target hp]
      rfl
    · rw [Board.assign_ne _ (fun hk => hq (Square.key_inj.mp hk)), Placement.relocate_other hp hq]
      rfl

def EmptiesWhite (b : Board) : Prop := ∀ k, emptyAt b k = true → colorAt b k = some .white

theorem EmptiesWhite.goTo {g : GameData} (h : EmptiesWhite g.boardA) (p q : Int) :
    EmptiesWhite (g.goTo p q).boardA := by
  intro k hk
  rw [GameData.goTo_boardA] at hk ⊢
  by_cases hp : k = p
  · subst k
    simp
  · rw [emptyAt_assign_ne _ hp] at hk
    rw [colorAt_assign_ne _ hp]
    by_cases hq : k = q
    · subst k
      simp only [emptyAt, typeAt, colorAt, Board.assign_same] at hk ⊢
      exact h p hk
    · rw [emptyAt_assign_ne _ hq] at hk
      rw [colorAt_assign_ne _ hq]
      exact h k hk

theorem emptiesWhite_initBoardA {g : GameData} (h : ∀ k, (g.boardA k).isSome → 0 ≤ k ∧ k ≤ 63) :
    EmptiesWhite g.initBoardA.boardA := by
  intro k hk
  have hfull := full_initBoardA h
  by_cases hrange : 0 ≤ k ∧ k ≤ 63
  · obtain ⟨s, rfl⟩ := exists_square hrange
    obtain ⟨n, type, color, hw, hs⟩ := initBoardA_square g s
    rw [emptyAt_some hs, beq_iff_eq] at hk
    rw [colorAt_some hs]
    exact congrArg some (initScript_whites _ (List.mem_of_getElem? (lastWrite_key hw)) hk)
  · rw [emptyAt, typeAt, hfull.missing hrange] at hk
    cases hk

namespace Worker

/-- What holds between taps, of a worker that started on `first` and has
executed the updates `done`. -/
structure Playing (first : GameData) (w : Worker) (done : List Move) : Prop where
  full : Full w.verf.boardA
  whites : EmptiesWhite w.verf.boardA
  reaches : Placement.Reaches (occupants first.boardA) (occupants w.verf.boardA)
  winner : w.winner = true
  moves : w.moves = done.length
  color : w.color = (done.length : Int) % 2
  running : ∀ m, w.status ≠ .ended m
  selected : w.AtTarget → ∃ p : Square, w.position = p.key ∧ w.Selects p

namespace Playing
variable {first : GameData} {w : Worker} {done : List Move}

theorem start (hfull : Full first.boardA) (hwhites : EmptiesWhite first.boardA) :
    Playing first (.start first) [] where
  full := hfull
  whites := hwhites
  reaches := .refl _
  winner := rfl
  moves := rfl
  color := rfl
  running m h := by cases h
  selected h := by
    obtain ⟨site, hs, hf⟩ := h
    cases hs
    cases hf

theorem tapped (h : Playing first w done) (s : Square) : Tapped w s (w.tap s) :=
  tap_cases w s h.full (fun ht => (h.selected ht).imp (fun _ hp => hp.1))

private theorem stay (h : Playing first w done) {v : Worker}
    (board : v.verf.boardA = w.verf.boardA) (winner : v.winner = w.winner) (moves : v.moves = w.moves)
    (color : v.color = w.color) (running : ∀ m, v.status ≠ .ended m)
    (selected : v.AtTarget → ∃ p : Square, v.position = p.key ∧ w.Selects p) :
    Playing first v (done ++ (none : Option Move).toList) := by
  rw [Option.toList_none, List.append_nil]
  refine ⟨board ▸ h.full, board ▸ h.whites, board ▸ h.reaches, winner.trans h.winner,
    moves.trans h.moves, color.trans h.color, running, fun ht => ?_⟩
  obtain ⟨p, hp, hsel⟩ := selected ht
  exact ⟨p, hp, by simpa only [Selects, ptcolor, board, color] using hsel⟩

theorem tap (h : Playing first w done) (s : Square) :
    Playing first (w.tap s).1 (done ++ (w.tap s).2.toList) := by
  have hcases := h.tapped s
  generalize w.tap s = r at hcases
  cases hcases with
  | ignored stopped => exact h.stay rfl rfl rfl rfl h.running h.selected
  | sourceRejected wait reject =>
    refine h.stay rfl rfl rfl rfl (fun m hm => by cases hm) ?_
    exact fun ht => absurd ht (AtSource.not_atTarget ⟨_, rfl, rfl⟩)
  | sourceAccepted wait select =>
    refine h.stay rfl rfl rfl rfl (fun m hm => by cases hm) ?_
    exact fun _ => ⟨s, row_col s.key, select⟩
  | faulted wait p from_p leaves fault =>
    refine h.stay rfl rfl rfl rfl (fun m hm => by cases hm) ?_
    intro ht
    obtain ⟨site, hs⟩ := ht.waiting
    cases hs
  | targetRejected wait p from_p stays reject verf same =>
    refine h.stay same rfl rfl rfl (fun m hm => by cases hm) ?_
    exact fun _ => h.selected wait
  | moved wait p from_p stays kind accept before same =>
    have hbefore : Full before.boardA := same ▸ h.full
    simp only [loopHead, h.winner, if_true]
    refine ⟨?_, ?_, ?_, rfl, ?_, ?_, ?_, ?_⟩
    · exact GameData.full_goTo hbefore p.key_range s.key_range
    · exact (show EmptiesWhite before.boardA from same ▸ h.whites).goTo p.key s.key
    · rw [occupants_goTo, same]
      exact h.reaches.relocate p s
    · simp [h.moves]
    · simp only [h.color, Option.toList_some, List.length_append, List.length_cons,
        List.length_nil, Int.abs_eq_natAbs]
      omega
    · exact fun m hm => by cases hm
    · exact fun ht => absurd ht (AtSource.not_atTarget ⟨_, rfl, rfl⟩)

theorem same_board (h : Playing first w done) {s : Square} (hnone : (w.tap s).2 = none) :
    (w.tap s).1.verf.boardA = w.verf.boardA := by
  have hcases := h.tapped s
  generalize w.tap s = r at hcases hnone
  cases hcases with
  | ignored | sourceRejected | sourceAccepted | faulted => rfl
  | targetRejected wait p from_p stays reject verf same => exact same
  | moved => cases hnone

theorem run (hfull : Full first.boardA) (hwhites : EmptiesWhite first.boardA)
    (taps : List Square) :
    Playing first ((Worker.start first).run taps) ((Worker.start first).executed taps) :=
  Mealy.run_induction (Playing first) (.start hfull hwhites) (fun _ _ s h => h.tap s) taps

end Playing

/-- Everything a run knows of an update: the tap on `q` executed `m` from the
selected square `p`. -/
structure Executes (w : Worker) (p q : Square) (m : Move) : Prop where
  wait : w.AtTarget
  source : w.position = p.key
  position : m.position = p.key
  nextPosition : m.nextPosition = q.key
  before : m.before.boardA = w.verf.boardA
  full : Full m.before.boardA
  selects : w.Selects p
  accept : Accepts m.before p.key q.key m.kind
  stays : ¬ LeavesBoard m.before.boardA p.key q.key
  after : (w.tap q).1.verf = m.after

theorem Playing.executes {first : GameData} {w : Worker} {done : List Move}
    (h : Playing first w done) {q : Square} {m : Move} (hm : (w.tap q).2 = some m) :
    ∃ p, Executes w p q m := by
  have hcases := h.tapped q
  generalize htap : w.tap q = r at hcases hm
  cases hcases with
  | ignored | sourceRejected | sourceAccepted | faulted | targetRejected => cases hm
  | moved wait p from_p stays kind accept before same =>
    cases hm
    obtain ⟨p', hp', hsel⟩ := h.selected wait
    have hpp : p' = p := Square.key_inj.mp (hp'.symm.trans from_p)
    refine ⟨p, wait, from_p, rfl, rfl, same, same ▸ h.full, hpp ▸ hsel,
      (h.full.accepts_congr same).mpr accept, same ▸ stays, ?_⟩
    rw [htap]
    cases kind <;> rfl

namespace Executes
variable {w : Worker} {p q : Square} {m : Move}

theorem source_occupied (h : Executes w p q m) :
    ∃ x, m.before.boardA p.key = some x ∧ x.pieceType ≠ .empty ∧ x.color = w.ptcolor := by
  obtain ⟨x, hx⟩ := h.full.at_square p
  obtain ⟨hempty, hcolor⟩ := h.selects
  rw [← h.before, emptyAt_some hx, beq_eq_false_iff_ne] at hempty
  rw [← h.before, colorAt_some hx, Option.some.injEq] at hcolor
  exact ⟨x, hx, hempty, hcolor⟩

/-- An accepted target is the selected square itself, empty, or of the other colour. -/
theorem target (h : Executes w p q m) :
    p = q ∨ emptyAt m.before.boardA q.key = true ∨
      colorAt m.before.boardA q.key ≠ colorAt m.before.boardA p.key := by
  have haccept := h.accept
  cases hk : m.kind with
  | goTo =>
    rw [hk] at haccept
    exact (h.full.canGoTo_true haccept).2.1
  | kill =>
    rw [hk, Accepts, h.full.kills_eq] at haccept
    right
    right
    intro heq
    rw [if_neg (not_not.mpr heq)] at haccept
    cases haccept.2

/-- Both branches of the update relocate one object. -/
theorem occupants_after (h : Executes w p q m) :
    occupants m.after.boardA = Placement.relocate p q (occupants m.before.boardA) := by
  have hafter : m.after = m.before.goTo p.key q.key := by
    rw [Move.after, h.position, h.nextPosition]
    cases m.kind <;> rfl
  rw [hafter, occupants_goTo]

end Executes
end Worker

theorem emptiesWhite_newGame : EmptiesWhite GameData.new.initBoardA.boardA :=
  emptiesWhite_initBoardA (fun k hk => by cases hk)

theorem playing_newGame (taps : List Square) :
    Worker.Playing GameData.new.initBoardA (startNewGame.run taps) (startNewGame.executed taps) :=
  .run full_newGame emptiesWhite_newGame taps

theorem executed_newGame {taps : List Square} {m : Move} (hm : m ∈ startNewGame.executed taps) :
    ∃ ts p q us, taps = ts ++ q :: us ∧ Worker.Executes (startNewGame.run ts) p q m := by
  obtain ⟨ts, q, us, htaps, ho⟩ := Mealy.mem_outputs hm
  obtain ⟨p, hp⟩ := (playing_newGame ts).executes ho
  exact ⟨ts, p, q, us, htaps, hp⟩

end MyIVR
