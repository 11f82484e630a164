import MyIVR.Game.Journeys

/-! A selection is final. The target loop asks for squares until one is accepted, and
nothing lets the player take the piece back, so a piece without a move stops the game. -/
namespace MyIVR
open Swift Full

/-- The worker holds the piece it has selected on a board, or has stopped there. -/
structure Held (p : Square) (b : Board) (w : Worker) : Prop where
  playing : ∃ done, Worker.Playing GameData.new.initBoardA w done
  board : w.verf.boardA = b
  position : w.position = p.key
  stands : w.AtTarget ∨ ∃ fault, w.status = .faulted fault

namespace Held
variable {p : Square} {b : Board} {w : Worker}

private theorem full (h : Held p b w) : Full w.verf.boardA :=
  have ⟨_, hplaying⟩ := h.playing
  hplaying.full

private theorem tap (h : Held p b w) (q : Square) :
    ((w.tap q).2 = none ∧ Held p b (w.tap q).1 ∧
        (w.AtTarget → (w.tap q).1.AtTarget ∨ LeavesBoard b p.key q.key)) ∨
      ∃ m, (w.tap q).2 = some m ∧ m.position = p.key ∧ Accepts w.verf p.key q.key m.kind := by
  obtain ⟨done, hplaying⟩ := h.playing
  have hcases := hplaying.tapped q
  have hafter := hplaying.tap q
  have same {p' : Square} (from_p : w.position = p'.key) : p' = p :=
    Square.key_inj.mp (from_p.symm.trans h.position)
  generalize w.tap q = r at hcases hafter ⊢
  cases hcases with
  | ignored stopped => exact .inl ⟨rfl, h, .inl⟩
  | sourceRejected wait | sourceAccepted wait =>
    rcases h.stands with htarget | ⟨fault, hfault⟩
    · exact absurd htarget wait.not_atTarget
    · obtain ⟨site, hsite⟩ := wait.waiting
      cases hfault.symm.trans hsite
  | faulted wait p' from_p leaves fault =>
    rw [same from_p, h.board] at leaves
    exact .inl ⟨rfl, ⟨⟨_, hafter⟩, h.board, h.position, .inr ⟨fault, rfl⟩⟩, fun _ => .inr leaves⟩
  | targetRejected wait p' from_p stays reject verf board =>
    have hwaits : ∃ site, Status.waiting .targetAgain = .waiting site ∧ site.isSource = false :=
      ⟨_, rfl, rfl⟩
    exact .inl ⟨rfl, ⟨⟨_, hafter⟩, board.trans h.board, h.position, .inl hwaits⟩, fun _ => .inl hwaits⟩
  | moved wait p' from_p stays kind accept before board =>
    rw [same from_p] at accept ⊢
    exact .inr ⟨_, rfl, rfl, accept⟩

private theorem tap_accepts (h : Held p b w) (htarget : w.AtTarget) {q : Square} {kind : MoveKind}
    (accepts : Accepts w.verf p.key q.key kind) : (w.tap q).2 ≠ none := by
  obtain ⟨done, hplaying⟩ := h.playing
  have hcases := hplaying.tapped q
  have same {p' : Square} (from_p : w.position = p'.key) : p' = p :=
    Square.key_inj.mp (from_p.symm.trans h.position)
  generalize w.tap q = r at hcases
  cases hcases with
  | ignored stopped =>
    obtain ⟨site, hsite⟩ := htarget.waiting
    exact absurd hsite (stopped site)
  | sourceRejected wait | sourceAccepted wait => exact absurd htarget wait.not_atTarget
  | faulted wait p' from_p leaves =>
    rw [same from_p] at leaves
    cases kind with
    | goTo => exact absurd leaves.2 ((h.full.canGoTo_true accepts).2.2 _)
    | kill =>
      rcases (h.full.leaves_iff p q).mp leaves with ⟨e, he⟩ | ⟨e, he⟩
      · cases he.symm.trans accepts.1
      · cases he.symm.trans accepts.2
  | targetRejected wait p' from_p stays reject =>
    rw [same from_p] at reject
    exact absurd reject accepts.not_rejects
  | moved => exact nofun

private theorem run (h : Held p b w)
    (hnone : ∀ (q : Square) kind, ¬ Accepts w.verf p.key q.key kind) (us : List Square) :
    w.executed us = [] ∧ Held p b (w.run us) ∧
      (w.AtTarget → (∀ q : Square, ¬ LeavesBoard b p.key q.key) → (w.run us).AtTarget) := by
  refine @Mealy.run_induction _ _ _ Worker.tap (fun v outs => outs = [] ∧ Held p b v ∧
    (w.AtTarget → (∀ q : Square, ¬ LeavesBoard b p.key q.key) → v.AtTarget))
    w ⟨rfl, h, fun htarget _ => htarget⟩ (fun v outs q hv => ?_) us
  obtain ⟨hempty, hheld, hwaits⟩ := hv
  rcases hheld.tap q with ⟨hout, hnext, htarget⟩ | ⟨m, _, _, accepts⟩
  · rw [hempty, hout]
    refine ⟨rfl, hnext, fun hw hstays => ?_⟩
    exact (htarget (hwaits hw hstays)).resolve_right (hstays q)
  · exact absurd ((h.full.accepts_congr (hheld.board.trans h.board.symm)).mp accepts) (hnone q m.kind)

private theorem first (h : Held p b w) {us : List Square} {m : Move} {rest : List Move}
    (hus : w.executed us = m :: rest) : m.position = p.key := by
  induction us generalizing w with
  | nil => cases hus
  | cons q us ih =>
    have hcons : w.executed (q :: us) = (w.tap q).2.toList ++ (w.tap q).1.executed us := rfl
    rw [hcons] at hus
    rcases h.tap q with ⟨hout, hnext, _⟩ | ⟨m', hout, hposition, _⟩
    · rw [hout] at hus
      exact ih hnext hus
    · rw [hout] at hus
      cases hus
      exact hposition

end Held

private theorem held_newGame {ts : List Square} (htarget : (startNewGame.run ts).AtTarget) :
    ∃ p : Square, Held p (startNewGame.run ts).verf.boardA (startNewGame.run ts) := by
  obtain ⟨p, hp, _⟩ := (playing_newGame ts).selected htarget
  exact ⟨p, ⟨_, playing_newGame ts⟩, rfl, hp, .inl htarget⟩

/-- In every run of a new game that waits for a target: some further taps execute an
update exactly when the tests accept some square for the selected piece, and the
first update that is executed moves that piece. -/
theorem selection_final (ts : List Square) (htarget : (startNewGame.run ts).AtTarget) :
    ((∃ us, (startNewGame.run ts).executed us ≠ []) ↔ ∃ (q : Square) (kind : MoveKind),
        Accepts (startNewGame.run ts).verf (startNewGame.run ts).position q.key kind) ∧
      ∀ us m rest, (startNewGame.run ts).executed us = m :: rest →
        m.position = (startNewGame.run ts).position := by
  obtain ⟨p, h⟩ := held_newGame htarget
  rw [h.position]
  refine ⟨⟨fun ⟨us, hus⟩ => ?_, fun ⟨q, kind, accepts⟩ => ⟨[q], ?_⟩⟩, fun us m rest hus => h.first hus⟩
  · by_contra hnone
    exact hus (h.run (fun q kind accepts => hnone ⟨q, kind, accepts⟩) us).1
  · have htap := h.tap_accepts htarget accepts
    rw [Worker.executed, Mealy.outputs, Mealy.outputs_nil, List.append_nil]
    simpa using htap

/-- White has selected its knight on square 1, which can go to 18. -/
theorem selected_knight_moves :
    ((∃ us, (startNewGame.run [1]).executed us ≠ []) ↔ ∃ (q : Square) (kind : MoveKind),
        Accepts (startNewGame.run [1]).verf (startNewGame.run [1]).position q.key kind) ∧
      ∀ us m rest, (startNewGame.run [1]).executed us = m :: rest →
        m.position = (startNewGame.run [1]).position :=
  selection_final [1] ⟨.target, rfl, rfl⟩

/-- In every run of a new game: once a king is selected, whatever is tapped, nothing is
executed, the worker never faults, and it waits for a target of the king for good. -/
theorem selected_king_blocks (ts : List Square) (htarget : (startNewGame.run ts).AtTarget)
    (hking : typeAt (startNewGame.run ts).verf.boardA (startNewGame.run ts).position = some .king)
    (us : List Square) :
    (startNewGame.run ts).executed us = [] ∧ ((startNewGame.run ts).run us).AtTarget ∧
      ((startNewGame.run ts).run us).position = (startNewGame.run ts).position ∧
      ((startNewGame.run ts).run us).verf.boardA = (startNewGame.run ts).verf.boardA := by
  obtain ⟨p, h⟩ := held_newGame htarget
  rw [h.position] at hking
  obtain ⟨x, hx⟩ := h.full.at_square p
  rw [typeAt_some hx, Option.some.injEq] at hking
  have hgeometry (q : Square) : ¬ Reaches x.pieceType x.color p.key q.key := by
    rw [hking]
    exact id
  have hnone (q : Square) (kind : MoveKind) : ¬ Accepts (startNewGame.run ts).verf p.key q.key kind := by
    intro accepts
    cases kind with
    | goTo => exact hgeometry q ((h.full.canGoTo_true_iff p q hx).mp accepts).1.1
    | kill => exact hgeometry q ((h.full.kills_true_iff p q hx).mp accepts.2).1.2
  have hstays (q : Square) : ¬ LeavesBoard (startNewGame.run ts).verf.boardA p.key q.key := by
    rintro ⟨_, ⟨htype, _⟩ | ⟨htype, _⟩⟩
    · rw [typeAt_some hx, hking] at htype
      cases htype
    · rw [typeAt_some hx, hking] at htype
      cases htype
  obtain ⟨hempty, hheld, hwaits⟩ := h.run hnone us
  exact ⟨hempty, hwaits htarget hstays, hheld.position.trans h.position.symm, hheld.board⟩

theorem first_tap_blocks :
    (startNewGame.run [4]).executed [12, 8, 24] = [] ∧
      ((startNewGame.run [4]).run [12, 8, 24]).AtTarget ∧
      ((startNewGame.run [4]).run [12, 8, 24]).position = (startNewGame.run [4]).position ∧
      ((startNewGame.run [4]).run [12, 8, 24]).verf.boardA = (startNewGame.run [4]).verf.boardA :=
  selected_king_blocks [4] ⟨.target, rfl, rfl⟩ (by decide +kernel) [12, 8, 24]

end MyIVR
