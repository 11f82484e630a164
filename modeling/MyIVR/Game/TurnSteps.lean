import MyIVR.Game.MoveTest
import MyIVR.Game.TurnLoop

/-! What one tap can do to the worker. Every invariant of the turn loop is
derived from the case analysis `tap_cases`, never from the code of the loop. -/
namespace MyIVR
open Swift

/-- The answer of the capture test, without the board it returns. -/
def kills (g : GameData) (p q : Int) : Except Fault Bool := (g.canKill p q).map Prod.fst

/-- The branch of the update that the tests choose for a pair of squares. -/
def Accepts (g : GameData) (p q : Int) : MoveKind → Prop
  | .goTo => canGoTo g.boardA p q = .ok true
  | .kill => canGoTo g.boardA p q = .ok false ∧ kills g p q = .ok true

def Rejects (g : GameData) (p q : Int) : Prop :=
  canGoTo g.boardA p q = .ok false ∧ kills g p q = .ok false

theorem Accepts.not_rejects {g : GameData} {p q : Int} {kind : MoveKind} (h : Accepts g p q kind) :
    ¬ Rejects g p q := by
  intro hr
  cases kind with
  | goTo => cases hr.1.symm.trans h
  | kill => cases hr.2.symm.trans h.2

theorem Accepts.unique {g : GameData} {p q : Int} {kind kind' : MoveKind} (h : Accepts g p q kind)
    (h' : Accepts g p q kind') : kind = kind' := by
  cases kind <;> cases kind'
  · rfl
  · cases h.symm.trans h'.1
  · cases h.1.symm.trans h'
  · rfl

theorem rejectsTarget_boardA {g g' : GameData} {p q : Int} {r : Bool}
    (h : rejectsTarget g p q = .ok (r, g')) : g'.boardA = g.boardA := by
  rw [rejectsTarget] at h
  obtain ⟨answer, _, h⟩ := bind_eq_ok h
  split at h
  · cases h
    rfl
  · obtain ⟨⟨killed, g₁⟩, hkill, h⟩ := bind_eq_ok h
    cases h
    exact GameData.canKill_boardA hkill

namespace Full
variable {g : GameData}

theorem kills_eq (h : Full g.boardA) (p q : Square) :
    kills g p.key q.key =
      if colorAt g.boardA q.key ≠ colorAt g.boardA p.key then
        canGoTo (g.emptied q.key) p.key q.key
      else .ok false := by
  rw [kills, h.canKill_eq]
  split
  · cases canGoTo (g.emptied q.key) p.key q.key <;> rfl
  · rfl

/-- A capture test looks along the same line, and reads its target as empty. -/
theorem kills_look {g : GameData} (h : Full g.boardA) (p q : Square) {x : Piece}
    (hx : g.boardA p.key = some x) :
    kills g p.key q.key =
      if colorAt g.boardA q.key ≠ some x.color ∧ Reaches x.pieceType x.color p.key q.key then
        (look (freeFor g.boardA q.key) (sightline x.pieceType p.key q.key)).answer
      else .ok false := by
  rw [h.kills_eq, colorAt_some hx]
  by_cases hne : colorAt g.boardA q.key ≠ some x.color
  · have hp : p.key ≠ q.key := by
      intro heq
      rw [← heq, colorAt_some hx] at hne
      exact hne rfl
    have hpiece : g.emptied q.key p.key = some x := by rw [GameData.emptied, Board.assign_ne _ hp, hx]
    have admits : Admits (g.emptied q.key) x.pieceType x.color q.key := by
      have hq : emptyAt (g.emptied q.key) q.key = true := by simp [emptyAt_emptied, freeFor]
      cases x.pieceType <;> simp [Admits, hq]
    rw [if_pos hne, (h.emptied q).canGoTo_look p q hpiece, emptyAt_emptied]
    by_cases hr : Reaches x.pieceType x.color p.key q.key
    · rw [if_pos ⟨hr, admits⟩, if_pos ⟨hne, hr⟩]
    · rw [if_neg (fun both => hr both.1), if_neg (fun both => hr both.2)]
  · rw [if_neg hne, if_neg (fun both => hne both.1)]

theorem kills_kinds (h : Full g.boardA) {g' : GameData} (h' : Full g'.boardA)
    (hk : kindAt g'.boardA = kindAt g.boardA) (p q : Square) :
    kills g' p.key q.key = kills g p.key q.key := by
  rw [h.kills_eq, h'.kills_eq, canGoTo_emptied hk]
  simp only [colorAt_eq_kindAt, hk]

theorem accepts_kinds (h : Full g.boardA) {g' : GameData} (h' : Full g'.boardA)
    (hk : kindAt g'.boardA = kindAt g.boardA) {p q : Square} {kind : MoveKind} :
    Accepts g' p.key q.key kind ↔ Accepts g p.key q.key kind := by
  cases kind <;> simp only [Accepts, h.kills_kinds h' hk, canGoTo_congr hk]

theorem kills_congr (h : Full g.boardA) {g' : GameData} (hb : g'.boardA = g.boardA)
    (p q : Square) : kills g' p.key q.key = kills g p.key q.key :=
  h.kills_kinds (hb ▸ h) (congrArg kindAt hb) p q

theorem accepts_congr (h : Full g.boardA) {g' : GameData} (hb : g'.boardA = g.boardA)
    {p q : Square} {kind : MoveKind} :
    Accepts g' p.key q.key kind ↔ Accepts g p.key q.key kind :=
  h.accepts_kinds (hb ▸ h) (congrArg kindAt hb)

/-- A test that the loop asks for fails to return exactly where a test leaves the board. -/
theorem leaves_iff (h : Full g.boardA) (p q : Square) :
    LeavesBoard g.boardA p.key q.key ↔
      (∃ e, canGoTo g.boardA p.key q.key = .error e) ∨ ∃ e, kills g p.key q.key = .error e := by
  rw [← h.tests_err_iff p q, kills]
  cases g.canKill p.key q.key <;> simp [Except.map]

/-- The condition of the target loop on squares p and q: it faults, it sends the
worker back to wait with the same dictionary, or it lets one branch through. -/
theorem rejectsTarget_cases (h : Full g.boardA) (p q : Square) :
    (∃ e, rejectsTarget g p.key q.key = .error e ∧ LeavesBoard g.boardA p.key q.key) ∨
    ∃ g', g'.boardA = g.boardA ∧ ¬ LeavesBoard g.boardA p.key q.key ∧
      (rejectsTarget g p.key q.key = .ok (true, g') ∧ Rejects g p.key q.key ∨
        rejectsTarget g p.key q.key = .ok (false, g') ∧ ∃ kind, Accepts g p.key q.key kind) := by
  have hfault := h.tests_err_iff p q
  rcases hgo : canGoTo g.boardA p.key q.key with e | _ | _
  · exact .inl ⟨e, by simp [rejectsTarget, hgo], hfault.mp (.inl ⟨e, hgo⟩)⟩
  · rcases hkill : g.canKill p.key q.key with e | ⟨r, g'⟩
    · exact .inl ⟨e, by simp [rejectsTarget, hgo, hkill], hfault.mp (.inr ⟨e, hkill⟩)⟩
    · refine .inr ⟨g', GameData.canKill_boardA hkill, ?_, ?_⟩
      · rw [← hfault, hgo, hkill]
        simp
      · cases r with
        | false => exact .inl ⟨by simp [rejectsTarget, hgo, hkill], hgo, by simp [kills, hkill, Except.map]⟩
        | true =>
          exact .inr ⟨by simp [rejectsTarget, hgo, hkill], .kill, hgo, by simp [kills, hkill, Except.map]⟩
  · exact .inr ⟨g, rfl, fun hl => (h.canGoTo_true hgo).2.2 _ hl.2,
      .inr ⟨by simp [rejectsTarget, hgo], .goTo, hgo⟩⟩

/-- The update repeats the tests of the loop and takes the branch they chose. -/
theorem updateBoard_eq {p q : Square} {kind : MoveKind} (ha : Accepts g p.key q.key kind) :
    ∃ before : GameData, before.boardA = g.boardA ∧
      updateBoard g p.key q.key = .ok (before.goTo p.key q.key, some ⟨kind, p.key, q.key, before⟩) := by
  cases kind with
  | goTo => exact ⟨g, rfl, by simp [updateBoard, show canGoTo g.boardA p.key q.key = .ok true from ha]⟩
  | kill =>
    obtain ⟨hgo, hk⟩ := ha
    rcases hkill : g.canKill p.key q.key with e | ⟨r, g'⟩
    · simp [kills, hkill, Except.map] at hk
    · have hr : r = true := by simpa [kills, hkill, Except.map] using hk
      subst hr
      exact ⟨g', GameData.canKill_boardA hkill, by simp [updateBoard, hgo, hkill, GameData.kill_eq_goTo]⟩

theorem kingRound_eq (h : Full g.boardA) (killer : Square) (winner : Bool) {i : Int}
    (hi : i ∈ upTo 0 63) : kingRound g killer.key winner i = .ok winner := by
  obtain ⟨x, hx⟩ := h.exists_piece (mem_upTo.mp hi)
  obtain ⟨y, hy⟩ := h.at_square killer
  simp only [kingRound, hx, hy, force_some, ok_bind, pure_eq_ok, GameData.check, andThen]
  split <;> simp

/-- The king scan looks up every square and, since no check is ever found,
leaves `winner` as it was. -/
theorem kingScan_eq (h : Full g.boardA) (killer : Square) (winner : Bool) :
    kingScan g killer.key winner = .ok winner := by
  have rounds (l : List Int) (hl : ∀ i ∈ l, i ∈ upTo 0 63) :
      l.foldlM (kingRound g killer.key) winner = .ok winner := by
    induction l with
    | nil => rfl
    | cons i rest ih =>
      rw [List.forall_mem_cons] at hl
      rw [List.foldlM_cons, h.kingRound_eq killer winner hl.1, ok_bind, ih hl.2]
  exact rounds _ (fun _ hi => hi)

end Full

namespace Worker

/-- The tapped square holds a piece of the side to move. -/
def Selects (w : Worker) (s : Square) : Prop :=
  emptyAt w.verf.boardA s.key = false ∧ colorAt w.verf.boardA s.key = some w.ptcolor

def AtSource (w : Worker) : Prop := ∃ site, w.status = .waiting site ∧ site.isSource = true

def AtTarget (w : Worker) : Prop := ∃ site, w.status = .waiting site ∧ site.isSource = false

theorem AtSource.waiting {w : Worker} (h : w.AtSource) : ∃ site, w.status = .waiting site :=
  h.imp (fun _ hs => hs.1)

theorem AtTarget.waiting {w : Worker} (h : w.AtTarget) : ∃ site, w.status = .waiting site :=
  h.imp (fun _ hs => hs.1)

theorem AtSource.not_atTarget {w : Worker} (h : w.AtSource) : ¬ w.AtTarget := by
  rintro ⟨site, hs, ht⟩
  obtain ⟨site', hs', hsrc⟩ := h
  cases hs.symm.trans hs'
  rw [hsrc] at ht
  cases ht

/-- What a tap on `s` can do, one constructor for each way through the loop body. -/
inductive Tapped (w : Worker) (s : Square) : Worker × Option Move → Prop where
  | ignored (stopped : ∀ site, w.status ≠ .waiting site) : Tapped w s (w, none)
  | sourceRejected (wait : w.AtSource) (reject : ¬ w.Selects s) : Tapped w s
      ({ w with row := MyIVR.row s.key, col := MyIVR.col s.key, status := .waiting .sourceAgain }, none)
  | sourceAccepted (wait : w.AtSource) (select : w.Selects s) : Tapped w s
      ({ w with row := MyIVR.row s.key, col := MyIVR.col s.key, status := .waiting .target }, none)
  | faulted (wait : w.AtTarget) (p : Square) (from_p : w.position = p.key)
      (leaves : LeavesBoard w.verf.boardA p.key s.key) (fault : Fault) : Tapped w s
      ({ w with row1 := MyIVR.row s.key, col1 := MyIVR.col s.key, status := .faulted fault }, none)
  | targetRejected (wait : w.AtTarget) (p : Square) (from_p : w.position = p.key)
      (stays : ¬ LeavesBoard w.verf.boardA p.key s.key) (reject : Rejects w.verf p.key s.key)
      (verf : GameData) (same : verf.boardA = w.verf.boardA) : Tapped w s
      ({ w with row1 := MyIVR.row s.key, col1 := MyIVR.col s.key, verf := verf,
                status := .waiting .targetAgain }, none)
  | moved (wait : w.AtTarget) (p : Square) (from_p : w.position = p.key)
      (stays : ¬ LeavesBoard w.verf.boardA p.key s.key)
      (kind : MoveKind) (accept : Accepts w.verf p.key s.key kind)
      (before : GameData) (same : before.boardA = w.verf.boardA) : Tapped w s
      (loopHead { w with row1 := MyIVR.row s.key, col1 := MyIVR.col s.key, verf := before.goTo p.key s.key,
                         moves := w.moves + 1, color := |w.color - 1| },
        some ⟨kind, p.key, s.key, before⟩)

theorem rejectsSource_iff (w : Worker) (s : Square) (h : w.position = s.key)
    (hs : (w.verf.boardA s.key).isSome) : w.rejectsSource = true ↔ ¬ w.Selects s := by
  obtain ⟨x, hx⟩ := Option.isSome_iff_exists.mp hs
  rw [rejectsSource, Selects, h, emptyAt_some hx, colorAt_some hx, hx]
  by_cases ht : x.pieceType = .empty <;> simp [ht]

private theorem finishTurn_eq (w : Worker) (hfull : Full w.verf.boardA) {p s : Square}
    {kind : MoveKind} (hp : w.position = p.key) (hs : w.nextPosition = s.key)
    (ha : Accepts w.verf p.key s.key kind) :
    ∃ before : GameData, before.boardA = w.verf.boardA ∧
      w.finishTurn = (loopHead { w with verf := before.goTo p.key s.key,
                                        moves := w.moves + 1, color := |w.color - 1| },
        some ⟨kind, p.key, s.key, before⟩) := by
  obtain ⟨before, hbefore, hupdate⟩ := Full.updateBoard_eq ha
  have hafter : Full (before.goTo p.key s.key).boardA :=
    GameData.full_goTo (hbefore ▸ hfull) p.key_range s.key_range
  refine ⟨before, hbefore, ?_⟩
  simp only [finishTurn, hp, hs, hupdate, hafter.kingScan_eq]

private theorem tap_source (w : Worker) (s : Square) (h : w.AtSource) :
    w.tap s = sourceHead { w with row := MyIVR.row s.key, col := MyIVR.col s.key } := by
  obtain ⟨site, hstatus, hsite⟩ := h
  simp [tap, step, readRow, readCol, resume, hstatus, hsite]

private theorem tap_target (w : Worker) (s : Square) (h : w.AtTarget) :
    w.tap s = targetHead { w with row1 := MyIVR.row s.key, col1 := MyIVR.col s.key } := by
  obtain ⟨site, hstatus, hsite⟩ := h
  simp [tap, step, readRow, readCol, resume, hstatus, hsite]

theorem tap_stopped (w : Worker) (s : Square) (h : ∀ site, w.status ≠ .waiting site) :
    w.tap s = (w, none) := by
  cases hstatus : w.status with
  | waiting site => exact absurd hstatus (h site)
  | faulted e => simp [tap, step, readRow, readCol, resume, hstatus]
  | ended m => simp [tap, step, readRow, readCol, resume, hstatus]

/-- The case analysis of a tap, for a worker on a full board that has selected a
square of the board whenever it waits for a target. -/
theorem tap_cases (w : Worker) (s : Square) (hfull : Full w.verf.boardA)
    (hsource : w.AtTarget → ∃ p : Square, w.position = p.key) : Tapped w s (w.tap s) := by
  by_cases hsrc : w.AtSource
  · have hreject := rejectsSource_iff { w with row := MyIVR.row s.key, col := MyIVR.col s.key } s
      (row_col s.key) ((hfull s.key).mpr s.key_range)
    rw [tap_source w s hsrc, sourceHead]
    by_cases hsel : w.Selects s
    · rw [if_neg (fun h => hreject.mp h hsel)]
      exact .sourceAccepted hsrc hsel
    · rw [if_pos (hreject.mpr hsel)]
      exact .sourceRejected hsrc hsel
  by_cases htgt : w.AtTarget
  · obtain ⟨p, hp⟩ := hsource htgt
    have hs : ({ w with row1 := MyIVR.row s.key, col1 := MyIVR.col s.key } : Worker).nextPosition =
        s.key := row_col s.key
    have hp' : ({ w with row1 := MyIVR.row s.key, col1 := MyIVR.col s.key } : Worker).position =
        p.key := hp
    rw [tap_target w s htgt, targetHead, hs, hp']
    rcases hfull.rejectsTarget_cases p s with
      ⟨e, he, hl⟩ | ⟨g, hg, hl, ⟨hrej, hr⟩ | ⟨hacc, kind, ha⟩⟩
    · rw [he]
      exact .faulted htgt p hp hl e
    · rw [hrej]
      exact .targetRejected htgt p hp hl hr g hg
    · rw [hacc]
      obtain ⟨before, hbefore, hfinish⟩ := finishTurn_eq
        { w with row1 := MyIVR.row s.key, col1 := MyIVR.col s.key, verf := g } (hg ▸ hfull) hp hs
        ((hfull.accepts_congr hg).mpr ha)
      change Tapped w s (finishTurn _)
      rw [hfinish]
      exact .moved htgt p hp hl kind ha before (hbefore.trans hg)
  · have stopped : ∀ site, w.status ≠ .waiting site := by
      intro site hstatus
      cases hsite : site.isSource with
      | true => exact hsrc ⟨site, hstatus, hsite⟩
      | false => exact htgt ⟨site, hstatus, hsite⟩
    rw [tap_stopped w s stopped]
    exact .ignored stopped

end Worker
end MyIVR
