import MyIVR.Match.Colours
import MyIVR.Screen.Arrangement

/-! The buttons that FourPlayersGame paints. They lie on the diagonal of the screen,
each a point further than the one before, and buttonPressed decodes their centres to
no square but the corner, so that presses of them never move a piece. -/
namespace MyIVR
open Swift

def Frame.center (f : Frame) : Int × Int := (f.x + f.width.tdiv 2, f.y + f.height.tdiv 2)

namespace FourPlayersGame

/-- The body of paint's loop. -/
def paintSquare (board : Board) (v : View) (i : Int) : Except Fault View := do
  let v := (v.placeNew i).setFrame i ⟨34 + i, 234 + i, 38, 38⟩
  let piece ← force (board i)
  let v := v.modify i (fun b => { b with image := some (imageName "" piece) })
  let v ← v.addSubview i
  return v.modify i (fun b => { b with target := true })

def paint (board : Board) (v : View) : Except Fault View := (upTo 0 63).foldlM (paintSquare board) v

/-- The button of a square: its image is that of a piece also where the square is empty. -/
def painting (board : Board) (s : Square) : UIButton :=
  ⟨⟨34 + s.key, 234 + s.key, 38, 38⟩, (board s.key).map (imageName ""), true⟩

private theorem paintSquare_eq {board : Board} {s : Square} (h : ∃ x, board s.key = some x) (v : View) :
    paintSquare board v s.key = .ok (v.withButton s.key (painting board s)) := by
  obtain ⟨x, hx⟩ := h
  simp only [paintSquare, painting, View.withButton, View.setFrame, View.modify, View.placeNew, View.assign,
    View.addSubview, hx, if_true, Option.map_some, force_some, pure_eq_ok, ok_bind, UIButton.new]
  congr 2
  funext r
  rw [Function.update_apply]
  split_ifs <;> rfl

private theorem paintSquares_some {board : Board} {l : List Int} {v w : View}
    (h : l.foldlM (paintSquare board) v = .ok w) : ∀ i ∈ l, ∃ x, board i = some x := by
  induction l generalizing v with
  | nil => exact List.forall_mem_nil _
  | cons i rest ih =>
    rw [List.foldlM_cons] at h
    obtain ⟨u, hu, hrest⟩ := bind_eq_ok h
    obtain ⟨x, hx, _⟩ := bind_eq_ok hu
    refine List.forall_mem_cons.mpr ⟨?_, ih hrest⟩
    cases hb : board i with
    | some x => exact ⟨x, rfl⟩
    | none =>
      rw [hb] at hx
      cases hx

private theorem tapped_button (s : Square) :
    tappedNumber (34 + s.key + (38 : Int).tdiv 2) (234 + s.key + (38 : Int).tdiv 2) =
      if s.val < 38 then 0 else -7 := by
  revert s
  decide

theorem paint_full {board : Board} (h : Full board) (v₀ : View) : ∃ v, paint board v₀ = .ok v := by
  obtain ⟨v, hv, _⟩ := View.filled (fun s v => paintSquare_eq (h.at_square s) v) v₀ 64 (Nat.le_refl _)
  exact ⟨v, hv⟩

/-- Where painting returns, every square has its button, and a press of it sets number
to 0 or to -7. -/
theorem paint_diagonal {board : Board} {v₀ v : View} (h : paint board v₀ = .ok v) (s : Square) :
    ∃ r, v.boardButton s.key = some r ∧ v.button r = painting board s ∧
      tappedNumber (v.button r).frame.center.1 (v.button r).frame.center.2 =
        if s.val < 38 then 0 else -7 := by
  have hboard (s : Square) : ∃ x, board s.key = some x :=
    paintSquares_some h s.key (mem_upTo.mpr s.key_range)
  obtain ⟨u, hu, hfilled⟩ := View.filled (fun s v => paintSquare_eq (hboard s) v) v₀ 64 (Nat.le_refl _)
  cases hu.symm.trans h
  refine ⟨v₀.fresh + s.val, hfilled.entry s s.isLt, hfilled.button s s.isLt, ?_⟩
  rw [hfilled.button s s.isLt]
  exact tapped_button s

/-- What holds of a client that has only been tapped on painted buttons. -/
structure Idles (first : GameData) (c : FourPlayersGame) : Prop where
  semaphore2 : c.semaphore2 = 0
  board : c.board = first
  number : c.number = 0 ∨ c.number = -7
  row : ∀ site, c.stage = .rowRead site → c.row = 0
  asking : c.stage.atTarget = false
  silent : c.stage ≠ .publishing

variable {first : GameData} {c : FourPlayersGame}

private theorem corner_square {n : Int} (h : n = 0 ∨ n = -7) :
    MyIVR.row n = 0 ∧ (MyIVR.col n = 0 ∨ MyIVR.col n = -7) := by
  rcases h with rfl | rfl <;> decide

private theorem Idles.keep {c' : FourPlayersGame} (h : Idles first c) (hsemaphore : c'.semaphore2 = c.semaphore2)
    (hboard : c'.board = c.board) (hnumber : c'.number = c.number)
    (hrow : ∀ site, c'.stage = .rowRead site → c'.row = 0) (hasking : c'.stage.atTarget = false)
    (hsilent : c'.stage ≠ .publishing) : Idles first c' where
  semaphore2 := hsemaphore.trans h.semaphore2
  board := hboard.trans h.board
  number := hnumber ▸ h.number
  row := hrow
  asking := hasking
  silent := hsilent

private theorem Idles.work (h : Idles first c)
    (hcorner : ∀ k, k = 0 ∨ k = -7 → (first.boardA k).map Piece.color ≠ some .black) (db : Snapshot) :
    Idles first (c.work db).1 ∧ (c.work db).2.2 = none := by
  have hat := h.asking
  cases hs : c.stage with
  | waiting site =>
    rw [hs] at hat
    simp only [FourPlayersGame.work, hs]
    split
    · exact ⟨h.keep rfl rfl rfl (by simp) hat (by simp), rfl⟩
    · exact ⟨h, rfl⟩
  | woken site =>
    rw [hs] at hat
    have hsite : site.isSource = true := by simpa [Stage.atTarget] using hat
    simp only [FourPlayersGame.work, hs, readRow, if_pos hsite]
    exact ⟨h.keep rfl rfl rfl (fun _ _ => (corner_square h.number).1) hat (by simp), trivial⟩
  | rowRead site =>
    rw [hs] at hat
    have hsite : site.isSource = true := by simpa [Stage.atTarget] using hat
    have hread : (c.readCol site).source = MyIVR.col c.number := by
      rw [readCol, if_pos hsite, FourPlayersGame.source, h.row site hs]
      simp
    have hboard : (c.readCol site).board = first := by
      rw [readCol, if_pos hsite]
      exact h.board
    have hrejects : (c.readCol site).rejectsSource = true := by
      have hcolor := hcorner _ (corner_square h.number).2
      rw [rejectsSource, hread, hboard, Bool.or_eq_true]
      exact .inr (bne_iff_ne.mpr hcolor)
    simp only [FourPlayersGame.work, hs, if_pos hsite, sourceHead, hrejects, if_true]
    rw [readCol, if_pos hsite]
    exact ⟨h.keep rfl rfl rfl (by simp) rfl (by simp), trivial⟩
  | publishing => exact absurd hs h.silent
  | cheking =>
    simp only [FourPlayersGame.work, hs]
    split
    · exact ⟨h.keep rfl rfl rfl (by simp) rfl (by simp), rfl⟩
    · exact ⟨h.keep rfl rfl rfl (by simp) rfl (by simp), rfl⟩
  | confirming =>
    have hnone : ¬ 0 < c.semaphore2 := by rw [h.semaphore2]; exact Nat.lt_irrefl 0
    simp only [FourPlayersGame.work, hs, if_neg hnone]
    exact ⟨h, trivial⟩
  | faulted fault | ended =>
    simp only [FourPlayersGame.work, hs]
    exact ⟨h, trivial⟩

private theorem Idles.poll (h : Idles first c) (db : Snapshot) :
    Idles first (c.poll db).1 ∧ ∀ s ∈ (c.poll db).2, ∃ n pair, s = .polled n pair := by
  rw [FourPlayersGame.poll]
  split
  · exact ⟨h, by simp⟩
  · simp only
    split
    · exact ⟨h.keep rfl rfl rfl h.row h.asking h.silent, by rintro s ⟨⟩; exact ⟨_, _, rfl⟩⟩
    · refine ⟨?_, by rintro s ⟨⟩; exact ⟨_, _, rfl⟩⟩
      simp only [handler]
      split
      · split <;> exact h.keep rfl rfl rfl h.row h.asking h.silent
      · exact h.keep rfl rfl rfl (by simp) rfl (by simp)

private theorem Idles.start (person : Int) (gameID : String) (board : GameData) (number : Int) :
    Idles board ((entered person gameID).playGame board number) := by
  rw [playGame]
  split
  · exact ⟨rfl, rfl, .inl rfl, by simp, rfl, by simp⟩
  · rw [loopHead]
    split <;> exact ⟨rfl, rfl, .inl rfl, by simp, rfl, by simp⟩

end FourPlayersGame

/-- The taps of a run are presses of painted buttons. -/
def OnButtons (view : Side → View) (events : List (Side × ClientEvent)) : Prop :=
  ∀ i x y, (i, .tap x y) ∈ events → ∃ (s : Square) (r : Nat), (view i).boardButton s.key = some r ∧
    (x, y) = ((view i).button r).frame.center

def OnlyPolls (signs : List (Side × Sign)) : Prop := ∀ e ∈ signs, ∃ n pair, e.2 = .polled n pair

private theorem OnlyPolls.snoc {signs : List (Side × Sign)} (h : OnlyPolls signs) (i : Side)
    {sign : Option Sign} (hsign : ∀ s ∈ sign, ∃ n pair, s = .polled n pair) :
    OnlyPolls (signs ++ (sign.map (fun s => (i, s))).toList) := by
  intro e he
  rcases List.mem_append.mp he with he | he
  · exact h e he
  · obtain ⟨s, hs, rfl⟩ := Option.mem_map.mp (Option.mem_toList.mp he)
    exact hsign s hs

section presses
variable {board : Side → GameData} {view : Side → View}
  (hpaint : ∀ i, ∃ v₀, FourPlayersGame.paint (board i).boardA v₀ = .ok (view i))
  (hcorner : ∀ i, ∀ k, k = 0 ∨ k = -7 → ((board i).boardA k).map Piece.color ≠ some .black)
include hpaint hcorner

private theorem idles_step {m : Match} (h : ∀ i, FourPlayersGame.Idles (board i) (m.client i))
    {signs : List (Side × Sign)} (hsigns : OnlyPolls signs) {e : Side × ClientEvent}
    (he : OnButtons view [e]) :
    (∀ i, FourPlayersGame.Idles (board i) ((m.step e).1.client i)) ∧
      OnlyPolls (signs ++ (m.step e).2.toList) := by
  obtain ⟨i, e⟩ := e
  have set {c : FourPlayersGame} (hc : FourPlayersGame.Idles (board i) c) (j : Side) :
      FourPlayersGame.Idles (board j) ((m.set i c).client j) := by
    by_cases hj : j = i
    · subst hj
      rw [Match.set_same]
      exact hc
    · rw [Match.set_other m hj]
      exact h j
  have same : OnlyPolls (signs ++ (none : Option (Side × Sign)).toList) := by
    rw [Option.toList_none, List.append_nil]
    exact hsigns
  cases e with
  | tap x y =>
    obtain ⟨s, r, hr, hxy⟩ := he i x y (List.mem_singleton_self _)
    obtain ⟨v₀, hv⟩ := hpaint i
    obtain ⟨r', hr', _, hnumber⟩ := FourPlayersGame.paint_diagonal hv s
    cases hr.symm.trans hr'
    cases hxy
    have hcorner : tappedNumber ((view i).button r).frame.center.1 ((view i).button r).frame.center.2 = 0 ∨
        tappedNumber ((view i).button r).frame.center.1 ((view i).button r).frame.center.2 = -7 := by
      rw [hnumber]
      exact ite_eq_or_eq _ _ _
    rcases m.step_tap i _ _ with hstep | hstep <;> rw [hstep]
    · exact ⟨h, same⟩
    · have hi := h i
      exact ⟨set ⟨hi.semaphore2, hi.board, hcorner, hi.row, hi.asking, hi.silent⟩, same⟩
  | work =>
    obtain ⟨hidle, hnone⟩ := (h i).work (hcorner i) m.db
    rw [Match.step_work, hnone]
    exact ⟨set hidle, same⟩
  | poll =>
    obtain ⟨hidle, hpolled⟩ := (h i).poll m.db
    rcases m.step_poll i with hstep | hstep <;> rw [hstep]
    · exact ⟨h, same⟩
    · exact ⟨set hidle, hsigns.snoc i hpolled⟩

/-- Two clients whose boards have been painted, with no black piece on the corner: in
every run of presses on the buttons nobody moves a piece or sends a message, and the
boards stay what they were. -/
theorem painted_presses_idle (db : Snapshot) (person : Side → Int) (gameID : String) (number : Int)
    {events : List (Side × ClientEvent)} (htaps : OnButtons view events) :
    let start := Match.start db (fun i => .entered (person i) gameID) board number
    (∀ i, ((start.run events).client i).board = board i) ∧ OnlyPolls (start.signs events) := by
  intro start
  have hrun : (∀ i, FourPlayersGame.Idles (board i) ((start.run events).client i)) ∧
      OnlyPolls (start.signs events) := by
    refine Mealy.run_induction_of_mem (fun (m : Match) signs =>
      (∀ i, FourPlayersGame.Idles (board i) (m.client i)) ∧ OnlyPolls signs) ?_ ?_
    · exact ⟨fun i => .start (person i) gameID (board i) number, by simp [OnlyPolls]⟩
    · rintro m signs ⟨i, e⟩ hmem ⟨hidle, hsigns⟩
      refine idles_step hpaint hcorner hidle hsigns fun j x y hj => htaps j x y ?_
      rw [List.mem_singleton.mp hj]
      exact hmem
  exact ⟨fun i => (hrun.1 i).board, hrun.2⟩

end presses

/-- On the boards of a new game the even client presses the button of square 0, and its
worker reads it. -/
theorem corner_press_idle : ∃ view, FourPlayersGame.paint GameData.new.initBoardA.boardA .new = .ok view ∧
    OnlyPolls ((Match.start .null (fun _ => .entered 2 "-K1") (fun _ => GameData.new.initBoardA) 1).signs
      [(.even, .tap 53 253), (.even, .work), (.even, .work), (.even, .work)]) := by
  obtain ⟨view, hview⟩ := FourPlayersGame.paint_full full_newGame .new
  obtain ⟨r, hr, hbutton, _⟩ := FourPlayersGame.paint_diagonal hview 0
  refine ⟨view, hview, (painted_presses_idle (fun _ => ⟨.new, hview⟩) ?_ .null (fun _ => 2) "-K1" 1 ?_).2⟩
  · rintro _ k (rfl | rfl) <;> decide
  · intro i x y hmem
    refine ⟨0, r, hr, ?_⟩
    rw [hbutton]
    simp only [List.mem_cons, Prod.mk.injEq, ClientEvent.tap.injEq, reduceCtorEq, and_false, or_false,
      List.not_mem_nil] at hmem
    obtain ⟨_, rfl, rfl⟩ := hmem
    rfl

end MyIVR
