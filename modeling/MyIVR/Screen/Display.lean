import MyIVR.Screen.Arrangement
import MyIVR.Screen.Controller

/-! What the view shows once the main queue is empty. The closure of a quiet move
exchanges two buttons, which is what the move does to the board; after any other
update the view is wrong for good. -/
namespace MyIVR
open Swift

def Move.TargetEmpty (m : Move) : Prop := emptyAt m.before.boardA m.nextPosition = true

instance (m : Move) : Decidable m.TargetEmpty := inferInstanceAs (Decidable (_ = _))

def showMoves (v : View) (ms : List Move) : View :=
  ms.foldl (fun v m => replaceButton v m.position m.nextPosition) v

theorem showMoves_snoc (v : View) (ms : List Move) (m : Move) :
    showMoves v (ms ++ [m]) = replaceButton (showMoves v ms) m.position m.nextPosition :=
  List.foldl_append

namespace Worker

theorem Executes.kill_occupied {w : Worker} {p q : Square} {m : Move} (h : Executes w p q m)
    (hwhites : EmptiesWhite w.verf.boardA) (hk : m.kind = .kill) : ¬ m.TargetEmpty := by
  intro hempty
  rw [Move.TargetEmpty, h.nextPosition] at hempty
  have haccept := h.accept
  obtain ⟨x, hx⟩ := h.full.at_square q
  have hwhite := hwhites q.key (h.before ▸ hempty)
  rw [← h.before, colorAt_some hx, Option.some.injEq] at hwhite
  rw [emptyAt_some hx, beq_iff_eq] at hempty
  have hkind : kindAt m.before.boardA q.key = some (.empty, .white) := by
    rw [kindAt, hx, Option.map_some, hempty, hwhite]
  rw [hk, Accepts, h.full.kills_eq, canGoTo_emptied_of_empty hkind] at haccept
  obtain ⟨hgo, hkill⟩ := haccept
  rw [hgo] at hkill
  split at hkill <;> cases hkill

def HasRead (w : Worker) : Prop :=
  ∃ s t : Square, w.row = MyIVR.row s.key ∧ w.col = MyIVR.col t.key

theorem HasRead.position {w : Worker} (h : w.HasRead) : ∃ s : Square, w.position = s.key := by
  obtain ⟨s, t, hs, ht⟩ := h
  have hr := s.row_range
  have hc := t.col_range
  obtain ⟨u, hu⟩ := exists_square (k := w.position) (by rw [Worker.position, hs, ht]; omega)
  exact ⟨u, hu.symm⟩

theorem HasRead.readRow {w : Worker} (h : w.HasRead) (s : Square) : (w.readRow s.key).HasRead := by
  obtain ⟨r, t, hr, ht⟩ := h
  rw [Worker.readRow]
  split
  · split
    · exact ⟨s, t, rfl, ht⟩
    · exact ⟨r, t, hr, ht⟩
  · exact ⟨r, t, hr, ht⟩

private theorem Playing.hasRead_tap {first : GameData} {w : Worker} {done : List Move}
    (h : Playing first w done) (hw : w.HasRead ∨ done = [] ∧ ¬ w.AtTarget) (s : Square) :
    (w.tap s).1.HasRead ∨ done ++ (w.tap s).2.toList = [] ∧ ¬ (w.tap s).1.AtTarget := by
  have hcases := h.tapped s
  generalize w.tap s = r at hcases
  cases hcases with
  | ignored stopped => simpa using hw
  | sourceRejected | sourceAccepted => exact .inl ⟨s, s, rfl, rfl⟩
  | faulted wait | targetRejected wait =>
    exact .inl (hw.resolve_right (fun hn => hn.2 wait))
  | moved wait =>
    have hread := hw.resolve_right (fun hn => hn.2 wait)
    exact .inl hread

theorem hasRead_of_executed {squares : List Square} (h : startNewGame.executed squares ≠ []) :
    (startNewGame.run squares).HasRead := by
  have hrun : Playing GameData.new.initBoardA (startNewGame.run squares) (startNewGame.executed squares) ∧
      ((startNewGame.run squares).HasRead ∨
        startNewGame.executed squares = [] ∧ ¬ (startNewGame.run squares).AtTarget) := by
    refine Mealy.run_induction (fun w done => Playing GameData.new.initBoardA w done ∧
      (w.HasRead ∨ done = [] ∧ ¬ w.AtTarget)) ⟨playing_newGame [], .inr ⟨rfl, ?_⟩⟩ ?_ squares
    · rintro ⟨site, hs, ht⟩
      cases hs
      cases ht
    · rintro w done s ⟨hplay, hread⟩
      exact ⟨hplay.tap s, hplay.hasRead_tap hread s⟩
  exact hrun.2.resolve_right (fun hn => h hn.1)

end Worker

/-- While only GoTo has run, the view after the closures has every cell's button,
with the board's images as long as all targets were empty, and else with a ghost. -/
def Shown (figureNumber : String) (v : View) (w : Worker) (ms : List Move) : Prop :=
  (∀ m ∈ ms, m.kind = .goTo) → ∃ ref image, Arranged (showMoves v ms) ref image ∧
    ((∀ m ∈ ms, m.TargetEmpty) → image = picture figureNumber w.verf.boardA) ∧
    ((¬ ∀ m ∈ ms, m.TargetEmpty) → Placement.Ghost (picture figureNumber w.verf.boardA) image)

section shown
variable {figureNumber : String} {v : View}

private theorem picture_after {w : Worker} {p q : Square} {m : Move} (h : Worker.Executes w p q m) :
    picture figureNumber m.after.boardA =
      Placement.relocate p q (picture figureNumber w.verf.boardA) := by
  funext s
  rw [picture, h.occupants_after, Placement.relocate_map, h.before]
  rfl

private theorem picture_eq_none {w : Worker} {p q : Square} {m : Move} (h : Worker.Executes w p q m) :
    picture figureNumber w.verf.boardA q = none ↔ m.TargetEmpty := by
  obtain ⟨x, hx⟩ := h.full.at_square q
  rw [Move.TargetEmpty, h.nextPosition, emptyAt_some hx, beq_iff_eq, picture,
    Option.map_eq_none_iff, occupants, ← h.before, hx]
  simp

private theorem picture_source {w : Worker} {p q : Square} {m : Move} (h : Worker.Executes w p q m) :
    picture figureNumber w.verf.boardA p ≠ none := by
  obtain ⟨x, hx, hoccupied, _⟩ := h.source_occupied
  rw [picture, ← h.before, occupants_eq_some.mpr ⟨hx, hoccupied⟩]
  exact Option.some_ne_none _

private theorem Shown.move {w : Worker} {ms : List Move} (h : Shown figureNumber v w ms)
    {p q : Square} {m : Move} (he : Worker.Executes w p q m) :
    Shown figureNumber v (w.tap q).1 (ms ++ [m]) := by
  intro hquiet
  rw [List.forall_mem_append, List.forall_mem_singleton] at hquiet
  obtain ⟨ref, image, harranged, hshown, hghost⟩ := h hquiet.1
  rw [showMoves_snoc, he.position, he.nextPosition, he.after, picture_after he]
  refine ⟨_, _, harranged.replaceButton p q, ?_, ?_⟩
  · rw [List.forall_mem_append, List.forall_mem_singleton]
    rintro ⟨hall, hm⟩
    rw [hshown hall, Placement.relocate_eq_swap ((picture_eq_none he).mpr hm)]
  · rw [List.forall_mem_append, List.forall_mem_singleton, not_and]
    intro hnot
    by_cases hall : ∀ m ∈ ms, m.TargetEmpty
    · rw [hshown hall]
      exact Placement.ghost_of_occupied p (fun hq => hnot hall ((picture_eq_none he).mp hq))
    · exact (hghost hall).relocate q (picture_source he)

theorem shown_run (hv : Arranged v Fin.val (picture figureNumber startNewGame.verf.boardA))
    (squares : List Square) :
    Shown figureNumber v (startNewGame.run squares) (startNewGame.executed squares) := by
  have start : Shown figureNumber v startNewGame [] := by
    intro _
    exact ⟨Fin.val, _, hv, fun _ => rfl, fun hn => absurd (fun _ hm => by cases hm) hn⟩
  refine (Mealy.run_induction (fun w done => Worker.Playing GameData.new.initBoardA w done ∧
    Shown figureNumber v w done) ⟨playing_newGame [], start⟩ ?_ squares).2
  rintro w done s ⟨hplay, hshown⟩
  refine ⟨hplay.tap s, ?_⟩
  cases hm : (w.tap s).2 with
  | none =>
    rw [Option.toList_none, List.append_nil, Shown, hplay.same_board hm]
    exact hshown
  | some m =>
    obtain ⟨p, he⟩ := hplay.executes hm
    exact hshown.move he

end shown

/-- What a view has become of the first one when the closures of `ran` were run. -/
structure Refreshed (first view : View) (ran : List Move) : Prop where
  created : view.Created
  quiet : (∀ m ∈ ran, m.kind = .goTo) → view = showMoves first ran
  captured : (∃ m ∈ ran, m.kind = .kill) → view.Detached

namespace Controller

private theorem refreshed_closure {first view : View} {ran : List Move}
    (h : Refreshed first view ran) {m : Move} {p q : Square} (hp : m.position = p.key)
    (hq : m.nextPosition = q.key) {w : Worker} (hw : w.HasRead) :
    Refreshed first (runClosure w view m.closure) (ran ++ [m]) := by
  cases hk : m.kind with
  | goTo =>
    have hclosure : runClosure w view m.closure = replaceButton view p.key q.key := by
      simp only [Move.closure, hk, runClosure, hp, hq]
    rw [hclosure]
    refine ⟨h.created.replaceButton _ _, fun hquiet => ?_, fun hcaptured => ?_⟩
    · rw [List.forall_mem_append] at hquiet
      rw [showMoves_snoc, ← h.quiet hquiet.1, hp, hq]
    · obtain ⟨n, hn, hkill⟩ := hcaptured
      rcases List.mem_append.mp hn with hn | hn
      · exact (h.captured ⟨n, hn, hkill⟩).replaceButton p q
      · rw [List.mem_singleton.mp hn, hk] at hkill
        cases hkill
  | kill =>
    have hclosure : runClosure w view m.closure = captureButton view w.row w.col w.row1 w.col1 := by
      simp only [Move.closure, hk, runClosure]
    obtain ⟨s, hs⟩ := hw.position
    rw [hclosure]
    refine ⟨h.created.captureButton _ _ _ _, fun hquiet => ?_,
      fun _ => h.created.detached_captureButton hs⟩
    rw [List.forall_mem_append, List.forall_mem_singleton, hk] at hquiet
    cases hquiet.2

private theorem step_queue (c : Controller) {e : Event} (he : e ≠ .main) :
    (c.step e).1.view = c.view ∧ (c.step e).1.mainQueue =
      c.mainQueue ++ ((c.step e).2.toList.filterMap Prod.snd).map Move.closure := by
  cases e with
  | tap s => simp
  | wait =>
    simp only [step, wait]
    split
    · split <;> simp
    · simp
  | readRow =>
    simp only [step, readRow]
    split <;> simp
  | readCol =>
    simp only [step, readCol]
    split
    · refine ⟨rfl, ?_⟩
      cases (c.worker.readCol c.number).resume.2 <;> rfl
    · simp
  | main => exact absurd rfl he

/-- The updates whose closures have run, and those whose closures are queued. -/
structure Pipelined (first : View) (c : Controller) (moves ran pending : List Move) : Prop where
  split : moves = ran ++ pending
  queue : c.mainQueue = pending.map Move.closure
  view : Refreshed first c.view ran

variable {c : Controller} {done : List Use} {squares : List Square}

theorem Follows.hasRead (h : c.Follows done squares) (hne : startNewGame.executed squares ≠ []) :
    c.worker.HasRead := by
  have hread := Worker.hasRead_of_executed hne
  by_cases hphase : c.phase = .rowRead
  · obtain ⟨s, hs⟩ := h.reading hphase
    rw [hs]
    exact hread.readRow s
  · rw [h.between hphase]
    exact hread

private theorem Pipelined.step {first : View} {ran pending : List Move} (hf : c.Follows done squares)
    (h : Pipelined first c (done.filterMap Prod.snd) ran pending) (e : Event) :
    ∃ ran pending, Pipelined first (c.step e).1
      ((done ++ (c.step e).2.toList).filterMap Prod.snd) ran pending := by
  by_cases he : e = .main
  · subst e
    rw [Controller.step, Option.toList_none, List.append_nil, main]
    cases pending with
    | nil =>
      rw [h.queue]
      exact ⟨ran, [], h⟩
    | cons m rest =>
      rw [h.queue, List.map_cons]
      have hmem : m ∈ startNewGame.executed squares := by
        rw [← hf.executed, h.split]
        exact List.mem_append_right _ List.mem_cons_self
      obtain ⟨_, p, q, _, _, hm⟩ := executed_newGame hmem
      refine ⟨ran ++ [m], rest, ?_, rfl, ?_⟩
      · rw [h.split, List.append_cons]
      · exact refreshed_closure h.view hm.position hm.nextPosition
          (hf.hasRead (List.ne_nil_of_mem hmem))
  · obtain ⟨hview, hqueue⟩ := c.step_queue he
    refine ⟨ran, pending ++ (c.step e).2.toList.filterMap Prod.snd, ?_, ?_, ?_⟩
    · rw [List.filterMap_append, h.split, List.append_assoc]
    · rw [hqueue, h.queue, List.map_append]
    · rw [hview]
      exact h.view

theorem pipelined_run {first : View} (hfirst : first.Created) (events : List Event) :
    ∃ squares, ((start first).run events).Follows ((start first).uses events) squares ∧
      ∃ ran pending, Pipelined first ((start first).run events) ((start first).moves events) ran pending := by
  refine Mealy.run_induction (fun c done => ∃ squares, Follows c done squares ∧
    ∃ ran pending, Pipelined first c (done.filterMap Prod.snd) ran pending) ?_ ?_ events
  · exact ⟨[], .start first, [], [], rfl, rfl, hfirst, fun _ => rfl, fun ⟨_, hm, _⟩ => by cases hm⟩
  · rintro c done e ⟨squares, hf, ran, pending, h⟩
    obtain ⟨rest, hrest⟩ := hf.step e
    exact ⟨squares ++ rest, hrest, h.step hf e⟩

theorem Follows.same_board (h : c.Follows done squares) :
    c.worker.verf = (startNewGame.run squares).verf := by
  by_cases hphase : c.phase = .rowRead
  · obtain ⟨s, hs⟩ := h.reading hphase
    rw [hs, Worker.readRow]
    split
    · split <;> rfl
    · rfl
  · rw [h.between hphase]

end Controller

private theorem goTo_of_targetEmpty {squares : List Square} {m : Move}
    (hm : m ∈ startNewGame.executed squares) (hempty : m.TargetEmpty) : m.kind = .goTo := by
  obtain ⟨ts, _, _, _, _, he⟩ := executed_newGame hm
  cases hk : m.kind with
  | goTo => rfl
  | kill => exact absurd hempty (he.kill_occupied (playing_newGame ts).whites hk)

private theorem refreshed_displays_iff {figureNumber : String} {first view : View}
    (hfirst : Arranged first Fin.val (picture figureNumber startNewGame.verf.boardA))
    {squares : List Square} (h : Refreshed first view (startNewGame.executed squares)) :
    view.Displays figureNumber (startNewGame.run squares).verf.boardA ↔
      ∀ m ∈ startNewGame.executed squares, m.TargetEmpty := by
  have hshown := shown_run hfirst squares
  constructor
  · intro hdisplays
    have hgoTo : ∀ m ∈ startNewGame.executed squares, m.kind = .goTo := by
      intro m hm
      cases hk : m.kind with
      | goTo => rfl
      | kill => exact absurd hdisplays ((h.captured ⟨m, hm, hk⟩).not_displays _ _)
    obtain ⟨ref, image, harranged, _, hghost⟩ := hshown hgoTo
    rw [h.quiet hgoTo, harranged.displays_iff] at hdisplays
    by_contra hnot
    obtain ⟨i, hi, himage⟩ := hghost hnot
    rw [hdisplays] at himage
    exact himage hi
  · intro hempty
    have hgoTo : ∀ m ∈ startNewGame.executed squares, m.kind = .goTo :=
      fun m hm => goTo_of_targetEmpty hm (hempty m hm)
    obtain ⟨ref, image, harranged, himage, _⟩ := hshown hgoTo
    rw [h.quiet hgoTo, harranged.displays_iff]
    exact himage hempty

theorem newGame_arranged (figureNumber : String) :
    ∃ first, Controller.newGame figureNumber = .ok (.start first) ∧ first.Created ∧
      Arranged first Fin.val (picture figureNumber startNewGame.verf.boardA) := by
  obtain ⟨first, hpaint, harranged, hcreated⟩ := paint_arranged figureNumber full_newGame
  refine ⟨first, ?_, hcreated, harranged⟩
  change (paint figureNumber GameData.new.initBoardA.boardA .new >>= _) = _
  rw [hpaint]
  rfl

private theorem displays_iff {figureNumber : String} {c : Controller}
    (hc : Controller.newGame figureNumber = .ok c) {events : List Event}
    (hqueue : (c.run events).mainQueue = []) :
    (c.run events).view.Displays figureNumber (c.run events).worker.verf.boardA ↔
      ∀ m ∈ c.moves events, m.TargetEmpty := by
  obtain ⟨first, hnew, hcreated, harranged⟩ := newGame_arranged figureNumber
  have hstart : c = .start first := Except.ok.inj (hc.symm.trans hnew)
  subst hstart
  obtain ⟨squares, hf, ran, pending, hp⟩ := Controller.pipelined_run hcreated events
  have hpending : pending = [] := List.map_eq_nil_iff.mp (hp.queue.symm.trans hqueue)
  have hmoves : (Controller.start first).moves events = startNewGame.executed squares := hf.executed
  have hran : ran = startNewGame.executed squares := by
    rw [← hmoves, hp.split, hpending, List.append_nil]
  rw [hmoves, hf.same_board]
  exact refreshed_displays_iff harranged (hran ▸ hp.view)

/-- In every run of a new game and whenever all queued closures have run, the
view displays the worker's board exactly when every executed update had an empty
target. -/
theorem displays_iff_targets_empty (figureNumber : String) :
    ∃ c, Controller.newGame figureNumber = .ok c ∧ ∀ events, (c.run events).mainQueue = [] →
      ((c.run events).view.Displays figureNumber (c.run events).worker.verf.boardA ↔
        ∀ m ∈ c.moves events, m.TargetEmpty) := by
  obtain ⟨first, hnew, _, _⟩ := newGame_arranged figureNumber
  exact ⟨.start first, hnew, fun events hqueue => displays_iff hnew hqueue⟩

/-- The events of a list of taps, each taken by the worker before the next and
followed by a turn of the main thread. -/
def tapEvents (squares : List Square) : List Event :=
  squares.flatMap (fun s => [.tap s, .wait, .readRow, .readCol, .main])

/-- Two pawns advance and one takes the other. The closures have run, the worker
waits for a tap, and the view does not display the board. -/
theorem newGame_capture_undisplayed :
    ∃ c, Controller.newGame "1" = .ok c ∧
      (c.moves (tapEvents [8, 24, 48, 32, 24, 32])).map (fun m => (m.kind, m.position, m.nextPosition)) =
        [(.goTo, 8, 24), (.goTo, 48, 32), (.kill, 24, 32)] ∧
      (c.run (tapEvents [8, 24, 48, 32, 24, 32])).mainQueue = [] ∧
      (c.run (tapEvents [8, 24, 48, 32, 24, 32])).worker.status = .waiting .source ∧
      ¬ (c.run (tapEvents [8, 24, 48, 32, 24, 32])).view.Displays "1"
        (c.run (tapEvents [8, 24, 48, 32, 24, 32])).worker.verf.boardA := by
  have hrun : (Controller.newGame "1").toOption.map (fun c =>
      ((c.moves (tapEvents [8, 24, 48, 32, 24, 32])).map (fun m => (m.kind, m.position, m.nextPosition)),
        (c.run (tapEvents [8, 24, 48, 32, 24, 32])).mainQueue,
        (c.run (tapEvents [8, 24, 48, 32, 24, 32])).worker.status,
        (c.moves (tapEvents [8, 24, 48, 32, 24, 32])).all (fun m => decide m.TargetEmpty))) =
      some ([(.goTo, 8, 24), (.goTo, 48, 32), (.kill, 24, 32)], [], .waiting .source, false) := by
    decide +kernel
  obtain ⟨first, hnew, _, _⟩ := newGame_arranged "1"
  rw [hnew] at hrun
  simp only [Except.toOption, Option.map_some, Option.some.injEq, Prod.mk.injEq] at hrun
  obtain ⟨hmoves, hqueue, hstatus, htargets⟩ := hrun
  refine ⟨_, hnew, hmoves, hqueue, hstatus, fun hdisplays => ?_⟩
  rw [displays_iff hnew hqueue] at hdisplays
  have hall := List.all_eq_true.mpr (fun m hm => decide_eq_true (hdisplays m hm))
  rw [htargets] at hall
  cases hall

theorem newGame_advance_displayed :
    ∃ c, Controller.newGame "1" = .ok c ∧ (c.run (tapEvents [8, 24])).view.Displays "1"
      (c.run (tapEvents [8, 24])).worker.verf.boardA := by
  obtain ⟨c, hnew, hiff⟩ := displays_iff_targets_empty "1"
  have hrun : (Controller.newGame "1").toOption.map (fun c =>
      ((c.run (tapEvents [8, 24])).mainQueue,
        (c.moves (tapEvents [8, 24])).all (fun m => decide m.TargetEmpty))) = some ([], true) := by
    decide +kernel
  rw [hnew] at hrun
  simp only [Except.toOption, Option.map_some, Option.some.injEq, Prod.mk.injEq] at hrun
  obtain ⟨hqueue, htargets⟩ := hrun
  rw [List.all_eq_true] at htargets
  exact ⟨c, hnew, (hiff _ hqueue).mpr (fun m hm => of_decide_eq_true (htargets m hm))⟩

end MyIVR
