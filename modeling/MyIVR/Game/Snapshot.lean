import MyIVR.Game.Conservation
import MyIVR.Game.Statements

/-! What a press of Save finds between two statements of the turn loop. `coppy`
is the live board, so a save taken while a capture is being tested, or from the
first assignment of an update until the counter follows, mixes two moves. -/
namespace MyIVR
open Swift Full

def kindsAfter (first : Kinds) (done : List Update) : Kinds :=
  done.foldl (fun b u => b.move u.position u.nextPosition) first

def newGameKinds : Kinds := kindAt GameData.new.initBoardA.boardA

theorem kindsAfter_snoc (first : Kinds) (done : List Update) (u : Update) :
    kindsAfter first (done ++ [u]) = (kindsAfter first done).move u.position u.nextPosition := by
  rw [kindsAfter, List.foldl_append]
  rfl

namespace TwoPlayerGame

/-- The saved board, of whose pieces a save keeps types and colours, is the board after
exactly the saved number of executed updates. -/
def Consistent (t : TwoPlayerGame) (done : List Update) : Prop :=
  ∃ n : Nat, t.saveGame.1 = n ∧ n ≤ done.length ∧ kindAt t.saveGame.2 = kindsAfter newGameKinds (done.take n)

/-- The worker is testing a capture of something else than an empty white square,
is between the two assignments of an update to another square, or has yet to count
the update it has made. -/
def Unsettled (t : TwoPlayerGame) : Prop :=
  match t.point with
  | .askEmptied _ a | .restore _ a _ => a.map Piece.kind ≠ some (.empty, .white)
  | .clear _ => t.position ≠ t.nextPosition
  | .display _ | .scan _ | .count => True
  | _ => False

/-- The board is the one after all executed updates, and the counter shows their number. -/
structure Settled (g : GameData) (moves : Int) (done : List Update) : Prop where
  full : Full g.boardA
  kinds : kindAt g.boardA = kindsAfter newGameKinds done
  counted : moves = done.length

def Chosen (t : TwoPlayerGame) (p : Square) : Prop :=
  t.position = p.key ∧ emptyAt t.game.boardA p.key = false

def Asks (t : TwoPlayerGame) (g : GameData) (done : List Update) (p q : Square) : Prop :=
  Settled g t.moves done ∧ t.position = p.key ∧ t.nextPosition = q.key ∧ emptyAt g.boardA p.key = false

/-- Behind the loop, one of the tests has accepted the pair. -/
def Passed (g : GameData) (asker : Asker) (p q : Square) : Prop :=
  asker = .update → ∃ kind, Accepts g p.key q.key kind

/-- What holds before each statement. -/
inductive Stands (t : TwoPlayerGame) (done : List Update) : Prop where
  | between (at_ : t.point = .head ∨ t.point = .copy ∨ t.point = .swapColor)
      (settled : Settled t.game t.moves done)
  | waiting (site : Site) (at_ : t.point = .wait site ∨ t.point = .readRow site)
      (settled : Settled t.game t.moves done) (chosen : site.isSource = false → ∃ p, t.Chosen p)
  | rowRead (site : Site) (at_ : t.point = .readCol site) (settled : Settled t.game t.moves done)
      (s : Square) (row : (if site.isSource then t.row else t.row1) = MyIVR.row s.key)
      (chosen : site.isSource = false → ∃ p, t.Chosen p)
  | selecting (at_ : t.point = .sourceTest) (settled : Settled t.game t.moves done)
      (s : Square) (source : t.position = s.key)
  | asking (asker : Asker) (p q : Square) (at_ : t.point = .askMove asker)
      (asks : t.Asks t.game done p q) (passed : Passed t.game asker p q)
  | comparing (asker : Asker) (p q : Square) (at_ : t.point = .compare asker)
      (asks : t.Asks t.game done p q) (passed : Passed t.game asker p q)
      (refused : canGoTo t.game.boardA p.key q.key = .ok false)
  | keeping (asker : Asker) (p q : Square)
      (at_ : t.point = .keep asker ∨ t.point = .vacate asker (t.game.boardA q.key))
      (asks : t.Asks t.game done p q) (passed : Passed t.game asker p q)
      (refused : canGoTo t.game.boardA p.key q.key = .ok false)
      (differ : colorAt t.game.boardA q.key ≠ colorAt t.game.boardA p.key)
  | emptied (asker : Asker) (p q : Square) (g : GameData)
      (at_ : t.point = .askEmptied asker (g.boardA q.key) ∨ ∃ answer,
        t.point = .restore asker (g.boardA q.key) answer ∧ kills g p.key q.key = .ok answer)
      (asks : t.Asks g done p q) (passed : Passed g asker p q)
      (refused : canGoTo g.boardA p.key q.key = .ok false)
      (differ : colorAt g.boardA q.key ≠ colorAt g.boardA p.key)
      (board : t.game.boardA = g.emptied q.key)
  | assigning (kind : MoveKind) (p q : Square) (at_ : t.point = .assign kind)
      (asks : t.Asks t.game done p q) (accepts : Accepts t.game p.key q.key kind)
  | clearing (kind : MoveKind) (p q : Square) (g : GameData) (at_ : t.point = .clear kind)
      (asks : t.Asks g done p q) (accepts : Accepts g p.key q.key kind)
      (board : t.game.boardA = g.boardA.assign q.key (g.boardA p.key))
  | counting (p q : Square) (past : List Update) (kind : MoveKind)
      (at_ : t.point = .display kind ∨ (∃ i ≤ 63, t.point = .scan i) ∨ t.point = .count)
      (full : Full t.game.boardA) (kinds : kindAt t.game.boardA = kindsAfter newGameKinds done)
      (counted : t.moves = past.length) (split : done = past ++ [⟨kind, p.key, q.key⟩])
      (target : t.nextPosition = q.key)
      (left : kindsAfter newGameKinds past p.key ≠ some (.empty, .white))
  | trapped (fault : Fault) (at_ : t.point = .stopped (.faulted fault))

/-- The invariant between any two steps. -/
structure Tracked (t : TwoPlayerGame) (done : List Update) : Prop where
  shared : t.coppy = t.verf
  winner : t.winner = true
  number : ∃ s : Square, t.number = s.key
  stands : Stands t done

variable {t : TwoPlayerGame} {done : List Update}

private theorem tracked_start : Tracked startNewGame [] where
  shared := rfl
  winner := rfl
  number := ⟨0, rfl⟩
  stands := .between (.inl rfl) ⟨full_newGame, rfl, rfl⟩

@[simp] theorem game_write (t : TwoPlayerGame) (g : GameData) : (t.write g).game = g := by
  simp [game, write]

@[simp] theorem game_goto (t : TwoPlayerGame) (point : Point) : (t.goto point).game = t.game := rfl

/-- The row and the column of a pair of reads may come from two presses. -/
private theorem torn_square (s s' : Square) :
    ∃ q : Square, MyIVR.row s.key * 8 + MyIVR.col s'.key = q.key := by
  have hrow := s.row_range
  have hcol := s'.col_range
  obtain ⟨q, hq⟩ := exists_square
    (show 0 ≤ MyIVR.row s.key * 8 + MyIVR.col s'.key ∧ _ ≤ 63 by omega)
  exact ⟨q, hq.symm⟩

private theorem stands_answered {p q : Square} {asker : Asker} {kind : MoveKind} {answer : Bool}
    (asks : t.Asks t.game done p q) (passed : Passed t.game asker p q)
    (accepts : answer = true → Accepts t.game p.key q.key kind)
    (refused : answer = false → canGoTo t.game.boardA p.key q.key = .ok false)
    (rejects : answer = false → kind = .kill → kills t.game p.key q.key = .ok false) :
    Stands (t.answered asker kind answer) done := by
  cases answer with
  | true =>
    cases asker with
    | loop => exact .asking .update p q rfl asks (fun _ => ⟨kind, accepts rfl⟩)
    | update => exact .assigning kind p q rfl asks (accepts rfl)
  | false =>
    cases kind with
    | goTo =>
      cases asker with
      | loop => exact .comparing .loop p q rfl asks passed (refused rfl)
      | update => exact .comparing .update p q rfl asks passed (refused rfl)
    | kill =>
      cases asker with
      | loop => exact .waiting .targetAgain (.inl rfl) asks.1 (fun _ => ⟨p, asks.2.1, asks.2.2.2⟩)
      | update =>
        obtain ⟨_ | _, haccepts⟩ := passed rfl
        · cases (refused rfl).symm.trans haccepts
        · cases (rejects rfl rfl).symm.trans haccepts.2

private theorem quiet (h : Tracked t done) {u : TwoPlayerGame} (shared : u.coppy = u.verf)
    (winner : u.winner = t.winner) (number : u.number = t.number) (stands : Stands u done) :
    Tracked u (done ++ (none : Option Update).toList) := by
  rw [Option.toList_none, List.append_nil]
  exact ⟨shared, winner.trans h.winner, number ▸ h.number, stands⟩

/-- A press changes nothing that the statements between two waits read. -/
private theorem tracked_press (h : Tracked t done) (s : Square) :
    Tracked (t.step (.press s)).1 (done ++ (t.step (.press s)).2.toList) := by
  refine ⟨h.shared, h.winner, ⟨s, rfl⟩, ?_⟩
  change Stands _ (done ++ [])
  rw [List.append_nil]
  cases h.stands with
  | between at_ settled => exact .between at_ settled
  | waiting site at_ settled chosen => exact .waiting site at_ settled chosen
  | rowRead site at_ settled s' row chosen => exact .rowRead site at_ settled s' row chosen
  | selecting at_ settled s' source => exact .selecting at_ settled s' source
  | asking asker p q at_ asks passed => exact .asking asker p q at_ asks passed
  | comparing asker p q at_ asks passed refused => exact .comparing asker p q at_ asks passed refused
  | keeping asker p q at_ asks passed refused differ =>
    exact .keeping asker p q at_ asks passed refused differ
  | emptied asker p q g at_ asks passed refused differ board =>
    exact .emptied asker p q g at_ asks passed refused differ board
  | assigning kind p q at_ asks accepts => exact .assigning kind p q at_ asks accepts
  | clearing kind p q g at_ asks accepts board => exact .clearing kind p q g at_ asks accepts board
  | counting p q past kind at_ full kinds counted split target left =>
    exact .counting p q past kind at_ full kinds counted split target left
  | trapped fault at_ => exact .trapped fault at_

private theorem work_between (h : Tracked t done)
    (at_ : t.point = .head ∨ t.point = .copy ∨ t.point = .swapColor)
    (settled : Settled t.game t.moves done) :
    Tracked t.execute.1 (done ++ t.execute.2.toList) := by
  rcases at_ with hat | hat | hat
  · simp only [execute, hat, h.winner, if_true]
    exact quiet h h.shared rfl rfl (.between (.inr (.inl rfl)) settled)
  · simp only [execute, hat]
    exact quiet h rfl rfl rfl (.waiting .source (.inl rfl) settled (fun hs => by cases hs))
  · simp only [execute, hat]
    exact quiet h h.shared rfl rfl (.between (.inl rfl) settled)

private theorem work_waiting (h : Tracked t done) (site : Site)
    (at_ : t.point = .wait site ∨ t.point = .readRow site) (settled : Settled t.game t.moves done)
    (chosen : site.isSource = false → ∃ p, t.Chosen p) :
    Tracked t.execute.1 (done ++ t.execute.2.toList) := by
  rcases at_ with hat | hat
  · simp only [execute, hat]
    split
    · exact quiet h h.shared rfl rfl (.waiting site (.inr rfl) settled chosen)
    · exact quiet h h.shared rfl rfl (.waiting site (.inl hat) settled chosen)
  · obtain ⟨s, hs⟩ := h.number
    simp only [execute, hat]
    split
    · rename_i hsite
      exact quiet h h.shared rfl rfl (.rowRead site rfl settled s (by simp [hsite, hs])
        (fun hs => by simp [hsite] at hs))
    · rename_i hsite
      exact quiet h h.shared rfl rfl (.rowRead site rfl settled s (by simp [hsite, hs]) chosen)

private theorem work_rowRead (h : Tracked t done) (site : Site) (hat : t.point = .readCol site)
    (settled : Settled t.game t.moves done) (s : Square)
    (row : (if site.isSource then t.row else t.row1) = MyIVR.row s.key)
    (chosen : site.isSource = false → ∃ p, t.Chosen p) :
    Tracked t.execute.1 (done ++ t.execute.2.toList) := by
  obtain ⟨s', hs'⟩ := h.number
  obtain ⟨q, hq⟩ := torn_square s s'
  simp only [execute, hat, hs']
  split
  · rename_i hsite
    rw [if_pos hsite] at row
    exact quiet h h.shared rfl hs'.symm (.selecting rfl settled q (by rw [← hq, ← row]; rfl))
  · rename_i hsite
    rw [if_neg hsite] at row
    obtain ⟨p, source, occupied⟩ := chosen (by simpa using hsite)
    exact quiet h h.shared rfl hs'.symm (.asking .loop p q rfl
      ⟨settled, source, by rw [← hq, ← row]; rfl, occupied⟩ (fun ha => by cases ha))

private theorem work_selecting (h : Tracked t done) (hat : t.point = .sourceTest)
    (settled : Settled t.game t.moves done) (s : Square) (source : t.position = s.key) :
    Tracked t.execute.1 (done ++ t.execute.2.toList) := by
  simp only [execute, hat]
  refine quiet h h.shared rfl rfl ?_
  split
  · exact .waiting .sourceAgain (.inl rfl) settled (fun hs => by cases hs)
  · rename_i hreject
    refine .waiting .target (.inl rfl) settled (fun _ => ⟨s, source, ?_⟩)
    obtain ⟨x, hx⟩ := settled.full.at_square s
    have hposition : (t.worker .source).position = s.key := source
    have hx' : (t.worker .source).verf.boardA s.key = some x := hx
    rw [Worker.rejectsSource, hposition, hx'] at hreject
    change emptyAt t.game.boardA s.key = false
    rw [emptyAt_some hx]
    simp only [Option.map_some, Bool.or_eq_true, not_or] at hreject
    simpa using hreject.1

private theorem work_asking (h : Tracked t done) (asker : Asker) (p q : Square)
    (hat : t.point = .askMove asker) (asks : t.Asks t.game done p q) (passed : Passed t.game asker p q) :
    Tracked t.execute.1 (done ++ t.execute.2.toList) := by
  have ⟨_, source, target, _⟩ := asks
  simp only [execute, hat, source, target]
  cases hgo : canGoTo t.game.boardA p.key q.key with
  | error fault => exact quiet h h.shared rfl rfl (.trapped fault rfl)
  | ok answer =>
    have stands : Stands (t.answered asker .goTo answer) done :=
      stands_answered asks passed (fun ha => by rwa [ha] at hgo) (fun ha => by rwa [ha] at hgo)
        (fun _ hk => by cases hk)
    cases asker <;> cases answer <;> exact quiet h h.shared rfl rfl stands

theorem colorsDiffer_eq {b : Board} (h : Full b) (p q : Square) :
    colorsDiffer b p.key q.key = .ok (decide (colorAt b q.key ≠ colorAt b p.key)) := by
  obtain ⟨x, hx⟩ := h.at_square p
  obtain ⟨y, hy⟩ := h.at_square q
  simp [colorsDiffer, hx, hy, colorAt_some hx, colorAt_some hy, bne, pure_eq_ok, beq_eq_decide]

private theorem work_comparing (h : Tracked t done) (asker : Asker) (p q : Square)
    (hat : t.point = .compare asker) (asks : t.Asks t.game done p q) (passed : Passed t.game asker p q)
    (refused : canGoTo t.game.boardA p.key q.key = .ok false) :
    Tracked t.execute.1 (done ++ t.execute.2.toList) := by
  have ⟨settled, source, target, _⟩ := asks
  simp only [execute, hat, source, target, colorsDiffer_eq settled.full, decide_eq_true_eq]
  split
  · rename_i hdiffer
    exact quiet h h.shared rfl rfl (.keeping asker p q (.inl rfl) asks passed refused hdiffer)
  · rename_i hsame
    have hkills : kills t.game p.key q.key = .ok false := by rw [settled.full.kills_eq, if_neg hsame]
    have stands : Stands (t.answered asker .kill false) done :=
      stands_answered asks passed (fun ha => by cases ha) (fun _ => refused) (fun _ _ => hkills)
    cases asker <;> exact quiet h h.shared rfl rfl stands

private theorem work_keeping (h : Tracked t done) (asker : Asker) (p q : Square)
    (at_ : t.point = .keep asker ∨ t.point = .vacate asker (t.game.boardA q.key))
    (asks : t.Asks t.game done p q) (passed : Passed t.game asker p q)
    (refused : canGoTo t.game.boardA p.key q.key = .ok false)
    (differ : colorAt t.game.boardA q.key ≠ colorAt t.game.boardA p.key) :
    Tracked t.execute.1 (done ++ t.execute.2.toList) := by
  have ⟨_, _, target, _⟩ := asks
  rcases at_ with hat | hat
  · simp only [execute, hat, target]
    exact quiet h h.shared rfl rfl (.keeping asker p q (.inr rfl) asks passed refused differ)
  · simp only [execute, hat, target]
    exact quiet h h.shared rfl rfl
      (.emptied asker p q t.game (.inl rfl) asks passed refused differ (by simp [GameData.emptied, GameData.place]))

private theorem stands_restored {u : TwoPlayerGame} {g : GameData} {p q : Square} {asker : Asker}
    {answer : Bool} (asks : u.Asks g done p q) (passed : Passed g asker p q)
    (refused : canGoTo g.boardA p.key q.key = .ok false) (hkills : kills g p.key q.key = .ok answer)
    (same : u.game.boardA = g.boardA) : Stands (u.answered asker .kill answer) done := by
  obtain ⟨settled, source, target, occupied⟩ := asks
  have refused' : canGoTo u.game.boardA p.key q.key = .ok false := same ▸ refused
  have hkills' : kills u.game p.key q.key = .ok answer := by rw [settled.full.kills_congr same, hkills]
  have settled' : Settled u.game u.moves done :=
    ⟨same ▸ settled.full, same ▸ settled.kinds, settled.counted⟩
  refine stands_answered ⟨settled', source, target, same ▸ occupied⟩ ?_ ?_ (fun _ => refused') ?_
  · exact fun ha => (passed ha).imp (fun _ hk => (settled.full.accepts_congr same).mpr hk)
  · exact fun ha => ⟨refused', ha ▸ hkills'⟩
  · exact fun ha _ => ha ▸ hkills'

private theorem work_emptied (h : Tracked t done) (asker : Asker) (p q : Square) (g : GameData)
    (at_ : t.point = .askEmptied asker (g.boardA q.key) ∨ ∃ answer,
      t.point = .restore asker (g.boardA q.key) answer ∧ kills g p.key q.key = .ok answer)
    (asks : t.Asks g done p q) (passed : Passed g asker p q)
    (refused : canGoTo g.boardA p.key q.key = .ok false)
    (differ : colorAt g.boardA q.key ≠ colorAt g.boardA p.key) (board : t.game.boardA = g.emptied q.key) :
    Tracked t.execute.1 (done ++ t.execute.2.toList) := by
  have ⟨settled, source, target, occupied⟩ := asks
  rcases at_ with hat | ⟨answer, hat, hkills⟩
  · have hkills : kills g p.key q.key = canGoTo t.game.boardA p.key q.key := by
      rw [settled.full.kills_eq, if_pos differ, board]
    simp only [execute, hat, source, target]
    cases hgo : canGoTo t.game.boardA p.key q.key with
    | error fault => exact quiet h h.shared rfl rfl (.trapped fault rfl)
    | ok answer =>
      exact quiet h h.shared rfl rfl
        (.emptied asker p q g (.inr ⟨answer, rfl, hkills.trans hgo⟩) asks passed refused differ board)
  · have stands : Stands ((t.write { t.game with
        boardA := t.game.boardA.assign q.key (g.boardA q.key) }).answered asker .kill answer) done := by
      refine stands_restored asks passed refused hkills ?_
      rw [game_write, board]
      simp only [GameData.emptied, Board.assign_assign, Board.assign_self]
    simp only [execute, hat, target]
    cases asker <;> cases answer <;> exact quiet h h.shared rfl rfl stands

private theorem work_assigning (h : Tracked t done) (kind : MoveKind) (p q : Square)
    (hat : t.point = .assign kind) (asks : t.Asks t.game done p q)
    (accepts : Accepts t.game p.key q.key kind) :
    Tracked t.execute.1 (done ++ t.execute.2.toList) := by
  have ⟨_, source, target, _⟩ := asks
  simp only [execute, hat, source, target]
  exact quiet h h.shared rfl rfl (.clearing kind p q t.game rfl asks accepts (by simp))

private theorem work_clearing (h : Tracked t done) (kind : MoveKind) (p q : Square) (g : GameData)
    (hat : t.point = .clear kind) (asks : t.Asks g done p q)
    (board : t.game.boardA = g.boardA.assign q.key (g.boardA p.key)) :
    Tracked t.execute.1 (done ++ t.execute.2.toList) := by
  obtain ⟨settled, source, target, occupied⟩ := asks
  have moved : (t.game.place p.key .empty .white).boardA =
      (GameData.goTo ⟨g.boardA, t.game.fresh⟩ p.key q.key).boardA := by
    rw [GameData.goTo_boardA, GameData.place_boardA, board]
  simp only [execute, hat, source, target]
  refine ⟨h.shared, h.winner, h.number, .counting p q done kind (.inl rfl) ?_ ?_ settled.counted rfl target ?_⟩
  · rw [game_goto, game_write, moved]
    exact GameData.full_goTo (g := ⟨g.boardA, t.game.fresh⟩) settled.full p.key_range q.key_range
  · rw [game_goto, game_write, moved, kindAt_goTo, Option.toList_some, kindsAfter_snoc, ← settled.kinds]
  · obtain ⟨x, hx⟩ := settled.full.at_square p
    rw [emptyAt_some hx, beq_eq_false_iff_ne] at occupied
    rw [← settled.kinds, kindAt, hx]
    simp [occupied]

private theorem work_counting (h : Tracked t done) (p q : Square) (past : List Update) (kind : MoveKind)
    (at_ : t.point = .display kind ∨ (∃ i ≤ 63, t.point = .scan i) ∨ t.point = .count)
    (full : Full t.game.boardA) (kinds : kindAt t.game.boardA = kindsAfter newGameKinds done)
    (counted : t.moves = past.length) (split : done = past ++ [⟨kind, p.key, q.key⟩])
    (target : t.nextPosition = q.key)
    (left : kindsAfter newGameKinds past p.key ≠ some (.empty, .white)) :
    Tracked t.execute.1 (done ++ t.execute.2.toList) := by
  rcases at_ with hat | ⟨i, hi, hat⟩ | hat
  · simp only [execute, hat]
    exact quiet h h.shared rfl rfl
      (.counting p q past kind (.inr (.inl ⟨0, by omega, rfl⟩)) full kinds counted split target left)
  · have hround : kingRound t.game q.key t.winner i = .ok t.winner :=
      full.kingRound_eq q t.winner (mem_upTo.mpr (by omega))
    simp only [execute, hat, target, hround]
    split
    · exact quiet h h.shared rfl rfl
        (.counting p q past kind (.inr (.inr rfl)) full kinds counted split target left)
    · exact quiet h h.shared rfl rfl
        (.counting p q past kind (.inr (.inl ⟨i + 1, by omega, rfl⟩)) full kinds counted split target left)
  · simp only [execute, hat]
    refine quiet h h.shared rfl rfl (.between (.inr (.inr rfl)) ⟨full, kinds, ?_⟩)
    rw [split, List.length_append, counted]
    rfl

private theorem tracked_work (h : Tracked t done) :
    Tracked (t.step .work).1 (done ++ (t.step .work).2.toList) := by
  change Tracked t.execute.1 (done ++ t.execute.2.toList)
  cases h.stands with
  | between at_ settled => exact work_between h at_ settled
  | waiting site at_ settled chosen => exact work_waiting h site at_ settled chosen
  | rowRead site at_ settled s row chosen => exact work_rowRead h site at_ settled s row chosen
  | selecting at_ settled s source => exact work_selecting h at_ settled s source
  | asking asker p q at_ asks passed => exact work_asking h asker p q at_ asks passed
  | comparing asker p q at_ asks passed refused => exact work_comparing h asker p q at_ asks passed refused
  | keeping asker p q at_ asks passed refused differ =>
    exact work_keeping h asker p q at_ asks passed refused differ
  | emptied asker p q g at_ asks passed refused differ board =>
    exact work_emptied h asker p q g at_ asks passed refused differ board
  | assigning kind p q at_ asks accepts => exact work_assigning h kind p q at_ asks accepts
  | clearing kind p q g at_ asks accepts board => exact work_clearing h kind p q g at_ asks board
  | counting p q past kind at_ full kinds counted split target left =>
    exact work_counting h p q past kind at_ full kinds counted split target left
  | trapped fault at_ =>
    simp only [execute, at_]
    exact quiet h h.shared rfl rfl (.trapped fault at_)

theorem tracked_run (signals : List Signal) :
    Tracked (startNewGame.run signals) (startNewGame.executed signals) :=
  Mealy.run_induction Tracked tracked_start
    (fun _ _ s h => match s with
      | .press s => tracked_press h s
      | .work => tracked_work h) signals

private theorem consistent_of_split (h : Tracked t done) {past rest : List Update}
    (counted : t.moves = past.length) (split : done = past ++ rest) :
    t.Consistent done ↔ kindAt t.game.boardA = kindsAfter newGameKinds past := by
  have saved : t.saveGame = (t.moves, t.game.boardA) := by rw [saveGame, h.shared, game]
  rw [Consistent, saved, split]
  constructor
  · rintro ⟨n, hn, _, hkinds⟩
    have hlength : n = past.length := by
      dsimp only at hn
      omega
    rwa [hlength, List.take_left] at hkinds
  · intro hkinds
    exact ⟨past.length, counted, by simp, by rw [List.take_left]; exact hkinds⟩

private theorem consistent_settled (h : Tracked t done) (settled : Settled t.game t.moves done)
    (calm : ¬ t.Unsettled) : t.Consistent done ↔ ¬ t.Unsettled := by
  rw [consistent_of_split h settled.counted (List.append_nil done).symm]
  exact ⟨fun _ => calm, fun _ => settled.kinds⟩

private theorem kindAt_assign_iff (b : Board) (k : Int) (x : Option Piece) :
    kindAt (b.assign k x) = kindAt b ↔ x.map Piece.kind = kindAt b k := by
  constructor
  · intro heq
    rw [← congrFun heq k, kindAt, Board.assign_same]
    rfl
  · intro heq
    funext i
    by_cases hi : i = k
    · rw [hi, ← heq, kindAt, Board.assign_same]
      rfl
    · rw [kindAt, kindAt, Board.assign_ne b hi]

private theorem consistent_emptied (h : Tracked t done) (asker : Asker) (p q : Square) (g : GameData)
    (at_ : t.point = .askEmptied asker (g.boardA q.key) ∨ ∃ answer,
      t.point = .restore asker (g.boardA q.key) answer ∧ kills g p.key q.key = .ok answer)
    (settled : Settled g t.moves done) (board : t.game.boardA = g.emptied q.key) :
    t.Consistent done ↔ ¬ t.Unsettled := by
  have hunsettled : t.Unsettled ↔ (g.boardA q.key).map Piece.kind ≠ some (.empty, .white) := by
    rcases at_ with hat | ⟨answer, hat, _⟩ <;> simp only [Unsettled, hat]
  rw [consistent_of_split h settled.counted (List.append_nil done).symm, board, ← settled.kinds,
    GameData.emptied, kindAt_assign_iff, hunsettled, not_not]
  exact eq_comm

private theorem accepted_kind {g : GameData} (hfull : Full g.boardA) {kind : MoveKind} {p q : Square}
    (accepts : Accepts g p.key q.key kind) (occupied : emptyAt g.boardA p.key = false) :
    kindAt g.boardA p.key = kindAt g.boardA q.key ↔ p.key = q.key := by
  refine ⟨fun heq => ?_, fun heq => by rw [heq]⟩
  obtain ⟨x, hx⟩ := hfull.at_square p
  obtain ⟨y, hy⟩ := hfull.at_square q
  rw [kindAt, kindAt, hx, hy, Option.map_some, Option.map_some, Option.some.injEq, Prod.mk.injEq] at heq
  rw [emptyAt_some hx, heq.1, ← emptyAt_some hy] at occupied
  have hcolor : ¬ colorAt g.boardA q.key ≠ colorAt g.boardA p.key := by
    rw [colorAt_some hx, colorAt_some hy, heq.2, not_not]
  cases kind with
  | goTo =>
    obtain ⟨_, rfl | hempty | hdiffer, _⟩ := hfull.canGoTo_true accepts
    · rfl
    · cases occupied.symm.trans hempty
    · exact absurd hdiffer hcolor
  | kill =>
    have hkills := accepts.2
    rw [hfull.kills_eq, if_neg hcolor] at hkills
    cases hkills

private theorem consistent_clearing (h : Tracked t done) (kind : MoveKind) (p q : Square) (g : GameData)
    (hat : t.point = .clear kind) (asks : t.Asks g done p q) (accepts : Accepts g p.key q.key kind)
    (board : t.game.boardA = g.boardA.assign q.key (g.boardA p.key)) :
    t.Consistent done ↔ ¬ t.Unsettled := by
  obtain ⟨settled, source, target, occupied⟩ := asks
  have hunsettled : t.Unsettled ↔ p.key ≠ q.key := by simp only [Unsettled, hat, source, target]
  rw [consistent_of_split h settled.counted (List.append_nil done).symm, board, ← settled.kinds,
    kindAt_assign_iff, hunsettled, not_not, ← accepted_kind settled.full accepts occupied]
  rfl

private theorem consistent_counting (h : Tracked t done) (p q : Square) (past : List Update)
    (kind : MoveKind)
    (at_ : t.point = .display kind ∨ (∃ i ≤ 63, t.point = .scan i) ∨ t.point = .count)
    (kinds : kindAt t.game.boardA = kindsAfter newGameKinds done) (counted : t.moves = past.length)
    (split : done = past ++ [⟨kind, p.key, q.key⟩])
    (left : kindsAfter newGameKinds past p.key ≠ some (.empty, .white)) :
    t.Consistent done ↔ ¬ t.Unsettled := by
  have hunsettled : t.Unsettled := by
    rcases at_ with hat | ⟨i, _, hat⟩ | hat <;> simp only [Unsettled, hat]
  rw [consistent_of_split h counted split, kinds, split, kindsAfter_snoc]
  refine ⟨fun heq => absurd ?_ left, fun hcalm => absurd hunsettled hcalm⟩
  rw [← heq, Kinds.move, if_pos rfl]

private theorem Tracked.consistent_iff (h : Tracked t done)
    (alive : ∀ fault, t.point ≠ .stopped (.faulted fault)) : t.Consistent done ↔ ¬ t.Unsettled := by
  cases h.stands with
  | between at_ settled =>
    exact consistent_settled h settled (by rcases at_ with hat | hat | hat <;> simp [Unsettled, hat])
  | waiting site at_ settled chosen =>
    exact consistent_settled h settled (by rcases at_ with hat | hat <;> simp [Unsettled, hat])
  | rowRead site at_ settled s row chosen =>
    exact consistent_settled h settled (by simp [Unsettled, at_])
  | selecting at_ settled s source => exact consistent_settled h settled (by simp [Unsettled, at_])
  | asking asker p q at_ asks passed => exact consistent_settled h asks.1 (by simp [Unsettled, at_])
  | comparing asker p q at_ asks passed refused =>
    exact consistent_settled h asks.1 (by simp [Unsettled, at_])
  | keeping asker p q at_ asks passed refused differ =>
    exact consistent_settled h asks.1 (by rcases at_ with hat | hat <;> simp [Unsettled, hat])
  | emptied asker p q g at_ asks passed refused differ board =>
    exact consistent_emptied h asker p q g at_ asks.1 board
  | assigning kind p q at_ asks accepts => exact consistent_settled h asks.1 (by simp [Unsettled, at_])
  | clearing kind p q g at_ asks accepts board =>
    exact consistent_clearing h kind p q g at_ asks accepts board
  | counting p q past kind at_ full kinds counted split target left =>
    exact consistent_counting h p q past kind at_ kinds counted split left
  | trapped fault at_ => exact absurd at_ (alive fault)

/-- In every run that has not trapped, a press of Save stores the board after the saved
number of executed updates, except at the statements where the game is unsettled. -/
theorem save_consistent_iff (signals : List Signal)
    (alive : ∀ fault, (startNewGame.run signals).point ≠ .stopped (.faulted fault)) :
    (startNewGame.run signals).Consistent (startNewGame.executed signals) ↔
      ¬ (startNewGame.run signals).Unsettled :=
  (tracked_run signals).consistent_iff alive

/-- Two taps, and the worker up to the first assignment of a quiet move between them. -/
def halfMove (p q : Square) : List Signal :=
  [.work, .work, .press p] ++ List.replicate 4 .work ++ [.press q] ++ List.replicate 6 .work

/-- In the middle of a pawn's move from 8 to 24 the pawn stands on both squares, and
the counter is still 0. -/
theorem moving_pawn_saved_twice :
    (startNewGame.run (halfMove 8 24)).point = .clear .goTo ∧ (startNewGame.run (halfMove 8 24)).saveGame.1 = 0 ∧
      kindAt (startNewGame.run (halfMove 8 24)).saveGame.2 8 = some (.pawn, .white) ∧
      kindAt (startNewGame.run (halfMove 8 24)).saveGame.2 24 = some (.pawn, .white) ∧
      ¬ (startNewGame.run (halfMove 8 24)).Consistent (startNewGame.executed (halfMove 8 24)) := by
  have hmoves : (startNewGame.run (halfMove 8 24)).saveGame.1 = 0 := by decide +kernel
  have hpawn : kindAt (startNewGame.run (halfMove 8 24)).saveGame.2 24 = some (.pawn, .white) := by decide +kernel
  refine ⟨by decide +kernel, hmoves, by decide +kernel, hpawn, ?_⟩
  rintro ⟨n, hn, _, hkinds⟩
  rw [hmoves] at hn
  obtain rfl : n = 0 := by omega
  rw [hkinds] at hpawn
  exact absurd hpawn (by decide +kernel)

/-- When the worker waits again after the move, a save is consistent. -/
theorem moved_pawn_saved_once :
    (startNewGame.run (halfMove 8 24 ++ List.replicate 70 .work)).Consistent
      (startNewGame.executed (halfMove 8 24 ++ List.replicate 70 .work)) := by
  have hpoint : (startNewGame.run (halfMove 8 24 ++ List.replicate 70 .work)).point = .wait .source := by
    decide +kernel
  refine (save_consistent_iff _ (fun fault hfault => ?_)).mpr (by simp only [Unsettled, hpoint, not_false_eq_true])
  cases hpoint.symm.trans hfault

end TwoPlayerGame
end MyIVR
