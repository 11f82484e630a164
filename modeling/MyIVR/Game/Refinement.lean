import MyIVR.Game.Snapshot

/-! The loop cut at its statements against the loop cut at its waits. Of the statements
between two waits one is the tap of the worker, and the others are stutters. -/
namespace MyIVR
open Swift Full

def Move.update (m : Move) : Update := ⟨m.kind, m.position, m.nextPosition⟩

namespace TwoPlayerGame

/-- The worker that has consumed the taps answered so far, at each statement. -/
def Phase (t : TwoPlayerGame) (w : Worker) : Prop :=
  match t.point with
  | .wait site | .readRow site | .readCol site =>
    w.status = .waiting site ∧ t.color = w.color ∧ (site.isSource = false → w.position = t.position)
  | .sourceTest => w.AtSource ∧ t.color = w.color
  | .display _ | .scan _ | .count | .swapColor => w.status = .waiting .source ∧ |t.color - 1| = w.color
  | .head | .copy => w.status = .waiting .source ∧ t.color = w.color
  | .stopped _ => ∃ fault, w.status = .faulted fault
  | _ => w.AtTarget ∧ t.color = w.color ∧ w.position = t.position

/-- What is known of a worker that has executed the same updates. -/
structure Behind (w : Worker) (done : List Update) : Prop where
  full : Full w.verf.boardA
  kinds : kindAt w.verf.boardA = kindsAfter newGameKinds done
  winner : w.winner = true
  tapped : ∀ s, w.Tapped s (w.tap s)

variable {t : TwoPlayerGame} {w : Worker} {done : List Update}

private theorem kinds_worker (taps : List Square) :
    kindAt (MyIVR.startNewGame.run taps).verf.boardA =
      kindsAfter newGameKinds ((MyIVR.startNewGame.executed taps).map Move.update) := by
  induction taps using List.reverseRecOn with
  | nil => rfl
  | append_singleton taps s ih =>
    have hcases := (playing_newGame taps).tapped s
    rw [Worker.run_snoc, Worker.executed_snoc, List.map_append]
    generalize (MyIVR.startNewGame.run taps).tap s = r at hcases
    cases hcases with
    | ignored | sourceRejected | sourceAccepted | faulted =>
      simpa only [Option.toList_none, List.map_nil, List.append_nil] using ih
    | targetRejected wait p from_p stays reject verf same =>
      simpa only [Option.toList_none, List.map_nil, List.append_nil, same] using ih
    | moved wait p from_p stays kind accept before same =>
      rw [Option.toList_some, List.map_singleton, kindsAfter_snoc, ← ih, ← same]
      exact kindAt_goTo before p.key s.key

private theorem behind_run (taps : List Square) :
    Behind (MyIVR.startNewGame.run taps) ((MyIVR.startNewGame.executed taps).map Move.update) where
  full := (playing_newGame taps).full
  kinds := kinds_worker taps
  winner := (playing_newGame taps).winner
  tapped := (playing_newGame taps).tapped

namespace Behind
variable {p q : Square}

private theorem tap_target (h : Behind w done) (target : w.AtTarget) (source : w.position = p.key)
    (q : Square) :
    (LeavesBoard w.verf.boardA p.key q.key ∧ (w.tap q).2 = none ∧
        ∃ fault, (w.tap q).1.status = .faulted fault) ∨
      (Rejects w.verf p.key q.key ∧ (w.tap q).2 = none ∧ (w.tap q).1.status = .waiting .targetAgain ∧
        (w.tap q).1.color = w.color ∧ (w.tap q).1.position = p.key) ∨
      ∃ kind, Accepts w.verf p.key q.key kind ∧
        (w.tap q).2.map Move.update = some ⟨kind, p.key, q.key⟩ ∧
        (w.tap q).1.status = .waiting .source ∧ (w.tap q).1.color = |w.color - 1| := by
  have hcases := h.tapped q
  have same {p' : Square} (from_p : w.position = p'.key) : p' = p :=
    Square.key_inj.mp (from_p.symm.trans source)
  generalize w.tap q = r at hcases ⊢
  cases hcases with
  | ignored stopped =>
    obtain ⟨site, hstatus⟩ := target.waiting
    exact absurd hstatus (stopped site)
  | sourceRejected wait | sourceAccepted wait => exact absurd target wait.not_atTarget
  | faulted wait p' from_p leaves fault =>
    rw [same from_p] at leaves
    exact .inl ⟨leaves, rfl, fault, rfl⟩
  | targetRejected wait p' from_p stays reject verf =>
    rw [same from_p] at reject
    exact .inr (.inl ⟨reject, rfl, rfl, rfl, source⟩)
  | moved wait p' from_p stays kind accept before =>
    rw [same from_p] at accept ⊢
    exact .inr (.inr ⟨kind, accept, rfl, by rw [Worker.loopHead, if_pos h.winner], rfl⟩)

section answers
variable {g : GameData} (h : Behind w done) (target : w.AtTarget) (source : w.position = p.key)
  (hfull : Full g.boardA) (hk : kindAt g.boardA = kindsAfter newGameKinds done)
include h target source hfull hk

private theorem tap_accepts {kind : MoveKind} (accepts : Accepts g p.key q.key kind) :
    (w.tap q).2.map Move.update = some ⟨kind, p.key, q.key⟩ ∧
      (w.tap q).1.status = .waiting .source ∧ (w.tap q).1.color = |w.color - 1| := by
  have accepts' : Accepts w.verf p.key q.key kind :=
    (hfull.accepts_kinds h.full (h.kinds.trans hk.symm)).mpr accepts
  rcases h.tap_target target source q with ⟨leaves, _⟩ | ⟨reject, _⟩ | ⟨kind', accept, htap⟩
  · rcases (h.full.leaves_iff p q).mp leaves with ⟨e, he⟩ | ⟨e, he⟩
    · cases kind with
      | goTo => cases he.symm.trans accepts'
      | kill => cases he.symm.trans accepts'.1
    · cases kind with
      | goTo => exact absurd leaves.2 ((h.full.canGoTo_true accepts').2.2 _)
      | kill => cases he.symm.trans accepts'.2
  · exact absurd reject accepts'.not_rejects
  · rwa [accepts'.unique accept]

private theorem tap_rejects (refused : canGoTo g.boardA p.key q.key = .ok false)
    (rejects : kills g p.key q.key = .ok false) :
    (w.tap q).2 = none ∧ (w.tap q).1.status = .waiting .targetAgain ∧ (w.tap q).1.color = w.color ∧
      (w.tap q).1.position = p.key := by
  have hrejects : Rejects w.verf p.key q.key := by
    have hk' := h.kinds.trans hk.symm
    exact ⟨by rw [canGoTo_congr hk', refused], by rw [hfull.kills_kinds h.full hk', rejects]⟩
  rcases h.tap_target target source q with ⟨leaves, _⟩ | ⟨_, htap⟩ | ⟨kind, accept, _⟩
  · rcases (h.full.leaves_iff p q).mp leaves with ⟨e, he⟩ | ⟨e, he⟩
    · cases he.symm.trans hrejects.1
    · cases he.symm.trans hrejects.2
  · exact htap
  · exact absurd hrejects accept.not_rejects

private theorem tap_faults (faults : (∃ e, canGoTo g.boardA p.key q.key = .error e) ∨
      canGoTo g.boardA p.key q.key = .ok false ∧ ∃ e, kills g p.key q.key = .error e) :
    (w.tap q).2 = none ∧ ∃ fault, (w.tap q).1.status = .faulted fault := by
  have hk' := h.kinds.trans hk.symm
  rw [← canGoTo_congr hk', ← hfull.kills_kinds h.full hk'] at faults
  rcases h.tap_target target source q with ⟨_, htap⟩ | ⟨reject, _⟩ | ⟨kind, accept, _⟩
  · exact htap
  · rcases faults with ⟨e, he⟩ | ⟨_, e, he⟩
    · cases he.symm.trans reject.1
    · cases he.symm.trans reject.2
  · rcases faults with ⟨e, he⟩ | ⟨hgo, e, he⟩
    · cases kind with
      | goTo => cases he.symm.trans accept
      | kill => cases he.symm.trans accept.1
    · cases kind with
      | goTo => cases hgo.symm.trans accept
      | kill => cases he.symm.trans accept.2

end answers
end Behind

/-- A statement is a stutter, or the worker's tap on some square with the same output. -/
def Matches (u : TwoPlayerGame × Option Update) (w : Worker) : Prop :=
  (Phase u.1 w ∧ u.2 = none) ∨ ∃ q, Phase u.1 (w.tap q).1 ∧ u.2 = (w.tap q).2.map Move.update

private theorem selects_iff (hw : Behind w done) (settled : Settled t.game t.moves done)
    (color : t.color = w.color) (s : Square) : (t.worker .source).Selects s ↔ w.Selects s := by
  have hk : kindAt t.game.boardA = kindAt w.verf.boardA := settled.kinds.trans hw.kinds.symm
  have hempty : emptyAt t.game.boardA s.key = emptyAt w.verf.boardA s.key := by
    simp only [emptyAt, typeAt_eq_kindAt, hk]
  have hcolor : colorAt t.game.boardA s.key = colorAt w.verf.boardA s.key := by
    simp only [colorAt_eq_kindAt, hk]
  have hturn : (t.worker .source).ptcolor = w.ptcolor := by
    rw [Worker.ptcolor, Worker.ptcolor, ← color]
    rfl
  rw [Worker.Selects, Worker.Selects, ← hempty, ← hcolor, ← hturn]
  rfl

private theorem matches_selecting (hw : Behind w done) (hp : Phase t w) (hat : t.point = .sourceTest)
    (settled : Settled t.game t.moves done) (s : Square) (source : t.position = s.key) :
    Matches t.execute w := by
  simp only [Phase, hat] at hp
  obtain ⟨hstatus, hcolor⟩ := hp
  have hreject := (t.worker .source).rejectsSource_iff s source ((settled.full s.key).mpr s.key_range)
  rw [selects_iff hw settled hcolor] at hreject
  have hcases := hw.tapped s
  refine .inr ⟨s, ?_⟩
  simp only [execute, hat]
  generalize w.tap s = r at hcases ⊢
  cases hcases with
  | ignored stopped =>
    obtain ⟨site, hsite⟩ := hstatus.waiting
    exact absurd hsite (stopped site)
  | sourceRejected wait reject =>
    rw [if_pos (hreject.mpr reject)]
    exact ⟨⟨rfl, hcolor, fun hs => by cases hs⟩, rfl⟩
  | sourceAccepted wait select =>
    rw [if_neg (fun hr => hreject.mp hr select)]
    exact ⟨⟨rfl, hcolor, fun _ => (row_col s.key).trans source.symm⟩, rfl⟩
  | faulted wait | targetRejected wait | moved wait => exact absurd wait hstatus.not_atTarget

private theorem matches_asking (hw : Behind w done) (hp : Phase t w) (asker : Asker) (p q : Square)
    (hat : t.point = .askMove asker) (asks : t.Asks t.game done p q) : Matches t.execute w := by
  simp only [Phase, hat] at hp
  obtain ⟨settled, source, target, _⟩ := asks
  simp only [execute, hat, source, target]
  cases hgo : canGoTo t.game.boardA p.key q.key with
  | error fault =>
    have htap := hw.tap_faults hp.1 (hp.2.2.trans source) settled.full settled.kinds (q := q)
      (.inl ⟨fault, hgo⟩)
    exact .inr ⟨q, htap.2, by rw [htap.1]; rfl⟩
  | ok answer => cases asker <;> cases answer <;> exact .inl ⟨hp, rfl⟩

private theorem matches_refused {u : TwoPlayerGame} {g : GameData} {p q : Square} {asker : Asker}
    (hw : Behind w done) (status : w.AtTarget) (color : u.color = w.color)
    (position : w.position = u.position) (asks : u.Asks g done p q) (passed : Passed g asker p q)
    (refused : canGoTo g.boardA p.key q.key = .ok false) (rejects : kills g p.key q.key = .ok false) :
    Matches (u.answered asker .kill false, none) w := by
  obtain ⟨settled, source, target, _⟩ := asks
  cases asker with
  | loop =>
    obtain ⟨hnone, hstatus, hcolor, hposition⟩ := hw.tap_rejects status (position.trans source)
      settled.full settled.kinds refused rejects
    refine .inr ⟨q, ⟨hstatus, color.trans hcolor.symm, fun _ => hposition.trans source.symm⟩, ?_⟩
    rw [hnone]
    rfl
  | update =>
    obtain ⟨kind, accepts⟩ := passed rfl
    exact absurd ⟨refused, rejects⟩ accepts.not_rejects

private theorem matches_comparing (hw : Behind w done) (hp : Phase t w) (asker : Asker) (p q : Square)
    (hat : t.point = .compare asker) (asks : t.Asks t.game done p q) (passed : Passed t.game asker p q)
    (refused : canGoTo t.game.boardA p.key q.key = .ok false) : Matches t.execute w := by
  simp only [Phase, hat] at hp
  have ⟨settled, source, target, _⟩ := asks
  simp only [execute, hat, source, target, colorsDiffer_eq settled.full, decide_eq_true_eq]
  split
  · exact .inl ⟨hp, rfl⟩
  · rename_i hsame
    have hkills : kills t.game p.key q.key = .ok false := by rw [settled.full.kills_eq, if_neg hsame]
    exact matches_refused hw hp.1 hp.2.1 hp.2.2 asks passed refused hkills

private theorem matches_keeping (hp : Phase t w) (asker : Asker) (q : Square)
    (at_ : t.point = .keep asker ∨ t.point = .vacate asker (t.game.boardA q.key)) :
    Matches t.execute w := by
  rcases at_ with hat | hat
  · simp only [Phase, hat] at hp
    simp only [execute, hat]
    exact .inl ⟨hp, rfl⟩
  · simp only [Phase, hat] at hp
    simp only [execute, hat]
    exact .inl ⟨hp, rfl⟩

private theorem matches_emptied (hw : Behind w done) (hp : Phase t w) (asker : Asker) (p q : Square)
    (g : GameData)
    (at_ : t.point = .askEmptied asker (g.boardA q.key) ∨ ∃ answer,
      t.point = .restore asker (g.boardA q.key) answer ∧ kills g p.key q.key = .ok answer)
    (asks : t.Asks g done p q) (passed : Passed g asker p q)
    (refused : canGoTo g.boardA p.key q.key = .ok false)
    (differ : colorAt g.boardA q.key ≠ colorAt g.boardA p.key) (board : t.game.boardA = g.emptied q.key) :
    Matches t.execute w := by
  have ⟨settled, source, target, _⟩ := asks
  rcases at_ with hat | ⟨answer, hat, hkills⟩
  · simp only [Phase, hat] at hp
    simp only [execute, hat, source, target]
    cases hgo : canGoTo t.game.boardA p.key q.key with
    | error fault =>
      have hkills : kills g p.key q.key = .error fault := by
        rw [settled.full.kills_eq, if_pos differ, ← board, hgo]
      have htap := hw.tap_faults hp.1 (hp.2.2.trans source) settled.full settled.kinds (q := q)
        (.inr ⟨refused, fault, hkills⟩)
      exact .inr ⟨q, htap.2, by rw [htap.1]; rfl⟩
    | ok answer => exact .inl ⟨hp, rfl⟩
  · simp only [Phase, hat] at hp
    simp only [execute, hat]
    cases answer with
    | true => cases asker <;> exact .inl ⟨hp, rfl⟩
    | false => exact matches_refused hw hp.1 hp.2.1 hp.2.2 asks passed refused hkills

private theorem matches_clearing (hw : Behind w done) (hp : Phase t w) (kind : MoveKind) (p q : Square)
    (g : GameData) (hat : t.point = .clear kind) (asks : t.Asks g done p q)
    (accepts : Accepts g p.key q.key kind) : Matches t.execute w := by
  simp only [Phase, hat] at hp
  obtain ⟨settled, source, target, _⟩ := asks
  obtain ⟨hout, hstatus, hcolor⟩ := hw.tap_accepts hp.1 (hp.2.2.trans source) settled.full settled.kinds accepts
  simp only [execute, hat, source, target]
  refine .inr ⟨q, ⟨hstatus, ?_⟩, hout.symm⟩
  rw [hcolor, ← hp.2.1]
  rfl

private theorem matches_counting (hp : Phase t w) (q : Square) (kind : MoveKind)
    (at_ : t.point = .display kind ∨ (∃ i ≤ 63, t.point = .scan i) ∨ t.point = .count)
    (full : Full t.game.boardA) (target : t.nextPosition = q.key) : Matches t.execute w := by
  rcases at_ with hat | ⟨i, hi, hat⟩ | hat
  · simp only [Phase, hat] at hp
    simp only [execute, hat]
    exact .inl ⟨hp, rfl⟩
  · simp only [Phase, hat] at hp
    have hround : kingRound t.game q.key t.winner i = .ok t.winner :=
      full.kingRound_eq q t.winner (mem_upTo.mpr (by omega))
    simp only [execute, hat, target, hround]
    split <;> exact .inl ⟨hp, rfl⟩
  · simp only [Phase, hat] at hp
    simp only [execute, hat]
    exact .inl ⟨hp, rfl⟩

private theorem matches_between (h : Tracked t done) (hp : Phase t w)
    (at_ : t.point = .head ∨ t.point = .copy ∨ t.point = .swapColor) : Matches t.execute w := by
  rcases at_ with hat | hat | hat
  · simp only [Phase, hat] at hp
    simp only [execute, hat, h.winner, if_true]
    exact .inl ⟨hp, rfl⟩
  · simp only [Phase, hat] at hp
    simp only [execute, hat]
    exact .inl ⟨⟨hp.1, hp.2, fun hs => by cases hs⟩, rfl⟩
  · simp only [Phase, hat] at hp
    simp only [execute, hat]
    exact .inl ⟨hp, rfl⟩

private theorem matches_waiting (hp : Phase t w) (site : Site)
    (at_ : t.point = .wait site ∨ t.point = .readRow site ∨ t.point = .readCol site) :
    Matches t.execute w := by
  rcases at_ with hat | hat | hat
  · simp only [Phase, hat] at hp
    simp only [execute, hat]
    split
    · exact .inl ⟨hp, rfl⟩
    · exact .inl ⟨by simpa only [Phase, hat] using hp, rfl⟩
  · simp only [Phase, hat] at hp
    simp only [execute, hat]
    split
    · rename_i hsite
      exact .inl ⟨⟨hp.1, hp.2.1, fun hs => by simp [hsite] at hs⟩, rfl⟩
    · exact .inl ⟨hp, rfl⟩
  · simp only [Phase, hat] at hp
    simp only [execute, hat]
    split
    · rename_i hsite
      exact .inl ⟨⟨⟨site, hp.1, hsite⟩, hp.2.1⟩, rfl⟩
    · rename_i hsite
      have htarget : site.isSource = false := by simpa using hsite
      exact .inl ⟨⟨⟨site, hp.1, htarget⟩, hp.2.1, hp.2.2 htarget⟩, rfl⟩

private theorem matches_work (h : Tracked t done) (hw : Behind w done) (hp : Phase t w) :
    Matches t.execute w := by
  cases h.stands with
  | between at_ settled => exact matches_between h hp at_
  | waiting site at_ settled chosen => exact matches_waiting hp site (at_.imp id .inl)
  | rowRead site at_ settled s row chosen => exact matches_waiting hp site (.inr (.inr at_))
  | selecting at_ settled s source => exact matches_selecting hw hp at_ settled s source
  | asking asker p q at_ asks passed => exact matches_asking hw hp asker p q at_ asks
  | comparing asker p q at_ asks passed refused =>
    exact matches_comparing hw hp asker p q at_ asks passed refused
  | keeping asker p q at_ asks passed refused differ => exact matches_keeping hp asker q at_
  | emptied asker p q g at_ asks passed refused differ board =>
    exact matches_emptied hw hp asker p q g at_ asks passed refused differ board
  | assigning kind p q at_ asks accepts =>
    simp only [Phase, at_] at hp
    simp only [execute, at_]
    exact .inl ⟨hp, rfl⟩
  | clearing kind p q g at_ asks accepts board => exact matches_clearing hw hp kind p q g at_ asks accepts
  | counting p q past kind at_ full kinds counted split target left =>
    exact matches_counting hp q kind at_ full target
  | trapped fault at_ =>
    simp only [execute, at_]
    exact .inl ⟨hp, rfl⟩

/-- Every run of the statement machine, with presses between any two statements, is a
run of the worker on some taps, with the same updates. -/
theorem refines_worker (signals : List Signal) :
    ∃ taps : List Square, Phase (startNewGame.run signals) (MyIVR.startNewGame.run taps) ∧
      startNewGame.executed signals = (MyIVR.startNewGame.executed taps).map Move.update := by
  have start : Phase startNewGame MyIVR.startNewGame := ⟨rfl, rfl⟩
  refine Mealy.stuttering_simulation Move.update Phase start (fun signals taps signal hphase houts => ?_) signals
  cases signal with
  | press s => exact .inl ⟨hphase, rfl⟩
  | work =>
    have hw := behind_run taps
    rw [Worker.executed, ← houts] at hw
    exact matches_work (tracked_run signals) hw hphase

private theorem settled_waiting (h : Tracked t done) {site : Site} (hwait : t.point = .wait site) :
    Settled t.game t.moves done := by
  cases h.stands with
  | between at_ settled => exact settled
  | waiting site' at_ settled chosen => exact settled
  | rowRead site' at_ settled s row chosen => exact settled
  | selecting at_ settled s source => exact settled
  | asking asker p q at_ asks => exact asks.1
  | comparing asker p q at_ asks => exact asks.1
  | keeping asker p q at_ asks => exact asks.1
  | emptied asker p q g at_ => rcases at_ with hat | ⟨_, hat, _⟩ <;> cases hwait.symm.trans hat
  | assigning kind p q at_ => cases hwait.symm.trans at_
  | clearing kind p q g at_ => cases hwait.symm.trans at_
  | counting p q past kind at_ =>
    rcases at_ with hat | ⟨_, _, hat⟩ | hat <;> cases hwait.symm.trans hat
  | trapped fault at_ => cases hwait.symm.trans at_

/-- Where the statement machine waits, the worker waits at the same place, with the same
kinds on the board, the same counter and the same colour to move. -/
theorem waits_agree (signals : List Signal) {site : Site}
    (hwait : (startNewGame.run signals).point = .wait site) :
    ∃ taps : List Square, (MyIVR.startNewGame.run taps).status = .waiting site ∧
      kindAt (startNewGame.run signals).game.boardA = kindAt (MyIVR.startNewGame.run taps).verf.boardA ∧
      (startNewGame.run signals).moves = (MyIVR.startNewGame.run taps).moves ∧
      (startNewGame.run signals).color = (MyIVR.startNewGame.run taps).color := by
  obtain ⟨taps, hphase, houts⟩ := refines_worker signals
  simp only [Phase, hwait] at hphase
  have hw := behind_run taps
  rw [← houts] at hw
  have hplaying := playing_newGame taps
  have settled := settled_waiting (tracked_run signals) hwait
  refine ⟨taps, hphase.1, settled.kinds.trans hw.kinds.symm, ?_, hphase.2.1⟩
  rw [settled.counted, hplaying.moves, houts, List.length_map]

/-- The first tap selects a pawn, and the worker waits for a target. -/
theorem selected_pawn_agrees :
    (startNewGame.run ([.work, .work, .press 8] ++ List.replicate 4 .work)).point = .wait .target ∧
      ∃ taps : List Square, (MyIVR.startNewGame.run taps).status = .waiting .target ∧
        kindAt (startNewGame.run ([.work, .work, .press 8] ++ List.replicate 4 .work)).game.boardA =
          kindAt (MyIVR.startNewGame.run taps).verf.boardA := by
  have hwait : (startNewGame.run ([.work, .work, .press 8] ++ List.replicate 4 .work)).point = .wait .target := by
    decide +kernel
  obtain ⟨taps, hstatus, hkinds, -⟩ := waits_agree _ hwait
  exact ⟨hwait, taps, hstatus, hkinds⟩

end TwoPlayerGame
end MyIVR
