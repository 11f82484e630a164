import MyIVR.Game.BishopRule
import MyIVR.Game.Journeys
import MyIVR.Game.Refinement

/-! Positions that come again. What a game still allows depends on the kinds on the
board and on the side to move, and on nothing that was played before. -/
namespace MyIVR
open Swift Full

namespace Worker

/-- The workers look at the same kinds, and wait for the same square of the same side, or
both do not wait. -/
structure Alike (w v : Worker) : Prop where
  kinds : kindAt w.verf.boardA = kindAt v.verf.boardA
  color : w.color = v.color
  source : w.AtSource ↔ v.AtSource
  target : w.AtTarget ↔ v.AtTarget
  position : w.AtTarget → w.position = v.position

namespace Alike
variable {u v w : Worker}

theorem refl (w : Worker) : Alike w w := ⟨rfl, rfl, .rfl, .rfl, fun _ => rfl⟩

theorem trans (h : Alike u v) (h' : Alike v w) : Alike u w where
  kinds := h.kinds.trans h'.kinds
  color := h.color.trans h'.color
  source := h.source.trans h'.source
  target := h.target.trans h'.target
  position ht := (h.position ht).trans (h'.position (h.target.mp ht))

theorem selects (h : Alike w v) (s : Square) : w.Selects s ↔ v.Selects s := by
  rw [Selects, Selects, emptyAt, emptyAt, typeAt_eq_kindAt, typeAt_eq_kindAt, colorAt_eq_kindAt, colorAt_eq_kindAt,
    h.kinds, ptcolor, ptcolor, h.color]

end Alike

section phases
variable {first : GameData} {w : Worker} {done : List Move}

private theorem Playing.tap_source (h : Playing first w done) (hsource : w.AtSource) (s : Square) :
    (w.tap s).2 = none ∧ (w.tap s).1.verf = w.verf ∧ (w.tap s).1.color = w.color ∧
      ((w.tap s).1.AtTarget ↔ w.Selects s) ∧ ((w.tap s).1.AtSource ↔ ¬ w.Selects s) ∧
      (w.tap s).1.position = MyIVR.row s.key * 8 + MyIVR.col s.key := by
  have hcases := h.tapped s
  have hnot := hsource.not_atTarget
  generalize w.tap s = r at hcases
  cases hcases with
  | ignored stopped =>
    obtain ⟨site, hsite⟩ := hsource.waiting
    exact absurd hsite (stopped site)
  | sourceRejected _ reject =>
    refine ⟨rfl, rfl, rfl, iff_of_false ?_ reject, iff_of_true ⟨_, rfl, rfl⟩ reject, rfl⟩
    rintro ⟨site, hsite, htarget⟩
    cases hsite
    cases htarget
  | sourceAccepted _ select =>
    refine ⟨rfl, rfl, rfl, iff_of_true ⟨_, rfl, rfl⟩ select, iff_of_false ?_ (not_not.mpr select), rfl⟩
    rintro ⟨site, hsite, hsource'⟩
    cases hsite
    cases hsource'
  | faulted wait => exact absurd wait hnot
  | targetRejected wait => exact absurd wait hnot
  | moved wait => exact absurd wait hnot

private theorem Playing.tap_target (h : Playing first w done) (htarget : w.AtTarget) {p : Square}
    (hp : w.position = p.key) (s : Square) :
    LeavesBoard w.verf.boardA p.key s.key ∧ (w.tap s).2 = none ∧ (∀ site, (w.tap s).1.status ≠ .waiting site) ∧
        (w.tap s).1.verf.boardA = w.verf.boardA ∧ (w.tap s).1.color = w.color ∨
      ¬ LeavesBoard w.verf.boardA p.key s.key ∧ Rejects w.verf p.key s.key ∧ (w.tap s).2 = none ∧
        (w.tap s).1.AtTarget ∧ (w.tap s).1.position = w.position ∧ (w.tap s).1.verf.boardA = w.verf.boardA ∧
        (w.tap s).1.color = w.color ∨
      ∃ kind, ¬ LeavesBoard w.verf.boardA p.key s.key ∧ Accepts w.verf p.key s.key kind ∧
        (∃ before, (w.tap s).2 = some ⟨kind, p.key, s.key, before⟩) ∧ (w.tap s).1.AtSource ∧
        kindAt (w.tap s).1.verf.boardA = Kinds.move (kindAt w.verf.boardA) p.key s.key ∧
        (w.tap s).1.color = |w.color - 1| := by
  have hcases := h.tapped s
  have hwinner := h.winner
  have hnot (hsource : w.AtSource) : False := hsource.not_atTarget htarget
  generalize w.tap s = r at hcases
  cases hcases with
  | ignored stopped =>
    obtain ⟨site, hsite⟩ := htarget.waiting
    exact absurd hsite (stopped site)
  | sourceRejected wait => exact absurd wait hnot
  | sourceAccepted wait => exact absurd wait hnot
  | faulted _ p' hp' leaves fault =>
    obtain rfl : p' = p := Square.key_inj.mp (hp'.symm.trans hp)
    exact .inl ⟨leaves, rfl, nofun, rfl, rfl⟩
  | targetRejected _ p' hp' stays reject verf same =>
    obtain rfl : p' = p := Square.key_inj.mp (hp'.symm.trans hp)
    exact .inr (.inl ⟨stays, reject, rfl, ⟨_, rfl, rfl⟩, rfl, same, rfl⟩)
  | moved _ p' hp' stays kind accept before same =>
    obtain rfl : p' = p := Square.key_inj.mp (hp'.symm.trans hp)
    refine .inr (.inr ⟨kind, stays, accept, ⟨before, rfl⟩, ⟨.source, ?_, rfl⟩, ?_, rfl⟩)
    · simp only [loopHead, hwinner, if_true]
    · rw [← same]
      exact kindAt_goTo before p'.key s.key

end phases

/-- Two workers of games that were set up alike, at positions that are alike. -/
def Level (first : GameData) (w v : Worker) : Prop :=
  (∃ done, Playing first w done) ∧ (∃ done, Playing first v done) ∧ Alike w v

section step
variable {first : GameData} {w v : Worker}

private theorem leaves_kinds {g g' : GameData} (h : Full g.boardA) (h' : Full g'.boardA)
    (hk : kindAt g.boardA = kindAt g'.boardA) (p q : Square) :
    LeavesBoard g.boardA p.key q.key ↔ LeavesBoard g'.boardA p.key q.key := by
  rw [h.leaves_iff, h'.leaves_iff, canGoTo_congr hk, h'.kills_kinds h hk]

private theorem rejects_kinds {g g' : GameData} (h : Full g.boardA) (h' : Full g'.boardA)
    (hk : kindAt g.boardA = kindAt g'.boardA) (p q : Square) :
    Rejects g p.key q.key ↔ Rejects g' p.key q.key := by
  rw [Rejects, Rejects, canGoTo_congr hk, h'.kills_kinds h hk]

private theorem alike_source {done done' : List Move} (hw : Playing first w done) (hv : Playing first v done')
    (h : Alike w v) (hsource : w.AtSource) (s : Square) :
    Alike (w.tap s).1 (v.tap s).1 ∧ (w.tap s).2.map Move.update = (v.tap s).2.map Move.update := by
  obtain ⟨hout, hverf, hcolor, htarget, hagain, hposition⟩ := hw.tap_source hsource s
  obtain ⟨hout', hverf', hcolor', htarget', hagain', hposition'⟩ := hv.tap_source (h.source.mp hsource) s
  refine ⟨⟨?_, ?_, ?_, ?_, fun _ => ?_⟩, ?_⟩
  · rw [hverf, hverf', h.kinds]
  · rw [hcolor, hcolor', h.color]
  · rw [hagain, hagain', h.selects]
  · rw [htarget, htarget', h.selects]
  · rw [hposition, hposition']
  · rw [hout, hout']

private theorem alike_target {done done' : List Move} (hw : Playing first w done) (hv : Playing first v done')
    (h : Alike w v) (htarget : w.AtTarget) (s : Square) :
    Alike (w.tap s).1 (v.tap s).1 ∧ (w.tap s).2.map Move.update = (v.tap s).2.map Move.update := by
  obtain ⟨p, hp, _⟩ := hw.selected htarget
  have hp' : v.position = p.key := (h.position htarget).symm.trans hp
  have hleaves := leaves_kinds hw.full hv.full h.kinds p s
  have hrejects := rejects_kinds hw.full hv.full h.kinds p s
  rcases hw.tap_target htarget hp s with ⟨leaves, hout, hstop, hboard, hcolor⟩ |
    ⟨stays, reject, hout, hwait, hsame, hboard, hcolor⟩ |
    ⟨kind, stays, accept, ⟨before, hout⟩, hwait, hkinds, hcolor⟩ <;>
  rcases hv.tap_target (h.target.mp htarget) hp' s with ⟨leaves', hout', hstop', hboard', hcolor'⟩ |
    ⟨stays', reject', hout', hwait', hsame', hboard', hcolor'⟩ |
    ⟨kind', stays', accept', ⟨before', hout'⟩, hwait', hkinds', hcolor'⟩
  · have hnone {u : Worker} (hu : ∀ site, u.status ≠ .waiting site) : ¬ u.AtSource ∧ ¬ u.AtTarget :=
      ⟨fun ⟨site, hsite, _⟩ => hu site hsite, fun ⟨site, hsite, _⟩ => hu site hsite⟩
    refine ⟨⟨?_, ?_, iff_of_false (hnone hstop).1 (hnone hstop').1, iff_of_false (hnone hstop).2 (hnone hstop').2,
      fun ht => absurd ht (hnone hstop).2⟩, by rw [hout, hout']⟩
    · rw [hboard, hboard', h.kinds]
    · rw [hcolor, hcolor', h.color]
  · exact absurd (hleaves.mp leaves) stays'
  · exact absurd (hleaves.mp leaves) stays'
  · exact absurd (hleaves.mpr leaves') stays
  · refine ⟨⟨?_, ?_, ?_, iff_of_true hwait hwait', fun _ => ?_⟩, by rw [hout, hout']⟩
    · rw [hboard, hboard', h.kinds]
    · rw [hcolor, hcolor', h.color]
    · exact iff_of_false (fun hs => hs.not_atTarget hwait) (fun hs => hs.not_atTarget hwait')
    · rw [hsame, hsame', h.position htarget]
  · exact absurd (hrejects.mp reject) accept'.not_rejects
  · exact absurd (hleaves.mpr leaves') stays
  · exact absurd (hrejects.mpr reject') accept.not_rejects
  · obtain rfl : kind = kind' := accept.unique ((hv.full.accepts_kinds hw.full h.kinds).mpr accept')
    refine ⟨⟨?_, ?_, iff_of_true hwait hwait', ?_, fun ht => absurd ht hwait.not_atTarget⟩, ?_⟩
    · rw [hkinds, hkinds', h.kinds]
    · rw [hcolor, hcolor', h.color]
    · exact iff_of_false hwait.not_atTarget hwait'.not_atTarget
    · rw [hout, hout']
      rfl

private theorem level_tap (s : Square) (h : Level first w v) :
    Level first (w.tap s).1 (v.tap s).1 ∧ (w.tap s).2.map Move.update = (v.tap s).2.map Move.update := by
  obtain ⟨⟨done, hw⟩, ⟨done', hv⟩, halike⟩ := h
  have hstep : Alike (w.tap s).1 (v.tap s).1 ∧ (w.tap s).2.map Move.update = (v.tap s).2.map Move.update := by
    by_cases hsource : w.AtSource
    · exact alike_source hw hv halike hsource s
    by_cases htarget : w.AtTarget
    · exact alike_target hw hv halike htarget s
    have hstopped {u : Worker} (hs : ¬ u.AtSource) (ht : ¬ u.AtTarget) (site : Site) :
        u.status ≠ .waiting site := by
      intro hsite
      cases hkind : site.isSource with
      | true => exact hs ⟨site, hsite, hkind⟩
      | false => exact ht ⟨site, hsite, hkind⟩
    have hsource' : ¬ v.AtSource := fun hs => hsource (halike.source.mpr hs)
    have htarget' : ¬ v.AtTarget := fun ht => htarget (halike.target.mpr ht)
    rw [tap_stopped w s (hstopped hsource htarget), tap_stopped v s (hstopped hsource' htarget')]
    exact ⟨halike, rfl⟩
  exact ⟨⟨⟨_, hw.tap s⟩, ⟨_, hv.tap s⟩, hstep.1⟩, hstep.2⟩

end step
end Worker

private theorem level_newGame (ts us : List Square) (h : (startNewGame.run ts).Alike (startNewGame.run us)) :
    Worker.Level GameData.new.initBoardA (startNewGame.run ts) (startNewGame.run us) :=
  ⟨⟨_, playing_newGame ts⟩, ⟨_, playing_newGame us⟩, h⟩

/-- Two pieces step out in turn and come back. -/
def dance (p q p' q' : Square) : List Square := [p, q, p', q', q, p, q', p']

private theorem dance_returns : (startNewGame.run (dance 1 18 57 42)).Alike startNewGame := by
  have hstatus : (startNewGame.run (dance 1 18 57 42)).status = .waiting .source := by decide +kernel
  have hsource : (startNewGame.run (dance 1 18 57 42)).AtSource := ⟨.source, hstatus, rfl⟩
  have hstart : startNewGame.AtSource := ⟨.source, rfl, rfl⟩
  refine ⟨funext fun k => ?_, by decide +kernel, iff_of_true hsource hstart,
    iff_of_false hsource.not_atTarget hstart.not_atTarget, fun ht => absurd ht hsource.not_atTarget⟩
  by_cases hk : 0 ≤ k ∧ k ≤ 63
  · obtain ⟨s, rfl⟩ := exists_square hk
    revert s
    decide +kernel
  · have hfirst : startNewGame.verf.boardA k = none := full_newGame.missing hk
    rw [kindAt, kindAt, (playing_newGame (dance 1 18 57 42)).full.missing hk, hfirst]

/-- Two runs of a new game that reach the same kinds, with the same side waiting for the
same square, go on alike: the same taps execute the same updates, and lead to the same
kinds again. -/
theorem same_position_same_play {ts us : List Square} (h : (startNewGame.run ts).Alike (startNewGame.run us))
    (rest : List Square) :
    ((startNewGame.run ts).executed rest).map Move.update = ((startNewGame.run us).executed rest).map Move.update ∧
      (startNewGame.run (ts ++ rest)).Alike (startNewGame.run (us ++ rest)) := by
  obtain ⟨⟨_, _, halike⟩, hout⟩ :=
    Mealy.bisimulation Move.update (fun w v s hlevel => Worker.level_tap s hlevel) (level_newGame ts us h) rest
  rw [Worker.run_append, Worker.run_append]
  exact ⟨hout, halike⟩

/-- After a dance of two knights a pawn is played as in a new game. -/
theorem dance_replayed :
    ((startNewGame.run (dance 1 18 57 42)).executed [8, 24]).map Move.update =
        ((startNewGame.run []).executed [8, 24]).map Move.update ∧
      (startNewGame.run (dance 1 18 57 42 ++ [8, 24])).Alike (startNewGame.run ([] ++ [8, 24])) :=
  @same_position_same_play (dance 1 18 57 42) [] dance_returns [8, 24]

/-- A new game can go on for ever: after any number of dances of two knights it is at its first
position again, four updates later each time. -/
theorem endless_game (n : Nat) :
    (startNewGame.run (List.replicate n (dance 1 18 57 42)).flatten).Alike startNewGame ∧
      (startNewGame.executed (List.replicate n (dance 1 18 57 42)).flatten).length = n * 4 := by
  have htrans {u v w : Worker} (h : Worker.Level GameData.new.initBoardA u v)
      (h' : Worker.Level GameData.new.initBoardA v w) : Worker.Level GameData.new.initBoardA u w :=
    ⟨h.1, h'.2.1, h.2.2.trans h'.2.2⟩
  have hfour : (startNewGame.executed (dance 1 18 57 42)).length = 4 := by decide +kernel
  obtain ⟨hlevel, hlength⟩ := Mealy.recurrence Move.update (fun w v s hlevel => Worker.level_tap s hlevel) htrans
    (level_newGame [] [] (.refl _)) (level_newGame (dance 1 18 57 42) [] dance_returns) n
  exact ⟨hlevel.2.2, hlength.trans (congrArg (n * ·) hfour)⟩

section quiet
variable {g : GameData} {p q : Square}

private theorem emptyAt_goTo (g : GameData) {k : Int} (hk : k ≠ q.key) :
    emptyAt (g.goTo p.key q.key).boardA k = if k = p.key then true else emptyAt g.boardA k := by
  rw [emptyAt, typeAt_eq_kindAt, kindAt_goTo, Kinds.move]
  split
  · rfl
  · rw [← typeAt_eq_kindAt, emptyAt]

private theorem diagonal_back (g : GameData) (hne : p ≠ q)
    (hd : |row p.key - row q.key| = |col p.key - col q.key|) (hline : LineEmpty g.boardA .bishop p.key q.key) :
    LineEmpty (g.goTo p.key q.key).boardA .bishop q.key p.key := by
  have hempty : DiagonalEmpty g.boardA p q :=
    (bishop_lineFree_iff hd g.boardA).mp fun k hk => ⟨(hline k hk).1, .inr (hline k hk).2⟩
  have hback : |row q.key - row p.key| = |col q.key - col p.key| := by
    rw [abs_sub_comm, hd, abs_sub_comm]
  have hfree : LineFree (g.goTo p.key q.key).boardA .bishop q.key p.key := by
    rw [bishop_lineFree_iff hback]
    rintro s ⟨hp, hq, hrow, hcol⟩
    have hsq : s.key ≠ q.key := by
      rintro heq
      rw [heq] at hrow
      omega
    rw [emptyAt_goTo g hsq]
    split
    · rfl
    · rw [min_comm, max_comm] at hrow
      rw [min_comm, max_comm] at hcol
      exact hempty s ⟨hq, hp, hrow, hcol⟩
  intro k hk
  obtain ⟨hboard, rfl | hfree⟩ := hfree k hk
  · refine ⟨hboard, ?_⟩
    rw [emptyAt_goTo g (fun heq => hne (Square.key_inj.mp heq)), if_pos rfl]
  · exact ⟨hboard, hfree⟩

private theorem move_back {b : Kinds} {i j : Int} (hne : i ≠ j) (hempty : b j = some (.empty, .white)) :
    Kinds.move (b.move i j) j i = b := by
  funext k
  by_cases hj : k = j
  · subst k
    simp [Kinds.move, hempty]
  · by_cases hi : k = i
    · subst k
      simp [Kinds.move, hne, hne.symm]
    · simp [Kinds.move, hi, hj]

private theorem quiet_back (h : Full g.boardA) (hwhites : EmptiesWhite g.boardA) (hne : p ≠ q) {x : Piece}
    (hx : g.boardA p.key = some x) (htype : x.pieceType = .bishop ∨ x.pieceType = .knight)
    (hgo : canGoTo g.boardA p.key q.key = .ok true) :
    canGoTo (g.goTo p.key q.key).boardA q.key p.key = .ok true ∧
      kindAt ((g.goTo p.key q.key).goTo q.key p.key).boardA = kindAt g.boardA := by
  obtain ⟨⟨hreach, hadmits⟩, hline⟩ := (h.canGoTo_true_iff p q hx).mp hgo
  have hkeys : p.key ≠ q.key := fun heq => hne (Square.key_inj.mp heq)
  have hfull := GameData.full_goTo h p.key_range q.key_range
  have hmoved : (g.goTo p.key q.key).boardA q.key = some x := by
    rw [GameData.goTo_boardA, Board.assign_ne _ hkeys.symm]
    simp [hx]
  have hleft : emptyAt (g.goTo p.key q.key).boardA p.key = true := by
    rw [emptyAt_goTo g hkeys, if_pos rfl]
  have htarget : emptyAt g.boardA q.key = true := by
    rcases htype with hbishop | hknight
    · rw [hbishop] at hreach hline
      exact (hline q.key (target_mem_bishop_line hne hreach)).2
    · rw [hknight] at hadmits
      exact hadmits
  constructor
  · refine (hfull.canGoTo_true_iff q p hmoved).mpr ⟨⟨?_, admits_empty _ _ hleft⟩, ?_⟩
    · rcases htype with htype | htype <;> rw [htype] at hreach ⊢
      · rw [Reaches] at hreach ⊢
        rw [abs_sub_comm, hreach, abs_sub_comm]
      · rw [Reaches, knightJump_iff] at hreach ⊢
        rw [abs_sub_comm (row q.key), abs_sub_comm (col q.key)]
        exact hreach
    · rcases htype with htype | htype <;> rw [htype] at hreach hline ⊢
      · exact diagonal_back g hne hreach hline
      · exact List.forall_mem_nil _
  · have hkind : kindAt g.boardA q.key = some (.empty, .white) := by
      obtain ⟨y, hy⟩ := h.at_square q
      have htype : y.pieceType = .empty := by simpa [emptyAt_some hy] using htarget
      have hcolor : y.color = .white := by simpa [colorAt_some hy] using hwhites q.key htarget
      rw [kindAt, hy, Option.map_some, htype, hcolor]
    rw [kindAt_goTo, kindAt_goTo]
    exact move_back hkeys hkind

private theorem pawn_back (h : Full g.boardA) (hne : p ≠ q) {x : Piece} (hx : g.boardA p.key = some x)
    (hpawn : x.pieceType = .pawn) (hgo : canGoTo g.boardA p.key q.key = .ok true) :
    canGoTo (g.goTo p.key q.key).boardA q.key p.key = .ok false := by
  obtain ⟨⟨hreach, _⟩, _⟩ := (h.canGoTo_true_iff p q hx).mp hgo
  have hkeys : p.key ≠ q.key := fun heq => hne (Square.key_inj.mp heq)
  have hmoved : (g.goTo p.key q.key).boardA q.key = some x := by
    rw [GameData.goTo_boardA, Board.assign_ne _ hkeys.symm]
    simp [hx]
  rw [(GameData.full_goTo h p.key_range q.key_range).canGoTo_look q p hmoved, if_neg]
  rintro ⟨hback, -⟩
  rw [hpawn, Reaches, pawnStep] at hreach hback
  cases hcolor : x.color <;> simp only [hcolor, reduceCtorEq, if_true, if_false] at hreach hback <;> omega

end quiet

/-- In every run of a new game: a quiet update of a bishop or a knight to another square
can be taken back by the same test, and its board is then the one before it; no quiet
update of a pawn can. -/
theorem quiet_updates_taken_back (taps : List Square) :
    ∀ m ∈ startNewGame.executed taps, m.kind = .goTo → m.position ≠ m.nextPosition →
      ∀ x, m.mover = some x →
        (x.pieceType = .bishop ∨ x.pieceType = .knight →
          canGoTo m.after.boardA m.nextPosition m.position = .ok true ∧
            kindAt (m.after.goTo m.nextPosition m.position).boardA = kindAt m.before.boardA) ∧
        (x.pieceType = .pawn → canGoTo m.after.boardA m.nextPosition m.position = .ok false) := by
  intro m hm hkind hne x hx
  obtain ⟨ts, p, q, us, rfl, he⟩ := executed_newGame hm
  have haccept := he.accept
  have hwhites : EmptiesWhite m.before.boardA := by
    rw [he.before]
    exact (playing_newGame ts).whites
  rw [he.position, he.nextPosition] at hne
  have hsquares : p ≠ q := fun heq => hne (congrArg Square.key heq)
  rw [Move.mover, he.position] at hx
  rw [hkind] at haccept
  rw [Move.after, hkind, he.position, he.nextPosition]
  exact ⟨fun htype => quiet_back he.full hwhites hsquares hx htype haccept,
    fun hpawn => pawn_back he.full hsquares hx hpawn haccept⟩

/-- White's knight can go back from 18 to 1. -/
theorem knight_taken_back : ∃ m ∈ startNewGame.executed [1, 18],
    canGoTo m.after.boardA 18 1 = .ok true ∧ kindAt (m.after.goTo 18 1).boardA = kindAt m.before.boardA := by
  have hlast : ((startNewGame.executed [1, 18]).map
      (fun m => (m.kind, m.position, m.nextPosition, m.mover))).getLast? =
        some (.goTo, 1, 18, some ⟨1, .knight, 1, .white⟩) := by
    decide +kernel
  obtain ⟨m, hm, heq⟩ := List.mem_map.mp (List.mem_of_getLast? hlast)
  obtain ⟨hkind, hp, hq, hx⟩ : m.kind = .goTo ∧ m.position = 1 ∧ m.nextPosition = 18 ∧
      m.mover = some ⟨1, .knight, 1, .white⟩ := by
    simpa using heq
  have hback := (quiet_updates_taken_back [1, 18] m hm hkind (by rw [hp, hq]; decide) _ hx).1 (.inr rfl)
  rw [hp, hq] at hback
  exact ⟨m, hm, hback⟩

end MyIVR
