import MyIVR.Game.TurnInvariant

/-! The order of turns: whose piece each executed update moves, and what one
iteration of the outer loop does between its first tap and its counter. -/
namespace MyIVR
open Swift

def sideAfter (k : Nat) : Color := if k % 2 = 0 then .white else .black

def Move.MovedBy (m : Move) (c : Color) : Prop :=
  ∃ x, m.before.boardA m.position = some x ∧ x.pieceType ≠ .empty ∧ x.color = c

namespace Worker

theorem Playing.ptcolor_eq {first : GameData} {w : Worker} {done : List Move}
    (h : Playing first w done) : w.ptcolor = sideAfter done.length := by
  rw [ptcolor, sideAfter, h.color]
  have hmod : done.length % 2 = 0 ∨ done.length % 2 = 1 := Nat.mod_two_eq_zero_or_one _
  rcases hmod with he | ho
  · rw [if_neg (by omega), if_pos he]
  · rw [if_pos (by omega), if_neg (by omega)]

/-- Every executed update moves a piece of the side its index calls for. -/
theorem executed_sides {first : GameData} (hfull : Full first.boardA)
    (hwhites : EmptiesWhite first.boardA) (taps : List Square) :
    ∀ (k : Nat) (m : Move), ((start first).executed taps)[k]? = some m → m.MovedBy (sideAfter k) := by
  refine (Mealy.run_induction
    (fun w done => Playing first w done ∧ ∀ (k : Nat) (m : Move), done[k]? = some m → m.MovedBy (sideAfter k))
    ⟨.start hfull hwhites, by simp⟩ ?_ taps).2
  rintro w done s ⟨h, hsides⟩
  refine ⟨h.tap s, ?_⟩
  cases ho : (w.tap s).2 with
  | none => simpa using hsides
  | some m =>
    intro k n hn
    rw [Option.toList_some, List.getElem?_append] at hn
    split at hn
    · exact hsides k n hn
    · rename_i hk
      have hlast : k = done.length ∧ m = n := by
        rw [List.getElem?_singleton] at hn
        split at hn
        · exact ⟨by omega, Option.some.inj hn⟩
        · cases hn
      obtain ⟨rfl, rfl⟩ := hlast
      obtain ⟨p, he⟩ := h.executes ho
      obtain ⟨x, hx, hoccupied, hcolor⟩ := he.source_occupied
      exact ⟨x, he.position ▸ hx, hoccupied, hcolor.trans h.ptcolor_eq⟩

end Worker

/-- White moves first and the sides alternate: the k-th executed update of a
new game moves a white piece for even k and a black one for odd k, and the two
counters of the loop keep in step with the number of updates. -/
theorem turns_alternate (taps : List Square) :
    (∀ (k : Nat) (m : Move), (startNewGame.executed taps)[k]? = some m → m.MovedBy (sideAfter k)) ∧
      (startNewGame.run taps).moves = (startNewGame.executed taps).length ∧
      (startNewGame.run taps).color = (startNewGame.run taps).moves % 2 := by
  have h := playing_newGame taps
  exact ⟨Worker.executed_sides full_newGame emptiesWhite_newGame taps, h.moves,
    by rw [h.moves]; exact h.color⟩

theorem newGame_pawn_white :
    ∃ m, (startNewGame.executed [8, 24])[0]? = some m ∧ m.MovedBy .white := by
  cases hm : (startNewGame.executed [8, 24])[0]? with
  | none =>
    have hsome : (startNewGame.executed [8, 24])[0]?.isSome = true := by decide +kernel
    rw [hm] at hsome
    cases hsome
  | some m => exact ⟨m, rfl, (turns_alternate [8, 24]).1 0 m hm⟩

namespace Worker

/-- How far an iteration that started at `w` has come after the taps `us`. -/
inductive Progress (w : Worker) (us : List Square) (v : Worker) : Prop where
  | selecting (wait : v.AtSource) (same : v.verf = w.verf) (color : v.color = w.color)
      (rejected : ∀ x ∈ us, ¬ w.Selects x)
  | targeting (wait : v.AtTarget) (same : v.verf.boardA = w.verf.boardA) (color : v.color = w.color)
      (missed : List Square) (p : Square) (rejected : List Square)
      (split : us = missed ++ p :: rejected) (source : v.position = p.key)
      (misses : ∀ x ∈ missed, ¬ w.Selects x) (selects : w.Selects p)
      (rejects : ∀ x ∈ rejected, Rejects w.verf p.key x.key)
  | crashed (fault : Fault) (status : v.status = .faulted fault)
      (same : v.verf.boardA = w.verf.boardA)

theorem Progress.same_board {w v : Worker} {us : List Square} (h : Progress w us v) :
    v.verf.boardA = w.verf.boardA := by
  cases h with
  | selecting _ same => rw [same]
  | targeting _ same => exact same
  | crashed _ _ same => exact same

private theorem Progress.tap {w v : Worker} {us : List Square} {first : GameData}
    {done : List Move} (hv : Playing first v done) (h : Progress w us v) (hfull : Full w.verf.boardA)
    {s : Square} (hnone : (v.tap s).2 = none) : Progress w (us ++ [s]) (v.tap s).1 := by
  have hcases := hv.tapped s
  generalize v.tap s = r at hcases hnone
  cases h with
  | selecting wait same color rejected =>
    have hsel : v.Selects s ↔ w.Selects s := by simp only [Selects, ptcolor, same, color]
    cases hcases with
    | ignored stopped =>
      obtain ⟨site, hs, _⟩ := wait
      exact absurd hs (stopped site)
    | sourceRejected _ reject =>
      have hrejects : ¬ w.Selects s := fun hselects => reject (hsel.mpr hselects)
      exact .selecting ⟨_, rfl, rfl⟩ same color
        (List.forall_mem_append.mpr ⟨rejected, List.forall_mem_singleton.mpr hrejects⟩)
    | sourceAccepted _ select =>
      exact .targeting ⟨_, rfl, rfl⟩ (by rw [same]) color us s [] rfl (row_col s.key) rejected
        (hsel.mp select) (by simp)
    | faulted ht | targetRejected ht => exact absurd ht wait.not_atTarget
    | moved => cases hnone
  | targeting wait same color missed p rejected split source misses selects rejects =>
    cases hcases with
    | ignored stopped =>
      obtain ⟨site, hs⟩ := wait.waiting
      exact absurd hs (stopped site)
    | sourceRejected hs | sourceAccepted hs => exact absurd wait hs.not_atTarget
    | faulted _ _ _ _ fault => exact .crashed fault rfl same
    | targetRejected _ p' from_p _ reject verf same' =>
      have hp : p' = p := Square.key_inj.mp (from_p.symm.trans source)
      subst hp
      have hrejects : Rejects w.verf p'.key s.key :=
        ⟨same ▸ reject.1, (hfull.kills_congr same p' s) ▸ reject.2⟩
      exact .targeting ⟨_, rfl, rfl⟩ (same'.trans same) color missed p' (rejected ++ [s])
        (by rw [split, List.append_assoc, List.cons_append]) source misses selects
        (List.forall_mem_append.mpr ⟨rejects, List.forall_mem_singleton.mpr hrejects⟩)
    | moved => cases hnone
  | crashed fault status same =>
    have hstop : ∀ site, v.status ≠ .waiting site := by
      intro site hs
      rw [status] at hs
      cases hs
    cases hcases with
    | ignored => exact .crashed fault status same
    | sourceRejected hs | sourceAccepted hs =>
      obtain ⟨site, hs, _⟩ := hs
      exact absurd hs (hstop site)
    | faulted ht | targetRejected ht =>
      obtain ⟨site, hs⟩ := ht.waiting
      exact absurd hs (hstop site)
    | moved => cases hnone

theorem Playing.run_from {first : GameData} {w : Worker} {done : List Move}
    (h : Playing first w done) (us : List Square) :
    Playing first (w.run us) (done ++ w.executed us) := by
  refine Mealy.run_induction (fun v outs => Playing first v (done ++ outs))
    (by simpa using h) ?_ us
  intro v outs s hv
  rw [← List.append_assoc]
  exact hv.tap s

/-- Taps that execute nothing leave an iteration somewhere inside its loops. -/
theorem Playing.progress {first : GameData} {w : Worker} {done : List Move}
    (h : Playing first w done) (hw : w.status = .waiting .source) (us : List Square)
    (hnone : w.executed us = []) : Progress w us (w.run us) := by
  induction us using List.reverseRecOn with
  | nil => exact .selecting ⟨.source, hw, rfl⟩ rfl rfl (by simp)
  | append_singleton us s ih =>
    rw [executed_snoc, List.append_eq_nil_iff, Option.toList_eq_nil_iff] at hnone
    rw [run_snoc]
    exact (ih hnone.1).tap (h.run_from us) h.full hnone.2

/-- The shape of an iteration that starts at `w` and executes `m` on its last
tap `q`: rejected squares, the source, rejected targets, and then `q`, which
the tests accept on the very board the iteration started with. -/
def Iteration (w : Worker) (us : List Square) (q : Square) (m : Move) : Prop :=
  ∃ missed p rejected, us = missed ++ p :: rejected ∧
    (∀ x ∈ missed, ¬ w.Selects x) ∧ w.Selects p ∧
    (∀ x ∈ rejected, Rejects w.verf p.key x.key) ∧ Accepts w.verf p.key q.key m.kind ∧
    m.position = p.key ∧ m.nextPosition = q.key ∧ m.before.boardA = w.verf.boardA

/-- A tap that executes an update ends an iteration of the expected shape. -/
theorem Playing.iteration {first : GameData} {w : Worker} {done : List Move}
    (h : Playing first w done) (hw : w.status = .waiting .source) {us : List Square}
    (hnone : w.executed us = []) {q : Square} {m : Move} (hm : ((w.run us).tap q).2 = some m) :
    Iteration w us q m := by
  obtain ⟨p, he⟩ := (h.run_from us).executes hm
  cases h.progress hw us hnone with
  | selecting wait => exact absurd he.wait wait.not_atTarget
  | crashed fault status =>
    obtain ⟨site, hs⟩ := he.wait.waiting
    rw [status] at hs
    cases hs
  | targeting _ same _ missed p' rejected split source misses selects rejects =>
    have hp : p' = p := Square.key_inj.mp (source.symm.trans he.source)
    subst hp
    have hbefore := he.before.trans same
    exact ⟨missed, p', rejected, split, misses, selects, rejects,
      (h.full.accepts_congr hbefore).mp he.accept, he.position, he.nextPosition, hbefore⟩

/-- The tap that counts a turn executes the one update of its iteration. -/
theorem Playing.counted {first : GameData} {w : Worker} {done : List Move}
    (h : Playing first w done) (hw : w.status = .waiting .source) {us : List Square} {q : Square}
    (hsame : (w.run us).moves = w.moves) (hcounted : (w.run (us ++ [q])).moves = w.moves + 1) :
    ∃ m, w.executed us = [] ∧ w.executed (us ++ [q]) = [m] ∧ Iteration w us q m ∧
      (w.run (us ++ [q])).verf = m.after := by
  have hus := h.run_from us
  have hnone : w.executed us = [] := by
    rw [hus.moves, h.moves, List.length_append] at hsame
    exact List.eq_nil_of_length_eq_zero (by omega)
  have hq := h.run_from (us ++ [q])
  rw [hq.moves, h.moves, executed_snoc, hnone, List.nil_append, List.length_append] at hcounted
  cases ho : ((w.run us).tap q).2 with
  | none =>
    rw [ho] at hcounted
    simp at hcounted
  | some m =>
    obtain ⟨p, he⟩ := hus.executes ho
    refine ⟨m, hnone, ?_, h.iteration hw hnone ho, ?_⟩
    · rw [executed_snoc, hnone, ho]
      rfl
    · rw [run_snoc]
      exact he.after

end Worker

/-- Neither test changes a board. In every run of a new game, an iteration that
adds one to the move counter executes exactly one update, GoTo or kill, on the
two accepted squares, and until then the board is the one it started with. -/
theorem counted_turn_updates_once :
    (∀ (g g' : GameData) (p q : Int) (r : Bool),
      (g.canKill p q = .ok (r, g') ∨ rejectsTarget g p q = .ok (r, g')) → g'.boardA = g.boardA) ∧
    ∀ (ts us : List Square) (q : Square), (startNewGame.run ts).status = .waiting .source →
      (startNewGame.run (ts ++ us)).moves = (startNewGame.run ts).moves →
      (startNewGame.run (ts ++ us ++ [q])).moves = (startNewGame.run ts).moves + 1 →
      ∃ m, startNewGame.executed (ts ++ us ++ [q]) = startNewGame.executed ts ++ [m] ∧
        Worker.Iteration (startNewGame.run ts) us q m ∧
        (∀ vs, vs <+: us →
          (startNewGame.run (ts ++ vs)).verf.boardA = (startNewGame.run ts).verf.boardA) ∧
        (startNewGame.run (ts ++ us ++ [q])).verf = m.after := by
  constructor
  · rintro g g' p q r (h | h)
    · exact GameData.canKill_boardA h
    · exact rejectsTarget_boardA h
  · intro ts us q hhead hsame hcounted
    have hw := playing_newGame ts
    rw [Worker.run_append] at hsame
    rw [List.append_assoc, Worker.run_append] at hcounted
    obtain ⟨m, hnone, hone, hshape, hafter⟩ := hw.counted hhead hsame hcounted
    refine ⟨m, ?_, hshape, fun vs hvs => ?_, ?_⟩
    · rw [List.append_assoc, Worker.executed_append, hone]
    · obtain ⟨rest, rfl⟩ := hvs
      rw [Worker.executed_append, List.append_eq_nil_iff] at hnone
      rw [Worker.run_append]
      exact (hw.progress hhead vs hnone.1).same_board
    · rw [List.append_assoc, Worker.run_append]
      exact hafter

/-- An empty square and a target out of reach are tapped in vain before the
first move of a new game is counted. -/
theorem newGame_retry_updates_once :
    ∃ m, startNewGame.executed [20, 8, 40, 24] = [m] ∧
      Worker.Iteration startNewGame [20, 8, 40] 24 m := by
  obtain ⟨m, hm, hshape, _⟩ := counted_turn_updates_once.2 [] [20, 8, 40] 24 (by decide +kernel)
    (by decide +kernel) (by decide +kernel)
  exact ⟨m, hm, hshape⟩

end MyIVR
