import MyIVR.Game.TurnSteps

/-! The condition of the target loop, a quiet move or else a capture, in one form
for all pieces: the geometry, a target that can be taken, and a line that is free
up to the target. Only a bishop on its own square is let through beyond it. -/
namespace MyIVR
open Swift Full

/-- `CanGoTo(p, q) || canKill(p, q)`, the condition the target loop negates. -/
def acceptance (g : GameData) (p q : Int) : Except Fault Bool :=
  (rejectsTarget g p q).map (fun answer => !answer.1)

theorem acceptance_eq (g : GameData) (p q : Int) :
    acceptance g p q = (do if ← canGoTo g.boardA p q then return true else kills g p q) := by
  rw [acceptance, rejectsTarget, kills]
  rcases canGoTo g.boardA p q with e | r
  · rfl
  · cases r with
    | true => rfl
    | false => rcases g.canKill p q with e | ⟨r, g'⟩ <;> simp [Except.map]

theorem acceptance_true_iff {g : GameData} {p q : Int} :
    acceptance g p q = .ok true ↔
      canGoTo g.boardA p q = .ok true ∨ canGoTo g.boardA p q = .ok false ∧ kills g p q = .ok true := by
  rw [acceptance_eq]
  rcases canGoTo g.boardA p q with e | r
  · simp
  · cases r <;> simp

/-- The target is empty or holds a piece of the other colour. -/
def Takeable (b : Board) (p q : Int) : Prop := emptyAt b q = true ∨ colorAt b q ≠ colorAt b p

instance (b : Board) (p q : Int) : Decidable (Takeable b p q) := inferInstanceAs (Decidable (_ ∨ _))

theorem not_takeable_self {b : Board} {p : Int} (hp : emptyAt b p = false) : ¬ Takeable b p p := by
  rintro (h | h)
  · rw [hp] at h
    cases h
  · exact h rfl

/-- Every key the branch looks up for the pair is on the board and, the target aside, empty. -/
def LineFree (b : Board) (type : PieceType) (p q : Int) : Prop :=
  ∀ k ∈ sightline type p q, OnBoard k ∧ (k = q ∨ emptyAt b k = true)

instance (b : Board) (type : PieceType) (p q : Int) : Decidable (LineFree b type p q) :=
  inferInstanceAs (Decidable (∀ _ ∈ _, _))

theorem look_freeFor_iff {b : Board} {type : PieceType} {p q : Int} :
    look (freeFor b q) (sightline type p q) = .clear ↔ LineFree b type p q := by
  simp only [look_eq_clear_iff, LineFree, freeFor, Bool.or_eq_true, beq_iff_eq]

private theorem look_widen {f f' : Int → Bool} (hf : ∀ k, f k = true → f' k = true) (l : List Int)
    (h : look f l ≠ .blocked) : look f' l = look f l := by
  induction l with
  | nil => rfl
  | cons k rest ih =>
    rw [look, look]
    rw [look] at h
    split
    · rename_i hk
      rw [if_pos hk] at h
      cases hfree : f k with
      | true =>
        rw [hfree] at h
        rw [hf k hfree]
        exact ih h
      | false =>
        rw [hfree] at h
        exact absurd rfl h
    · rfl

private theorem look_twice (b : Board) (q : Int) (l : List Int) :
    (do if ← (look (emptyAt b) l).answer then return true else (look (freeFor b q) l).answer) =
      (look (freeFor b q) l).answer := by
  have hfree (k : Int) (hk : emptyAt b k = true) : freeFor b q k = true := by simp [freeFor, hk]
  cases hlook : look (emptyAt b) l with
  | blocked => rfl
  | clear =>
    rw [look_widen hfree l (by rw [hlook]; simp), hlook]
    rfl
  | leaves =>
    rw [look_widen hfree l (by rw [hlook]; simp), hlook]
    rfl

namespace Full
variable {g : GameData}

private theorem own_target_refused (h : Full g.boardA) {p q : Square} {x : Piece}
    (hx : g.boardA p.key = some x) (hstay : x.pieceType = .bishop → p ≠ q)
    (hq : emptyAt g.boardA q.key = false) (hown : colorAt g.boardA q.key = some x.color) :
    canGoTo g.boardA p.key q.key = .ok false := by
  rw [h.canGoTo_look p q hx]
  split
  · rename_i both
    obtain ⟨hr, admits⟩ := both
    rcases (admits_occupied hq).mp admits with ht | ⟨_, hne⟩
    · rw [ht] at hr ⊢
      cases hlook : look (emptyAt g.boardA) (sightline .bishop p.key q.key) with
      | blocked => rfl
      | leaves => exact absurd hlook (look_inside (bishop_line_inside hr))
      | clear =>
        have free := (look_eq_clear_iff.mp hlook _ (target_mem_bishop_line (hstay ht) hr)).2
        rw [hq] at free
        cases free
    · exact absurd hown hne
  · rfl

/-- The condition of the target loop, for any piece: geometry, a target that can be
taken, and a look along the line with the target free. -/
theorem acceptance_look (h : Full g.boardA) (p q : Square) {x : Piece} (hx : g.boardA p.key = some x)
    (hstay : x.pieceType = .bishop → p ≠ q) :
    acceptance g p.key q.key =
      if Reaches x.pieceType x.color p.key q.key ∧ Takeable g.boardA p.key q.key then
        (look (freeFor g.boardA q.key) (sightline x.pieceType p.key q.key)).answer
      else .ok false := by
  have takeable : Takeable g.boardA p.key q.key ↔
      emptyAt g.boardA q.key = true ∨ colorAt g.boardA q.key ≠ some x.color := by
    rw [Takeable, colorAt_some hx]
  rw [acceptance_eq, h.kills_look p q hx]
  by_cases hr : Reaches x.pieceType x.color p.key q.key
  · simp only [hr, and_true, true_and]
    by_cases hne : colorAt g.boardA q.key ≠ some x.color
    · -- the capture test looks along the line, whatever the quiet test has answered before
      rw [if_pos hne, if_pos (takeable.mpr (.inr hne)), h.canGoTo_look p q hx]
      split
      · exact look_twice ..
      · rfl
    · rw [if_neg hne]
      cases hq : emptyAt g.boardA q.key with
      | true =>
        -- no capture is tried, and the quiet test sees the same squares as free
        rw [if_pos (takeable.mpr (.inl hq)), h.canGoTo_look p q hx,
          if_pos ⟨hr, admits_empty _ _ hq⟩, freeFor_of_emptyAt hq]
        cases look (emptyAt g.boardA) (sightline x.pieceType p.key q.key) <;> rfl
      | false =>
        have hkept : ¬ Takeable g.boardA p.key q.key := by
          rw [takeable, hq]
          simpa using hne
        rw [h.own_target_refused hx hstay hq (not_not.mp hne), if_neg hkept]
        rfl
  · rw [h.canGoTo_look p q hx, if_neg (fun both => hr both.1), if_neg (fun both => hr both.2),
      if_neg (fun both => hr both.1)]
    rfl

/-- The condition follows a rule that asks for the geometry and the target as well
exactly when, for squares that have both, no lookup leaves the board before one stops the
look, and the line is free where the rule holds. -/
theorem acceptance_follows_iff (h : Full g.boardA) (p q : Square) {x : Piece} (hx : g.boardA p.key = some x)
    (hstay : x.pieceType = .bishop → p ≠ q) {P : Prop} [Decidable P]
    (hrule : P → Reaches x.pieceType x.color p.key q.key ∧ Takeable g.boardA p.key q.key) :
    acceptance g p.key q.key = .ok (decide P) ↔
      (Reaches x.pieceType x.color p.key q.key ∧ Takeable g.boardA p.key q.key →
        ¬ (x.pieceType = .rook ∧ rookLeaves (freeFor g.boardA q.key) p.key q.key ∨
          x.pieceType = .queen ∧ queenLeaves (freeFor g.boardA q.key) p.key q.key) ∧
        (LineFree g.boardA x.pieceType p.key q.key ↔ P)) := by
  rw [h.acceptance_look p q hx hstay]
  split
  · rename_i both
    rw [Sight.answer_eq_decide, look_freeFor_iff, ne_eq, look_leaves_iff _ both.1, forall_prop_of_true both]
  · rename_i hnone
    have hno : ¬ P := fun hr => hnone (hrule hr)
    exact iff_of_true (by rw [decide_eq_false hno]) (fun both => absurd both hnone)

theorem accepted_iff (h : Full g.boardA) (p q : Square) {x : Piece} (hx : g.boardA p.key = some x)
    (hstay : x.pieceType = .bishop → p ≠ q) :
    acceptance g p.key q.key = .ok true ↔
      Reaches x.pieceType x.color p.key q.key ∧ Takeable g.boardA p.key q.key ∧
        LineFree g.boardA x.pieceType p.key q.key := by
  rw [h.acceptance_look p q hx hstay, ← look_freeFor_iff, ← and_assoc]
  split
  · rename_i both
    rw [and_iff_right both]
    exact Sight.answer_inj (t := .clear)
  · rename_i hnone
    exact iff_of_false (by simp) (fun all => hnone all.1)

end Full
end MyIVR
