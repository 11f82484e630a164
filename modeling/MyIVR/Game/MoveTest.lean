import MyIVR.Game.Sightline

/-! The acceptance test of the turn loop, a move or else a capture: when it
fails to return, and what it guarantees about the squares it accepts. -/
namespace MyIVR
open Swift

/-- The keys that a capture test on q reads as empty. -/
def freeFor (b : Board) (q k : Int) : Bool := k == q || emptyAt b k

/-- Testing the move from p to q reads a missing key: the target is admissible,
and a rook's column scan or a queen's diagonal walk leaves the board before
anything else than the target stops it. -/
def LeavesBoard (b : Board) (p q : Int) : Prop :=
  (emptyAt b q = true ∨ colorAt b q ≠ colorAt b p) ∧
    (typeAt b p = some .rook ∧ rookLeaves (freeFor b q) p q ∨
      typeAt b p = some .queen ∧ queenLeaves (freeFor b q) p q)

instance (b : Board) (p q : Int) : Decidable (LeavesBoard b p q) :=
  inferInstanceAs (Decidable (_ ∧ _))

/-- The board that the capture test asks about: q replaced by a new empty piece. -/
def GameData.emptied (g : GameData) (q : Int) : Board :=
  g.boardA.assign q (some ⟨g.fresh, .empty, q, .white⟩)

private theorem rookLeaves_mono {f f' : Int → Bool} {p q : Int} (h : ∀ k, f k = true → f' k = true)
    (hl : rookLeaves f p q) : rookLeaves f' p q := by
  obtain ⟨hc, hr, hlast, hfree⟩ := hl
  exact ⟨hc, hr, hlast, fun i hi hin => h _ (hfree i hi hin)⟩

private theorem queenLeaves_mono {f f' : Int → Bool} {p q : Int} (h : ∀ k, f k = true → f' k = true)
    (hl : queenLeaves f p q) : queenLeaves f' p q := by
  obtain ⟨hd, hr, hfree⟩ := hl
  exact ⟨hd, hr, fun k hk hin => h _ (hfree k hk hin)⟩

theorem emptyAt_emptied (g : GameData) (q : Int) : emptyAt (g.emptied q) = freeFor g.boardA q := by
  funext k
  rw [freeFor]
  by_cases hk : k = q
  · subst k
    simp [emptyAt, GameData.emptied]
  · rw [GameData.emptied, emptyAt_assign_ne _ hk]
    simp [hk]

theorem freeFor_of_emptyAt {b : Board} {q : Int} (hq : emptyAt b q = true) :
    freeFor b q = emptyAt b := by
  funext k
  rw [freeFor]
  by_cases hk : k = q
  · subst k
    simp [hq]
  · simp [hk]

/-- Type and colour of the piece under a key: all that the tests look at. -/
def kindAt (b : Board) (k : Int) : Option (PieceType × Color) :=
  (b k).map (fun x => (x.pieceType, x.color))

theorem typeAt_eq_kindAt (b : Board) (k : Int) : typeAt b k = (kindAt b k).map Prod.fst := by
  rw [typeAt, kindAt, Option.map_map]
  rfl

theorem colorAt_eq_kindAt (b : Board) (k : Int) : colorAt b k = (kindAt b k).map Prod.snd := by
  rw [colorAt, kindAt, Option.map_map]
  rfl

/-- Types and colours by key, and a move on them. -/
abbrev Kinds := Int → Option (PieceType × Color)

def Kinds.move (b : Kinds) (p q : Int) : Kinds :=
  fun k => if k = p then some (.empty, .white) else if k = q then b p else b k

theorem kindAt_goTo (g : GameData) (p q : Int) :
    kindAt (g.goTo p q).boardA = Kinds.move (kindAt g.boardA) p q := by
  funext k
  rw [kindAt, GameData.goTo_boardA, Kinds.move]
  by_cases hp : k = p
  · simp [hp]
  · rw [Board.assign_ne _ hp, if_neg hp]
    by_cases hq : k = q
    · subst hq
      simp [kindAt]
    · rw [Board.assign_ne _ hq, if_neg hq, kindAt]

section congruence
variable {b b' : Board}

private theorem force_bind_congr {α : Type} {k : Int} {f f' : Piece → Except Fault α}
    (hk : kindAt b k = kindAt b' k)
    (hf : ∀ x y : Piece, x.pieceType = y.pieceType → x.color = y.color → f x = f' y) :
    (force (b k) >>= f) = (force (b' k) >>= f') := by
  rw [kindAt, kindAt] at hk
  cases hx : b k with
  | none =>
    rw [hx, Option.map_none, eq_comm, Option.map_eq_none_iff] at hk
    rw [hk]
    rfl
  | some x =>
    rw [hx, Option.map_some, eq_comm, Option.map_eq_some_iff] at hk
    obtain ⟨y, hy, hxy⟩ := hk
    rw [Prod.mk.injEq] at hxy
    rw [hy]
    exact hf x y hxy.1.symm hxy.2.symm

private theorem occupied_congr (h : kindAt b = kindAt b') : occupied b = occupied b' := by
  funext k
  exact force_bind_congr (congrFun h k) (fun x y ht _ => by rw [ht])

private theorem vacant_congr (h : kindAt b = kindAt b') : vacant b = vacant b' := by
  funext k
  exact force_bind_congr (congrFun h k) (fun x y ht _ => by rw [ht])

private theorem rookBlocked_congr (h : kindAt b = kindAt b') : rookBlocked b = rookBlocked b' := by
  funext r c r₁ c₁ i
  simp only [rookBlocked, occupied_congr h]
  congr 1
  funext onColumn
  split
  · exact force_bind_congr (congrFun h _) (fun _ _ _ _ => rfl)
  · rfl

/-- The move test depends on the pieces through their kinds only. -/
theorem canGoTo_congr (h : kindAt b = kindAt b') : canGoTo b = canGoTo b' := by
  funext p q
  refine force_bind_congr (congrFun h p) (fun x y ht hc => ?_)
  have rook : rookTest b x p q = rookTest b' y p q := by
    simp only [rookTest, rookBlocked_congr h]
    exact force_bind_congr (congrFun h q) (fun z w hz hw => by rw [hz, hw, hc])
  have pawn : pawnTest b x p q = pawnTest b' y p q := by
    simp only [pawnTest, hc]
    exact force_bind_congr (congrFun h q) (fun z w hz _ => by rw [hz])
  have queen : queenTest b p q = queenTest b' p q := by
    have straight : queenBlocked b = queenBlocked b' := by
      funext r c r₁ c₁ i
      simp only [queenBlocked, occupied_congr h]
    simp only [queenTest, vacant_congr h, straight, diagonalWalk, walkWithin, occupied_congr h]
  have bishop : bishopTest b p q = bishopTest b' p q := by
    simp only [bishopTest, diagonalWalk, walkWithin, occupied_congr h]
  have knight : knightTest b p q = knightTest b' p q := by
    simp only [knightTest, vacant_congr h]
  rw [ht, rook, pawn, queen, bishop, knight]

/-- The capture test asks the same question whichever new object it puts on the target. -/
theorem canGoTo_emptied {g g' : GameData} (h : kindAt g'.boardA = kindAt g.boardA) (q : Int) :
    canGoTo (g'.emptied q) = canGoTo (g.emptied q) := by
  apply canGoTo_congr
  funext k
  by_cases hk : k = q
  · simp [hk, kindAt, GameData.emptied]
  · rw [kindAt, kindAt, GameData.emptied, GameData.emptied, Board.assign_ne _ hk, Board.assign_ne _ hk]
    exact congrFun h k

theorem canGoTo_emptied_of_empty {g : GameData} {q : Int}
    (h : kindAt g.boardA q = some (.empty, .white)) : canGoTo (g.emptied q) = canGoTo g.boardA := by
  apply canGoTo_congr
  funext k
  by_cases hk : k = q
  · rw [hk, h]
    simp [kindAt, GameData.emptied]
  · rw [kindAt, kindAt, GameData.emptied, Board.assign_ne _ hk]

end congruence

namespace Full
variable {b : Board}

theorem emptied {g : GameData} (h : Full g.boardA) (q : Square) : Full (g.emptied q.key) :=
  h.assign q.key_range _

theorem canGoTo_errs_iff (h : Full b) (p q : Square) :
    (∃ e, canGoTo b p.key q.key = .error e) ↔
      typeAt b p.key = some .rook ∧ (emptyAt b q.key = true ∨ colorAt b q.key ≠ colorAt b p.key) ∧
          rookLeaves (emptyAt b) p.key q.key ∨
        typeAt b p.key = some .queen ∧ emptyAt b q.key = true ∧
          queenLeaves (emptyAt b) p.key q.key := by
  obtain ⟨x, hx⟩ := h.at_square p
  rw [h.canGoTo_look p q hx, typeAt_some hx, colorAt_some hx]
  by_cases both : Reaches x.pieceType x.color p.key q.key ∧ Admits b x.pieceType x.color q.key
  · obtain ⟨hr, ha⟩ := both
    rw [if_pos ⟨hr, ha⟩, Sight.answer_errs_iff, look_leaves_iff _ hr]
    cases ht : x.pieceType <;> rw [ht] at ha <;> simp_all [Admits]
  · rw [if_neg both]
    refine iff_of_false (by simp) ?_
    rintro (⟨ht, ha, hl⟩ | ⟨ht, ha, hl⟩) <;> rw [Option.some.injEq] at ht <;> rw [ht] at both
    · exact both ⟨.inl hl.1, ha⟩
    · exact both ⟨.inl hl.1, ha⟩

/-- The capture test compares colours, empties the target and asks the move test. -/
theorem canKill_eq {g : GameData} (h : Full g.boardA) (p q : Square) :
    g.canKill p.key q.key =
      if colorAt g.boardA q.key ≠ colorAt g.boardA p.key then
        (canGoTo (g.emptied q.key) p.key q.key).map (fun r => (r, ⟨g.boardA, g.fresh + 1⟩))
      else .ok (false, g) := by
  obtain ⟨x, hx⟩ := h.at_square p
  obtain ⟨y, hy⟩ := h.at_square q
  have restored : ((g.place q.key .empty .white).boardA.assign q.key (g.boardA q.key)) = g.boardA := by
    rw [GameData.place, Board.assign_assign, Board.assign_self]
  simp only [GameData.canKill, hx, hy, force_some, ok_bind, pure_eq_ok, colorAt_some hx,
    colorAt_some hy, ne_eq, Option.some.injEq]
  split
  · rename_i hne
    change (canGoTo (g.emptied q.key) p.key q.key >>= _) = _
    rw [← hy, restored]
    rcases canGoTo (g.emptied q.key) p.key q.key with e | r
    · rfl
    · cases r <;> rfl
  · rfl

private theorem ne_of_color {p q : Square} (hne : colorAt b q.key ≠ colorAt b p.key) :
    p.key ≠ q.key := by
  intro heq
  rw [heq] at hne
  exact hne rfl

private theorem canGoTo_emptied_errs_iff {g : GameData} (h : Full g.boardA) {p q : Square}
    (hne : colorAt g.boardA q.key ≠ colorAt g.boardA p.key) :
    (∃ e, canGoTo (g.emptied q.key) p.key q.key = .error e) ↔ LeavesBoard g.boardA p.key q.key := by
  have hempty : freeFor g.boardA q.key q.key = true := by simp [freeFor]
  rw [(h.emptied q).canGoTo_errs_iff, emptyAt_emptied, hempty, GameData.emptied,
    typeAt_assign_ne _ (ne_of_color hne), LeavesBoard]
  simp [hne]

/-- Of a move test and a capture test on the same squares, one faults exactly
when the test leaves the board. -/
theorem tests_err_iff {g : GameData} (h : Full g.boardA) (p q : Square) :
    (∃ e, canGoTo g.boardA p.key q.key = .error e) ∨ (∃ e, g.canKill p.key q.key = .error e) ↔
      LeavesBoard g.boardA p.key q.key := by
  have hfree : ∀ k, emptyAt g.boardA k = true → freeFor g.boardA q.key k = true := by
    intro k hk
    simp [freeFor, hk]
  have hkill : (∃ e, g.canKill p.key q.key = .error e) ↔
      colorAt g.boardA q.key ≠ colorAt g.boardA p.key ∧ LeavesBoard g.boardA p.key q.key := by
    rw [h.canKill_eq]
    split
    · rename_i hne
      rw [← h.canGoTo_emptied_errs_iff hne]
      cases canGoTo (g.emptied q.key) p.key q.key <;> simp [Except.map, hne]
    · rename_i heq
      simp [heq]
  rw [hkill, h.canGoTo_errs_iff]
  constructor
  · rintro ((⟨ht, ha, hl⟩ | ⟨ht, ha, hl⟩) | ⟨_, hl⟩)
    · exact ⟨ha, .inl ⟨ht, rookLeaves_mono hfree hl⟩⟩
    · exact ⟨.inl ha, .inr ⟨ht, queenLeaves_mono hfree hl⟩⟩
    · exact hl
  · intro hl
    by_cases hne : colorAt g.boardA q.key ≠ colorAt g.boardA p.key
    · exact .inr ⟨hne, hl⟩
    · have he := hl.1.resolve_right hne
      obtain ⟨ha, hl⟩ := hl
      rw [freeFor_of_emptyAt he] at hl
      rcases hl with ⟨ht, hl⟩ | ⟨ht, hl⟩
      · exact .inl (.inl ⟨ht, ha, hl⟩)
      · exact .inl (.inr ⟨ht, he, hl⟩)

/-- What an accepted quiet test says about its squares. -/
theorem canGoTo_true (h : Full b) {p q : Square} (ht : canGoTo b p.key q.key = .ok true) :
    emptyAt b p.key = false ∧
      (p = q ∨ emptyAt b q.key = true ∨ colorAt b q.key ≠ colorAt b p.key) ∧
      ∀ free, ¬ (typeAt b p.key = some .rook ∧ rookLeaves free p.key q.key ∨
        typeAt b p.key = some .queen ∧ queenLeaves free p.key q.key) := by
  obtain ⟨x, hx⟩ := h.at_square p
  rw [h.canGoTo_look p q hx] at ht
  rw [emptyAt_some hx, typeAt_some hx, colorAt_some hx]
  split at ht
  · rename_i both
    obtain ⟨hr, ha⟩ := both
    have hclear := look_eq_clear_iff.mp (Sight.answer_inj (t := .clear).mp ht)
    refine ⟨?_, ?_, fun free hl => ?_⟩
    · generalize x.pieceType = type at hr
      cases type <;> first | rfl | exact absurd hr id
    · generalize x.pieceType = type at hr ha hclear
      cases type with
      | rook => exact .inr ha
      | bishop =>
        by_cases hpq : p = q
        · exact .inl hpq
        · exact .inr (.inl (hclear _ (target_mem_bishop_line hpq hr)).2)
      | king | empty => cases hr
      | pawn | knight | queen => exact .inr (.inl ha)
    · simp only [Option.some.injEq] at hl
      exact look_inside (fun k hk => (hclear k hk).1) ((look_leaves_iff free hr).mpr hl)
  · cases ht

end Full
end MyIVR
