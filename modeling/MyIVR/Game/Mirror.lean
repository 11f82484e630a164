import MyIVR.Game.InitialBoard
import MyIVR.Game.Sightline
import MyIVR.Game.TurnInvariant

/-! The board turned upside down with the colours exchanged, and what the two
tests answer on it. Geometry and targets treat the two sides alike; the lines
of rook and queen do not, and neither does the colour of an empty square. -/
namespace MyIVR
open Swift Full

/-- The square 8*r+c goes to 8*(7-r)+c. -/
def flip (k : Int) : Int := 8 * (7 - k / 8) + k % 8

@[simp] theorem flip_flip (k : Int) : flip (flip k) = k := by
  unfold flip
  omega

theorem onBoard_flip {k : Int} : OnBoard (flip k) ↔ OnBoard k := by
  unfold OnBoard flip
  omega

theorem flip_eq_iff {k i : Int} : flip k = i ↔ k = flip i := by
  constructor <;> rintro rfl <;> simp

def Square.flip (s : Square) : Square := ⟨8 * (7 - s.val / 8) + s.val % 8, by omega⟩

@[simp] theorem Square.flip_key (s : Square) : s.flip.key = MyIVR.flip s.key := by
  have hs := s.isLt
  simp only [Square.flip, Square.key, MyIVR.flip]
  omega

theorem row_flip (s : Square) : row (flip s.key) = 7 - row s.key := by
  have hs := s.key_range
  rw [← s.flip_key, row_eq s.flip.key_range.1, row_eq hs.1, s.flip_key, flip]
  omega

theorem col_flip (s : Square) : col (flip s.key) = col s.key := by
  have hs := s.key_range
  rw [← s.flip_key, col_eq s.flip.key_range.1, col_eq hs.1, s.flip_key, flip]
  omega

/-- The piece of the other side, on the square opposite; an empty square stays white. -/
def Piece.mirrored (x : Piece) : Piece :=
  { x with position := flip x.position, color := if x.pieceType = .empty then .white else x.color.other }

def mirror (b : Board) : Board := fun k => (b (flip k)).map Piece.mirrored

def GameData.mirrored (g : GameData) : GameData := ⟨mirror g.boardA, g.fresh⟩

theorem emptyAt_mirror (b : Board) (k : Int) : emptyAt (mirror b) k = emptyAt b (flip k) := by
  rw [emptyAt, emptyAt, typeAt, typeAt, mirror, Option.map_map]
  rfl

theorem freeFor_mirror (b : Board) (q k : Int) :
    freeFor (mirror b) (flip q) k = freeFor b q (flip k) := by
  have same : (k == flip q) = (flip k == q) := by
    rw [Bool.eq_iff_iff, beq_iff_eq, beq_iff_eq, flip_eq_iff]
  rw [freeFor, freeFor, emptyAt_mirror, same]

theorem mirror_some {b : Board} {k : Int} {x : Piece} (h : b k = some x) :
    mirror b (flip k) = some x.mirrored := by
  rw [mirror, flip_flip, h]
  rfl

theorem Full.mirror {b : Board} (h : Full b) : Full (mirror b) := by
  intro k
  rw [MyIVR.mirror, Option.isSome_map, h]
  exact onBoard_flip

theorem look_flip (free : Int → Bool) (l : List Int) :
    look (fun k => free (flip k)) l = look free (l.map flip) := by
  induction l with
  | nil => rfl
  | cons k rest ih => simp only [List.map_cons, look, onBoard_flip, ih]

theorem reaches_flip (type : PieceType) (c : Color) (p q : Square) :
    Reaches type c.other (flip p.key) (flip q.key) ↔ Reaches type c p.key q.key := by
  have hrows : |7 - row p.key - (7 - row q.key)| = |row p.key - row q.key| := by
    rw [sub_sub_sub_cancel_left, abs_sub_comm]
  cases type with
  | rook =>
    simp only [Reaches, row_flip, col_flip]
    omega
  | queen =>
    simp only [Reaches, row_flip, col_flip, hrows]
    omega
  | bishop => simp only [Reaches, row_flip, col_flip, hrows]
  | pawn =>
    simp only [Reaches, pawnStep, row_flip]
    cases c <;> simp only [Color.other, reduceCtorEq, if_true, if_false] <;> omega
  | knight =>
    simp only [Reaches, knightJump, row_flip, col_flip]
    omega
  | king => rfl
  | empty => rfl

theorem colorAt_mirror {b : Board} {k : Int} {x : Piece} (h : b k = some x) :
    colorAt (mirror b) (flip k) = some (if emptyAt b k then .white else x.color.other) := by
  rw [colorAt_some (mirror_some h), emptyAt_some h, Piece.mirrored]
  simp

private theorem other_inj {c d : Color} : c.other = d.other ↔ c = d := by
  cases c <;> cases d <;> simp [Color.other]

/-- The mirrored target is admitted to the other colour as the target is. -/
theorem admits_mirror {b : Board} (h : Full b) (type : PieceType) (c : Color) (q : Square) :
    Admits (mirror b) type c.other (flip q.key) ↔ Admits b type c q.key := by
  obtain ⟨y, hy⟩ := h.at_square q
  have hempty : emptyAt (mirror b) (flip q.key) = emptyAt b q.key := by
    rw [emptyAt_mirror, flip_flip]
  cases type with
  | rook =>
    simp only [Admits, hempty, colorAt_mirror hy, colorAt_some hy, ne_eq, Option.some.injEq]
    cases emptyAt b q.key with
    | true => simp
    | false => simp [other_inj]
  | bishop => rfl
  | _ => simp only [Admits, hempty]

/-- The mirror image of the line looked along on the mirrored board. -/
def mirrorLine (type : PieceType) (p q : Int) : List Int := (sightline type (flip p) (flip q)).map flip

private theorem flip_coordinates (r : Int) {c : Int} (hc : 0 ≤ c ∧ c ≤ 7) :
    flip ((7 - r) * 8 + c) = r * 8 + c := by
  unfold flip
  omega

theorem bishop_line_flip (p q : Square) (hd : |row p.key - row q.key| = |col p.key - col q.key|) :
    mirrorLine .bishop p.key q.key = sightline .bishop p.key q.key := by
  have hrow : 7 - row q.key - (7 - row p.key) = -(row q.key - row p.key) := by ring
  simp only [mirrorLine, sightline, List.map_map, row_flip, hrow, Int.natAbs_neg]
  refine List.map_congr_left fun k hk => ?_
  obtain ⟨_, hcol⟩ := bishop_coordinates p q hd (Nat.succ_le_of_lt (List.mem_range.mp hk))
  push_cast at hcol
  simp only [Function.comp_apply, bishopKey, walkKey, row_flip, col_flip, hrow, Int.sign_neg]
  refine Eq.trans ?_ (flip_coordinates (row p.key + (k + 1) * (row q.key - row p.key).sign) hcol)
  congr 2
  ring

/-- What the board must be like for the tests to treat a pair as they treat its
mirror image. An empty target needs both lines blocked, for black may capture on
it and white may not. A target of the other colour needs the two looks to meet
the same, read as empty and, for a rook, also as it stands. -/
def MirrorsWell (b : Board) (p q : Square) : Prop :=
  ∀ x ∈ b p.key, Reaches x.pieceType x.color p.key q.key →
    (emptyAt b q.key = true →
      look (emptyAt b) (sightline x.pieceType p.key q.key) = .blocked ∧
        look (emptyAt b) (mirrorLine x.pieceType p.key q.key) = .blocked) ∧
    (emptyAt b q.key = false → colorAt b q.key ≠ some x.color →
      (x.pieceType = .rook → look (emptyAt b) (mirrorLine .rook p.key q.key) =
        look (emptyAt b) (sightline .rook p.key q.key)) ∧
      look (freeFor b q.key) (mirrorLine x.pieceType p.key q.key) =
        look (freeFor b q.key) (sightline x.pieceType p.key q.key))

instance (b : Board) (p q : Square) : Decidable (MirrorsWell b p q) :=
  inferInstanceAs (Decidable (∀ _ ∈ _, _))

def TreatedAlike (g : GameData) (p q : Square) : Prop :=
  canGoTo (mirror g.boardA) p.flip.key q.flip.key = canGoTo g.boardA p.key q.key ∧
    kills g.mirrored p.flip.key q.flip.key = kills g p.key q.key

namespace Full
variable {g : GameData}

private theorem mirrored_piece {b : Board} {p : Square} {x : Piece} (hx : b p.key = some x)
    (hp : emptyAt b p.key = false) :
    MyIVR.mirror b p.flip.key = some x.mirrored ∧ x.mirrored.color = x.color.other := by
  rw [emptyAt_some hx, beq_eq_false_iff_ne] at hp
  exact ⟨p.flip_key ▸ mirror_some hx, if_neg hp⟩

theorem canGoTo_mirror {b : Board} (h : Full b) (p q : Square) {x : Piece} (hx : b p.key = some x)
    (hp : emptyAt b p.key = false) :
    canGoTo (MyIVR.mirror b) (flip p.key) (flip q.key) =
      if Reaches x.pieceType x.color p.key q.key ∧ Admits b x.pieceType x.color q.key then
        (look (emptyAt b) (mirrorLine x.pieceType p.key q.key)).answer
      else .ok false := by
  obtain ⟨hx', hc⟩ := mirrored_piece hx hp
  have hlook := h.mirror.canGoTo_look p.flip q.flip hx'
  have hfree : emptyAt (MyIVR.mirror b) = fun k => emptyAt b (flip k) := funext (emptyAt_mirror b)
  have htype : x.mirrored.pieceType = x.pieceType := rfl
  simp only [Square.flip_key, hc, htype, hfree, look_flip, reaches_flip, MyIVR.admits_mirror h] at hlook
  exact hlook

theorem kills_mirror (h : Full g.boardA) (p q : Square) {x : Piece} (hx : g.boardA p.key = some x)
    (hp : emptyAt g.boardA p.key = false) :
    kills g.mirrored (flip p.key) (flip q.key) =
      if colorAt (MyIVR.mirror g.boardA) (flip q.key) ≠ some x.color.other ∧
          Reaches x.pieceType x.color p.key q.key then
        (look (freeFor g.boardA q.key) (mirrorLine x.pieceType p.key q.key)).answer
      else .ok false := by
  obtain ⟨hx', hc⟩ := mirrored_piece hx hp
  have hlook := kills_look (g := g.mirrored) h.mirror p.flip q.flip hx'
  have hfree : freeFor (MyIVR.mirror g.boardA) (flip q.key) = fun k => freeFor g.boardA q.key (flip k) :=
    funext (freeFor_mirror g.boardA q.key)
  have htype : x.mirrored.pieceType = x.pieceType := rfl
  simp only [Square.flip_key, hc, htype, GameData.mirrored, hfree, look_flip, reaches_flip] at hlook
  exact hlook

private theorem treatedAlike_looks (h : Full g.boardA) (p q : Square) {x : Piece}
    (hx : g.boardA p.key = some x) (hp : emptyAt g.boardA p.key = false) :
    TreatedAlike g p q ↔
      ((if Reaches x.pieceType x.color p.key q.key ∧ Admits g.boardA x.pieceType x.color q.key then
          (look (emptyAt g.boardA) (mirrorLine x.pieceType p.key q.key)).answer else .ok false) =
        (if Reaches x.pieceType x.color p.key q.key ∧ Admits g.boardA x.pieceType x.color q.key then
          (look (emptyAt g.boardA) (sightline x.pieceType p.key q.key)).answer else .ok false)) ∧
      ((if colorAt (MyIVR.mirror g.boardA) (flip q.key) ≠ some x.color.other ∧
            Reaches x.pieceType x.color p.key q.key then
          (look (freeFor g.boardA q.key) (mirrorLine x.pieceType p.key q.key)).answer else .ok false) =
        (if colorAt g.boardA q.key ≠ some x.color ∧ Reaches x.pieceType x.color p.key q.key then
          (look (freeFor g.boardA q.key) (sightline x.pieceType p.key q.key)).answer else .ok false)) := by
  rw [TreatedAlike, Square.flip_key, Square.flip_key, h.canGoTo_mirror p q hx hp, h.canGoTo_look p q hx,
    h.kills_mirror p q hx hp, h.kills_look p q hx]

private theorem symmetric_empty (h : Full g.boardA) (hw : EmptiesWhite g.boardA) (p q : Square)
    {x : Piece} (hx : g.boardA p.key = some x) (hp : emptyAt g.boardA p.key = false)
    (hq : emptyAt g.boardA q.key = true) (hr : Reaches x.pieceType x.color p.key q.key) :
    TreatedAlike g p q ↔ look (emptyAt g.boardA) (sightline x.pieceType p.key q.key) = .blocked ∧
      look (emptyAt g.boardA) (mirrorLine x.pieceType p.key q.key) = .blocked := by
  obtain ⟨y, hy⟩ := h.at_square q
  have admits := admits_empty x.pieceType x.color hq
  rw [treatedAlike_looks h p q hx hp, colorAt_mirror hy, hw _ hq, freeFor_of_emptyAt hq]
  simp only [hr, admits, hq, and_true, if_true]
  cases x.color <;> cases look (emptyAt g.boardA) (sightline x.pieceType p.key q.key) <;>
    cases look (emptyAt g.boardA) (mirrorLine x.pieceType p.key q.key) <;>
      simp [Sight.answer, Color.other]

private theorem symmetric_occupied (h : Full g.boardA) (p q : Square)
    {x : Piece} (hx : g.boardA p.key = some x) (hp : emptyAt g.boardA p.key = false)
    (hq : emptyAt g.boardA q.key = false) (hr : Reaches x.pieceType x.color p.key q.key) :
    TreatedAlike g p q ↔ (colorAt g.boardA q.key ≠ some x.color →
      (x.pieceType = .rook → look (emptyAt g.boardA) (mirrorLine .rook p.key q.key) =
        look (emptyAt g.boardA) (sightline .rook p.key q.key)) ∧
      look (freeFor g.boardA q.key) (mirrorLine x.pieceType p.key q.key) =
        look (freeFor g.boardA q.key) (sightline x.pieceType p.key q.key)) := by
  obtain ⟨y, hy⟩ := h.at_square q
  rw [treatedAlike_looks h p q hx hp, colorAt_mirror hy, hq]
  simp only [hr, admits_occupied hq, true_and, and_true, colorAt_some hy, ne_eq, Option.some.injEq,
    other_inj, Bool.false_eq_true, if_false]
  cases ht : x.pieceType with
  | rook =>
    by_cases hne : y.color = x.color
    · simp [hne]
    · simp [hne, Sight.answer_inj]
  | bishop =>
    rw [ht] at hr
    have hline := bishop_line_flip p q hr
    simp [hline]
  | _ =>
    by_cases hne : y.color = x.color
    · simp [hne]
    · simp [hne, Sight.answer_inj]

private theorem symmetric_unreached (h : Full g.boardA) (p q : Square) {x : Piece}
    (hx : g.boardA p.key = some x) (hp : emptyAt g.boardA p.key = false)
    (hr : ¬ Reaches x.pieceType x.color p.key q.key) : TreatedAlike g p q := by
  rw [treatedAlike_looks h p q hx hp]
  simp [hr]

/-- On a full board with white empty squares the tests treat a pair and its
mirror image alike exactly when the board is as `MirrorsWell` says. -/
theorem symmetric_iff (h : Full g.boardA) (hw : EmptiesWhite g.boardA) (p q : Square)
    (hp : emptyAt g.boardA p.key = false) : TreatedAlike g p q ↔ MirrorsWell g.boardA p q := by
  constructor
  · intro hs x hx hr
    exact ⟨fun hq => (symmetric_empty h hw p q hx hp hq hr).mp hs,
      fun hq => (symmetric_occupied h p q hx hp hq hr).mp hs⟩
  · intro hm
    obtain ⟨x, hx⟩ := h.at_square p
    by_cases hr : Reaches x.pieceType x.color p.key q.key
    · obtain ⟨hempty, hoccupied⟩ := hm x hx hr
      cases hq : emptyAt g.boardA q.key with
      | true => exact (symmetric_empty h hw p q hx hp hq hr).mpr (hempty hq)
      | false => exact (symmetric_occupied h p q hx hp hq hr).mpr (hoccupied hq)
    · exact symmetric_unreached h p q hx hp hr

/-- Against an occupied target pawn, knight, bishop and king treat the sides
alike on every board. -/
theorem symmetric_of_occupied (h : Full g.boardA) (p q : Square) {x : Piece}
    (hx : g.boardA p.key = some x) (hp : emptyAt g.boardA p.key = false)
    (hq : emptyAt g.boardA q.key = false) (hrook : x.pieceType ≠ .rook) (hqueen : x.pieceType ≠ .queen) :
    TreatedAlike g p q := by
  by_cases hr : Reaches x.pieceType x.color p.key q.key
  · refine (symmetric_occupied h p q hx hp hq hr).mpr (fun _ => ⟨fun ht => absurd ht hrook, ?_⟩)
    cases ht : x.pieceType with
    | bishop =>
      rw [ht] at hr
      rw [bishop_line_flip p q hr]
    | rook => exact absurd ht hrook
    | queen => exact absurd ht hqueen
    | _ => rfl
  · exact symmetric_unreached h p q hx hp hr

end Full

/-- White's pawn on 12 may not capture on the empty square 20 in front of it;
on the mirrored board black's pawn may. -/
theorem pawn_advance_asymmetric :
    Full GameData.new.initBoardA.boardA ∧ EmptiesWhite GameData.new.initBoardA.boardA ∧
      emptyAt GameData.new.initBoardA.boardA (12 : Square).key = false ∧
      kills GameData.new.initBoardA (12 : Square).key (20 : Square).key = .ok false ∧
      kills GameData.new.initBoardA.mirrored (12 : Square).flip.key (20 : Square).flip.key = .ok true := by
  refine ⟨full_newGame, emptiesWhite_newGame, ?_, ?_, ?_⟩ <;> decide +kernel

/-- The capture of a pawn two steps along a bishop's diagonal is the same for both sides. -/
theorem bishop_capture_symmetric :
    TreatedAlike ((GameData.new.initBoardA.goTo 11 27).goTo 52 20) 2 20 :=
  (Full.symmetric_iff (GameData.full_goTo (GameData.full_goTo full_newGame (p := 11) (q := 27)
    (by decide) (by decide)) (p := 52) (q := 20) (by decide) (by decide))
      ((emptiesWhite_newGame.goTo 11 27).goTo 52 20) 2 20 (by decide +kernel)).mpr (by decide +kernel)

end MyIVR
