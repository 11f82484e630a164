import MyIVR.Game.FullBoard

/-! What stands where after initBoardA, whatever the dictionary held before. The
index ranges of the source overlap, so the last write of each key counts. -/
namespace MyIVR

/-- A sequence of `boardA[k] = Piece(...)` assignments. -/
abbrev Script := List (Int × PieceType × Color)

def GameData.placeAll (g : GameData) (l : Script) : GameData :=
  l.foldl (fun g entry => g.place entry.1 entry.2.1 entry.2.2) g

/-- `for i in lo...hi`, with n rounds from lo on. -/
def stretch (lo n : Nat) (type : PieceType) (color : Color) : Script :=
  (List.range' lo n).map (fun i : Nat => (i, type, color))

def whitePieces : Script :=
  [(0, .rook, .white), (1, .knight, .white), (2, .bishop, .white), (3, .queen, .white),
    (4, .king, .white), (5, .bishop, .white), (6, .knight, .white), (7, .rook, .white)]

def blackPieces : Script :=
  [(56, .rook, .black), (57, .knight, .black), (58, .bishop, .black), (59, .queen, .black),
    (60, .king, .black), (61, .bishop, .black), (62, .knight, .black), (63, .rook, .black)]

def initScript : Script :=
  whitePieces ++ stretch 8 9 .pawn .white ++ stretch 16 33 .empty .white ++
    stretch 48 9 .pawn .black ++ blackPieces

/-- The last assignment to a key: its place in the sequence and what it puts there. -/
def lastWrite : Script → Int → Option (Nat × PieceType × Color)
  | [], _ => none
  | entry :: rest, k =>
    match lastWrite rest k with
    | some (n, kind) => some (n + 1, kind)
    | none => if entry.1 = k then some (0, entry.2) else none

namespace GameData

theorem initBoardA_eq (g : GameData) : g.initBoardA = g.placeAll initScript := by
  simp only [initBoardA, placeRange, placeAll, initScript, whitePieces, blackPieces, stretch,
    List.foldl_append, List.foldl_map, List.foldl_cons, List.foldl_nil]

theorem placeAll_boardA (g : GameData) (l : Script) (k : Int) :
    (g.placeAll l).boardA k =
      match lastWrite l k with
      | some (n, type, color) => some ⟨g.fresh + n, type, k, color⟩
      | none => g.boardA k := by
  induction l generalizing g with
  | nil => rfl
  | cons entry rest ih =>
    have tail : (g.placeAll (entry :: rest)).boardA k =
        ((g.place entry.1 entry.2.1 entry.2.2).placeAll rest).boardA k := rfl
    rw [tail, ih, lastWrite]
    cases lastWrite rest k with
    | some write => simp only [place, Nat.add_assoc, Nat.add_comm 1]
    | none =>
      simp only [place]
      by_cases hk : entry.1 = k
      · subst hk
        simp
      · rw [if_neg hk, Board.assign_ne _ (Ne.symm hk)]

end GameData

theorem lastWrite_key {l : Script} {k : Int} {n : Nat} {kind : PieceType × Color}
    (h : lastWrite l k = some (n, kind)) : l[n]? = some (k, kind) := by
  induction l generalizing n with
  | nil => cases h
  | cons entry rest ih =>
    rw [lastWrite] at h
    cases hrest : lastWrite rest k with
    | some write =>
      rw [hrest, Option.some.injEq, Prod.mk.injEq] at h
      obtain ⟨rfl, rfl⟩ := h
      exact ih hrest
    | none =>
      rw [hrest] at h
      simp only [Option.ite_none_right_eq_some, Option.some.injEq, Prod.mk.injEq] at h
      obtain ⟨rfl, rfl, rfl⟩ := h
      rfl

private theorem initScript_keys : ∀ entry ∈ initScript, 0 ≤ entry.1 ∧ entry.1 ≤ 63 := by decide +kernel

private theorem initScript_covers : ∀ s : Square, (lastWrite initScript s.key).isSome := by
  decide +kernel

theorem initScript_whites :
    ∀ entry ∈ initScript, entry.2.1 = .empty → entry.2.2 = .white := by
  decide +kernel

theorem initBoardA_square (g : GameData) (s : Square) :
    ∃ n type color, lastWrite initScript s.key = some (n, type, color) ∧
      g.initBoardA.boardA s.key = some ⟨g.fresh + n, type, s.key, color⟩ := by
  obtain ⟨⟨n, type, color⟩, hw⟩ := Option.isSome_iff_exists.mp (initScript_covers s)
  refine ⟨n, type, color, hw, ?_⟩
  rw [GameData.initBoardA_eq, GameData.placeAll_boardA, hw]

/-- initBoardA completes any dictionary with keys inside 0...63 to a full board. -/
theorem full_initBoardA {g : GameData} (h : ∀ k, (g.boardA k).isSome → 0 ≤ k ∧ k ≤ 63) :
    Full g.initBoardA.boardA := by
  intro k
  constructor
  · intro hk
    cases hw : lastWrite initScript k with
    | some write =>
      have hmem := List.mem_of_getElem? (lastWrite_key hw)
      exact initScript_keys _ hmem
    | none =>
      rw [GameData.initBoardA_eq, GameData.placeAll_boardA, hw] at hk
      exact h k hk
  · intro hk
    obtain ⟨s, rfl⟩ := exists_square hk
    obtain ⟨n, type, color, _, hs⟩ := initBoardA_square g s
    rw [hs]
    rfl

theorem full_newGame : Full GameData.new.initBoardA.boardA :=
  full_initBoardA (fun k hk => by cases hk)

end MyIVR
