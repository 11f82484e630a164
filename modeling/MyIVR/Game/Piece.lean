import MyIVR.Foundations.SwiftRuntime

/-! Pieces and the squares they stand on. -/
namespace MyIVR

inductive PieceType where
  | rook | king | knight | queen | bishop | pawn | empty
  deriving DecidableEq, Repr

/-- Raw values of the source enumeration; the queen's is misspelt there. -/
def PieceType.rawValue : PieceType → String
  | rook => "rook"
  | king => "king"
  | knight => "knight"
  | queen => "quenn"
  | bishop => "bishop"
  | pawn => "pawn"
  | empty => "empty"

/-- `PieceType(rawValue:)` -/
def PieceType.ofRawValue (s : String) : Option PieceType :=
  [rook, king, knight, queen, bishop, pawn, empty].find? (fun t => t.rawValue == s)

inductive Color where
  | white | black
  deriving DecidableEq, Repr

def Color.rawValue : Color → String
  | white => "white"
  | black => "black"

/-- `Color(rawValue:)` -/
def Color.ofRawValue (s : String) : Option Color :=
  [white, black].find? (fun c => c.rawValue == s)

def Color.other : Color → Color
  | white => black
  | black => white

@[simp] theorem PieceType.ofRawValue_rawValue (t : PieceType) :
    PieceType.ofRawValue t.rawValue = some t := by
  cases t <;> rfl

@[simp] theorem Color.ofRawValue_rawValue (c : Color) : Color.ofRawValue c.rawValue = some c := by
  cases c <;> rfl

theorem Color.eq_other_of_ne {c d : Color} (h : c ≠ d) : c = d.other := by
  cases c <;> cases d <;> simp_all [Color.other]

@[simp] theorem Color.other_ne (c : Color) : c.other ≠ c := by
  cases c <;> simp [Color.other]

/-- A Piece object. Its fields are set once by the initializer; `ref` is the
identity of the object, which Swift classes have and two equal pieces do not share. -/
structure Piece where
  ref : Nat
  pieceType : PieceType
  position : Int
  color : Color
  deriving DecidableEq, Repr

/-- A square of the board, numbered 0...63 from white's left corner. -/
abbrev Square := Fin 64

/-- `position / 8` -/
def row (position : Int) : Int := position.tdiv 8

/-- `position % 8` -/
def col (position : Int) : Int := position.tmod 8

theorem row_eq {k : Int} (h : 0 ≤ k) : row k = k / 8 := Int.tdiv_eq_ediv_of_nonneg h

theorem col_eq {k : Int} (h : 0 ≤ k) : col k = k % 8 := Int.tmod_eq_emod_of_nonneg h

def Square.key (s : Square) : Int := (s.val : Int)

theorem Square.key_range (s : Square) : 0 ≤ s.key ∧ s.key ≤ 63 := by
  have hs := s.isLt
  unfold Square.key
  omega

theorem Square.key_inj {s t : Square} : s.key = t.key ↔ s = t := by
  rw [Fin.ext_iff, Square.key, Square.key, Int.natCast_inj]

theorem exists_square {k : Int} (h : 0 ≤ k ∧ k ≤ 63) : ∃ s : Square, s.key = k :=
  ⟨⟨k.toNat, by omega⟩, Int.toNat_of_nonneg h.1⟩

theorem Square.row_range (s : Square) : 0 ≤ row s.key ∧ row s.key ≤ 7 := by
  have hs := s.key_range
  rw [row_eq hs.1]
  omega

theorem Square.col_range (s : Square) : 0 ≤ col s.key ∧ col s.key ≤ 7 := by
  have hs := s.key_range
  rw [col_eq hs.1]
  omega

theorem row_coordinates {r c : Int} (hr : 0 ≤ r) (hc : 0 ≤ c ∧ c ≤ 7) : row (r * 8 + c) = r := by
  rw [row_eq (by omega)]
  omega

theorem col_coordinates {r c : Int} (hr : 0 ≤ r) (hc : 0 ≤ c ∧ c ≤ 7) : col (r * 8 + c) = c := by
  rw [col_eq (by omega)]
  omega

@[simp] theorem row_col (k : Int) : row k * 8 + col k = k := by
  rw [Int.mul_comm]
  exact Int.mul_tdiv_add_tmod k 8

end MyIVR
