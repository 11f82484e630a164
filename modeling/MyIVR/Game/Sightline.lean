import MyIVR.Game.BranchSpecs

/-! The move test as a look along a line of keys. Each branch checks its geometry
and its target, then looks up keys one after another until one is occupied or
missing; only the line and the two checks differ between the branches. -/
namespace MyIVR
open Swift Full

/-- What a look along keys meets first. -/
inductive Sight where
  | clear | blocked | leaves
  deriving DecidableEq, Repr

def OnBoard (k : Int) : Prop := 0 ≤ k ∧ k ≤ 63

instance (k : Int) : Decidable (OnBoard k) := inferInstanceAs (Decidable (_ ∧ _))

/-- Look along keys: an occupied square blocks, a key off the board is left by. -/
def look (free : Int → Bool) : List Int → Sight
  | [] => .clear
  | k :: rest => if OnBoard k then if free k then look free rest else .blocked else .leaves

/-- What the test answers. -/
def Sight.answer : Sight → Except Fault Bool
  | clear => .ok true
  | blocked => .ok false
  | leaves => .error .missingKey

theorem Sight.answer_inj {s t : Sight} : s.answer = t.answer ↔ s = t := by
  cases s <;> cases t <;> simp [answer]

theorem Sight.answer_errs_iff {s : Sight} : (∃ e, s.answer = .error e) ↔ s = .leaves := by
  cases s <;> simp [answer]

/-- The answer is that of a proposition when the look does not leave the board, and is
clear exactly where the proposition holds. -/
theorem Sight.answer_eq_decide {s : Sight} {P : Prop} [Decidable P] :
    s.answer = .ok (decide P) ↔ s ≠ .leaves ∧ (s = .clear ↔ P) := by
  cases s <;> simp [answer, eq_comm]

theorem look_eq_clear_iff {free : Int → Bool} {l : List Int} :
    look free l = .clear ↔ ∀ k ∈ l, OnBoard k ∧ free k = true := by
  induction l with
  | nil => simp [look]
  | cons k rest ih =>
    rw [look, List.forall_mem_cons, ← ih]
    split
    · split <;> simp [*]
    · simp [*]

/-- A line that leaves the board at most once is left when nothing on it blocks. -/
theorem look_eq_leaves_iff {free : Int → Bool} {l : List Int}
    (hcut : l.Pairwise (fun j k => OnBoard k → OnBoard j)) :
    look free l = .leaves ↔ (∃ k ∈ l, ¬ OnBoard k) ∧ ∀ k ∈ l, OnBoard k → free k = true := by
  induction l with
  | nil => simp [look]
  | cons k rest ih =>
    obtain ⟨hk, hrest⟩ := List.pairwise_cons.mp hcut
    rw [look]
    split
    · rename_i hin
      cases hfree : free k with
      | true => simp [ih hrest, hin, hfree]
      | false => simp [hin, hfree]
    · rename_i hout
      refine iff_of_true rfl ⟨⟨k, List.mem_cons_self, hout⟩, fun j hj hin => ?_⟩
      rcases List.mem_cons.mp hj with rfl | hj
      · exact absurd hin hout
      · exact absurd (hk j hj hin) hout

theorem look_inside {free : Int → Bool} {l : List Int} (h : ∀ k ∈ l, OnBoard k) : look free l ≠ .leaves := by
  induction l with
  | nil => simp [look]
  | cons k rest ih =>
    rw [List.forall_mem_cons] at h
    rw [look, if_pos h.1]
    split
    · exact ih h.2
    · simp

theorem Full.scan_occupied {b : Board} (h : Full b) (l : List Int) :
    Loops.scan (occupied b) l = (look (emptyAt b) l).answer := by
  induction l with
  | nil => rfl
  | cons k rest ih =>
    rw [look, Loops.scan]
    by_cases hk : OnBoard k
    · rw [h.occupied_inside hk, if_pos hk]
      cases emptyAt b k with
      | true => exact ih
      | false => rfl
    · rw [h.occupied_outside hk, if_neg hk]
      rfl

/-- The geometry each branch asks for. -/
def Reaches (type : PieceType) (color : Color) (p q : Int) : Prop :=
  match type with
  | .rook => col p = col q ∨ row p = row q
  | .queen => |row p - row q| = |col p - col q| ∨ (col p = col q ∨ row p = row q)
  | .bishop => |row p - row q| = |col p - col q|
  | .pawn => pawnStep color p q
  | .knight => knightJump (row p) (col p) (row q) (col q)
  | .king | .empty => False

instance (type : PieceType) (color : Color) (p q : Int) : Decidable (Reaches type color p q) := by
  cases type
  · exact inferInstanceAs (Decidable (_ ∨ _))
  · exact isFalse id
  · exact inferInstanceAs (Decidable (knightJump _ _ _ _))
  · exact inferInstanceAs (Decidable (_ ∨ _ ∨ _))
  · exact inferInstanceAs (Decidable (_ = _))
  · exact inferInstanceAs (Decidable (pawnStep _ _ _))
  · exact isFalse id

/-- What each branch asks of the target. The bishop's asks nothing. -/
def Admits (b : Board) (type : PieceType) (color : Color) (q : Int) : Prop :=
  match type with
  | .rook => emptyAt b q = true ∨ colorAt b q ≠ some color
  | .bishop => True
  | _ => emptyAt b q = true

instance (b : Board) (type : PieceType) (color : Color) (q : Int) :
    Decidable (Admits b type color q) := by
  cases type
  · exact inferInstanceAs (Decidable (_ ∨ _))
  all_goals first | exact isTrue trivial | exact inferInstanceAs (Decidable (_ = _))

/-- On an occupied target only two branches go on, and the rook's only against the other colour. -/
theorem admits_occupied {b : Board} {type : PieceType} {c : Color} {q : Int} (hq : emptyAt b q = false) :
    Admits b type c q ↔ type = .bishop ∨ type = .rook ∧ colorAt b q ≠ some c := by
  cases type <;> simp [Admits, hq]

theorem admits_empty {b : Board} (type : PieceType) (c : Color) {q : Int} (hq : emptyAt b q = true) :
    Admits b type c q := by
  cases type <;> simp [Admits, hq]

/-- The keys each branch looks up in turn, for squares in its geometry. -/
def sightline (type : PieceType) (p q : Int) : List Int :=
  match type with
  | .rook =>
    if row p = row q then (line p q).map (fun i => max i 1 * 8 + col p) else (line p q).map (rookKey p)
  | .queen =>
    if row p = row q then (line p q).map (fun i => i * 8 + col p)
    else if col p = col q then (line p q).map (fun i => row q * 8 + i)
    else (List.range rounds).map (fun k : Nat => queenKey p q (k + 1))
  | .bishop => (List.range (row q - row p).natAbs).map (fun k : Nat => bishopKey p q (k + 1))
  | _ => []

namespace Full
variable {b : Board}

private theorem scan_congr {f g : Int → Except Fault Bool} {l : List Int} (h : ∀ i ∈ l, f i = g i) :
    Loops.scan f l = Loops.scan g l := by
  induction l with
  | nil => rfl
  | cons i rest ih =>
    rw [List.forall_mem_cons] at h
    rw [Loops.scan, Loops.scan, h.1, ih h.2]

theorem same_square {p q : Square} (hr : row p.key = row q.key) (hc : col p.key = col q.key) :
    p = q :=
  Square.key_inj.mp (by rw [← row_col p.key, ← row_col q.key, hr, hc])

section scans
variable {p q : Square}

private theorem rook_scan_row (h : Full b) (hr : row p.key = row q.key) (hc : col p.key ≠ col q.key) :
    Loops.scan (rookBlocked b (row p.key) (col p.key) (row q.key) (col q.key)) (line p.key q.key) =
      Loops.scan (occupied b) ((line p.key q.key).map (fun i => max i 1 * 8 + col p.key)) := by
  rw [Loops.scan_map]
  refine scan_congr fun i hi => ?_
  have hrange := line_range p q hi
  have hp := p.col_range
  have hk : 0 ≤ max i 1 * 8 + col p.key ∧ max i 1 * 8 + col p.key ≤ 63 := by omega
  rw [rookBlocked_row h p q hc hr hrange, h.occupied_inside hk]

private theorem rook_scan_column (h : Full b) (hr : row p.key ≠ row q.key) (hc : col p.key = col q.key) :
    Loops.scan (rookBlocked b (row p.key) (col p.key) (row q.key) (col q.key)) (line p.key q.key) =
      Loops.scan (occupied b) ((line p.key q.key).map (rookKey p.key)) := by
  rw [Loops.scan_map]
  refine scan_congr fun i hi => ?_
  have hrange := line_range p q hi
  obtain ⟨hin, hout⟩ := rookBlocked_column h p q hc hr hrange
  have hp := p.row_range
  by_cases hstay : row p.key + max i 1 ≤ 7
  · have hk : 0 ≤ rookKey p.key i ∧ rookKey p.key i ≤ 63 := by
      unfold rookKey
      omega
    rw [hin hstay, h.occupied_inside hk]
  · have hk : ¬ (0 ≤ rookKey p.key i ∧ rookKey p.key i ≤ 63) := by
      unfold rookKey
      omega
    rw [hout hstay, h.occupied_outside hk]

private theorem queen_scan_row (hr : row p.key = row q.key) (hc : col p.key ≠ col q.key) :
    Loops.scan (queenBlocked b (row p.key) (col p.key) (row q.key) (col q.key)) (line p.key q.key) =
      Loops.scan (occupied b) ((line p.key q.key).map (fun i => i * 8 + col p.key)) := by
  rw [Loops.scan_map]
  refine scan_congr fun i hi => ?_
  simp only [queenBlocked, andThen_false hc, andThen_true hr, ok_bind]
  rfl

private theorem queen_scan_column (h : Full b) (hr : row p.key ≠ row q.key) (hc : col p.key = col q.key) :
    Loops.scan (queenBlocked b (row p.key) (col p.key) (row q.key) (col q.key)) (line p.key q.key) =
      Loops.scan (occupied b) ((line p.key q.key).map (fun i => row q.key * 8 + i)) := by
  rw [Loops.scan_map]
  refine scan_congr fun i hi => ?_
  have hrange := line_range p q hi
  have hrq := q.row_range
  have hk := h.occupied_inside (k := row q.key * 8 + i) (by omega)
  simp only [queenBlocked, andThen_true hc, andThen_false hr, hk, ok_bind, pure_eq_ok]
  cases emptyAt b (row q.key * 8 + i) <;> rfl

end scans

section leaves
variable (free : Int → Bool) {p q : Square}

private theorem line_inside {f : Int → Int} (hf : ∀ i, 0 ≤ i ∧ i ≤ 7 → OnBoard (f i)) :
    ∀ k ∈ (line p.key q.key).map f, OnBoard k := by
  intro k hk
  obtain ⟨i, hi, rfl⟩ := List.mem_map.mp hk
  exact hf i (line_range p q hi)

private theorem rook_column_leaves_iff (hr : row p.key ≠ row q.key) (hc : col p.key = col q.key) :
    look free ((line p.key q.key).map (rookKey p.key)) = .leaves ↔ rookLeaves free p.key q.key := by
  have hrp := p.row_range
  have hindices : line p.key q.key = upTo (min (row p.key) (row q.key)) (max (row p.key) (row q.key)) :=
    if_neg hr
  have hstay {i : Int} (hi : i ∈ line p.key q.key) : OnBoard (rookKey p.key i) ↔ row p.key + max i 1 ≤ 7 := by
    have hrange := line_range p q hi
    unfold OnBoard rookKey
    omega
  -- the keys increase with the rounds, so behind the first one off the board all are
  have hcut : ((line p.key q.key).map (rookKey p.key)).Pairwise (fun j k => OnBoard k → OnBoard j) := by
    rw [List.pairwise_map, hindices]
    refine (upTo_increasing _ _).imp fun {i j} hij => ?_
    unfold OnBoard rookKey
    omega
  rw [look_eq_leaves_iff hcut]
  constructor
  · rintro ⟨⟨k, hk, hout⟩, hfree⟩
    obtain ⟨i, hi, rfl⟩ := List.mem_map.mp hk
    rw [hstay hi] at hout
    refine ⟨hc, hr, ?_, fun j hj hin => ?_⟩
    · rw [hindices, mem_upTo] at hi
      omega
    · rw [← hindices] at hj
      exact hfree _ (List.mem_map_of_mem hj) ((hstay hj).mpr hin)
  · rintro ⟨_, _, hlast, hfree⟩
    have hmem : max (row p.key) (row q.key) ∈ line p.key q.key := by
      rw [hindices, mem_upTo]
      omega
    refine ⟨⟨_, List.mem_map_of_mem hmem, fun hin => ?_⟩, fun k hk hin => ?_⟩
    · have hround := (hstay hmem).mp hin
      omega
    · obtain ⟨i, hi, rfl⟩ := List.mem_map.mp hk
      exact hfree i (hindices ▸ hi) ((hstay hi).mp hin)

/-- Of the rook's lines one along a column leaves the board, where it passes row 7. -/
theorem rook_leaves_iff (hline : col p.key = col q.key ∨ row p.key = row q.key) :
    look free (sightline .rook p.key q.key) = .leaves ↔ rookLeaves free p.key q.key := by
  have hcp := p.col_range
  rw [sightline]
  by_cases hr : row p.key = row q.key
  · rw [if_pos hr]
    refine iff_of_false (look_inside (line_inside fun i hi => ?_)) (fun hl => hl.2.1 hr)
    unfold OnBoard
    omega
  · rw [if_neg hr]
    exact rook_column_leaves_iff free hr (hline.resolve_right hr)

private theorem queen_diagonal_leaves_iff (hd : |row p.key - row q.key| = |col p.key - col q.key|)
    (hr : row p.key ≠ row q.key) (hc : col p.key ≠ col q.key) :
    look free ((List.range rounds).map (fun k : Nat => queenKey p.key q.key (k + 1))) = .leaves ↔
      queenLeaves free p.key q.key := by
  obtain ⟨step, hstep, hkey⟩ := walkKey_cases p.key (sub_ne_zero.mpr hr) (sub_ne_zero.mpr hc)
  have hp := p.key_range
  have hcut : ((List.range rounds).map (fun k : Nat => queenKey p.key q.key (k + 1))).Pairwise
      (fun j k => OnBoard k → OnBoard j) := by
    rw [List.pairwise_map]
    refine List.pairwise_lt_range.imp fun {i j} hij => ?_
    simp only [OnBoard, queenKey, hkey]
    rcases hstep with rfl | rfl | rfl | rfl <;> omega
  rw [look_eq_leaves_iff hcut]
  constructor
  · rintro ⟨_, hfree⟩
    refine ⟨hd, hr, fun k hk hin => ?_⟩
    rw [mem_upTo] at hk
    obtain ⟨n, rfl⟩ : ∃ n : Nat, k = n + 1 := ⟨(k - 1).toNat, by omega⟩
    exact hfree _ (List.mem_map.mpr ⟨n, by simp only [rounds, List.mem_range]; omega, rfl⟩) hin
  · rintro ⟨_, _, hfree⟩
    refine ⟨⟨queenKey p.key q.key ((9 : Nat) + 1), List.mem_map.mpr ⟨9, by simp [rounds], rfl⟩,
      queenKey_outside p q hr hc (by norm_num)⟩, fun k hk hin => ?_⟩
    obtain ⟨n, _, rfl⟩ := List.mem_map.mp hk
    have hlast : (n : Int) + 1 ≤ 9 := by
      by_contra hlt
      exact queenKey_outside p q hr hc (by omega) hin
    exact hfree _ (mem_upTo.mpr (by omega)) hin

/-- Of the queen's lines the diagonal one leaves the board, where nothing blocks it. -/
theorem queen_leaves_iff (hreach : |row p.key - row q.key| = |col p.key - col q.key| ∨
      (col p.key = col q.key ∨ row p.key = row q.key)) :
    look free (sightline .queen p.key q.key) = .leaves ↔ queenLeaves free p.key q.key := by
  have hcp := p.col_range
  have hrq := q.row_range
  rw [sightline]
  by_cases hr : row p.key = row q.key
  · rw [if_pos hr]
    refine iff_of_false (look_inside (line_inside fun i hi => ?_)) (fun hl => hl.2.1 hr)
    unfold OnBoard
    omega
  by_cases hc : col p.key = col q.key
  · rw [if_neg hr, if_pos hc]
    refine iff_of_false (look_inside (line_inside fun i hi => ?_)) (fun hl => queenLeaves_col hl hc)
    unfold OnBoard
    omega
  · rw [if_neg hr, if_neg hc]
    exact queen_diagonal_leaves_iff free (hreach.resolve_right (not_or.mpr ⟨hc, hr⟩)) hr hc

theorem bishop_line_inside (hd : |row p.key - row q.key| = |col p.key - col q.key|) :
    ∀ k ∈ sightline .bishop p.key q.key, OnBoard k := by
  intro k hk
  obtain ⟨n, hn, rfl⟩ := List.mem_map.mp hk
  have hrange := bishopKey_range p q hd (Nat.succ_le_of_lt (List.mem_range.mp hn))
  push_cast at hrange
  exact hrange

theorem target_mem_bishop_line {p q : Square} (hne : p ≠ q)
    (hd : |row p.key - row q.key| = |col p.key - col q.key|) :
    q.key ∈ sightline .bishop p.key q.key := by
  have hlast := bishopKey_last hd
  have hpos : (row q.key - row p.key).natAbs ≠ 0 := by
    intro hzero
    have hcol := diagonal_natAbs hd
    exact hne (same_square (by omega) (by omega))
  refine List.mem_map.mpr ⟨(row q.key - row p.key).natAbs - 1, List.mem_range.mpr (by omega), ?_⟩
  rw [← Nat.cast_add_one, Nat.sub_add_cancel (Nat.pos_of_ne_zero hpos), hlast]

end leaves

/-- Only along a rook's column and a queen's diagonal a look leaves the board. -/
theorem look_leaves_iff (free : Int → Bool) {type : PieceType} {color : Color} {p q : Square}
    (hr : Reaches type color p.key q.key) :
    look free (sightline type p.key q.key) = .leaves ↔
      type = .rook ∧ rookLeaves free p.key q.key ∨ type = .queen ∧ queenLeaves free p.key q.key := by
  cases type with
  | rook => simpa using rook_leaves_iff free hr
  | queen => simpa using queen_leaves_iff free hr
  | bishop => simpa using look_inside (bishop_line_inside hr)
  | pawn | knight | king | empty => simp [sightline, look]

private theorem rookTest_look (h : Full b) (p q : Square) {x : Piece} (hx : b p.key = some x)
    (hrook : x.pieceType = .rook) :
    rookTest b x p.key q.key =
      if Reaches .rook x.color p.key q.key ∧ Admits b .rook x.color q.key then
        (look (emptyAt b) (sightline .rook p.key q.key)).answer
      else .ok false := by
  obtain ⟨y, hy⟩ := h.at_square q
  have target : Admits b .rook x.color q.key ↔ (y.pieceType = .empty ∨ y.color ≠ x.color) := by
    rw [Admits, emptyAt_some hy, colorAt_some hy, beq_iff_eq, ne_eq, Option.some.injEq]
  simp only [rookTest, hy, force_some, ok_bind, closedRange_need, pure_eq_ok, target, Reaches]
  split
  · rename_i hall
    rw [← h.scan_occupied, sightline]
    by_cases hr : row p.key = row q.key
    · have hc : col p.key ≠ col q.key := by
        intro hc
        have same := same_square hr hc
        rw [← same, hx, Option.some.injEq] at hy
        have ht := hall.2
        simp [← hy, hrook] at ht
      rw [if_pos hr]
      exact rook_scan_row h hr hc
    · rw [if_neg hr]
      exact rook_scan_column h hr (hall.1.resolve_right hr)
  · rfl

private theorem queenTest_look (h : Full b) (p q : Square) {x : Piece} (hx : b p.key = some x)
    (hqueen : x.pieceType = .queen) :
    queenTest b p.key q.key =
      if Reaches .queen x.color p.key q.key ∧ Admits b .queen x.color q.key then
        (look (emptyAt b) (sightline .queen p.key q.key)).answer
      else .ok false := by
  simp only [queenTest, closedRange_need, ok_bind, pure_eq_ok]
  by_cases ha : |row p.key - row q.key| = |col p.key - col q.key| ∨
      (col p.key = col q.key ∨ row p.key = row q.key)
  · rw [andThen_true ha, h.vacant_inside q.key_range, ok_bind]
    by_cases hq : emptyAt b q.key = true
    · have hcol (hr : row p.key = row q.key) : col p.key ≠ col q.key := by
        intro hc
        have hp := emptyAt_some hx
        rw [same_square hr hc, hq, hqueen] at hp
        cases hp
      have both : Reaches .queen x.color p.key q.key ∧ Admits b .queen x.color q.key := ⟨ha, hq⟩
      rw [if_pos hq, if_pos both, ← h.scan_occupied, sightline]
      by_cases hr : row p.key = row q.key
      · rw [if_pos (.inr hr), if_pos hr]
        exact queen_scan_row hr (hcol hr)
      · rw [if_neg hr]
        by_cases hc : col p.key = col q.key
        · rw [if_pos (Or.inl hc), if_pos hc]
          exact queen_scan_column h hr hc
        · have hd := ha.resolve_right (not_or.mpr ⟨hc, hr⟩)
          rw [if_neg (not_or.mpr ⟨hc, hr⟩), if_pos hd, if_neg hc, Loops.scan_map]
          exact (queenWalk_eq h p q hr hc).1
    · have target : ¬ (Reaches .queen x.color p.key q.key ∧ Admits b .queen x.color q.key) :=
        fun both => hq both.2
      rw [if_neg hq, if_neg target]
  · have geometry : ¬ (Reaches .queen x.color p.key q.key ∧ Admits b .queen x.color q.key) :=
      fun both => ha both.1
    rw [andThen_false ha, if_neg geometry]
    rfl

/-- The move test on a full board: geometry, target, and a look along the line. -/
theorem canGoTo_look (h : Full b) (p q : Square) {x : Piece} (hx : b p.key = some x) :
    canGoTo b p.key q.key =
      if Reaches x.pieceType x.color p.key q.key ∧ Admits b x.pieceType x.color q.key then
        (look (emptyAt b) (sightline x.pieceType p.key q.key)).answer
      else .ok false := by
  simp only [canGoTo, hx, force_some, ok_bind, pure_eq_ok]
  cases ht : x.pieceType with
  | rook => exact h.rookTest_look p q hx ht
  | queen => exact h.queenTest_look p q hx ht
  | pawn =>
    simp only [h.pawnTest_eq, Reaches, Admits, sightline, look, Sight.answer]
    split <;> simp_all
  | knight =>
    simp only [h.knightTest_eq, Reaches, Admits, sightline, look, Sight.answer]
    split <;> simp_all
  | bishop =>
    simp only [bishopTest_eq, Reaches, Admits, and_true, sightline]
    split
    · rw [← h.scan_occupied, Loops.scan_map]
    · rfl
  | king => simp [Reaches]
  | empty => simp [Reaches]

end Full
end MyIVR
