import MyIVR.Screen.Arrangement

/-! Lists of quiet moves on the screen. Each exchanges two buttons, so that the buttons
stay on the cells of their squares and the images are permuted. -/
namespace MyIVR
open Swift Placement

/-- The closure of replaceButton as the source writes it, with the keys of the two
entries put together from rows and columns. -/
def TwoPlayerGame.replaceButton (v : View) (position nextPosition : Int) : View :=
  let row := MyIVR.row position
  let col := MyIVR.col position
  let row1 := MyIVR.row nextPosition
  let col1 := MyIVR.col nextPosition
  let v := v.setFrame position (cellFrame nextPosition)
  let v := v.setFrame nextPosition (cellFrame position)
  let a := v.boardButton (row1 * 8 + col1)
  let v := v.assign (row1 * 8 + col1) (v.boardButton (row * 8 + col))
  v.assign (row * 8 + col) a

theorem TwoPlayerGame.replaceButton_eq (v : View) (position nextPosition : Int) :
    TwoPlayerGame.replaceButton v position nextPosition = MyIVR.replaceButton v position nextPosition := by
  simp only [TwoPlayerGame.replaceButton, row_col]
  rfl

def replaceButtons (calls : List (Square × Square)) (v : View) : View :=
  calls.foldl (fun v c => TwoPlayerGame.replaceButton v c.1.key c.2.key) v

@[simp] theorem replaceButtons_nil (v : View) : replaceButtons [] v = v := rfl

@[simp] theorem replaceButtons_snoc (calls : List (Square × Square)) (p q : Square) (v : View) :
    replaceButtons (calls ++ [(p, q)]) v = MyIVR.replaceButton (replaceButtons calls v) p.key q.key := by
  rw [replaceButtons, List.foldl_append, List.foldl_cons, List.foldl_nil, replaceButtons,
    TwoPlayerGame.replaceButton_eq]

namespace View

def images (v : View) (s : Square) : Option (Option String) :=
  (v.boardButton s.key).map fun r => (v.button r).image

/-- Every square has a button on its cell, a press of which is decoded to the square, and
no two squares have the same. -/
structure OnCells (v : View) : Prop where
  frame : ∀ s : Square, ∃ r, v.boardButton s.key = some r ∧ (v.button r).frame = cellFrame s.key ∧
    decodeCenter (v.button r).frame = s.key
  distinct : ∀ s t : Square, v.boardButton s.key = v.boardButton t.key → s = t

end View

namespace Aligned
variable {v w : View} {ref : Square → Nat} {image : Square → Option String}

theorem onCells (h : Aligned v ref image) : v.OnCells := by
  refine ⟨fun s => ⟨ref s, h.entry s, ?_, ?_⟩, fun s t heq => ?_⟩
  · rw [h.button]
  · rw [h.button]
    exact decode_cellFrame s
  · rw [h.entry, h.entry, Option.some.injEq] at heq
    exact h.ref_inj.mp heq

theorem images (h : Aligned v ref image) : v.images = some ∘ image := by
  funext s
  rw [View.images, h.entry, Option.map_some, h.button]
  rfl

/-- What an aligned view holds besides the entries of the squares and their buttons. -/
structure SameRest (ref : Square → Nat) (v w : View) : Prop where
  button : ∀ r, (∀ s, ref s ≠ r) → w.button r = v.button r
  entry : ∀ i, (∀ s : Square, s.key ≠ i) → w.boardButton i = v.boardButton i
  fresh : w.fresh = v.fresh
  subviews : w.subviews = v.subviews

theorem eq_of_rest (hv : Aligned v ref image) (hw : Aligned w ref image) (hrest : SameRest ref v w) :
    w = v := by
  have hbutton : w.button = v.button := by
    funext r
    by_cases hr : ∃ s, ref s = r
    · obtain ⟨s, rfl⟩ := hr
      rw [hw.button, hv.button]
    · exact hrest.button r (not_exists.mp hr)
  have hentry : w.boardButton = v.boardButton := by
    funext i
    by_cases hi : ∃ s : Square, s.key = i
    · obtain ⟨s, rfl⟩ := hi
      rw [hw.entry, hv.entry]
    · exact hrest.entry i (not_exists.mp hi)
  cases v
  cases w
  rw [View.mk.injEq]
  exact ⟨hbutton, hrest.fresh, hentry, hrest.subviews⟩

theorem rest_replaceButton (h : Aligned v ref image) (p q : Square) :
    SameRest ref v (MyIVR.replaceButton v p.key q.key) := by
  refine ⟨fun r hr => h.replaceButton_other p q hr, fun i hi => ?_, ?_, ?_⟩
  · simp only [MyIVR.replaceButton, View.assign, View.setFrame_boardButton]
    rw [if_neg (hi p).symm, if_neg (hi q).symm]
  · simp only [MyIVR.replaceButton, View.assign, View.setFrame_fresh]
  · simp only [MyIVR.replaceButton, View.assign, View.setFrame_subviews]

theorem replaceButton_twice (h : Aligned v ref image) (p q : Square) :
    MyIVR.replaceButton (MyIVR.replaceButton v p.key q.key) p.key q.key = v := by
  have hfirst := h.replaceButton p q
  have hsecond := hfirst.replaceButton p q
  have hrest := h.rest_replaceButton p q
  have hrest' := hfirst.rest_replaceButton p q
  have hcancel {α : Type} (f : Square → α) : (f ∘ Equiv.swap p q) ∘ Equiv.swap p q = f := by
    rw [Function.comp_assoc, ← Equiv.Perm.coe_mul, Equiv.swap_mul_self, Equiv.Perm.coe_one,
      Function.comp_id]
  rw [hcancel, hcancel] at hsecond
  refine h.eq_of_rest hsecond ⟨fun r hr => ?_, fun i hi => ?_, ?_, ?_⟩
  · exact (hrest'.button r (fun s => hr _)).trans (hrest.button r hr)
  · exact (hrest'.entry i hi).trans (hrest.entry i hi)
  · exact hrest'.fresh.trans hrest.fresh
  · exact hrest'.subviews.trans hrest.subviews

/-- After any list of calls the buttons are rearranged by the product of the exchanges. -/
theorem replaceButtons (h : Aligned v ref image) (calls : List (Square × Square)) :
    Aligned (MyIVR.replaceButtons calls v) (ref ∘ swaps calls) (image ∘ swaps calls) := by
  induction calls using List.reverseRecOn with
  | nil =>
    rw [replaceButtons_nil, swaps_nil, Equiv.Perm.coe_one, Function.comp_id, Function.comp_id]
    exact h
  | append_singleton calls c ih =>
    obtain ⟨p, q⟩ := c
    rw [replaceButtons_snoc, comp_swaps_snoc, comp_swaps_snoc]
    exact ih.replaceButton p q

end Aligned

section painted
variable {figureNumber : String} {b : Board} {v₀ v : View}

/-- From a painted view on, any quiet moves keep the buttons on the cells of their squares
and permute the images, and the last move is undone by its repetition. -/
theorem quietMoves_aligned (h : paint figureNumber b v₀ = .ok v) (calls : List (Square × Square)) :
    (replaceButtons calls v).OnCells ∧
      (∀ s : Square, (replaceButtons calls v).boardButton s.key = v.boardButton (swaps calls s).key) ∧
      (replaceButtons calls v).images = v.images ∘ swaps calls ∧
      ∀ p q, replaceButtons (calls ++ [(p, q)] ++ [(p, q)]) v = replaceButtons calls v := by
  have haligned := (paint_aligned h).replaceButtons calls
  refine ⟨haligned.onCells, fun s => ?_, ?_, fun p q => ?_⟩
  · rw [haligned.entry, (paint_aligned h).entry]
    rfl
  · rw [haligned.images, (paint_aligned h).images]
    rfl
  · rw [replaceButtons_snoc, replaceButtons_snoc, haligned.replaceButton_twice]

end painted

/-- On a new game's view the knights of 1 and 62 come out; the first move is then taken back. -/
theorem knights_aligned : ∃ v, paint "1" GameData.new.initBoardA.boardA .new = .ok v ∧
    (replaceButtons [(1, 18), (62, 45), (1, 18)] v).OnCells ∧
    (replaceButtons [(1, 18), (62, 45), (1, 18)] v).images 45 = v.images 62 ∧
    (replaceButtons [(1, 18), (62, 45), (1, 18)] v).images 1 = v.images 1 := by
  obtain ⟨v, hv, _⟩ := paint_arranged "1" full_newGame
  obtain ⟨hcells, _, himages, _⟩ := quietMoves_aligned hv [(1, 18), (62, 45), (1, 18)]
  have h45 : swaps [(1, 18), (62, 45), (1, 18)] (45 : Square) = 62 := by decide
  have h1 : swaps [(1, 18), (62, 45), (1, 18)] (1 : Square) = 1 := by decide
  refine ⟨v, hv, hcells, ?_, ?_⟩
  · rw [himages, Function.comp_apply, h45]
  · rw [himages, Function.comp_apply, h1]

end MyIVR
