import MyIVR.Foundations.Placement
import MyIVR.Game.TurnInvariant
import MyIVR.Screen.View

/-! Views in which every cell has its button. Painting builds one and exchanging
two buttons keeps it; the closure of a capture leaves a button outside the view. -/
namespace MyIVR
open Swift

def picture (figureNumber : String) (b : Board) (s : Square) : Option String :=
  (occupants b s).map (imageName figureNumber)

/-- The view contains exactly one button on the cell of the square. It is the one
of the dictionary, a press of it is decoded to the square, and it shows the image. -/
def View.ShowsCell (v : View) (s : Square) (image : Option String) : Prop :=
  ∃ r, v.boardButton s.key = some r ∧
    v.subviews.filter (fun r => (v.button r).frame = cellFrame s.key) = [r] ∧
    (v.button r).target = true ∧ decodeCenter (v.button r).frame = s.key ∧ (v.button r).image = image

def View.Displays (figureNumber : String) (v : View) (b : Board) : Prop :=
  ∀ s : Square, v.ShowsCell s (picture figureNumber b s)

/-- The dictionary has a button for each cell, in its place, with its image and target. -/
structure Aligned (v : View) (ref : Square → Nat) (image : Square → Option String) : Prop where
  entry : ∀ s, v.boardButton s.key = some (ref s)
  button : ∀ s, v.button (ref s) = ⟨cellFrame s.key, image s, true⟩

namespace Aligned
variable {v : View} {ref : Square → Nat} {image : Square → Option String}

theorem ref_inj (h : Aligned v ref image) {s t : Square} : ref s = ref t ↔ s = t := by
  constructor
  · intro heq
    have hs := h.button s
    rw [heq, h.button t, UIButton.mk.injEq] at hs
    exact (cellFrame_inj hs.1).symm
  · rintro rfl
    rfl

private theorem entry_modify (h : Aligned v ref image) (p q : Square) (f : UIButton → UIButton) :
    (v.modify p.key f).boardButton q.key = some (ref q) := by
  rw [View.modify_boardButton, h.entry]

theorem replaceButton (h : Aligned v ref image) (p q : Square) :
    Aligned (MyIVR.replaceButton v p.key q.key) (ref ∘ Equiv.swap p q) (image ∘ Equiv.swap p q) := by
  refine ⟨fun s => ?_, fun s => ?_⟩
  · simp only [MyIVR.replaceButton, View.assign, View.setFrame_boardButton, h.entry, Square.key_inj,
      Function.comp_apply, Equiv.swap_apply_def]
    split_ifs <;> simp_all
  · simp only [MyIVR.replaceButton, View.assign, View.setFrame, View.modify_button (h.entry_modify p q _),
      View.modify_button (h.entry p), Function.comp_apply, Equiv.swap_apply_def]
    by_cases hp : s = p
    · subst s
      rw [if_pos rfl, Function.update_self]
      by_cases hpq : q = p
      · subst q
        rw [Function.update_self, h.button]
      · rw [Function.update_of_ne (fun heq => hpq (h.ref_inj.mp heq)), h.button]
    · rw [if_neg hp]
      by_cases hs : s = q
      · subst s
        rw [if_pos rfl, Function.update_of_ne (fun heq => hp (h.ref_inj.mp heq.symm)),
          Function.update_self, h.button]
      · rw [if_neg hs, Function.update_of_ne (fun heq => hs (h.ref_inj.mp heq)),
          Function.update_of_ne (fun heq => hp (h.ref_inj.mp heq)), h.button]

theorem replaceButton_other (h : Aligned v ref image) (p q : Square) {r : Nat} (hr : ∀ s, ref s ≠ r) :
    (MyIVR.replaceButton v p.key q.key).button r = v.button r := by
  simp only [MyIVR.replaceButton, View.assign, View.setFrame, View.modify_button (h.entry_modify p q _),
    View.modify_button (h.entry p)]
  rw [Function.update_of_ne (hr q).symm, Function.update_of_ne (hr p).symm]

end Aligned

/-- Each cell has one button, the subviews are these buttons, and all are targets. -/
structure Arranged (v : View) (ref : Square → Nat) (image : Square → Option String) : Prop where
  entry : ∀ s, v.boardButton s.key = some (ref s)
  button : ∀ s, v.button (ref s) = ⟨cellFrame s.key, image s, true⟩
  subviews : ∀ r, r ∈ v.subviews ↔ ∃ s, ref s = r
  nodup : v.subviews.Nodup

namespace Arranged
variable {v : View} {ref : Square → Nat} {image : Square → Option String}

theorem aligned (h : Arranged v ref image) : Aligned v ref image := ⟨h.entry, h.button⟩

theorem shows (h : Arranged v ref image) (s : Square) : v.ShowsCell s (image s) := by
  refine ⟨ref s, h.entry s, ?_, ?_, ?_, ?_⟩
  · have hmem (r : Nat) : r ∈ v.subviews.filter (fun r => (v.button r).frame = cellFrame s.key) ↔
        r ∈ [ref s] := by
      rw [List.mem_filter, decide_eq_true_eq, h.subviews, List.mem_singleton]
      constructor
      · rintro ⟨⟨t, rfl⟩, hframe⟩
        rw [h.button t] at hframe
        rw [cellFrame_inj hframe]
      · rintro rfl
        exact ⟨⟨s, rfl⟩, by rw [h.button s]⟩
    exact List.perm_singleton.mp
      ((List.perm_ext_iff_of_nodup (h.nodup.filter _) (List.nodup_singleton _)).mpr hmem)
  · rw [h.button s]
  · rw [h.button s]
    exact decode_cellFrame s
  · rw [h.button s]

/-- An arranged view displays a board exactly when its images are the board's. -/
theorem displays_iff (h : Arranged v ref image) (figureNumber : String) (b : Board) :
    v.Displays figureNumber b ↔ image = picture figureNumber b := by
  constructor
  · intro hd
    funext s
    obtain ⟨r, hr, _, _, _, himage⟩ := hd s
    rw [h.entry s, Option.some.injEq] at hr
    rw [← himage, ← hr, h.button s]
  · rintro rfl s
    exact h.shows s

theorem replaceButton (h : Arranged v ref image) (p q : Square) :
    Arranged (MyIVR.replaceButton v p.key q.key) (ref ∘ Equiv.swap p q) (image ∘ Equiv.swap p q) := by
  have haligned := h.aligned.replaceButton p q
  refine ⟨haligned.entry, haligned.button, fun r => ?_, ?_⟩
  · simp only [MyIVR.replaceButton, View.assign, View.setFrame_subviews, h.subviews, Function.comp_apply]
    exact (Equiv.swap p q).exists_congr_left.trans (by simp)
  · simpa [MyIVR.replaceButton, View.assign] using h.nodup

end Arranged

/-- Some cell's button in the dictionary is not in the view. -/
def View.Detached (v : View) : Prop :=
  ∃ (s : Square) (r : Nat), v.boardButton s.key = some r ∧ r ∉ v.subviews

/-- The view holds only buttons that were created. -/
def View.Created (v : View) : Prop := ∀ r ∈ v.subviews, r < v.fresh

namespace View
variable {v : View}

theorem Detached.not_displays (h : v.Detached) (figureNumber : String) (b : Board) :
    ¬ v.Displays figureNumber b := by
  obtain ⟨s, r, hr, hout⟩ := h
  intro hd
  obtain ⟨r', hr', hfilter, _⟩ := hd s
  rw [hr, Option.some.injEq] at hr'
  subst r'
  exact hout (List.mem_of_mem_filter (hfilter ▸ List.mem_singleton_self r))

theorem Detached.replaceButton (h : v.Detached) (p q : Square) :
    (MyIVR.replaceButton v p.key q.key).Detached := by
  obtain ⟨s, r, hr, hout⟩ := h
  refine ⟨Equiv.swap p q s, r, ?_, ?_⟩
  · simp only [MyIVR.replaceButton, assign, setFrame_boardButton, Square.key_inj, Equiv.swap_apply_def]
    split_ifs <;> simp_all
  · simpa [MyIVR.replaceButton, assign] using hout

theorem Created.replaceButton (h : v.Created) (p q : Int) : (MyIVR.replaceButton v p q).Created := by
  intro r hr
  simp only [MyIVR.replaceButton, assign, setFrame_subviews, setFrame_fresh] at hr ⊢
  exact h r hr

theorem Created.captureButton (h : v.Created) (row col row1 col1 : Int) :
    (MyIVR.captureButton v row col row1 col1).Created := by
  intro r hr
  simp only [MyIVR.captureButton, placeNew, assign, setFrame_subviews, setFrame_fresh] at hr ⊢
  exact Nat.lt_succ_of_lt (h r hr)

theorem Created.detached_captureButton (h : v.Created) {row col row1 col1 : Int} {s : Square}
    (hs : row * 8 + col = s.key) : (MyIVR.captureButton v row col row1 col1).Detached := by
  refine ⟨s, v.fresh, ?_, fun hr => ?_⟩
  · simp [MyIVR.captureButton, placeNew, assign, hs]
  · simp only [MyIVR.captureButton, placeNew, assign, setFrame_subviews] at hr
    exact absurd (h _ hr) (Nat.lt_irrefl _)

end View

def View.withButton (v : View) (k : Int) (b : UIButton) : View where
  button := Function.update v.button v.fresh b
  fresh := v.fresh + 1
  boardButton := fun i => if i = k then some v.fresh else v.boardButton i
  subviews := v.subviews ++ [v.fresh]

/-- The view when buttons for the first n squares have been added to the view v₀. -/
structure View.Filled (v : View) (look : Square → UIButton) (v₀ : View) (n : Nat) : Prop where
  fresh : v.fresh = v₀.fresh + n
  subviews : v.subviews = v₀.subviews ++ (List.range n).map (v₀.fresh + ·)
  entry : ∀ s : Square, s.val < n → v.boardButton s.key = some (v₀.fresh + s.val)
  button : ∀ s : Square, s.val < n → v.button (v₀.fresh + s.val) = look s

theorem View.filled {round : View → Int → Except Fault View} {look : Square → UIButton}
    (hround : ∀ (s : Square) v, round v s.key = .ok (v.withButton s.key (look s))) (v₀ : View)
    (n : Nat) (hn : n ≤ 64) :
    ∃ v, ((List.range n).map (fun k : Nat => (0 : Int) + k)).foldlM round v₀ = .ok v ∧
      v.Filled look v₀ n := by
  induction n with
  | zero => exact ⟨v₀, rfl, rfl, (List.append_nil _).symm, fun s hs => absurd hs (Nat.not_lt_zero _),
      fun s hs => absurd hs (Nat.not_lt_zero _)⟩
  | succ n ih =>
    obtain ⟨v, hv, h⟩ := ih (Nat.le_of_succ_le hn)
    have hkey : (0 : Int) + n = Square.key ⟨n, hn⟩ := Int.zero_add _
    rw [List.range_succ, List.map_append, List.foldlM_append, hv, ok_bind, List.map_singleton, hkey,
      List.foldlM_cons, hround, ok_bind, List.foldlM_nil, pure_eq_ok]
    refine ⟨_, rfl, ?_, ?_, ?_, ?_⟩
    · exact congrArg (· + 1) h.fresh
    · rw [View.withButton, List.range_succ, List.map_append, ← List.append_assoc, ← h.subviews, h.fresh,
        List.map_singleton]
    · intro s hs
      rcases Nat.lt_succ_iff_lt_or_eq.mp hs with hlt | heq
      · have hne : s ≠ ⟨n, hn⟩ := fun he => by simp [he] at hlt
        simp only [View.withButton, Square.key_inj, hne, if_false]
        exact h.entry s hlt
      · have hs' : s = ⟨n, hn⟩ := Fin.ext heq
        simp [View.withButton, hs', h.fresh]
    · intro s hs
      rcases Nat.lt_succ_iff_lt_or_eq.mp hs with hlt | heq
      · have hne : v₀.fresh + s.val ≠ v.fresh := by
          rw [h.fresh]
          omega
        exact (Function.update_of_ne hne _ _).trans (h.button s hlt)
      · have hs' : s = ⟨n, hn⟩ := Fin.ext heq
        simp [View.withButton, hs', h.fresh]

section paint
variable {figureNumber : String} {b : Board}

private theorem picture_some {s : Square} {x : Piece} (hx : b s.key = some x) :
    picture figureNumber b s =
      if x.pieceType = .empty then none else some (imageName figureNumber x) := by
  rw [picture]
  split
  · rename_i hempty
    rw [occupants_of_emptyAt (by rw [emptyAt_some hx, beq_iff_eq, hempty])]
    rfl
  · rename_i hoccupied
    rw [occupants_eq_some.mpr ⟨hx, hoccupied⟩]
    rfl

private theorem paintSquare_eq {s : Square} {x : Piece} (hx : b s.key = some x) (v : View) :
    paintSquare figureNumber b v s.key =
      .ok (v.withButton s.key ⟨cellFrame s.key, picture figureNumber b s, true⟩) := by
  rw [picture_some hx, View.withButton]
  by_cases hempty : x.pieceType = .empty
  · simp only [paintSquare, View.setFrame, View.modify, View.placeNew, View.assign, View.addSubview, hx,
      hempty, if_true, Option.map_some, ne_eq, not_true_eq_false, if_false, pure_eq_ok, ok_bind,
      force_some, UIButton.new]
    congr 2
    funext r
    rw [Function.update_apply]
    split_ifs <;> rfl
  · simp only [paintSquare, View.setFrame, View.modify, View.placeNew, View.assign, View.addSubview, hx,
      hempty, if_true, if_false, Option.map_some, ne_eq, Option.some.injEq, not_false_eq_true,
      pure_eq_ok, ok_bind, force_some, UIButton.new]
    congr 2
    funext r
    rw [Function.update_apply]
    split_ifs <;> rfl

private theorem painted (figureNumber : String) (hb : ∀ s : Square, ∃ x, b s.key = some x) (v₀ : View) :
    ∃ v, paint figureNumber b v₀ = .ok v ∧
      v.Filled (fun s => ⟨cellFrame s.key, picture figureNumber b s, true⟩) v₀ 64 :=
  View.filled (fun s v => paintSquare_eq (hb s).choose_spec v) v₀ 64 (Nat.le_refl _)

/-- Painting a full board returns, and every cell shows its piece. -/
theorem paint_arranged (figureNumber : String) (hb : Full b) :
    ∃ v, paint figureNumber b .new = .ok v ∧ Arranged v Fin.val (picture figureNumber b) ∧
      v.Created := by
  obtain ⟨v, hv, h⟩ := painted figureNumber hb.at_square .new
  have hsubviews : v.subviews = List.range 64 := by
    rw [h.subviews]
    simp [View.new]
  refine ⟨v, hv, ⟨fun s => ?_, fun s => ?_, fun r => ?_, ?_⟩, fun r hr => ?_⟩
  · simpa [View.new] using h.entry s s.isLt
  · simpa [View.new] using h.button s s.isLt
  · rw [hsubviews, List.mem_range]
    exact ⟨fun hr => ⟨⟨r, hr⟩, rfl⟩, by rintro ⟨s, rfl⟩; exact s.isLt⟩
  · rw [hsubviews]
    exact List.nodup_range
  · rw [hsubviews, List.mem_range] at hr
    rw [h.fresh]
    exact Nat.lt_add_left _ hr

private theorem paintSquare_some {v w : View} {i : Int} (h : paintSquare figureNumber b v i = .ok w) :
    ∃ x, b i = some x := by
  cases hb : b i with
  | some x => exact ⟨x, rfl⟩
  | none =>
    rw [paintSquare, hb] at h
    cases h

private theorem paintSquares_some {l : List Int} {v w : View}
    (h : l.foldlM (paintSquare figureNumber b) v = .ok w) : ∀ i ∈ l, ∃ x, b i = some x := by
  induction l generalizing v with
  | nil => exact List.forall_mem_nil _
  | cons i rest ih =>
    rw [List.foldlM_cons] at h
    obtain ⟨u, hu, hrest⟩ := bind_eq_ok h
    exact List.forall_mem_cons.mpr ⟨paintSquare_some hu, ih hrest⟩

/-- Wherever painting returns, on whatever view, it leaves a new button on every cell. -/
theorem paint_aligned {v₀ v : View} (h : paint figureNumber b v₀ = .ok v) :
    Aligned v (fun s => v₀.fresh + s.val) (picture figureNumber b) := by
  have hb (s : Square) : ∃ x, b s.key = some x := paintSquares_some h s.key (mem_upTo.mpr s.key_range)
  obtain ⟨u, hu, hpainted⟩ := painted figureNumber hb v₀
  cases hu.symm.trans h
  exact ⟨fun s => hpainted.entry s s.isLt, fun s => hpainted.button s s.isLt⟩

end paint

end MyIVR
