import Mathlib.Algebra.BigOperators.Group.Finset.Basic
import Mathlib.Algebra.BigOperators.Group.Finset.Piecewise
import Mathlib.Algebra.Group.End
import Mathlib.Tactic.Abel
import Mathlib.Algebra.Order.Group.Multiset
import Mathlib.Data.Fintype.Basic
import Mathlib.Logic.Equiv.Basic
import Mathlib.Logic.Function.Iterate
import Mathlib.Logic.Relation

/-! Objects standing on the places of a finite board, and the one operation that
moves an object from a place to another and drops whatever stood there. At the end the
way of one object through a list of legs, each of which starts where the one before it
ended. -/
namespace Placement
variable {ι α : Type*} [DecidableEq ι]

/-- Move what stands on `p` to `q`. On one and the same place the object is dropped. -/
def relocate (p q : ι) (f : ι → Option α) : ι → Option α :=
  Function.update (Function.update f q (f p)) p none

@[simp] theorem relocate_source (p q : ι) (f : ι → Option α) : relocate p q f p = none :=
  Function.update_self ..

theorem relocate_target {p q : ι} (h : q ≠ p) (f : ι → Option α) : relocate p q f q = f p := by
  rw [relocate, Function.update_of_ne h, Function.update_self]

theorem relocate_other {p q i : ι} (hp : i ≠ p) (hq : i ≠ q) (f : ι → Option α) :
    relocate p q f i = f i := by
  rw [relocate, Function.update_of_ne hp, Function.update_of_ne hq]

theorem relocate_origin {p q i : ι} {f : ι → Option α} {x : α} (h : relocate p q f i = some x) :
    i ≠ p ∧ (i = q ∧ f p = some x ∨ i ≠ q ∧ f i = some x) := by
  by_cases hp : i = p
  · subst i
    simp at h
  by_cases hq : i = q
  · subst i
    rw [relocate_target hp] at h
    exact ⟨hp, .inl ⟨rfl, h⟩⟩
  · rw [relocate_other hp hq] at h
    exact ⟨hp, .inr ⟨hq, h⟩⟩

theorem relocate_map {β : Type*} (p q : ι) (f : ι → Option α) (g : α → β) (i : ι) :
    (relocate p q f i).map g = relocate p q (fun j => (f j).map g) i := by
  by_cases hp : i = p
  · subst i
    simp
  by_cases hq : i = q
  · subst i
    rw [relocate_target hp, relocate_target hp]
  · rw [relocate_other hp hq, relocate_other hp hq]

section swap

/-- Onto an empty place a relocation is an exchange of two places. -/
theorem relocate_eq_swap {p q : ι} {f : ι → Option α} (h : f q = none) :
    relocate p q f = f ∘ Equiv.swap p q := by
  funext i
  by_cases hp : i = p
  · subst i
    rw [relocate_source, Function.comp_apply, Equiv.swap_apply_left, h]
  by_cases hq : i = q
  · subst i
    rw [relocate_target hp, Function.comp_apply, Equiv.swap_apply_right]
  · rw [relocate_other hp hq, Function.comp_apply, Equiv.swap_apply_of_ne_of_ne hp hq]

/-- The permutation made by exchanging pairs of places one after the other. -/
def swaps (pairs : List (ι × ι)) : Equiv.Perm ι := (pairs.map (fun e => Equiv.swap e.1 e.2)).prod

@[simp] theorem swaps_nil : swaps ([] : List (ι × ι)) = 1 := rfl

theorem swaps_snoc (pairs : List (ι × ι)) (p q : ι) :
    swaps (pairs ++ [(p, q)]) = swaps pairs * Equiv.swap p q := by
  rw [swaps, List.map_append, List.prod_append, List.map_singleton, List.prod_singleton, swaps]

theorem comp_swaps_snoc {β : Type*} (f : ι → β) (pairs : List (ι × ι)) (p q : ι) :
    f ∘ swaps (pairs ++ [(p, q)]) = (f ∘ swaps pairs) ∘ Equiv.swap p q := by
  rw [swaps_snoc, Equiv.Perm.coe_mul]
  rfl

/-- A picture of the board shows an object on a place that is empty. -/
def Ghost (f image : ι → Option α) : Prop := ∃ i, f i = none ∧ image i ≠ none

/-- A picture that only exchanges two places keeps an object that a relocation drops. -/
theorem ghost_of_occupied (p : ι) {q : ι} {f : ι → Option α} (h : f q ≠ none) :
    Ghost (relocate p q f) (f ∘ Equiv.swap p q) :=
  ⟨p, relocate_source .., by rwa [Function.comp_apply, Equiv.swap_apply_left]⟩

/-- No later relocation of an object makes the picture right again. -/
theorem Ghost.relocate {f image : ι → Option α} (h : Ghost f image) {p : ι} (q : ι)
    (hp : f p ≠ none) : Ghost (relocate p q f) (image ∘ Equiv.swap p q) := by
  obtain ⟨i, hf, hi⟩ := h
  have hip : i ≠ p := fun heq => hp (heq ▸ hf)
  by_cases hq : i = q
  · subst i
    exact ⟨p, relocate_source .., by rwa [Function.comp_apply, Equiv.swap_apply_left]⟩
  · refine ⟨i, (relocate_other hip hq f).trans hf, ?_⟩
    rwa [Function.comp_apply, Equiv.swap_apply_of_ne_of_ne hip hq]

end swap

section census

def standing : Option α → Multiset α
  | some x => {x}
  | none => 0

variable [Fintype ι]

def census (f : ι → Option α) : Multiset α := ∑ i, standing (f i)

theorem census_update (f : ι → Option α) (i : ι) (v : Option α) :
    census (Function.update f i v) + standing (f i) = census f + standing v := by
  have comp : (fun j => standing (Function.update f i v j)) =
      Function.update (fun j => standing (f j)) i (standing v) := by
    funext j
    by_cases h : j = i
    · subst j
      simp
    · simp [h]
  rw [census, comp, Finset.sum_update_of_mem (Finset.mem_univ i), census,
    ← Finset.add_sum_erase _ _ (Finset.mem_univ i), Finset.sdiff_singleton_eq_erase]
  abel

/-- A relocation takes exactly the former occupant of its target off the board,
the moving object itself when target and source coincide. -/
theorem census_relocate (p q : ι) (f : ι → Option α) :
    census (relocate p q f) + standing (f q) = census f := by
  have put := census_update f q (f p)
  have take := census_update (Function.update f q (f p)) p none
  rw [standing, add_zero] at take
  by_cases h : p = q
  · subst q
    rw [Function.update_eq_self] at take
    rw [relocate, Function.update_eq_self]
    exact take
  · rw [Function.update_of_ne h] at take
    apply add_right_cancel (b := standing (f p))
    rw [add_right_comm, ← put, ← take]
    rfl

theorem card_census_relocate (p q : ι) (f : ι → Option α) :
    (census (relocate p q f)).card + (if (f q).isSome then 1 else 0) = (census f).card := by
  rw [← census_relocate p q f, Multiset.card_add]
  cases f q <;> rfl

end census

def Distinct (f : ι → Option α) : Prop := ∀ i j x, f i = some x → f j = some x → i = j

def DrawnFrom (s : Set α) (f : ι → Option α) : Prop := ∀ i x, f i = some x → x ∈ s

def Reaches : (ι → Option α) → (ι → Option α) → Prop :=
  Relation.ReflTransGen (fun f g => ∃ p q, g = relocate p q f)

theorem Reaches.refl (f : ι → Option α) : Reaches f f := Relation.ReflTransGen.refl

theorem Reaches.relocate {f g : ι → Option α} (h : Reaches f g) (p q : ι) :
    Reaches f (relocate p q g) :=
  Relation.ReflTransGen.tail h ⟨p, q, rfl⟩

theorem Distinct.relocate {f : ι → Option α} (h : Distinct f) (p q : ι) :
    Distinct (relocate p q f) := by
  intro i j x hi hj
  obtain ⟨hip, ⟨hi, hpi⟩ | ⟨hiq, hi⟩⟩ := relocate_origin hi
  · obtain ⟨hjp, ⟨hj, _⟩ | ⟨_, hj⟩⟩ := relocate_origin hj
    · exact hi.trans hj.symm
    · exact absurd (h j p x hj hpi) hjp
  · obtain ⟨_, ⟨_, hpj⟩ | ⟨_, hj⟩⟩ := relocate_origin hj
    · exact absurd (h i p x hi hpj) hip
    · exact h i j x hi hj

theorem DrawnFrom.relocate {s : Set α} {f : ι → Option α} (h : DrawnFrom s f) (p q : ι) :
    DrawnFrom s (relocate p q f) := by
  intro i x hi
  obtain ⟨_, ⟨_, hx⟩ | ⟨_, hx⟩⟩ := relocate_origin hi
  · exact h p x hx
  · exact h i x hx

theorem Distinct.reaches {f g : ι → Option α} (hr : Reaches f g) (h : Distinct f) : Distinct g := by
  induction hr with
  | refl => exact h
  | tail _ hstep ih =>
    obtain ⟨p, q, rfl⟩ := hstep
    exact ih.relocate p q

theorem DrawnFrom.reaches {s : Set α} {f g : ι → Option α} (hr : Reaches f g)
    (h : DrawnFrom s f) : DrawnFrom s g := by
  induction hr with
  | refl => exact h
  | tail _ hstep ih =>
    obtain ⟨p, q, rfl⟩ := hstep
    exact ih.relocate p q

end Placement

namespace Itinerary
variable {ε ι β : Type*} {source target : ε → ι}

/-- The legs lead from the first place to the second. -/
inductive Leads (source target : ε → ι) : ι → List ε → ι → Prop where
  | stay (p : ι) : Leads source target p [] p
  | leg {p : ι} {l : List ε} {e : ε} (before : Leads source target p l (source e)) :
      Leads source target p (l ++ [e]) (target e)

variable {p q : ι} {l : List ε}

/-- When every leg changes a mark in the same way, it is changed once for each leg. -/
theorem Leads.iterate {f : ι → β} {change : β → β} (h : Leads source target p l q)
    (hlegs : ∀ e ∈ l, f (target e) = change (f (source e))) : f q = change^[l.length] (f p) := by
  induction h with
  | stay => rfl
  | leg before ih =>
    rw [List.forall_mem_append, List.forall_mem_singleton] at hlegs
    rw [hlegs.2, ih hlegs.1, List.length_append, List.length_singleton, Function.iterate_succ_apply']

theorem Leads.invariant {f : ι → β} (h : Leads source target p l q)
    (hlegs : ∀ e ∈ l, f (target e) = f (source e)) : f q = f p := by
  have hcount : f q = id^[l.length] (f p) := h.iterate hlegs
  rwa [Function.iterate_id] at hcount

theorem Leads.eq_of_nil (h : Leads source target p [] q) : q = p :=
  h.invariant (f := id) (List.forall_mem_nil _)

end Itinerary
