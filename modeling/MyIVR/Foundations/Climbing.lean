import Mathlib.Algebra.BigOperators.Group.Finset.Basic
import Mathlib.Algebra.Group.Action.Defs
import Mathlib.Algebra.Order.BigOperators.Group.Finset
import Mathlib.Data.Int.Order.Basic

/-! Moves of one object up a bounded scale. Each move rises and starts no lower
than the move before it ended, so the scale bounds their number; nothing precedes
a move from its foot and nothing follows one that reaches its top. -/
namespace Climbing
variable {α : Type*} {start finish : α → Int} {top : Int} {l past rest : List α} {e : α}

structure Climbs (start finish : α → Int) (top : Int) (l : List α) : Prop where
  steps : ∀ e ∈ l, 0 ≤ start e ∧ start e < finish e ∧ finish e ≤ top
  order : l.Pairwise (fun e e' => finish e ≤ start e')

theorem Climbs.nil : Climbs start finish top [] := ⟨List.forall_mem_nil _, List.Pairwise.nil⟩

theorem Climbs.snoc (h : Climbs start finish top l) (hstart : 0 ≤ start e) (hrise : start e < finish e)
    (htop : finish e ≤ top) (hpast : ∀ e' ∈ l, finish e' ≤ start e) :
    Climbs start finish top (l ++ [e]) := by
  constructor
  · rw [List.forall_mem_append]
    exact ⟨h.steps, List.forall_mem_singleton.mpr ⟨hstart, hrise, htop⟩⟩
  · rw [List.pairwise_append]
    refine ⟨h.order, List.pairwise_singleton _ _, fun e' he' f hf => ?_⟩
    rw [List.mem_singleton.mp hf]
    exact hpast e' he'

private theorem length_le_above {low : Int} (h : Climbs start finish top l)
    (habove : ∀ e ∈ l, low ≤ start e) (hlow : low ≤ top) : (l.length : Int) ≤ top - low := by
  induction l generalizing low with
  | nil => simpa using hlow
  | cons e rest ih =>
    obtain ⟨hsteps, horder⟩ := h
    rw [List.forall_mem_cons] at hsteps habove
    rw [List.pairwise_cons] at horder
    have hrest := ih ⟨hsteps.2, horder.2⟩ horder.1 hsteps.1.2.2
    rw [List.length_cons]
    push_cast
    omega

theorem Climbs.length_le (h : Climbs start finish top l) (htop : 0 ≤ top) : (l.length : Int) ≤ top := by
  simpa using length_le_above h (fun e he => (h.steps e he).1) htop

theorem Climbs.past_eq_nil (h : Climbs start finish top (past ++ e :: rest)) (hfoot : start e = 0) :
    past = [] := by
  rw [List.eq_nil_iff_forall_not_mem]
  intro e' he'
  have hbefore := (List.pairwise_append.mp h.order).2.2 e' he' e List.mem_cons_self
  have hrises := h.steps e' (List.mem_append_left _ he')
  omega

theorem Climbs.rest_eq_nil (h : Climbs start finish top (past ++ e :: rest)) (hend : finish e = top) :
    rest = [] := by
  rw [List.eq_nil_iff_forall_not_mem]
  intro e' he'
  have horder := (List.pairwise_append.mp h.order).2.1
  have hafter := (List.pairwise_cons.mp horder).1 e' he'
  have hrises := h.steps e' (List.mem_append_right _ (List.mem_cons_of_mem _ he'))
  omega

section family
variable {κ : Type*} {moves : κ → α → Prop} [∀ k, DecidablePred (moves k)] {P : α → Prop} [DecidablePred P]

private theorem length_le_sum (family : Finset κ) (l : List α)
    (h : ∀ e ∈ l, P e → ∃ k ∈ family, moves k e) :
    (l.filter (fun e => P e)).length ≤ ∑ k ∈ family, (l.filter (fun e => moves k e)).length := by
  induction l with
  | nil => simp
  | cons e rest ih =>
    rw [List.forall_mem_cons] at h
    have hrest := ih h.2
    have grows (k : κ) : (rest.filter (fun e => moves k e)).length ≤
        ((e :: rest).filter (fun e => moves k e)).length :=
      (List.Sublist.filter _ (List.sublist_cons_self e rest)).length_le
    by_cases hP : P e
    · obtain ⟨k, hk, hmoves⟩ := h.1 hP
      have hmore : ∑ k ∈ family, (rest.filter (fun e => moves k e)).length <
          ∑ k ∈ family, ((e :: rest).filter (fun e => moves k e)).length := by
        apply Finset.sum_lt_sum (fun k _ => grows k)
        refine ⟨k, hk, ?_⟩
        rw [List.filter_cons_of_pos (by simpa using hmoves), List.length_cons]
        exact Nat.lt_succ_self _
      rw [List.filter_cons_of_pos (by simpa using hP), List.length_cons]
      exact Nat.succ_le_of_lt (hrest.trans_lt hmore)
    · rw [List.filter_cons_of_neg (by simpa using hP)]
      exact hrest.trans (Finset.sum_le_sum (fun k _ => grows k))

/-- The moves of a finite family of climbers are bounded by the scales of all. -/
theorem length_le_family {start finish : κ → α → Int} {height : Nat} (family : Finset κ) (l : List α)
    (h : ∀ e ∈ l, P e → ∃ k ∈ family, moves k e)
    (hclimbs : ∀ k ∈ family, Climbs (start k) (finish k) height (l.filter (fun e => moves k e))) :
    (l.filter (fun e => P e)).length ≤ family.card * height := by
  refine (length_le_sum family l h).trans ?_
  rw [← smul_eq_mul]
  apply Finset.sum_le_card_nsmul
  intro k hk
  exact_mod_cast (hclimbs k hk).length_le (Int.natCast_nonneg height)

end family

end Climbing
