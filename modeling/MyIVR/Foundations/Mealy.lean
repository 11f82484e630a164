import Mathlib.Data.List.Induction

/-! Deterministic machines that read one input at a time and may emit an output.
The induction rules carry an invariant that sees the outputs emitted so far. At the end
runs seen through a view: when what is seen after a step depends on what was seen before
it, and the hidden steps show nothing, they can be purged from a run. -/
namespace Mealy
variable {σ ι ο : Type*}

def state (step : σ → ι → σ × Option ο) (s : σ) (inputs : List ι) : σ :=
  inputs.foldl (fun s i => (step s i).1) s

def outputs (step : σ → ι → σ × Option ο) : σ → List ι → List ο
  | _, [] => []
  | s, i :: rest => (step s i).2.toList ++ outputs step (step s i).1 rest

variable (step : σ → ι → σ × Option ο)

@[simp] theorem state_nil (s : σ) : state step s [] = s := rfl

@[simp] theorem outputs_nil (s : σ) : outputs step s [] = [] := rfl

theorem state_append (s : σ) (is js : List ι) :
    state step s (is ++ js) = state step (state step s is) js := List.foldl_append

theorem outputs_append (s : σ) (is js : List ι) :
    outputs step s (is ++ js) = outputs step s is ++ outputs step (state step s is) js := by
  induction is generalizing s with
  | nil => rfl
  | cons i rest ih =>
    rw [List.cons_append, outputs, outputs, ih, List.append_assoc]
    rfl

@[simp] theorem state_snoc (s : σ) (is : List ι) (i : ι) :
    state step s (is ++ [i]) = (step (state step s is) i).1 := by
  rw [state_append]
  rfl

@[simp] theorem outputs_snoc (s : σ) (is : List ι) (i : ι) :
    outputs step s (is ++ [i]) = outputs step s is ++ (step (state step s is) i).2.toList := by
  rw [outputs_append, outputs, outputs_nil, List.append_nil]

variable {step}

theorem snoc_split {l past rest : List ι} {e x : ι} (h : l ++ [e] = past ++ x :: rest) :
    (∃ rest', rest = rest' ++ [e] ∧ l = past ++ x :: rest') ∨ rest = [] ∧ l = past ∧ e = x := by
  rcases List.eq_nil_or_concat rest with rfl | ⟨rest', y, rfl⟩
  · obtain ⟨hpast, hx⟩ := List.append_inj' h rfl
    exact .inr ⟨rfl, hpast, (List.cons.inj hx).1⟩
  · rw [List.concat_eq_append, ← List.cons_append, ← List.append_assoc] at h
    obtain ⟨hl, hy⟩ := List.append_inj' h rfl
    cases hy
    exact .inl ⟨rest', List.concat_eq_append, hl⟩

/-- An invariant of state and past outputs that every step preserves holds
after every run. -/
theorem run_induction (Inv : σ → List ο → Prop) {s : σ} (start : Inv s [])
    (preserve : ∀ t outs i, Inv t outs → Inv (step t i).1 (outs ++ (step t i).2.toList))
    (inputs : List ι) : Inv (state step s inputs) (outputs step s inputs) := by
  induction inputs using List.reverseRecOn with
  | nil => exact start
  | append_singleton is i ih =>
    rw [state_snoc, outputs_snoc]
    exact preserve _ _ i ih

/-- Only the inputs of the run need to preserve the invariant. -/
theorem run_induction_of_mem (Inv : σ → List ο → Prop) {s : σ} (start : Inv s []) {inputs : List ι}
    (preserve : ∀ t outs, ∀ i ∈ inputs, Inv t outs → Inv (step t i).1 (outs ++ (step t i).2.toList)) :
    Inv (state step s inputs) (outputs step s inputs) := by
  induction inputs using List.reverseRecOn with
  | nil => exact start
  | append_singleton is i ih =>
    rw [state_snoc, outputs_snoc]
    apply preserve _ _ i (List.mem_append_right _ (List.mem_singleton_self i))
    exact ih fun t outs j hj => preserve t outs j (List.mem_append_left _ hj)

/-- A property that no start state has and that each step keeps, or brings about
exactly on a hit, holds after a run exactly when one of its steps was a hit. -/
theorem state_reached_iff (Bad : σ → Prop) (Hit : σ → ι → Prop) {s : σ} (start : ¬ Bad s)
    (hit : ∀ is i, Bad (step (state step s is) i).1 ↔
      Bad (state step s is) ∨ Hit (state step s is) i) (inputs : List ι) :
    Bad (state step s inputs) ↔
      ∃ is i js, inputs = is ++ i :: js ∧ Hit (state step s is) i := by
  induction inputs using List.reverseRecOn with
  | nil => simp [start]
  | append_singleton is i ih =>
    rw [state_snoc, hit, ih]
    constructor
    · rintro (⟨is', j, js, rfl, hj⟩ | hi)
      · exact ⟨is', j, js ++ [i], by simp, hj⟩
      · exact ⟨is, i, [], rfl, hi⟩
    · rintro ⟨is', j, js, heq, hj⟩
      rcases snoc_split heq with ⟨js', _, rfl⟩ | ⟨_, rfl, rfl⟩
      · exact .inl ⟨is', j, js', rfl, hj⟩
      · exact .inr hj

theorem mem_outputs {s : σ} {inputs : List ι} {o : ο} (h : o ∈ outputs step s inputs) :
    ∃ is i js, inputs = is ++ i :: js ∧ (step (state step s is) i).2 = some o := by
  induction inputs generalizing s with
  | nil => cases h
  | cons i rest ih =>
    rw [outputs, List.mem_append] at h
    rcases h with h | h
    · exact ⟨[], i, rest, rfl, Option.mem_toList.mp h⟩
    · obtain ⟨is, j, js, rfl, ho⟩ := ih h
      exact ⟨i :: is, j, js, rfl, ho⟩

/-- A run emits nothing of a kind exactly when none of its steps does. -/
theorem filterMap_outputs_eq_nil_iff {κ : Type*} {f : ο → Option κ} {s : σ} (inputs : List ι) :
    (outputs step s inputs).filterMap f = [] ↔
      ∀ is i js, inputs = is ++ i :: js → (step (state step s is) i).2.bind f = none := by
  have emitted (t : σ) (i : ι) : (step t i).2.toList.filterMap f = [] ↔ (step t i).2.bind f = none := by
    cases (step t i).2 with
    | none => simp
    | some o => cases hf : f o <;> simp [hf]
  induction inputs using List.reverseRecOn with
  | nil => simp
  | append_singleton inputs i ih =>
    rw [outputs_snoc, List.filterMap_append, List.append_eq_nil_iff, emitted]
    constructor
    · rintro ⟨hpast, hlast⟩ is j js heq
      rcases snoc_split heq with ⟨js', _, hinputs⟩ | ⟨_, rfl, rfl⟩
      · exact ih.mp hpast is j js' hinputs
      · exact hlast
    · intro h
      exact ⟨ih.mpr (fun is j js heq => h is j (js ++ [i]) (by rw [heq]; simp)), h inputs i [] rfl⟩

theorem outputs_split {s : σ} {inputs : List ι} {os ps : List ο} (h : outputs step s inputs = os ++ ps) :
    ∃ is js, inputs = is ++ js ∧ outputs step s is = os ∧ outputs step (state step s is) js = ps := by
  induction inputs using List.reverseRecOn generalizing ps with
  | nil =>
    obtain ⟨rfl, rfl⟩ := List.append_eq_nil_iff.mp h.symm
    exact ⟨[], [], rfl, rfl, rfl⟩
  | append_singleton inputs i ih =>
    rcases List.eq_nil_or_concat ps with rfl | ⟨ps, p, rfl⟩
    · exact ⟨inputs ++ [i], [], by simp, by simpa using h, rfl⟩
    · rw [outputs_snoc, List.concat_eq_append, ← List.append_assoc] at h
      cases ho : (step (state step s inputs) i).2 with
      | none =>
        rw [ho, Option.toList_none, List.append_nil, List.append_assoc] at h
        obtain ⟨is, js, rfl, hos, hps⟩ := ih h
        refine ⟨is, js ++ [i], by simp, hos, ?_⟩
        rw [state_append] at ho
        rw [outputs_snoc, hps, ho]
        simp
      | some o =>
        rw [ho, Option.toList_some] at h
        obtain ⟨hl, hp⟩ := List.append_inj' h rfl
        obtain ⟨is, js, rfl, hos, hps⟩ := ih hl
        refine ⟨is, js ++ [i], by simp, hos, ?_⟩
        rw [state_append] at ho
        rw [outputs_snoc, hps, ho, Option.toList_some, hp, List.concat_eq_append]

section alike
variable {β : Type*} (view : ο → β) {R : σ → σ → Prop}
  (agree : ∀ s t i, R s t → R (step s i).1 (step t i).1 ∧ (step s i).2.map view = (step t i).2.map view)
include agree

/-- Runs from related states emit the same, as far as the view shows, when every step does. -/
theorem bisimulation {s t : σ} (h : R s t) (inputs : List ι) :
    R (state step s inputs) (state step t inputs) ∧
      (outputs step s inputs).map view = (outputs step t inputs).map view := by
  induction inputs using List.reverseRecOn with
  | nil => exact ⟨h, rfl⟩
  | append_singleton is i ih =>
    obtain ⟨hstate, hout⟩ := agree _ _ i ih.1
    have hlist : (step (state step s is) i).2.toList.map view = (step (state step t is) i).2.toList.map view := by
      rw [← Option.toList_map, hout, Option.toList_map]
    rw [state_snoc, state_snoc, outputs_snoc, outputs_snoc, List.map_append, List.map_append, ih.2, hlist]
    exact ⟨hstate, rfl⟩

/-- A list of inputs that leads back to a related state can be given again and again. -/
theorem recurrence (trans : ∀ {s t u}, R s t → R t u → R s u) {s : σ} (hs : R s s) {inputs : List ι}
    (h : R (state step s inputs) s) (n : Nat) :
    R (state step s (List.replicate n inputs).flatten) s ∧
      (outputs step s (List.replicate n inputs).flatten).length = n * (outputs step s inputs).length := by
  induction n with
  | zero => simpa using hs
  | succ n ih =>
    obtain ⟨hstate, hout⟩ := bisimulation view agree ih.1 inputs
    have hlength := congrArg List.length hout
    rw [List.length_map, List.length_map] at hlength
    rw [List.replicate_succ', List.flatten_concat, state_append, outputs_append, List.length_append, ih.2, hlength]
    exact ⟨trans hstate h, (Nat.succ_mul ..).symm⟩

end alike

/-- A machine each step of which another machine matches, by a step that emits the
same or, when nothing is emitted, by none at all, is matched by it over every run. -/
theorem stuttering_simulation {σ' ι' ο' : Type*} {step' : σ' → ι' → σ' × Option ο'} (view : ο' → ο)
    (R : σ → σ' → Prop) {s : σ} {s' : σ'} (start : R s s')
    (simulate : ∀ is js i, R (state step s is) (state step' s' js) →
      outputs step s is = (outputs step' s' js).map view →
      (R (step (state step s is) i).1 (state step' s' js) ∧ (step (state step s is) i).2 = none) ∨
        ∃ j, R (step (state step s is) i).1 (step' (state step' s' js) j).1 ∧
          (step (state step s is) i).2 = (step' (state step' s' js) j).2.map view)
    (inputs : List ι) : ∃ js, R (state step s inputs) (state step' s' js) ∧
      outputs step s inputs = (outputs step' s' js).map view := by
  induction inputs using List.reverseRecOn with
  | nil => exact ⟨[], start, rfl⟩
  | append_singleton is i ih =>
    obtain ⟨js, hR, houts⟩ := ih
    rcases simulate is js i hR houts with ⟨hstep, hnone⟩ | ⟨j, hstep, hout⟩
    · exact ⟨js, by rwa [state_snoc], by rw [outputs_snoc, hnone, Option.toList_none, List.append_nil, houts]⟩
    · refine ⟨js ++ [j], by rwa [state_snoc, state_snoc], ?_⟩
      rw [outputs_snoc, outputs_snoc, houts, hout, List.map_append]
      cases (step' (state step' s' js) j).2 <;> rfl

end Mealy

namespace Unwinding
variable {σ ι β : Type*}

/-- A view of the states that a part of the steps decides. -/
structure Separates (step : σ → ι → σ) (view : σ → β) (visible : ι → Prop) : Prop where
  consistent : ∀ s t i, visible i → view s = view t → view (step s i) = view (step t i)
  hidden : ∀ s i, ¬ visible i → view (step s i) = view s

variable {step : σ → ι → σ} {view : σ → β} {visible : ι → Prop} [DecidablePred visible]

/-- The purged run, from any state that looks the same, ends in one that looks the same. -/
theorem Separates.purge (h : Separates step view visible) {s t : σ} (hst : view s = view t) (is : List ι) :
    view (is.foldl step s) = view ((is.filter visible).foldl step t) := by
  induction is generalizing s t with
  | nil => exact hst
  | cons i is ih =>
    by_cases hi : visible i
    · rw [List.filter_cons, if_pos (decide_eq_true hi), List.foldl_cons, List.foldl_cons]
      exact ih (h.consistent s t i hi hst)
    · rw [List.filter_cons, if_neg (by simpa using hi), List.foldl_cons]
      exact ih ((h.hidden s i hi).trans hst)

end Unwinding
