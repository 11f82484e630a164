import MyIVR.Foundations.Mealy
import Mathlib.Data.Int.Order.Basic
import Mathlib.Logic.Function.Basic

/-! A shared counter that clients increment by a read and a later blind write of
the value they read plus one. It counts the writes exactly when no other write
comes between a client's read and its own write. -/
namespace LostUpdate
variable {ι : Type*}

inductive Step (ι : Type*) where
  | read (client : ι)
  | write (client : ι)

/-- The counter and what each client read last. -/
structure State (ι : Type*) where
  value : Int
  held : ι → Option Int

def Step.isRead : Step ι → Bool
  | read _ => true
  | write _ => false

def writes (steps : List (Step ι)) : Nat := (steps.filter (fun e => !e.isRead)).length

/-- The client has read after the last write. -/
def Fresh (past : List (Step ι)) (i : ι) : Prop :=
  ∃ before since, past = before ++ .read i :: since ∧ ∀ e ∈ since, e.isRead = true

/-- Every write comes after a read of its client that no write follows. -/
def Undisturbed (steps : List (Step ι)) : Prop :=
  ∀ past i rest, steps = past ++ .write i :: rest → Fresh past i

/-- Every client reads before it writes. -/
def Prepared (steps : List (Step ι)) : Prop :=
  ∀ past i rest, steps = past ++ .write i :: rest → .read i ∈ past

section lists
variable {steps : List (Step ι)} {i : ι}

theorem writes_snoc (steps : List (Step ι)) (e : Step ι) :
    writes (steps ++ [e]) = writes steps + if e.isRead then 0 else 1 := by
  rw [writes, List.filter_append, List.length_append, writes]
  cases h : e.isRead <;> simp [h]

theorem fresh_read (steps : List (Step ι)) (i : ι) : Fresh (steps ++ [.read i]) i :=
  ⟨steps, [], rfl, by simp⟩

theorem fresh_read_iff {j : ι} (h : j ≠ i) : Fresh (steps ++ [.read i]) j ↔ Fresh steps j := by
  constructor
  · rintro ⟨before, since, heq, hreads⟩
    rcases Mealy.snoc_split heq with ⟨since', rfl, hsteps⟩ | ⟨_, _, hx⟩
    · exact ⟨before, since', hsteps, fun e he => hreads e (List.mem_append_left _ he)⟩
    · cases hx
      exact absurd rfl h
  · rintro ⟨before, since, rfl, hreads⟩
    refine ⟨before, since ++ [.read i], by simp, fun e he => ?_⟩
    rcases List.mem_append.mp he with he | he
    · exact hreads e he
    · rw [List.mem_singleton.mp he]
      rfl

theorem not_fresh_write (steps : List (Step ι)) (i j : ι) : ¬ Fresh (steps ++ [.write i]) j := by
  rintro ⟨before, since, heq, hreads⟩
  rcases Mealy.snoc_split heq with ⟨since', rfl, _⟩ | ⟨_, _, hx⟩
  · cases hreads (.write i) (by simp)
  · cases hx

theorem undisturbed_read : Undisturbed (steps ++ [.read i]) ↔ Undisturbed steps := by
  constructor
  · intro h past j rest heq
    exact h past j (rest ++ [.read i]) (by rw [heq]; simp)
  · intro h past j rest heq
    rcases Mealy.snoc_split heq with ⟨rest', _, hsteps⟩ | ⟨_, _, hx⟩
    · exact h past j rest' hsteps
    · cases hx

theorem undisturbed_write : Undisturbed (steps ++ [.write i]) ↔ Undisturbed steps ∧ Fresh steps i := by
  constructor
  · intro h
    exact ⟨fun past j rest heq => h past j (rest ++ [.write i]) (by rw [heq]; simp), h steps i [] rfl⟩
  · rintro ⟨h, hfresh⟩ past j rest heq
    rcases Mealy.snoc_split heq with ⟨rest', _, hsteps⟩ | ⟨_, rfl, hx⟩
    · exact h past j rest' hsteps
    · cases hx
      exact hfresh

theorem Prepared.init {e : Step ι} (h : Prepared (steps ++ [e])) : Prepared steps := by
  intro past i rest heq
  exact h past i (rest ++ [e]) (by rw [heq]; simp)

end lists

variable [DecidableEq ι]

/-- A client that has read nothing does not write. -/
def step (s : State ι) : Step ι → State ι
  | .read i => { s with held := Function.update s.held i (some s.value) }
  | .write i =>
    match s.held i with
    | some v => { s with value := v + 1 }
    | none => s

def run (s : State ι) (steps : List (Step ι)) : State ι := steps.foldl step s

@[simp] theorem run_snoc (s : State ι) (steps : List (Step ι)) (e : Step ι) :
    run s (steps ++ [e]) = step (run s steps) e := by
  rw [run, List.foldl_append]
  rfl

def State.start (value : Int) : State ι := ⟨value, fun _ => none⟩

theorem held_of_read (s : State ι) {steps : List (Step ι)} {i : ι} (h : .read i ∈ steps) :
    ∃ v, (run s steps).held i = some v := by
  induction steps using List.reverseRecOn with
  | nil => cases h
  | append_singleton steps e ih =>
    rw [run_snoc]
    rcases List.mem_append.mp h with h | h
    · obtain ⟨v, hv⟩ := ih h
      cases e with
      | read j =>
        by_cases hj : i = j
        · subst hj
          exact ⟨_, Function.update_self ..⟩
        · exact ⟨v, (Function.update_of_ne hj ..).trans hv⟩
      | write j =>
        refine ⟨v, ?_⟩
        rw [step]
        split <;> exact hv
    · rw [← List.mem_singleton.mp h]
      exact ⟨_, Function.update_self ..⟩

/-- What is true of the counter and the held values after some steps. -/
private structure Bounded (start : Int) (steps : List (Step ι)) (s : State ι) : Prop where
  value : s.value ≤ start + writes steps
  held : ∀ i v, s.held i = some v → v ≤ start + writes steps
  stale : ∀ i v, s.held i = some v → ¬ Fresh steps i → v < start + writes steps
  fresh : ∀ i, Fresh steps i → s.held i = some s.value
  exact_iff : s.value = start + writes steps ↔ Undisturbed steps

private theorem Bounded.read_step {start : Int} {steps : List (Step ι)} {s : State ι}
    (h : Bounded start steps s) (i : ι) :
    Bounded start (steps ++ [.read i]) (step s (.read i)) := by
  have hwrites : writes (steps ++ [.read i]) = writes steps := writes_snoc _ _
  have hother {j : ι} (hj : j ≠ i) : (step s (.read i)).held j = s.held j := Function.update_of_ne hj ..
  have hself : (step s (.read i)).held i = some s.value := Function.update_self ..
  constructor
  · rw [hwrites]
    exact h.value
  · intro j v hv
    rw [hwrites]
    by_cases hj : j = i
    · rw [hj, hself] at hv
      cases hv
      exact h.value
    · exact h.held j v ((hother hj) ▸ hv)
  · intro j v hv hstale
    rw [hwrites]
    by_cases hj : j = i
    · exact absurd (hj ▸ fresh_read steps i) hstale
    · exact h.stale j v ((hother hj) ▸ hv) (fun hf => hstale ((fresh_read_iff hj).mpr hf))
  · intro j hf
    by_cases hj : j = i
    · rw [hj, hself]
      rfl
    · rw [hother hj, h.fresh j ((fresh_read_iff hj).mp hf)]
      rfl
  · rw [hwrites, undisturbed_read]
    exact h.exact_iff

private theorem Bounded.write_step {start : Int} {steps : List (Step ι)} {s : State ι}
    (h : Bounded start steps s) {i : ι} {v : Int} (hv : s.held i = some v) :
    Bounded start (steps ++ [.write i]) (step s (.write i)) := by
  have hstep : step s (.write i) = { s with value := v + 1 } := by
    simp only [step, hv]
  have hwrites : (writes (steps ++ [.write i]) : Int) = writes steps + 1 := by
    rw [writes_snoc]
    rfl
  have hle := h.held i v hv
  rw [hstep]
  constructor
  · rw [hwrites]
    simp only
    omega
  · intro j u hu
    have hj := h.held j u hu
    omega
  · intro j u hu _
    have hj := h.held j u hu
    omega
  · exact fun j hf => absurd hf (not_fresh_write steps i j)
  · rw [hwrites, undisturbed_write, ← h.exact_iff]
    simp only
    constructor
    · intro heq
      have hfresh : Fresh steps i := by
        by_contra hstale
        have hlt := h.stale i v hv hstale
        omega
      have hvalue := hv.symm.trans (h.fresh i hfresh)
      rw [Option.some.injEq] at hvalue
      exact ⟨by omega, hfresh⟩
    · rintro ⟨heq, hfresh⟩
      have hvalue := hv.symm.trans (h.fresh i hfresh)
      rw [Option.some.injEq] at hvalue
      omega

/-- The counter has counted every write exactly when every write was undisturbed. -/
theorem value_eq_iff (start : Int) {steps : List (Step ι)} (h : Prepared steps) :
    (run (.start start) steps).value = start + writes steps ↔ Undisturbed steps := by
  have hrun : Bounded start steps (run (.start start) steps) := by
    induction steps using List.reverseRecOn with
    | nil =>
      refine ⟨by simp [run, State.start, writes], ?_, ?_, ?_, ?_⟩
      · intro i v hv
        cases hv
      · intro i v hv
        cases hv
      · rintro i ⟨before, since, heq, _⟩
        simp at heq
      · refine ⟨fun _ past i rest heq => ?_, fun _ => by simp [run, State.start, writes]⟩
        simp at heq
    | append_singleton steps e ih =>
      rw [run_snoc]
      cases e with
      | read i => exact (ih h.init).read_step i
      | write i =>
        obtain ⟨v, hv⟩ := held_of_read (.start start) (h steps i [] rfl)
        exact (ih h.init).write_step hv
  exact hrun.exact_iff

end LostUpdate
