import MyIVR.Foundations.Mealy
import Mathlib.Logic.Function.Basic

/-! Parties that overwrite one shared cell and poll it for news. A poll looks at
an address of its own choosing, and what it finds is news when it differs from
what the party took last. Nothing in the cell says who wrote it. -/
namespace Relay
variable {ι ν α : Type*}

inductive Step (ι ν α : Type*) where
  | publish (party : ι) (value : α)
  | poll (party : ι) (address : ν)
  deriving DecidableEq

/-- The shared cell, and what each party took last. -/
structure State (ι α : Type*) where
  cell : Option α
  last : ι → α

/-- A publication and the polls up to the next one. -/
structure Round (ι ν α : Type*) where
  author : ι
  value : α
  polls : List (ι × ν)

def pollSteps (polls : List (ι × ν)) : List (Step ι ν α) := polls.map (fun p => .poll p.1 p.2)

def Round.steps (r : Round ι ν α) : List (Step ι ν α) := .publish r.author r.value :: pollSteps r.polls

/-- A run cut at its publications. -/
def trace (idle : List (ι × ν)) (rounds : List (Round ι ν α)) : List (Step ι ν α) :=
  pollSteps idle ++ rounds.flatMap Round.steps

theorem trace_snoc (idle : List (ι × ν)) (rounds : List (Round ι ν α)) (r : Round ι ν α) :
    trace idle (rounds ++ [r]) = trace idle rounds ++ r.steps := by
  simp [trace]

theorem trace_take (idle : List (ι × ν)) (rounds : List (Round ι ν α)) (k : Nat) :
    trace idle rounds = trace idle (rounds.take k) ++ (rounds.drop k).flatMap Round.steps := by
  rw [trace, trace, List.append_assoc, ← List.flatMap_append, List.take_append_drop]

/-- Every run can be cut at its publications. -/
theorem exists_trace (steps : List (Step ι ν α)) : ∃ idle rounds, steps = trace idle rounds := by
  induction steps with
  | nil => exact ⟨[], [], rfl⟩
  | cons e steps ih =>
    obtain ⟨idle, rounds, rfl⟩ := ih
    cases e with
    | publish i v => exact ⟨[], ⟨i, v, idle⟩ :: rounds, rfl⟩
    | poll i n => exact ⟨(i, n) :: idle, rounds, rfl⟩

variable [DecidableEq ι]

def heard (i : ι) (rounds : List (Round ι ν α)) : List α :=
  (rounds.filter (fun r => r.author ≠ i)).map Round.value

theorem heard_snoc (i : ι) (rounds : List (Round ι ν α)) (r : Round ι ν α) :
    heard i (rounds ++ [r]) = heard i rounds ++ if r.author = i then [] else [r.value] := by
  rw [heard, List.filter_append, List.map_append, heard]
  split <;> simp [*]

variable [DecidableEq α]

/-- What a party that took `last` takes of the values it finds, in order. -/
def news (last : α) : List α → List α
  | [] => []
  | w :: rest => if w = last then news last rest else w :: news w rest

section news
variable {a v : α}

theorem news_eq_nil_iff {l : List α} : news a l = [] ↔ ∀ w ∈ l, w = a := by
  induction l with
  | nil => simp [news]
  | cons w rest ih =>
    rw [news, List.forall_mem_cons]
    split
    · rename_i hw
      rw [ih, and_iff_right hw]
    · rename_i hw
      simp [hw]

/-- The values found are some repetitions of the last one and then, at least
once, the new one. -/
def Turns (a v : α) (l : List α) : Prop :=
  v ≠ a ∧ ∃ old new, l = old ++ v :: new ∧ (∀ w ∈ old, w = a) ∧ ∀ w ∈ new, w = v

theorem news_eq_singleton_iff {l : List α} : news a l = [v] ↔ Turns a v l := by
  induction l with
  | nil => simp [news, Turns]
  | cons w rest ih =>
    rw [news]
    split
    · rename_i hw
      rw [ih]
      constructor
      · rintro ⟨hv, old, new, rfl, hold, hnew⟩
        exact ⟨hv, w :: old, new, rfl, List.forall_mem_cons.mpr ⟨hw, hold⟩, hnew⟩
      · rintro ⟨hv, old, new, heq, hold, hnew⟩
        cases old with
        | nil =>
          obtain ⟨rfl, _⟩ := List.cons.inj heq
          exact absurd hw hv
        | cons x old =>
          obtain ⟨_, rfl⟩ := List.cons.inj heq
          exact ⟨hv, old, new, rfl, (List.forall_mem_cons.mp hold).2, hnew⟩
    · rename_i hw
      rw [List.cons.injEq, news_eq_nil_iff]
      constructor
      · rintro ⟨rfl, hnew⟩
        exact ⟨hw, [], rest, rfl, List.forall_mem_nil _, hnew⟩
      · rintro ⟨_, old, new, heq, hold, hnew⟩
        cases old with
        | nil =>
          obtain ⟨rfl, rfl⟩ := List.cons.inj heq
          exact ⟨rfl, hnew⟩
        | cons x old =>
          obtain ⟨rfl, _⟩ := List.cons.inj heq
          exact absurd (hold w List.mem_cons_self) hw

end news

section run
variable [DecidableEq ν] (carry : α → Option α) (home : ν) (elsewhere : ν → Option α)

/-- What a poll finds: the cell at its own address, some other value elsewhere. -/
def find (cell : Option α) (address : ν) : Option α := if address = home then cell else elsewhere address

/-- A publication overwrites the cell with what it can carry of the value. -/
def step (s : State ι α) : Step ι ν α → State ι α × Option (ι × α)
  | .publish _ v => ({ s with cell := carry v }, none)
  | .poll i n =>
    match find home elsewhere s.cell n with
    | none => (s, none)
    | some w =>
      if w = s.last i then (s, none)
      else ({ s with last := Function.update s.last i w }, some (i, w))

def accepted (i : ι) (s : State ι α) (steps : List (Step ι ν α)) : List α :=
  (Mealy.outputs (step carry home elsewhere) s steps).filterMap (fun o => if o.1 = i then some o.2 else none)

def found (i : ι) (cell : Option α) (polls : List (ι × ν)) : List α :=
  polls.filterMap (fun p => if p.1 = i then find home elsewhere cell p.2 else none)

variable {carry home elsewhere}

theorem accepted_append (i : ι) (s : State ι α) (steps later : List (Step ι ν α)) :
    accepted carry home elsewhere i s (steps ++ later) =
      accepted carry home elsewhere i s steps ++
        accepted carry home elsewhere i (Mealy.state (step carry home elsewhere) s steps) later := by
  rw [accepted, Mealy.outputs_append, List.filterMap_append]
  rfl

/-- Polls leave the cell, and each party takes the news among what it finds. -/
theorem run_polls (i : ι) (s : State ι α) (polls : List (ι × ν)) :
    (Mealy.state (step carry home elsewhere) s (pollSteps polls)).cell = s.cell ∧
      accepted carry home elsewhere i s (pollSteps polls) =
        news (s.last i) (found home elsewhere i s.cell polls) := by
  induction polls generalizing s with
  | nil => exact ⟨rfl, rfl⟩
  | cons p polls ih =>
    obtain ⟨j, n⟩ := p
    obtain ⟨hcell, htaken⟩ := ih (step carry home elsewhere s (.poll j n)).1
    have hsplit : accepted carry home elsewhere i s (pollSteps ((j, n) :: polls)) =
        (step carry home elsewhere s (.poll j n)).2.toList.filterMap (fun o => if o.1 = i then some o.2 else none) ++
          accepted carry home elsewhere i (step carry home elsewhere s (.poll j n)).1 (pollSteps polls) :=
      List.filterMap_append
    have hfound : found home elsewhere i s.cell ((j, n) :: polls) =
        (if j = i then find home elsewhere s.cell n else none).toList ++
          found home elsewhere i s.cell polls := by
      rw [found, List.filterMap_cons]
      split <;> rename_i heq <;> simp only at heq <;> rw [heq] <;> rfl
    have hstate : Mealy.state (step carry home elsewhere) s (pollSteps ((j, n) :: polls)) =
        Mealy.state (step carry home elsewhere) (step carry home elsewhere s (.poll j n)).1 (pollSteps polls) := rfl
    rw [hsplit, htaken, hstate, hcell, hfound]
    by_cases hj : j = i
    · subst hj
      cases hfind : find home elsewhere s.cell n with
      | none => simp [step, hfind]
      | some w => by_cases hw : w = s.last j <;> simp [step, hfind, hw, news]
    · cases hfind : find home elsewhere s.cell n with
      | none => simp [step, hfind, hj]
      | some w =>
        by_cases hw : w = s.last j <;>
          simp [step, hfind, hw, hj, Function.update_of_ne (Ne.symm hj)]

theorem last_eq (i : ι) (s : State ι α) (steps : List (Step ι ν α)) :
    (Mealy.state (step carry home elsewhere) s steps).last i =
      (accepted carry home elsewhere i s steps).getLastD (s.last i) := by
  rw [accepted]
  apply Mealy.run_induction (fun (t : State ι α) outs => t.last i =
    (outs.filterMap (fun o : ι × α => if o.1 = i then some o.2 else none)).getLastD (s.last i))
  · rfl
  · intro t outs e h
    cases e with
    | publish j v => simpa [step] using h
    | poll j n =>
      rw [step]
      cases find home elsewhere t.cell n with
      | none => simpa using h
      | some w =>
        by_cases hw : w = t.last j
        · simpa [hw] using h
        · by_cases hj : j = i
          · subst hj
            simp [hw]
          · simpa [hw, hj, Function.update_of_ne (Ne.symm hj)] using h

variable (carry home elsewhere)

/-- Every party has taken what the others published, each value once and in order. -/
def Exact (s : State ι α) (idle : List (ι × ν)) (rounds : List (Round ι ν α)) : Prop :=
  ∀ i, accepted carry home elsewhere i s (trace idle rounds) = heard i rounds

/-- The value a party should have taken last. -/
def lastHeard (s : State ι α) (i : ι) (rounds : List (Round ι ν α)) : α :=
  (heard i rounds).getLastD (s.last i)

/-- In a round its author finds nothing but what it should have taken last, and
every other party turns from that to the published value. -/
def Clean (s : State ι α) (past : List (Round ι ν α)) (r : Round ι ν α) : Prop :=
  (∀ w ∈ found home elsewhere r.author (carry r.value) r.polls, w = lastHeard s r.author past) ∧
    ∀ i, i ≠ r.author →
      Turns (lastHeard s i past) r.value (found home elsewhere i (carry r.value) r.polls)

/-- Before the first round nobody finds news, and all rounds are clean. -/
def Faithful (s : State ι α) (idle : List (ι × ν)) (rounds : List (Round ι ν α)) : Prop :=
  (∀ i, ∀ w ∈ found home elsewhere i s.cell idle, w = s.last i) ∧
    ∀ past r rest, rounds = past ++ r :: rest → Clean carry home elsewhere s past r

variable {carry home elsewhere} {s : State ι α} {idle : List (ι × ν)}

private theorem accepted_round (i : ι) (t : State ι α) (r : Round ι ν α) :
    accepted carry home elsewhere i t r.steps =
      news (t.last i) (found home elsewhere i (carry r.value) r.polls) :=
  (run_polls i { t with cell := carry r.value } r.polls).2

private theorem exact_snoc {rounds : List (Round ι ν α)} {r : Round ι ν α}
    (h : Exact carry home elsewhere s idle rounds) :
    Exact carry home elsewhere s idle (rounds ++ [r]) ↔ Clean carry home elsewhere s rounds r := by
  have here (i : ι) : accepted carry home elsewhere i s (trace idle (rounds ++ [r])) = heard i (rounds ++ [r]) ↔
      news (lastHeard s i rounds) (found home elsewhere i (carry r.value) r.polls) =
        if r.author = i then [] else [r.value] := by
    rw [trace_snoc, accepted_append, accepted_round, last_eq, h i, heard_snoc, lastHeard,
      List.append_cancel_left_eq]
  constructor
  · intro hexact
    refine ⟨?_, fun i hi => ?_⟩
    · rw [← news_eq_nil_iff, (here r.author).mp (hexact r.author), if_pos rfl]
    · rw [← news_eq_singleton_iff, (here i).mp (hexact i), if_neg (Ne.symm hi)]
  · rintro ⟨hauthor, hothers⟩ i
    rw [here i]
    by_cases hi : r.author = i
    · subst hi
      rw [if_pos rfl, news_eq_nil_iff]
      exact hauthor
    · rw [if_neg hi, news_eq_singleton_iff]
      exact hothers i (Ne.symm hi)

private theorem forall_take_snoc {β : Type*} {P : List β → Prop} {l : List β} {x : β} :
    (∀ k, P ((l ++ [x]).take k)) ↔ (∀ k, P (l.take k)) ∧ P (l ++ [x]) := by
  constructor
  · intro h
    refine ⟨fun k => ?_, ?_⟩
    · have hk := h (min k l.length)
      rwa [List.take_append_of_le_length (by omega), ← List.take_eq_take_min] at hk
    · have hk := h (l.length + 1)
      rwa [List.take_of_length_le (by simp)] at hk
  · rintro ⟨hpart, hwhole⟩ k
    by_cases hk : k ≤ l.length
    · rw [List.take_append_of_le_length hk]
      exact hpart k
    · rw [List.take_of_length_le (by simp; omega)]
      exact hwhole

/-- A run is exact after every round exactly when it is faithful. -/
theorem exact_iff (rounds : List (Round ι ν α)) :
    (∀ k, Exact carry home elsewhere s idle (rounds.take k)) ↔ Faithful carry home elsewhere s idle rounds := by
  induction rounds using List.reverseRecOn with
  | nil =>
    have hstart (i : ι) : accepted carry home elsewhere i s (pollSteps idle) =
        news (s.last i) (found home elsewhere i s.cell idle) := (run_polls i s idle).2
    simp only [List.take_nil, Exact, Faithful, trace, List.flatMap_nil, List.append_nil, hstart, heard]
    simp [news_eq_nil_iff]
  | append_singleton rounds r ih =>
    rw [forall_take_snoc, ih]
    have whole (hf : Faithful carry home elsewhere s idle rounds) : Exact carry home elsewhere s idle rounds :=
      List.take_length (l := rounds) ▸ ih.mpr hf rounds.length
    constructor
    · rintro ⟨hf, hexact⟩
      refine ⟨hf.1, fun past r' rest heq => ?_⟩
      rcases Mealy.snoc_split heq with ⟨rest', _, hrounds⟩ | ⟨_, rfl, rfl⟩
      · exact hf.2 past r' rest' hrounds
      · exact (exact_snoc (whole hf)).mp hexact
    · intro hf
      have hpast : Faithful carry home elsewhere s idle rounds :=
        ⟨hf.1, fun past r' rest heq => hf.2 past r' (rest ++ [r]) (by rw [heq]; simp)⟩
      exact ⟨hpast, (exact_snoc (whole hpast)).mpr (hf.2 rounds r [] rfl)⟩

end run

end Relay
