import Mathlib.Data.List.Basic

/-! Loops that return early: a scan of a list and a walk along a path, both
driven by a fallible test. The walk carries an iteration bound; running over it
is an error of its own, and a walk whose path is known is a scan of that path. -/
namespace Loops
variable {ε α σ : Type*}

/-- Visit the elements in order, answer false at the first blocked one and true
when none is blocked. An error of the test ends the scan with that error. -/
def scan (blocked : α → Except ε Bool) : List α → Except ε Bool
  | [] => .ok true
  | x :: rest =>
    match blocked x with
    | .error e => .error e
    | .ok true => .ok false
    | .ok false => scan blocked rest

@[simp] theorem scan_nil (blocked : α → Except ε Bool) : scan blocked [] = .ok true := rfl

theorem scan_cons_clear {blocked : α → Except ε Bool} {x : α} (h : blocked x = .ok false)
    (rest : List α) : scan blocked (x :: rest) = scan blocked rest := by
  simp only [scan, h]

theorem scan_eq_true_iff (blocked : α → Except ε Bool) (l : List α) :
    scan blocked l = .ok true ↔ ∀ x ∈ l, blocked x = .ok false := by
  induction l with
  | nil => simp
  | cons x rest ih =>
    rw [List.forall_mem_cons, ← ih, scan]
    rcases blocked x with e | b
    · simp
    · cases b <;> simp

theorem scan_ok {blocked : α → Except ε Bool} {l : List α}
    (h : ∀ x ∈ l, ∃ r, blocked x = .ok r) : ∃ r, scan blocked l = .ok r := by
  induction l with
  | nil => exact ⟨true, rfl⟩
  | cons x rest ih =>
    rw [List.forall_mem_cons] at h
    obtain ⟨⟨r, hr⟩, hrest⟩ := h
    cases r with
    | true => exact ⟨false, by simp only [scan, hr]⟩
    | false => exact scan_cons_clear hr rest ▸ ih hrest

theorem scan_error {blocked : α → Except ε Bool} {l : List α} {e : ε}
    (h : scan blocked l = .error e) : ∃ x ∈ l, blocked x = .error e := by
  induction l with
  | nil => cases h
  | cons x rest ih =>
    rw [scan] at h
    split at h
    · rename_i hx
      cases h
      exact ⟨x, List.mem_cons_self, hx⟩
    · cases h
    · obtain ⟨y, hy, he⟩ := ih h
      exact ⟨y, List.mem_cons_of_mem _ hy, he⟩

theorem scan_map {β : Type*} (blocked : α → Except ε Bool) (f : β → α) (l : List β) :
    scan blocked (l.map f) = scan (fun x => blocked (f x)) l := by
  induction l with
  | nil => rfl
  | cons x rest ih => simp only [List.map_cons, scan, ih]

/-- Step until the stop test holds, answer false at the first blocked state and
true on stopping. `late` is the error of a walk still going after `fuel` steps. -/
def walk (stop : σ → Bool) (next : σ → Except ε σ) (blocked : σ → Except ε Bool) (late : ε) :
    Nat → σ → Except ε Bool
  | 0, s => if stop s then .ok true else .error late
  | fuel + 1, s =>
    if stop s then .ok true
    else
      match next s with
      | .error e => .error e
      | .ok t =>
        match blocked t with
        | .error e => .error e
        | .ok true => .ok false
        | .ok false => walk stop next blocked late fuel t

variable {stop : σ → Bool} {next : σ → Except ε σ} {blocked : σ → Except ε Bool} {late : ε}

private theorem walk_step {fuel : Nat} {s t : σ} (hs : stop s = false) (ht : next s = .ok t) :
    walk stop next blocked late (fuel + 1) s =
      match blocked t with
      | .error e => .error e
      | .ok true => .ok false
      | .ok false => walk stop next blocked late fuel t := by
  simp only [walk, hs, ht, Bool.false_eq_true, if_false]

private theorem range_succ_scan (f : Nat → Except ε Bool) (m : Nat) :
    scan f (List.range (m + 1)) =
      match f 0 with
      | .error e => .error e
      | .ok true => .ok false
      | .ok false => scan (fun k => f (k + 1)) (List.range m) := by
  rw [List.range_succ_eq_map, scan, scan_map]

/-- A walk whose path first stops after `m` steps scans those steps. -/
theorem walk_eq_scan (path : Nat → σ) (m fuel : Nat) (hfuel : m ≤ fuel)
    (hnext : ∀ k < m, next (path k) = .ok (path (k + 1)))
    (hgo : ∀ k < m, stop (path k) = false) (hstop : stop (path m) = true) :
    walk stop next blocked late fuel (path 0) =
      scan (fun k => blocked (path (k + 1))) (List.range m) := by
  induction m generalizing path fuel with
  | zero => cases fuel <;> simp [walk, hstop]
  | succ m ih =>
    obtain ⟨fuel, rfl⟩ := Nat.exists_eq_add_of_le' (Nat.one_le_of_lt hfuel)
    rw [walk_step (hgo 0 (by omega)) (hnext 0 (by omega)), range_succ_scan]
    have tail := ih (fun k => path (k + 1)) fuel (by omega) (fun k hk => hnext (k + 1) (by omega))
      (fun k hk => hgo (k + 1) (by omega)) hstop
    simp only [Nat.zero_add] at tail ⊢
    rw [tail]

/-- A walk that never stops scans the path up to its bound, and is late when
nothing on the way is blocked. -/
theorem walk_eq_late (path : Nat → σ) (fuel : Nat)
    (hnext : ∀ k, next (path k) = .ok (path (k + 1))) (hgo : ∀ k, stop (path k) = false) :
    walk stop next blocked late fuel (path 0) =
      match scan (fun k => blocked (path (k + 1))) (List.range fuel) with
      | .ok true => .error late
      | r => r := by
  induction fuel generalizing path with
  | zero => simp [walk, hgo 0]
  | succ fuel ih =>
    rw [walk_step (hgo 0) (hnext 0), range_succ_scan]
    have tail := ih (fun k => path (k + 1)) (fun k => hnext (k + 1)) (fun k => hgo (k + 1))
    simp only [Nat.zero_add] at tail ⊢
    rw [tail]
    rcases blocked (path 1) with e | b
    · rfl
    · cases b <;> rfl

/-- A walk that ended before its bound ends the same way under any larger one. -/
theorem walk_fuel_mono {fuel more : Nat} (h : fuel ≤ more) (s : σ)
    (hl : walk stop next blocked late fuel s ≠ .error late) :
    walk stop next blocked late more s = walk stop next blocked late fuel s := by
  induction fuel generalizing more s with
  | zero =>
    have hs : stop s = true := by
      by_contra hs
      exact hl (by simp [walk, hs])
    cases more <;> simp [walk, hs]
  | succ fuel ih =>
    obtain ⟨more, rfl⟩ := Nat.exists_eq_add_of_le' (Nat.one_le_of_lt h)
    rw [walk] at hl
    rw [walk, walk]
    split
    · rfl
    · rename_i hs
      rw [if_neg hs] at hl
      split
      · rfl
      · rename_i t ht
        rw [ht] at hl
        split
        · rfl
        · rfl
        · rename_i hb
          simp only [hb] at hl
          exact ih (by omega) t hl

end Loops
