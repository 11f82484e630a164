import MyIVR.Foundations.KeyTree

/-! Writes into a tree, each a change of the node at the end of a path. Writes
whose paths part commute, and are not seen at a path that parts from theirs. -/
namespace KeyTree
variable {κ ν : Type*}

/-- The paths part: neither leads to the other. -/
def Apart : List κ → List κ → Prop
  | j :: p, k :: q => j ≠ k ∨ Apart p q
  | _, _ => False

instance Apart.decidable [DecidableEq κ] : (p q : List κ) → Decidable (Apart p q)
  | [], _ => isFalse id
  | _ :: _, [] => isFalse id
  | j :: p, k :: q => have := Apart.decidable p q; inferInstanceAs (Decidable (j ≠ k ∨ Apart p q))

theorem Apart.symm {p q : List κ} (h : Apart p q) : Apart q p := by
  induction p generalizing q with
  | nil => cases h
  | cons j p ih =>
    cases q with
    | nil => cases h
    | cons k q => exact h.imp Ne.symm ih

theorem eq_or_apart {p q : List κ} (h : p.length = q.length) : p = q ∨ Apart p q := by
  induction p generalizing q with
  | nil => exact .inl (List.length_eq_zero_iff.mp h.symm).symm
  | cons j p ih =>
    cases q with
    | nil => cases h
    | cons k q =>
      by_cases hjk : j = k
      · rcases ih (Nat.succ.inj h) with rfl | hapart
        · exact .inl (by rw [hjk])
        · exact .inr (.inr hapart)
      · exact .inr (.inl hjk)

theorem Apart.extend {p q : List κ} (h : Apart p q) (r : List κ) : Apart p (q ++ r) := by
  induction p generalizing q with
  | nil => cases h
  | cons j p ih =>
    cases q with
    | nil => cases h
    | cons k q => exact h.imp id ih

namespace Node
section laws
variable [DecidableEq κ] (f g : Node κ ν → Node κ ν)

theorem put_comm (t : Node κ ν) {j k : κ} (h : j ≠ k) (x y : Node κ ν) :
    (t.put j x).put k y = (t.put k y).put j x := by
  cases t with
  | branch keys child =>
    simp only [put, Finset.insert_comm k j keys, Function.update_comm h]
  | null | leaf =>
    simp only [put, Finset.insert_comm k j ∅, ← insert_empty_eq, Function.update_comm h]

/-- A change is not seen along a path that parts from its own. -/
theorem get_modify_apart (t : Node κ ν) {p q : List κ} (h : Apart p q) :
    (t.modify f p).get q = t.get q := by
  induction p generalizing t q with
  | nil => cases h
  | cons j p ih =>
    cases q with
    | nil => cases h
    | cons k q =>
      by_cases hjk : j = k
      · subst hjk
        rw [modify, get_cons, get_cons, child_put_same, ih _ (h.resolve_left (not_not.mpr rfl))]
      · exact get_modify_ne f t (Ne.symm hjk) p q

theorem get_append (t : Node κ ν) (p q : List κ) : t.get (p ++ q) = (t.get p).get q :=
  List.foldl_append

theorem modify_append (t : Node κ ν) (p q : List κ) :
    t.modify f (p ++ q) = t.modify (fun u => u.modify f q) p := by
  induction p generalizing t with
  | nil => rfl
  | cons k p ih => rw [List.cons_append, modify, modify, ih]

theorem get_modify_below (t : Node κ ν) (p q : List κ) :
    (t.modify f p).get (p ++ q) = (f (t.get p)).get q := by
  rw [get_append, get_modify]

theorem get_modify_merge (t : Node κ ν) {entries : List (κ × Node κ ν)} {k : κ}
    (h : k ∉ entries.map Prod.fst) (p q : List κ) :
    (t.modify (fun u => u.merge entries) p).get (p ++ k :: q) = t.get (p ++ k :: q) := by
  rw [get_modify_below, get_cons, child_merge_of_notMem _ h, get_append, get_cons]

/-- Changes along paths that part commute. -/
theorem modify_comm_apart (t : Node κ ν) {p q : List κ} (h : Apart p q) :
    (t.modify f p).modify g q = (t.modify g q).modify f p := by
  induction p generalizing t q with
  | nil => cases h
  | cons j p ih =>
    cases q with
    | nil => cases h
    | cons k q =>
      simp only [modify]
      by_cases hjk : j = k
      · subst hjk
        rw [child_put_same, child_put_same, put_put, put_put,
          ih _ (h.resolve_left (not_not.mpr rfl))]
      · rw [child_put_ne _ (Ne.symm hjk), child_put_ne _ hjk, put_comm _ hjk]

theorem modify_comm_same (t : Node κ ν) (p : List κ) (h : ∀ u, f (g u) = g (f u)) :
    (t.modify f p).modify g p = (t.modify g p).modify f p := by
  rw [modify_modify, modify_modify]
  congr 1
  funext u
  exact (h u).symm

theorem keys_modify_cons (t : Node κ ν) (k : κ) (p : List κ) :
    (t.modify f (k :: p)).keys = insert k t.keys := keys_put _ _ _

theorem child_modify_cons (t : Node κ ν) (k : κ) (p : List κ) :
    (t.modify f (k :: p)).child k = (t.child k).modify f p := child_put_same _ _ _

theorem child_modify_cons_ne (t : Node κ ν) {j k : κ} (h : j ≠ k) (p : List κ) :
    (t.modify f (k :: p)).child j = t.child j := child_put_ne _ h _

theorem merge_cons (t : Node κ ν) (e : κ × Node κ ν) (rest : List (κ × Node κ ν)) :
    t.merge (e :: rest) = (t.put e.1 e.2).merge rest := rfl

theorem put_merge (t : Node κ ν) {k : κ} (x : Node κ ν) {l : List (κ × Node κ ν)}
    (h : k ∉ l.map Prod.fst) : (t.merge l).put k x = (t.put k x).merge l := by
  induction l generalizing t with
  | nil => rfl
  | cons e rest ih =>
    rw [List.map_cons, List.mem_cons, not_or] at h
    rw [merge_cons, merge_cons, ih _ h.2, put_comm _ (Ne.symm h.1)]

theorem merge_eq_leaf {t : Node κ ν} {l : List (κ × Node κ ν)} {v : ν} (h : t.merge l = leaf v) :
    t = leaf v := by
  induction l generalizing t with
  | nil => exact h
  | cons e rest ih =>
    have hput := ih h
    cases t <;> cases hput

/-- Below a merge stands what stood there before, or one of the entries. -/
theorem child_merge_cases (t : Node κ ν) (l : List (κ × Node κ ν)) (k : κ) :
    (t.merge l).child k = t.child k ∨ ∃ e ∈ l, (t.merge l).child k = e.2 := by
  induction l generalizing t with
  | nil => exact .inl rfl
  | cons e rest ih =>
    rw [merge_cons]
    rcases ih (t.put e.1 e.2) with hsame | ⟨e', he', hentry⟩
    · rw [hsame]
      by_cases hk : k = e.1
      · rw [hk, child_put_same]
        exact .inr ⟨e, List.mem_cons_self, rfl⟩
      · exact .inl (child_put_ne _ hk _)
    · exact .inr ⟨e', List.mem_cons_of_mem _ he', hentry⟩

/-- A merge that writes no key twice changes no child exactly when its entries stand there. -/
theorem merge_keeps_iff (t : Node κ ν) {entries : List (κ × Node κ ν)}
    (hnodup : (entries.map Prod.fst).Nodup) :
    (∀ k, (t.merge entries).child k = t.child k) ↔ ∀ e ∈ entries, t.child e.1 = e.2 := by
  constructor
  · intro h e he
    rw [← h e.1]
    exact t.child_merge hnodup he
  · intro h k
    by_cases hk : k ∈ entries.map Prod.fst
    · obtain ⟨e, he, rfl⟩ := List.mem_map.mp hk
      rw [t.child_merge hnodup he, h e he]
    · exact t.child_merge_of_notMem hk

theorem merge_put (t : Node κ ν) {k : κ} (x : Node κ ν) {l : List (κ × Node κ ν)}
    (h : k ∈ l.map Prod.fst) : (t.put k x).merge l = t.merge l := by
  induction l generalizing t with
  | nil => cases h
  | cons e rest ih =>
    rw [merge_cons, merge_cons]
    by_cases hk : k = e.1
    · rw [hk, put_put]
    · rw [put_comm _ hk, ih _ ((List.mem_cons.mp h).resolve_left hk)]

theorem merge_merge (t : Node κ ν) {l l' : List (κ × Node κ ν)} (h : l.map Prod.fst ⊆ l'.map Prod.fst) :
    (t.merge l).merge l' = t.merge l' := by
  induction l generalizing t with
  | nil => rfl
  | cons e rest ih =>
    rw [List.map_cons, List.cons_subset] at h
    rw [merge_cons, ih _ h.2, merge_put _ _ h.1]

/-- Merges that write different children commute. -/
theorem merge_comm (t : Node κ ν) {l l' : List (κ × Node κ ν)}
    (h : (l.map Prod.fst).Disjoint (l'.map Prod.fst)) : (t.merge l).merge l' = (t.merge l').merge l := by
  induction l generalizing t with
  | nil => rfl
  | cons e rest ih =>
    rw [List.map_cons, List.disjoint_cons_left] at h
    rw [merge_cons, merge_cons, ih _ h.2, put_merge _ _ h.1]

end laws
end Node

/-- A change of the node at the end of a path. -/
structure Write (κ ν : Type*) where
  path : List κ
  change : Node κ ν → Node κ ν

variable [DecidableEq κ]

def Write.run (w : Write κ ν) (t : Node κ ν) : Node κ ν := t.modify w.change w.path

def runAll (ws : List (Write κ ν)) (t : Node κ ν) : Node κ ν := ws.foldl (fun t w => w.run t) t

@[simp] theorem runAll_nil (t : Node κ ν) : runAll [] t = t := rfl

@[simp] theorem runAll_cons (w : Write κ ν) (ws : List (Write κ ν)) (t : Node κ ν) :
    runAll (w :: ws) t = runAll ws (w.run t) := rfl

theorem runAll_append (ws vs : List (Write κ ν)) (t : Node κ ν) :
    runAll (ws ++ vs) t = runAll vs (runAll ws t) := List.foldl_append

theorem runAll_induction (P : Node κ ν → Prop) {ws : List (Write κ ν)} {t : Node κ ν} (h : P t)
    (hws : ∀ w ∈ ws, ∀ t, P t → P (w.run t)) : P (runAll ws t) := by
  induction ws generalizing t with
  | nil => exact h
  | cons w ws ih =>
    rw [List.forall_mem_cons] at hws
    exact ih (hws.1 t h) hws.2

def Write.Commutes (w v : Write κ ν) : Prop := ∀ t, w.run (v.run t) = v.run (w.run t)

theorem Write.Commutes.apart {w v : Write κ ν} (h : Apart w.path v.path) : w.Commutes v :=
  fun t => (t.modify_comm_apart w.change v.change h).symm

theorem Write.Commutes.symm {w v : Write κ ν} (h : w.Commutes v) : v.Commutes w := fun t => (h t).symm

private theorem run_runAll {w : Write κ ν} {vs : List (Write κ ν)} (h : ∀ v ∈ vs, w.Commutes v)
    (t : Node κ ν) : w.run (runAll vs t) = runAll vs (w.run t) := by
  induction vs generalizing t with
  | nil => rfl
  | cons v vs ih =>
    rw [List.forall_mem_cons] at h
    rw [runAll_cons, runAll_cons, ih h.2, h.1 t]

/-- Two blocks of writes run in either order when their writes commute pairwise. -/
theorem runAll_comm {ws vs : List (Write κ ν)} (h : ∀ w ∈ ws, ∀ v ∈ vs, w.Commutes v)
    (t : Node κ ν) : runAll vs (runAll ws t) = runAll ws (runAll vs t) := by
  induction ws generalizing t with
  | nil => rfl
  | cons w ws ih =>
    rw [List.forall_mem_cons] at h
    rw [runAll_cons, runAll_cons, ih h.2, run_runAll h.1]

def Write.Keeps (w : Write κ ν) (q : List κ) : Prop := ∀ t, (w.run t).get q = t.get q

theorem Write.Keeps.apart {w : Write κ ν} {q : List κ} (h : Apart w.path q) : w.Keeps q :=
  fun t => t.get_modify_apart w.change h

theorem Write.Keeps.merge {entries : List (κ × Node κ ν)} {k : κ} (h : k ∉ entries.map Prod.fst)
    (p q : List κ) : Write.Keeps ⟨p, fun u => u.merge entries⟩ (p ++ k :: q) :=
  fun t => t.get_modify_merge h p q

theorem get_runAll {ws : List (Write κ ν)} {q : List κ} (h : ∀ w ∈ ws, w.Keeps q) (t : Node κ ν) :
    (runAll ws t).get q = t.get q := by
  induction ws generalizing t with
  | nil => rfl
  | cons w ws ih =>
    rw [List.forall_mem_cons] at h
    rw [runAll_cons, ih h.2, h.1]

/-- The write is below the end of a path, or out of its sight. -/
def Write.Within (w : Write κ ν) (q : List κ) : Prop := q <+: w.path ∨ Apart w.path q

/-- What such a write leaves at the path depends on what was there, and on nothing else. -/
theorem Write.Within.get_run {w : Write κ ν} {q : List κ} (h : w.Within q) {t u : Node κ ν}
    (htu : t.get q = u.get q) : (w.run t).get q = (w.run u).get q := by
  obtain ⟨p, f⟩ := w
  rcases h with ⟨r, hr⟩ | hapart
  · change q ++ r = p at hr
    subst hr
    rw [run, run, Node.modify_append, Node.modify_append, Node.get_modify, Node.get_modify, htu]
  · rw [(Keeps.apart hapart) t, (Keeps.apart hapart) u, htu]

theorem get_runAll_congr {ws : List (Write κ ν)} {q : List κ} (h : ∀ w ∈ ws, w.Within q) {t u : Node κ ν}
    (htu : t.get q = u.get q) : (runAll ws t).get q = (runAll ws u).get q := by
  induction ws generalizing t u with
  | nil => exact htu
  | cons w ws ih =>
    rw [List.forall_mem_cons] at h
    exact ih h.2 (h.1.get_run htu)

def Write.Idempotent (w : Write κ ν) : Prop := ∀ t, w.run (w.run t) = w.run t

theorem Write.Idempotent.of_change {w : Write κ ν} (h : ∀ u, w.change (w.change u) = w.change u) :
    w.Idempotent := by
  intro t
  rw [run, run, Node.modify_modify]
  congr 1
  funext u
  exact h u

/-- Idempotent writes that commute pairwise can be repeated as a block. -/
theorem runAll_idempotent {ws : List (Write κ ν)} (hws : ∀ w ∈ ws, w.Idempotent)
    (hcommute : ws.Pairwise Write.Commutes) (t : Node κ ν) : runAll ws (runAll ws t) = runAll ws t := by
  induction ws generalizing t with
  | nil => rfl
  | cons w ws ih =>
    rw [List.forall_mem_cons] at hws
    rw [List.pairwise_cons] at hcommute
    rw [runAll_cons, runAll_cons, run_runAll hcommute.1, hws.1, ih hws.2 hcommute.2]

def Write.mergeAt (p : List κ) (entries : List (κ × Node κ ν)) : Write κ ν := ⟨p, fun u => u.merge entries⟩

theorem Write.mergeAt_idempotent (p : List κ) (entries : List (κ × Node κ ν)) :
    (Write.mergeAt p entries).Idempotent := .of_change fun u => u.merge_merge (List.Subset.refl _)

theorem runAll_mergeAt (p : List κ) (first : List (κ × Node κ ν)) (ls : List (List (κ × Node κ ν)))
    (t : Node κ ν) : runAll ((first :: ls).map (Write.mergeAt p)) t =
      (Write.mergeAt p (first ++ ls.flatten)).run t := by
  induction ls generalizing first t with
  | nil =>
    rw [List.flatten_nil, List.append_nil]
    rfl
  | cons l ls ih =>
    have htwo : (Write.mergeAt p l).run ((Write.mergeAt p first).run t) =
        (Write.mergeAt p (first ++ l)).run t := by
      rw [Write.run, Write.run, Write.mergeAt, Write.mergeAt, Node.modify_modify]
      exact congrArg (fun f => t.modify f p) (funext fun u => (u.merge_append first l).symm)
    rw [List.flatten_cons, ← List.append_assoc, ← ih, List.map_cons, List.map_cons, runAll_cons, runAll_cons,
      htwo, List.map_cons, runAll_cons]

/-- The write takes no child from the node at the end of a path. -/
def Write.Grows (w : Write κ ν) (q : List κ) : Prop := ∀ t, (t.get q).keys ⊆ ((w.run t).get q).keys

theorem Write.Keeps.grows {w : Write κ ν} {q : List κ} (h : w.Keeps q) : w.Grows q :=
  fun t => by rw [h t]

theorem Write.Grows.merge (entries : List (κ × Node κ ν)) {p q : List κ} (h : p.length = q.length) :
    Write.Grows ⟨p, fun u => u.merge entries⟩ q := by
  rcases eq_or_apart h with rfl | hapart
  · intro t
    change _ ⊆ ((t.modify _ p).get p).keys
    rw [Node.get_modify, Node.keys_merge]
    exact Finset.subset_union_left
  · exact (Write.Keeps.apart (w := ⟨p, _⟩) hapart).grows

theorem Write.Grows.below (f : Node κ ν → Node κ ν) {p q : List κ} (h : p.length = q.length) (k : κ)
    (rest : List κ) : Write.Grows ⟨p ++ k :: rest, f⟩ q := by
  rcases eq_or_apart h with rfl | hapart
  · intro t
    change _ ⊆ ((t.modify f (p ++ k :: rest)).get p).keys
    rw [Node.modify_append, Node.get_modify, Node.keys_modify_cons]
    exact Finset.subset_insert _ _
  · exact (Write.Keeps.apart (w := ⟨p ++ k :: rest, f⟩) (hapart.symm.extend _).symm).grows

theorem keys_runAll {ws : List (Write κ ν)} {q : List κ} (h : ∀ w ∈ ws, w.Grows q) (t : Node κ ν) :
    (t.get q).keys ⊆ ((runAll ws t).get q).keys :=
  runAll_induction (fun u => (t.get q).keys ⊆ (u.get q).keys) (Finset.Subset.refl _)
    (fun w hw u hu => hu.trans (h w hw u))

end KeyTree
