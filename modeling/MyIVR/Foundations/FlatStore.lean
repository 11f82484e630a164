import MyIVR.Foundations.TreeWrites

/-! Trees as flat tables. Addresses whose paths part pairwise are the keys of a
table, and assignments to them change the tree as they change the table. -/
namespace KeyTree
variable {κ ν α : Type*} [DecidableEq κ] [DecidableEq α]

def Write.set (p : List κ) (x : Node κ ν) : Write κ ν := ⟨p, fun _ => x⟩

theorem Write.run_mergeAt (p : List κ) (e : κ × Node κ ν) (rest : List (κ × Node κ ν)) (t : Node κ ν) :
    (Write.mergeAt p (e :: rest)).run t =
      runAll ((e :: rest).map (fun e => Write.set (p ++ [e.1]) e.2)) t := by
  have hput (e : κ × Node κ ν) (t : Node κ ν) :
      (Write.set (p ++ [e.1]) e.2).run t = t.modify (fun u => u.put e.1 e.2) p := by
    rw [run, set, Node.modify_append]
    rfl
  induction rest generalizing e t with
  | nil => exact (hput e t).symm
  | cons e' rest ih =>
    rw [List.map_cons, runAll_cons, ← ih, hput, run, run, mergeAt, mergeAt, Node.modify_modify]
    rfl

/-- The paths of different proper addresses part. -/
def Spread (path : α → List κ) (proper : α → Prop) : Prop :=
  ∀ a b, proper a → proper b → a ≠ b → Apart (path a) (path b)

def Table.assign {β : Type*} : (α → β) → List (α × β) → α → β
  | table, [] => table
  | table, e :: rest => Table.assign (Function.update table e.1 e.2) rest

theorem Table.assign_congr {β : Type*} {table table' : α → β} {a : α} (h : table a = table' a)
    (l : List (α × β)) : Table.assign table l a = Table.assign table' l a := by
  induction l generalizing table table' with
  | nil => exact h
  | cons e rest ih =>
    rw [assign, assign]
    apply ih
    by_cases ha : a = e.1
    · rw [ha, Function.update_self, Function.update_self]
    · rw [Function.update_of_ne ha, Function.update_of_ne ha, h]

theorem Table.assign_of_notMem {β : Type*} (table : α → β) {l : List (α × β)} {a : α}
    (h : a ∉ l.map Prod.fst) : Table.assign table l a = table a := by
  induction l generalizing table with
  | nil => rfl
  | cons e rest ih =>
    rw [List.map_cons, List.mem_cons, not_or] at h
    rw [assign, ih _ h.2, Function.update_of_ne h.1]

variable {path : α → List κ} {proper : α → Prop}

/-- A tree read at its proper addresses is a table. -/
theorem Spread.get_assigned (h : Spread path proper) {l : List (α × Node κ ν)} (hl : ∀ e ∈ l, proper e.1)
    {a : α} (ha : proper a) (t : Node κ ν) :
    (runAll (l.map (fun e => Write.set (path e.1) e.2)) t).get (path a) =
      Table.assign (fun b => t.get (path b)) l a := by
  induction l generalizing t with
  | nil => rfl
  | cons e rest ih =>
    rw [List.forall_mem_cons] at hl
    rw [List.map_cons, runAll_cons, ih hl.2, Table.assign]
    apply Table.assign_congr
    by_cases hae : a = e.1
    · subst hae
      rw [Function.update_self]
      exact t.get_modify _ _
    · rw [Function.update_of_ne hae]
      exact t.get_modify_apart _ (h e.1 a hl.1 ha (Ne.symm hae))

end KeyTree
