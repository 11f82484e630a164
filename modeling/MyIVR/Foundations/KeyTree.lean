import Mathlib.Data.Finset.Sort
import Mathlib.Logic.Function.Basic

/-! Trees of nested keys with values at the leaves, as a remote key-value database
keeps them. Writing below a leaf replaces it by a branch; a missing child is null,
and null itself is never written. -/
namespace KeyTree
variable {κ ν : Type*}

inductive Node (κ ν : Type*) where
  | null
  | leaf (value : ν)
  | branch (keys : Finset κ) (child : κ → Node κ ν)

namespace Node

def keys : Node κ ν → Finset κ
  | branch keys _ => keys
  | _ => ∅

section access
variable [DecidableEq κ]

def child : Node κ ν → κ → Node κ ν
  | branch keys child, k => if k ∈ keys then child k else null
  | _, _ => null

def put : Node κ ν → κ → Node κ ν → Node κ ν
  | branch keys child, k, x => branch (insert k keys) (Function.update child k x)
  | _, k, x => branch {k} (Function.update (fun _ => null) k x)

def get (t : Node κ ν) (path : List κ) : Node κ ν := path.foldl child t

/-- Change the node at the end of a path, creating the path where it is missing. -/
def modify (f : Node κ ν → Node κ ν) : Node κ ν → List κ → Node κ ν
  | t, [] => f t
  | t, k :: path => t.put k ((t.child k).modify f path)

/-- `updateChildValues`: write some children and keep the others. -/
def merge (t : Node κ ν) (entries : List (κ × Node κ ν)) : Node κ ν :=
  entries.foldl (fun t e => t.put e.1 e.2) t

end access

/-- The direct children with their keys, in the order of the keys. (Firebase puts keys that
are integers before the others; a key of childByAutoId is never one.) -/
def children [LinearOrder κ] (t : Node κ ν) : List (κ × Node κ ν) :=
  (t.keys.sort (· ≤ ·)).map (fun k => (k, t.child k))

section laws
variable [DecidableEq κ]

@[simp] theorem child_put_same (t : Node κ ν) (k : κ) (x : Node κ ν) : (t.put k x).child k = x := by
  cases t <;> simp [put, child]

theorem child_put_ne (t : Node κ ν) {j k : κ} (h : j ≠ k) (x : Node κ ν) :
    (t.put k x).child j = t.child j := by
  cases t <;> simp [put, child, h]

@[simp] theorem keys_put (t : Node κ ν) (k : κ) (x : Node κ ν) :
    (t.put k x).keys = insert k t.keys := by
  cases t <;> rfl

@[simp] theorem get_nil (t : Node κ ν) : t.get [] = t := rfl

@[simp] theorem get_cons (t : Node κ ν) (k : κ) (path : List κ) :
    t.get (k :: path) = (t.child k).get path := rfl

theorem child_of_notMem {t : Node κ ν} {k : κ} (h : k ∉ t.keys) : t.child k = null := by
  cases t with
  | branch keys child => exact if_neg h
  | null | leaf => rfl

theorem get_null (path : List κ) : (null : Node κ ν).get path = null := by
  induction path with
  | nil => rfl
  | cons k path ih => exact ih

variable (f g : Node κ ν → Node κ ν)

/-- A change is seen at the end of its own path. -/
@[simp] theorem get_modify (t : Node κ ν) (path : List κ) :
    (t.modify f path).get path = f (t.get path) := by
  induction path generalizing t with
  | nil => rfl
  | cons k path ih => rw [modify, get_cons, get_cons, child_put_same, ih]

theorem get_modify_ne (t : Node κ ν) {j k : κ} (h : j ≠ k) (path path' : List κ) :
    (t.modify f (k :: path)).get (j :: path') = t.get (j :: path') := by
  rw [modify, get_cons, get_cons, child_put_ne _ h]

theorem put_put (t : Node κ ν) (k : κ) (x y : Node κ ν) : (t.put k x).put k y = t.put k y := by
  cases t <;> simp [put]

theorem modify_modify (t : Node κ ν) (path : List κ) :
    (t.modify f path).modify g path = t.modify (fun u => g (f u)) path := by
  induction path generalizing t with
  | nil => rfl
  | cons k path ih => rw [modify, modify, modify, child_put_same, put_put, ih]

theorem get_modify_snoc (t : Node κ ν) (path : List κ) (k : κ) :
    (t.modify f (path ++ [k])).get path = (t.get path).put k (f ((t.get path).child k)) := by
  induction path generalizing t with
  | nil => rfl
  | cons j path ih => rw [List.cons_append, modify, get_cons, get_cons, child_put_same, ih]

theorem child_merge_of_notMem (t : Node κ ν) {entries : List (κ × Node κ ν)} {k : κ}
    (h : k ∉ entries.map Prod.fst) : (t.merge entries).child k = t.child k := by
  induction entries generalizing t with
  | nil => rfl
  | cons e rest ih =>
    rw [List.map_cons, List.mem_cons, not_or] at h
    exact (ih (t.put e.1 e.2) h.2).trans (t.child_put_ne h.1 e.2)

/-- A merge that writes no key twice writes all its entries. -/
theorem child_merge (t : Node κ ν) {entries : List (κ × Node κ ν)}
    (hnodup : (entries.map Prod.fst).Nodup) {k : κ} {x : Node κ ν} (h : (k, x) ∈ entries) :
    (t.merge entries).child k = x := by
  induction entries generalizing t with
  | nil => cases h
  | cons e rest ih =>
    rw [List.map_cons, List.nodup_cons] at hnodup
    rcases List.mem_cons.mp h with rfl | hrest
    · exact ((t.put k x).child_merge_of_notMem hnodup.1).trans (t.child_put_same k x)
    · exact ih (t.put e.1 e.2) hnodup.2 hrest

theorem keys_merge (t : Node κ ν) (entries : List (κ × Node κ ν)) :
    (t.merge entries).keys = t.keys ∪ (entries.map Prod.fst).toFinset := by
  induction entries generalizing t with
  | nil => simp [merge]
  | cons e rest ih =>
    refine (ih (t.put e.1 e.2)).trans ?_
    rw [keys_put, List.map_cons, List.toFinset_cons, Finset.insert_union, Finset.union_insert]

theorem merge_append (t : Node κ ν) (l l' : List (κ × Node κ ν)) :
    t.merge (l ++ l') = (t.merge l).merge l' := List.foldl_append

end laws

section order
variable [LinearOrder κ]

theorem length_children (t : Node κ ν) : t.children.length = t.keys.card := by
  rw [children, List.length_map, Finset.length_sort]

theorem mem_children {t : Node κ ν} {e : κ × Node κ ν} :
    e ∈ t.children ↔ e.1 ∈ t.keys ∧ e.2 = t.child e.1 := by
  rw [children, List.mem_map]
  constructor
  · rintro ⟨k, hk, rfl⟩
    exact ⟨(Finset.mem_sort _).mp hk, rfl⟩
  · rintro ⟨hk, he⟩
    exact ⟨e.1, (Finset.mem_sort _).mpr hk, Prod.ext rfl he.symm⟩

theorem children_of_keys_eq_singleton {t : Node κ ν} {k : κ} (h : t.keys = {k}) :
    t.children = [(k, t.child k)] := by
  rw [children, h, Finset.sort_singleton, List.map_singleton]

/-- A child written under a new greatest key comes last. -/
theorem children_put_last (t : Node κ ν) {k : κ} (h : ∀ j ∈ t.keys, j < k) (x : Node κ ν) :
    (t.put k x).children = t.children ++ [(k, x)] := by
  have hsort : (insert k t.keys).sort (· ≤ ·) = t.keys.sort (· ≤ ·) ++ [k] := by
    have hnodup : (t.keys.sort (· ≤ ·) ++ [k]).Nodup := by
      rw [List.nodup_append']
      refine ⟨t.keys.sort_nodup (· ≤ ·), List.nodup_singleton k, fun j hj hk => ?_⟩
      rw [List.mem_singleton.mp hk] at hj
      exact lt_irrefl k (h k ((Finset.mem_sort _).mp hj))
    have hset : (t.keys.sort (· ≤ ·) ++ [k]).toFinset = insert k t.keys := by
      rw [List.toFinset_append, Finset.sort_toFinset, List.toFinset_cons, List.toFinset_nil,
        Finset.union_insert, Finset.union_empty]
    rw [← hset, List.toFinset_sort _ hnodup, List.pairwise_append]
    refine ⟨t.keys.pairwise_sort (· ≤ ·), List.pairwise_singleton _ _, fun j hj i hi => ?_⟩
    rw [List.mem_singleton.mp hi]
    exact (h j ((Finset.mem_sort _).mp hj)).le
  rw [children, keys_put, hsort, List.map_append, List.map_singleton, child_put_same, children]
  congr 1
  apply List.map_congr_left
  intro j hj
  rw [child_put_ne _ (h j ((Finset.mem_sort _).mp hj)).ne]

end order
end Node
end KeyTree
