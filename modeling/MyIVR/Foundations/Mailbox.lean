import Mathlib.Data.List.Basic
import Mathlib.Data.List.Infix

/-! A sender and a receiver that share a counting semaphore and one overwritten
slot: sending stores a value and signals, receiving waits and reads the slot.
The count never loses a message, the slot does. -/
namespace Mailbox
variable {α : Type*}

/-- The receiver has seen the sent values in order, and each value still
waiting equals the one in the slot. -/
structure Delivered (sent received : List α) (slot : α) (count : Nat) : Prop where
  seen : received <+: sent
  pending : sent.length = received.length + count
  waiting : ∀ a ∈ sent.drop received.length, a = slot

theorem Delivered.start (slot : α) : Delivered [] [] slot 0 where
  seen := List.prefix_rfl
  pending := rfl
  waiting := by simp

/-- A send is safe when nothing is waiting or when it repeats the slot. -/
theorem Delivered.send {sent received : List α} {slot : α} {count : Nat}
    (h : Delivered sent received slot count) {a : α} (safe : count = 0 ∨ a = slot) :
    Delivered (sent ++ [a]) received a (count + 1) where
  seen := h.seen.trans (List.prefix_append _ _)
  pending := by
    rw [List.length_append, h.pending, List.length_singleton, Nat.add_assoc]
  waiting b hb := by
    rw [List.drop_append_of_le_length (by rw [h.pending]; omega), List.mem_append,
      List.mem_singleton] at hb
    rcases hb with hb | rfl
    · rcases safe with hz | rfl
      · rw [List.drop_eq_nil_of_le (by rw [h.pending]; omega)] at hb
        cases hb
      · exact h.waiting b hb
    · rfl

private theorem Delivered.oldest {sent received : List α} {slot : α} {count : Nat}
    (h : Delivered sent received slot (count + 1)) :
    ∃ rest, sent = received ++ slot :: rest := by
  obtain ⟨rest, rfl⟩ := h.seen
  have hlen := h.pending
  have hwaiting := h.waiting
  rw [List.drop_left] at hwaiting
  cases rest with
  | nil => simp at hlen
  | cons a rest => exact ⟨rest, by rw [hwaiting a List.mem_cons_self]⟩

theorem Delivered.receive {sent received : List α} {slot : α} {count : Nat}
    (h : Delivered sent received slot (count + 1)) :
    Delivered sent (received ++ [slot]) slot count := by
  obtain ⟨rest, rfl⟩ := h.oldest
  refine ⟨⟨rest, by simp⟩, ?_, ?_⟩
  · have hlen := h.pending
    simp only [List.length_append, List.length_cons, List.length_nil] at hlen ⊢
    omega
  · intro a ha
    apply h.waiting a
    rw [List.drop_left]
    rw [List.append_cons received slot rest, List.drop_left] at ha
    exact List.mem_cons_of_mem _ ha

/-- After a send that is not safe the next value received is out of order. -/
theorem Delivered.overwriting_send {sent received : List α} {slot : α} {count : Nat}
    (h : Delivered sent received slot (count + 1)) {a : α} (differs : a ≠ slot) :
    ¬ received ++ [a] <+: sent ++ [a] := by
  obtain ⟨rest, rfl⟩ := h.oldest
  rw [List.append_assoc, List.prefix_append_right_inj, List.cons_append, List.cons_prefix_cons]
  exact fun hp => differs hp.1

end Mailbox
