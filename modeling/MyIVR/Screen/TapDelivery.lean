import MyIVR.Foundations.Mailbox
import MyIVR.Screen.Controller

/-! Delivery of taps to the worker. Presses are counted by the semaphore, but
their square sits in the one variable `number`, so the controller is a mailbox
with one slot. -/
namespace MyIVR

/-- A press, or a successful wait of the worker with the reads behind it. -/
inductive Turn where
  | tap (s : Square)
  | work
  deriving DecidableEq, Repr

def Turn.events : Turn → List Event
  | tap s => [.tap s]
  | work => [.wait, .readRow, .readCol]

def Turn.sent : Turn → List Int
  | tap s => [s.key]
  | work => []

def tapped (turns : List Turn) : List Int := turns.flatMap Turn.sent

namespace Controller

def play (c : Controller) (turns : List Turn) : Controller := c.run (turns.flatMap Turn.events)

/-- The squares the worker used, one for each successful wait. -/
def received (c : Controller) (turns : List Turn) : List Int :=
  (c.uses (turns.flatMap Turn.events)).map Prod.fst

/-- No tap is waiting for the worker, or this one repeats the square of the last. -/
def Safe (c : Controller) (s : Square) : Prop := c.semaphore = 0 ∨ s.key = c.number

def Ready (c : Controller) : Prop := 0 < c.semaphore ∧ ∃ site, c.worker.status = .waiting site

theorem play_append (c : Controller) (ts us : List Turn) :
    c.play (ts ++ us) = (c.play ts).play us := by
  rw [play, List.flatMap_append]
  exact Mealy.state_append ..

theorem received_append (c : Controller) (ts us : List Turn) :
    c.received (ts ++ us) = c.received ts ++ (c.play ts).received us := by
  rw [received, List.flatMap_append, uses, Mealy.outputs_append, List.map_append]
  rfl

variable {c : Controller}

private theorem play_tap (c : Controller) (s : Square) :
    c.play [.tap s] = { c with number := s.key, semaphore := c.semaphore + 1 } :=
  congrArg Prod.fst (step_tap c s)

private theorem received_tap (c : Controller) (s : Square) : c.received [.tap s] = [] := rfl

private theorem work_ready (hb : c.phase = .blocked) (h : c.Ready) :
    c.received [.work] = [c.number] ∧ (c.play [.work]).number = c.number ∧
      (c.play [.work]).phase = .blocked ∧ (c.play [.work]).semaphore = c.semaphore - 1 := by
  obtain ⟨hcount, site, hsite⟩ := h
  have hwait : c.wait = { c with semaphore := c.semaphore - 1, phase := .woken } := by
    simp only [wait, hb, hsite, hcount, if_true]
  have hused := c.worker.usedSquare_read ⟨site, hsite⟩ c.number
  simp [received, play, run, uses, Turn.events, Mealy.state, Mealy.outputs, step, hwait, readRow,
    readCol, hused]

private theorem work_idle (hb : c.phase = .blocked) (h : ¬ c.Ready) :
    c.received [.work] = [] ∧ c.play [.work] = c := by
  have hwait : c.wait = c := by
    unfold wait
    split
    · rename_i site _ hsite
      exact if_neg (fun hcount => h ⟨hcount, site, hsite⟩)
    · rfl
  simp [received, play, run, uses, Turn.events, Mealy.state, Mealy.outputs, step, hwait, readRow,
    readCol, hb]

/-- What the controller keeps while all its taps are safe. -/
structure Delivers (view : View) (turns : List Turn) : Prop where
  phase : ((start view).play turns).phase = .blocked
  delivered : Mailbox.Delivered (tapped turns) ((start view).received turns)
    ((start view).play turns).number ((start view).play turns).semaphore

variable {view : View} {turns : List Turn}

private theorem Delivers.tap (h : Delivers view turns) {s : Square}
    (safe : ((start view).play turns).Safe s) : Delivers view (turns ++ [.tap s]) where
  phase := by
    rw [play_append, play_tap]
    exact h.phase
  delivered := by
    rw [tapped, List.flatMap_append, received_append, received_tap, List.append_nil, play_append,
      play_tap]
    exact h.delivered.send safe

private theorem Delivers.work (h : Delivers view turns) : Delivers view (turns ++ [.work]) := by
  have hdelivered := h.delivered
  have hsent : tapped (turns ++ [.work]) = tapped turns := by
    rw [tapped, List.flatMap_append]
    exact List.append_nil _
  by_cases hready : ((start view).play turns).Ready
  · obtain ⟨hreceived, hnumber, hphase, hcount⟩ := work_ready h.phase hready
    have hpos : ((start view).play turns).semaphore =
        (((start view).play turns).semaphore - 1) + 1 := (Nat.sub_add_cancel hready.1).symm
    refine ⟨by rw [play_append]; exact hphase, ?_⟩
    rw [hsent, received_append, hreceived, play_append, hnumber, hcount]
    rw [hpos] at hdelivered
    exact hdelivered.receive
  · obtain ⟨hreceived, hplay⟩ := work_idle h.phase hready
    refine ⟨by rw [play_append, hplay]; exact h.phase, ?_⟩
    rw [hsent, received_append, hreceived, List.append_nil, play_append, hplay]
    exact hdelivered

/-- Safe taps are all delivered in order. -/
theorem delivers_of_safe (view : View) (turns : List Turn)
    (safe : ∀ ts s us, turns = ts ++ .tap s :: us → ((start view).play ts).Safe s) :
    Delivers view turns := by
  induction turns using List.reverseRecOn with
  | nil => exact ⟨rfl, .start 0⟩
  | append_singleton ts t ih =>
    have h := ih (fun us s vs heq => safe us s (vs ++ [t]) (by rw [heq, List.append_assoc]; rfl))
    cases t with
    | tap s => exact h.tap (safe ts s [] rfl)
    | work => exact h.work

/-- After a tap that is not safe the next worker step uses its square too early. -/
private theorem Delivers.overwriting_tap (h : Delivers view turns) {s : Square}
    (hover : ¬ ((start view).play turns).Safe s)
    (hwaiting : ∃ site, ((start view).play turns).worker.status = .waiting site) :
    ¬ (start view).received (turns ++ [.tap s, .work]) <+: tapped (turns ++ [.tap s, .work]) := by
  have hdelivered := h.delivered
  rw [Safe, not_or] at hover
  obtain ⟨n, hn⟩ := Nat.exists_eq_succ_of_ne_zero hover.1
  have hready : (((start view).play turns).play [.tap s]).Ready := by
    rw [play_tap]
    exact ⟨Nat.succ_pos _, hwaiting⟩
  have hphase : (((start view).play turns).play [.tap s]).phase = .blocked := by
    rw [play_tap]
    exact h.phase
  have hreceived : (start view).received (turns ++ [.tap s, .work]) =
      (start view).received turns ++ [s.key] := by
    rw [List.append_cons, received_append, received_append, received_tap, List.append_nil,
      play_append, (work_ready hphase hready).1, play_tap]
  have hsent : tapped (turns ++ [.tap s, .work]) = tapped turns ++ [s.key] := by
    rw [tapped, List.flatMap_append]
    rfl
  rw [hn] at hdelivered
  rw [hreceived, hsent]
  exact hdelivered.overwriting_send hover.2

end Controller

open Controller

/-- While every tap finds the semaphore at zero or repeats the last square, the
k-th successful wait uses the square of the k-th tap. The first tap that does
neither breaks the order at the worker's next step. -/
theorem taps_delivered (view : View) (turns : List Turn)
    (safe : ∀ ts s us, turns = ts ++ .tap s :: us → ((start view).play ts).Safe s) :
    (start view).received turns <+: tapped turns ∧
      ∀ s, (∃ site, ((start view).play turns).worker.status = .waiting site) →
        ((start view).received (turns ++ [.tap s, .work]) <+: tapped (turns ++ [.tap s, .work]) ↔
          ((start view).play turns).Safe s) := by
  have h := delivers_of_safe view turns safe
  refine ⟨h.delivered.seen, fun s hwaiting => ⟨?_, fun hsafe => ?_⟩⟩
  · intro hprefix
    by_contra hover
    exact h.overwriting_tap hover hwaiting hprefix
  · rw [List.append_cons]
    exact (h.tap hsafe).work.delivered.seen

/-- Two taps before the worker wakes: it uses the second square twice and never the first. -/
theorem newGame_tap_lost :
    (start .new).received [.tap 8, .tap 24, .work, .work] = [24, 24] ∧
      tapped [.tap 8, .tap 24, .work, .work] = [8, 24] ∧
      ¬ (start .new).received [.tap 8, .tap 24, .work, .work] <+:
        tapped [.tap 8, .tap 24, .work, .work] := by
  refine ⟨?_, ?_, ?_⟩ <;> decide +kernel

theorem newGame_taps_delivered :
    (start .new).received [.tap 8, .work, .tap 24, .work] <+: tapped [.tap 8, .work, .tap 24, .work] :=
  (taps_delivered .new [.tap 8, .work, .tap 24, .work] (by
    intro ts s us h
    have hcases : ts = [] ∨ ts = [.tap 8, .work] := by
      match ts, h with
      | [], _ => exact .inl rfl
      | [_, _], h =>
        simp only [List.cons_append, List.nil_append, List.cons.injEq] at h
        exact .inr (by rw [← h.1, ← h.2.1])
      | [_], h => simp at h
      | [_, _, _], h => simp at h
      | _ :: _ :: _ :: _ :: _, h => simp at h
    rcases hcases with rfl | rfl
    · exact .inl rfl
    · exact .inl (by decide +kernel))).1

end MyIVR
