import MyIVR.Match.Colours

/-! How far a match gets. Behind a poll that succeeds the worker waits on semaphore2,
which nothing signals, so a client makes one move at most and never the other's. -/
namespace MyIVR
open Swift

def own (i : Side) (signs : List (Side × Sign)) : List Sign :=
  signs.filterMap (fun e => if e.1 = i then some e.2 else none)

private theorem own_snoc (i j : Side) (signs : List (Side × Sign)) (sign : Option Sign) :
    own i (signs ++ (sign.map (fun s => (j, s))).toList) =
      own i signs ++ if j = i then sign.toList else [] := by
  rw [own, List.filterMap_append, own]
  congr 1
  cases sign with
  | none => by_cases h : j = i <;> simp [h]
  | some s => by_cases h : j = i <;> simp [h]

namespace Match

/-- What a client's presses, polls and worker keep of the client and of what was
seen of it so far, holds of both clients in every interleaving. -/
theorem run_history {P : Side → FourPlayersGame → List Sign → Prop}
    (tap : ∀ i c done x y, P i c done → P i (c.buttonPressed x y) done)
    (poll : ∀ i c done db, P i c done → P i (c.poll db).1 (done ++ (c.poll db).2.toList))
    (work : ∀ i c done db, P i c done → P i (c.work db).1 (done ++ (c.work db).2.2.toList)) {m : Match}
    (h : ∀ i, P i (m.client i) []) (events : List (Side × ClientEvent)) (i : Side) :
    P i ((m.run events).client i) (own i (m.signs events)) := by
  refine Mealy.run_induction (fun (m : Match) signs => ∀ i, P i (m.client i) (own i signs)) h ?_ events i
  rintro m signs ⟨j, e⟩ hm i
  by_cases hij : i = j
  · subst hij
    have hown (sign : Option Sign) :
        own i (signs ++ (sign.map (fun s => (i, s))).toList) = own i signs ++ sign.toList := by
      rw [own_snoc, if_pos rfl]
    cases e with
    | tap x y =>
      rcases m.step_tap i x y with hstep | hstep <;> rw [hstep, Option.toList_none, List.append_nil]
      · exact hm i
      · rw [set_same]
        exact tap i _ _ x y (hm i)
    | poll =>
      rcases m.step_poll i with hstep | hstep <;> rw [hstep]
      · rw [Option.toList_none, List.append_nil]
        exact hm i
      · rw [hown, set_same]
        exact poll i _ _ m.db (hm i)
    | work =>
      rw [step_work, hown]
      exact (set_same m i _).symm ▸ work i _ _ m.db (hm i)
  · have hown (sign : Option Sign) :
        own i (signs ++ (sign.map (fun s => (j, s))).toList) = own i signs := by
      rw [own_snoc, if_neg (Ne.symm hij), List.append_nil]
    cases e with
    | tap x y =>
      rcases m.step_tap j x y with hstep | hstep <;> rw [hstep, Option.toList_none, List.append_nil]
      · exact hm i
      · rw [set_other m hij]
        exact hm i
    | poll =>
      rcases m.step_poll j with hstep | hstep <;> rw [hstep]
      · rw [Option.toList_none, List.append_nil]
        exact hm i
      · rw [hown, set_other m hij]
        exact hm i
    | work =>
      rw [step_work, hown]
      exact (set_other m hij _).symm ▸ hm i

end Match

def Sign.isTurn : Sign → Bool
  | turn .. => true
  | _ => false

def Sign.isMessage : Sign → Bool
  | published .. => true
  | _ => false

def Stage.selecting : Stage → Bool
  | waiting _ | woken _ | rowRead _ => true
  | _ => false

namespace FourPlayersGame

/-- What holds of a client known as `who` that started on `first`, when it has made
the moves `turns` and sent a number of messages. -/
structure Stalls (who : Int) (first : GameData) (c : FourPlayersGame) (turns : List Sign)
    (messages : Nat) : Prop where
  person : c.person = who
  semaphore2 : c.semaphore2 = 0
  selecting : c.stage.selecting = true → turns = [] ∧ who.tmod 2 = 0
  publishing : c.stage = .publishing → turns ≠ [] ∧ messages = 0
  sent : messages ≤ turns.length
  odd : who.tmod 2 ≠ 0 → turns = []
  board : turns = [] ∧ c.board.boardA = first.boardA ∨ ∃ p q color, turns = [.turn p q color] ∧
    ∃ before after : GameData, before.boardA = first.boardA ∧ moveIfFree before p q = .ok after ∧
      c.board.boardA = after.boardA

variable {who : Int} {first : GameData} {c c' : FourPlayersGame} {turns : List Sign} {messages : Nat}

private theorem Stalls.keep (h : Stalls who first c turns messages) (hperson : c'.person = c.person)
    (hsemaphore : c'.semaphore2 = c.semaphore2) (hboard : c'.board.boardA = c.board.boardA)
    (hselecting : c'.stage.selecting = true → c.stage.selecting = true)
    (hpublishing : c'.stage = .publishing → c.stage = .publishing) :
    Stalls who first c' turns messages where
  person := hperson.trans h.person
  semaphore2 := hsemaphore.trans h.semaphore2
  selecting hs := h.selecting (hselecting hs)
  publishing hs := h.publishing (hpublishing hs)
  sent := h.sent
  odd := h.odd
  board := by
    rw [hboard]
    exact h.board

private theorem Stalls.turn (h : Stalls who first c turns messages) (hselecting : c.stage.selecting = true) :
    Stalls who first c.targetHead.1 (turns ++ c.targetHead.2.toList.filter Sign.isTurn) messages := by
  obtain ⟨rfl, heven⟩ := h.selecting hselecting
  have hsent : messages = 0 := Nat.le_zero.mp h.sent
  have hboard : c.board.boardA = first.boardA := by
    rcases h.board with ⟨_, hsame⟩ | ⟨p, q, color, hturns, _⟩
    · exact hsame
    · cases hturns
  rcases c.targetHead_cases with ⟨fault, _, hhead⟩ | ⟨board, _, hsame, hhead⟩ |
      ⟨board, moved, _, hsame, hmove, hhead⟩ <;> rw [hhead]
  · exact h.keep rfl rfl rfl (by simp [Stage.selecting]) (by simp)
  · exact h.keep rfl rfl hsame (fun _ => hselecting) (by simp)
  · exact ⟨h.person, h.semaphore2, by simp [Stage.selecting], fun _ => ⟨by simp [Sign.isTurn], hsent⟩,
      hsent ▸ Nat.zero_le _, fun hodd => absurd heven hodd,
      .inr ⟨_, _, _, rfl, board, moved, hsame.trans hboard, hmove, rfl⟩⟩

private theorem loopHead_stage (c : FourPlayersGame) :
    c.loopHead.stage.selecting = false ∧ c.loopHead.stage ≠ .publishing := by
  rw [loopHead]
  split <;> exact ⟨rfl, by simp⟩

private theorem loopHead_same (c : FourPlayersGame) : c.loopHead.person = c.person ∧
    c.loopHead.semaphore2 = c.semaphore2 ∧ c.loopHead.board = c.board := by
  rw [loopHead]
  split <;> exact ⟨rfl, rfl, rfl⟩

private theorem readRow_same (c : FourPlayersGame) (site : Site) : (c.readRow site).person = c.person ∧
    (c.readRow site).semaphore2 = c.semaphore2 ∧ (c.readRow site).board = c.board := by
  rw [readRow]
  split <;> exact ⟨rfl, rfl, rfl⟩

private theorem readCol_same (c : FourPlayersGame) (site : Site) : (c.readCol site).person = c.person ∧
    (c.readCol site).semaphore2 = c.semaphore2 ∧ (c.readCol site).board = c.board ∧
      (c.readCol site).stage = c.stage := by
  rw [readCol]
  split <;> exact ⟨rfl, rfl, rfl, rfl⟩

private theorem Stalls.work (h : Stalls who first c turns messages) (db : Snapshot) :
    Stalls who first (c.work db).1 (turns ++ (c.work db).2.2.toList.filter Sign.isTurn)
      (messages + (c.work db).2.2.toList.countP Sign.isMessage) := by
  have quiet {c' : FourPlayersGame} (h' : Stalls who first c' turns messages) :
      Stalls who first c' (turns ++ (none : Option Sign).toList.filter Sign.isTurn)
        (messages + (none : Option Sign).toList.countP Sign.isMessage) := by
    simpa using h'
  cases hs : c.stage with
  | waiting site =>
    simp only [FourPlayersGame.work, hs]
    split
    · exact quiet (h.keep rfl rfl rfl (fun _ => by rw [hs]; rfl) (by simp))
    · exact quiet h
  | woken site =>
    obtain ⟨hperson, hsemaphore, hboard⟩ := c.readRow_same site
    simp only [FourPlayersGame.work, hs]
    exact quiet (h.keep hperson hsemaphore (congrArg GameData.boardA hboard) (fun _ => by rw [hs]; rfl) (by simp))
  | rowRead site =>
    obtain ⟨hperson, hsemaphore, hboard, hstage⟩ := c.readCol_same site
    have hselecting : c.stage.selecting = true := by rw [hs]; rfl
    have hread : Stalls who first (c.readCol site) turns messages :=
      h.keep hperson hsemaphore (congrArg GameData.boardA hboard) (fun _ => hselecting)
        (fun hp => hstage ▸ hp)
    simp only [FourPlayersGame.work, hs]
    split
    · exact quiet (hread.keep rfl rfl rfl (fun _ => hstage ▸ hselecting) (by simp [sourceHead]))
    · have hturn := hread.turn (hstage ▸ hselecting)
      have hmessages : (c.readCol site).targetHead.2.toList.countP Sign.isMessage = 0 := by
        rcases (c.readCol site).targetHead_cases with ⟨_, _, hhead⟩ | ⟨_, _, _, hhead⟩ | ⟨_, _, _, _, _, hhead⟩ <;>
          rw [hhead] <;> rfl
      rwa [hmessages, Nat.add_zero]
  | publishing =>
    obtain ⟨hturns, hmessages⟩ := h.publishing hs
    obtain ⟨hselecting, hpublishing⟩ := c.loopHead_stage
    obtain ⟨hperson, hsemaphore, hboard⟩ := c.loopHead_same
    simp only [FourPlayersGame.work, hs]
    have hone : 1 ≤ turns.length := List.length_pos_iff.mpr hturns
    have hlist : turns ++ (some (Sign.published c.message)).toList.filter Sign.isTurn = turns := by
      simp [Sign.isTurn]
    have hcount : messages + (some (Sign.published c.message)).toList.countP Sign.isMessage = 1 := by
      rw [hmessages]
      rfl
    rw [hlist, hcount]
    refine ⟨hperson.trans h.person, hsemaphore.trans h.semaphore2, fun hsel => ?_, fun hpub => ?_, hone, h.odd, ?_⟩
    · rw [hselecting] at hsel
      cases hsel
    · exact absurd hpub hpublishing
    · rw [hboard]
      exact h.board
  | cheking =>
    simp only [FourPlayersGame.work, hs]
    split
    · exact quiet (h.keep rfl rfl rfl (by simp [Stage.selecting]) (by simp))
    · exact quiet (h.keep rfl rfl rfl (by simp [Stage.selecting]) (by simp))
  | confirming =>
    have hnone : ¬ 0 < c.semaphore2 := by rw [h.semaphore2]; exact Nat.lt_irrefl 0
    simp only [FourPlayersGame.work, hs, if_neg hnone]
    exact quiet h
  | faulted fault | ended =>
    simp only [FourPlayersGame.work, hs]
    exact quiet h

private theorem Stalls.poll (h : Stalls who first c turns messages) (db : Snapshot) :
    Stalls who first (c.poll db).1 (turns ++ (c.poll db).2.toList.filter Sign.isTurn)
      (messages + (c.poll db).2.toList.countP Sign.isMessage) := by
  have seen {c' : FourPlayersGame} {number : Int} {pair : Option (Int × Int)}
      (h' : Stalls who first c' turns messages) :
      Stalls who first c' (turns ++ (some (Sign.polled number pair)).toList.filter Sign.isTurn)
        (messages + (some (Sign.polled number pair)).toList.countP Sign.isMessage) := by
    simpa [Sign.isTurn, Sign.isMessage] using h'
  rw [FourPlayersGame.poll]
  split
  · simpa using h
  · simp only
    split
    · exact seen (h.keep rfl rfl rfl id id)
    · refine seen ?_
      simp only [handler]
      split
      · split
        · exact h.keep rfl rfl rfl id id
        · exact h.keep rfl rfl rfl id id
      · exact h.keep rfl rfl rfl (by simp [Stage.selecting]) (by simp)

private theorem Stalls.start (c : FourPlayersGame) (h : c.semaphore2 = 0) (board : GameData) (number : Int) :
    Stalls c.person board (c.playGame board number) [] 0 := by
  rw [playGame]
  split
  · rename_i heven
    exact ⟨rfl, h, fun _ => ⟨rfl, heven⟩, by simp, Nat.le_refl 0, fun _ => rfl, .inl ⟨rfl, rfl⟩⟩
  · obtain ⟨hselecting, hpublishing⟩ := FourPlayersGame.loopHead_stage { c with
      board := board, boardID := number, row := 1, col := 1, row1 := 1, col1 := 1 }
    obtain ⟨hperson, hsemaphore, hboard⟩ := FourPlayersGame.loopHead_same { c with
      board := board, boardID := number, row := 1, col := 1, row1 := 1, col1 := 1 }
    refine ⟨hperson, hsemaphore.trans h, fun hsel => ?_, fun hpub => absurd hpub hpublishing, Nat.le_refl 0,
      fun _ => rfl, .inl ⟨rfl, congrArg GameData.boardA hboard⟩⟩
    rw [hselecting] at hsel
    cases hsel

/-- The clients of a match stall in every run of it. -/
theorem Stalls.run (db : Snapshot) (client : Side → FourPlayersGame) (board : Side → GameData)
    (number : Int) (hsemaphore : ∀ i, (client i).semaphore2 = 0) (events : List (Side × ClientEvent))
    (i : Side) :
    let done := own i ((Match.start db client board number).signs events)
    Stalls (client i).person (board i) (((Match.start db client board number).run events).client i)
      (done.filter Sign.isTurn) (done.countP Sign.isMessage) := by
  refine Match.run_history (P := fun i c done => Stalls (client i).person (board i) c
    (done.filter Sign.isTurn) (done.countP Sign.isMessage)) ?_ ?_ ?_ ?_ events i
  · intro i c done x y h
    exact h.keep rfl rfl rfl id id
  · intro i c done db h
    rw [List.filter_append, List.countP_append]
    exact h.poll db
  · intro i c done db h
    rw [List.filter_append, List.countP_append]
    exact h.work db
  · intro i
    exact Stalls.start (client i) (hsemaphore i) (board i) number

end FourPlayersGame

/-- In every run of two clients that call playGame with semaphore2 at zero, each client
makes at most one move and sends at most one message for it; a client with an odd
person makes none. Its board is the first one, with at most its own move made on it. -/
theorem one_move_at_most (db : Snapshot) (client : Side → FourPlayersGame) (board : Side → GameData)
    (number : Int) (hsemaphore : ∀ i, (client i).semaphore2 = 0) (events : List (Side × ClientEvent))
    (i : Side) :
    let start := Match.start db client board number
    let done := own i (start.signs events)
    let last := (start.run events).client i
    done.countP Sign.isMessage ≤ done.countP Sign.isTurn ∧ done.countP Sign.isTurn ≤ 1 ∧
      ((client i).person.tmod 2 ≠ 0 → done.countP Sign.isTurn = 0) ∧
      (done.countP Sign.isTurn = 0 ∧ last.board.boardA = (board i).boardA ∨
        ∃ p q color, .turn p q color ∈ done ∧ ∃ before after : GameData,
          before.boardA = (board i).boardA ∧ moveIfFree before p q = .ok after ∧
            last.board.boardA = after.boardA) := by
  intro start done last
  have hstalls := FourPlayersGame.Stalls.run db client board number hsemaphore events i
  have hcount : done.countP Sign.isTurn = (done.filter Sign.isTurn).length := List.countP_eq_length_filter
  rw [hcount]
  refine ⟨hstalls.sent, ?_, fun hodd => List.length_eq_zero_iff.mpr (hstalls.odd hodd), ?_⟩
  · rcases hstalls.board with ⟨hnone, _⟩ | ⟨p, q, color, hone, _⟩
    · rw [hnone]
      exact Nat.zero_le 1
    · rw [hone]
      exact Nat.le_refl 1
  · rcases hstalls.board with ⟨hnone, hsame⟩ | ⟨p, q, color, hone, hmove⟩
    · exact .inl ⟨List.length_eq_zero_iff.mpr hnone, hsame⟩
    · have hmem : Sign.turn p q color ∈ done.filter Sign.isTurn := by
        rw [hone]
        exact List.mem_singleton_self _
      exact .inr ⟨p, q, color, List.mem_of_mem_filter hmem, hmove⟩

/-- The even client plays a knight out and taps the same squares once more. -/
theorem knight_moves_once :
    (own .even (twoClients.signs (knightTaps ++ knightTaps))).countP Sign.isTurn = 1 :=
  Nat.le_antisymm (one_move_at_most .null _
    (fun _ => GameData.new.initBoardA) 1 (fun i => by cases i <;> rfl) (knightTaps ++ knightTaps) .even).2.1
    (by decide +kernel)

end MyIVR
