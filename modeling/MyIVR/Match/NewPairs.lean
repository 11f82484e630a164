import Mathlib.Data.List.Chain
import MyIVR.Match.Delivery
import MyIVR.Match.Standstill

/-! What cheking accepts, when a read hands over the stored pair. A pair is new when it
differs from the last one, whoever sent it, and a client sends one pair at most, so a
match comes to one pair. -/
namespace MyIVR
open Swift

def Sign.accepted : Sign → Option (Int × Int)
  | polled _ pair => pair
  | _ => none

def Sign.message : Sign → Option (Int × Int)
  | published pair => some pair
  | _ => none

def publishedBy (i : Side) (signs : List (Side × Sign)) : List (Int × Int) :=
  (own i signs).filterMap Sign.message

private theorem acceptedBy_eq (i : Side) (signs : List (Side × Sign)) :
    acceptedBy i signs = (own i signs).filterMap Sign.accepted := by
  rw [acceptedBy, own, List.filterMap_filterMap]
  congr 1
  funext e
  obtain ⟨j, sign⟩ := e
  by_cases h : j = i <;> cases sign with
  | polled number pair => cases pair <;> simp [h, Sign.accepted]
  | _ => simp [h, Sign.accepted]

private theorem length_publishedBy (i : Side) (signs : List (Side × Sign)) :
    (publishedBy i signs).length = (own i signs).countP Sign.isMessage := by
  rw [publishedBy, List.length_filterMap_eq_countP]
  congr 1
  funext sign
  cases sign <;> rfl

namespace FourPlayersGame

/-- What holds of a client that has taken some pairs since it was `first`. -/
structure Takes (first c : FourPlayersGame) (pairs : List (Int × Int)) : Prop where
  latest : ∃ older, first.position :: first.position1 :: pairs = older ++ [c.position, c.position1]
  differ : (first.position1 :: pairs).IsChain (· ≠ ·)
  cheked : c.stage = .cheking → c.sucsess = true → pairs ≠ []
  confirmed : c.stage = .confirming → pairs ≠ []

variable {first c c' : FourPlayersGame} {pairs : List (Int × Int)}

private theorem Takes.keep (h : Takes first c pairs) (hposition : c'.position = c.position)
    (hposition1 : c'.position1 = c.position1)
    (hcheked : c'.stage = .cheking → c'.sucsess = true → pairs ≠ [])
    (hconfirmed : c'.stage = .confirming → pairs ≠ []) : Takes first c' pairs where
  latest := by
    rw [hposition, hposition1]
    exact h.latest
  differ := h.differ
  cheked := hcheked
  confirmed := hconfirmed

private theorem loopHead_keeps (c : FourPlayersGame) : c.loopHead.position = c.position ∧
    c.loopHead.position1 = c.position1 ∧ c.loopHead.stage ≠ .confirming ∧
      (c.loopHead.stage = .cheking → c.loopHead.sucsess = false) := by
  rw [loopHead]
  split
  · exact ⟨rfl, rfl, by simp, by simp⟩
  · exact ⟨rfl, rfl, by simp, fun _ => rfl⟩

private theorem Takes.loopHead (h : Takes first c pairs) : Takes first c.loopHead pairs := by
  obtain ⟨hposition, hposition1, hstage, hsucsess⟩ := c.loopHead_keeps
  refine h.keep hposition hposition1 (fun hcheking htrue => ?_) (fun hc => absurd hc hstage)
  rw [hsucsess hcheking] at htrue
  cases htrue

private theorem Takes.work (h : Takes first c pairs) (db : Snapshot) : Takes first (c.work db).1 pairs := by
  cases hs : c.stage with
  | waiting site =>
    simp only [FourPlayersGame.work, hs]
    split
    · exact h.keep rfl rfl (by simp) (by simp)
    · exact h
  | woken site =>
    simp only [FourPlayersGame.work, hs, readRow]
    split <;> exact h.keep rfl rfl (by simp) (by simp)
  | rowRead site =>
    have hread : Takes first { c.readCol site with stage := .rowRead site } pairs := by
      rw [readCol]
      split <;> exact h.keep rfl rfl (by simp) (by simp)
    simp only [FourPlayersGame.work, hs]
    split
    · exact hread.keep rfl rfl (by simp [sourceHead]) (by simp [sourceHead])
    · rcases (c.readCol site).targetHead_cases with
        ⟨_, _, hhead⟩ | ⟨_, _, _, hhead⟩ | ⟨_, _, _, _, _, hhead⟩ <;> rw [hhead] <;>
        exact hread.keep rfl rfl (by simp) (by simp)
  | publishing =>
    simp only [FourPlayersGame.work, hs]
    exact h.loopHead
  | cheking =>
    simp only [FourPlayersGame.work, hs]
    split
    · rename_i hsucsess
      exact h.keep rfl rfl (by simp) (fun _ => h.cheked hs hsucsess)
    · exact h.keep rfl rfl (fun _ => h.cheked hs) (by simp)
  | confirming =>
    simp only [FourPlayersGame.work, hs]
    split
    · rw [receive]
      split <;> exact h.keep rfl rfl (by simp) (by simp)
    · exact h
  | faulted fault | ended =>
    simp only [FourPlayersGame.work, hs]
    exact h

private theorem Takes.take (h : Takes first c pairs) {w : Int × Int} (hnew : c.position1 ≠ w)
    (hposition : c'.position = c.position1) (hposition1 : c'.position1 = w) :
    Takes first c' (pairs ++ [w]) := by
  obtain ⟨older, holder⟩ := h.latest
  have hsnoc : pairs ++ [w] ≠ [] := List.append_ne_nil_of_right_ne_nil _ (List.cons_ne_nil _ _)
  have hlast : (first.position1 :: pairs).getLast? = some c.position1 := by
    have hwhole := congrArg List.getLast? holder
    rw [List.getLast?_cons_cons] at hwhole
    rw [hwhole]
    simp
  refine ⟨⟨older ++ [c.position], ?_⟩, ?_, fun _ _ => hsnoc, fun _ => hsnoc⟩
  · rw [← List.cons_append, ← List.cons_append, holder, hposition, hposition1]
    simp
  · rw [← List.cons_append]
    refine h.differ.append (List.isChain_singleton w) fun x hx y hy => ?_
    rw [hlast, Option.mem_some_iff] at hx
    rw [List.head?_cons, Option.mem_some_iff] at hy
    exact hx ▸ hy ▸ hnew

private theorem Takes.poll (h : Takes first c pairs) (db : Snapshot) :
    Takes first (c.poll db).1 (pairs ++ (c.poll db).2.toList.filterMap Sign.accepted) := by
  have same {c' : FourPlayersGame} {number : Int} (h' : Takes first c' pairs) :
      Takes first c' (pairs ++ (some (Sign.polled number none)).toList.filterMap Sign.accepted) := by
    rw [Option.toList_some, List.filterMap_cons, Sign.accepted, List.filterMap_nil, List.append_nil]
    exact h'
  rw [FourPlayersGame.poll]
  split
  · rw [Option.toList_none, List.filterMap_nil, List.append_nil]
    exact h
  · simp only
    split
    · exact same (h.keep rfl rfl h.cheked h.confirmed)
    · simp only [handler]
      split
      · rename_i pos pos1 _
        split
        · rename_i hnew
          exact h.take hnew rfl rfl
        · exact same (h.keep rfl rfl h.cheked h.confirmed)
      · exact same (h.keep rfl rfl (by simp) (by simp))

private theorem work_accepts (c : FourPlayersGame) (db : Snapshot) :
    (c.work db).2.2.toList.filterMap Sign.accepted = [] := by
  rcases (c.work_frame db).2 with hpublish | ⟨sign, hquiet, hturn⟩
  · rw [hpublish]
    rfl
  · rw [hquiet]
    cases sign with
    | none => rfl
    | some s =>
      obtain ⟨p, q, color, rfl⟩ := hturn s rfl
      rfl

private theorem takes_playGame (c : FourPlayersGame) (board : GameData) (number : Int) :
    Takes c (c.playGame board number) [] := by
  have start {c' : FourPlayersGame} (hposition : c'.position = c.position)
      (hposition1 : c'.position1 = c.position1) (hstage : ∃ site, c'.stage = .waiting site) :
      Takes c c' [] := by
    obtain ⟨site, hstage⟩ := hstage
    exact ⟨⟨[], by rw [hposition, hposition1]; rfl⟩, List.isChain_singleton _, by rw [hstage]; simp,
      by rw [hstage]; simp⟩
  rw [playGame]
  split
  · exact start rfl rfl ⟨_, rfl⟩
  · -- the head of the loop overwrites the stage
    have hstart : Takes c { c with
        board := board, boardID := number, row := 1, col := 1, row1 := 1, col1 := 1
        stage := .waiting .source } [] := start rfl rfl ⟨_, rfl⟩
    exact hstart.loopHead

theorem Takes.run (db : Snapshot) (client : Side → FourPlayersGame) (board : Side → GameData)
    (number : Int) (events : List (Side × ClientEvent)) (i : Side) :
    Takes (client i) (((Match.start db client board number).run events).client i)
      (acceptedBy i ((Match.start db client board number).signs events)) := by
  rw [acceptedBy_eq]
  refine Match.run_history (P := fun i c done => Takes (client i) c
    (done.filterMap Sign.accepted)) ?_ ?_ ?_ ?_ events i
  · intro i c done x y h
    exact h.keep rfl rfl h.cheked h.confirmed
  · intro i c done db h
    rw [List.filterMap_append]
    exact h.poll db
  · intro i c done db h
    rw [List.filterMap_append, c.work_accepts db, List.append_nil]
    exact h.work db
  · intro i
    exact takes_playGame (client i) (board i) number

end FourPlayersGame

/-- In every run of a match whose polls hand over the stored pair: the two latest pairs of a
client are its first ones followed by those it accepted, no pair is accepted twice in a
row, and a client whose worker has left cheking has accepted one. -/
theorem cheking_waits_for_news (db : Snapshot) (client : Side → FourPlayersGame)
    (board : Side → GameData) (number : Int) (events : List (Side × ClientEvent)) (i : Side) :
    let start := Match.start db client board number
    let pairs := acceptedBy i (start.signs events)
    let last := (start.run events).client i
    (∃ older, (client i).position :: (client i).position1 :: pairs =
        older ++ [last.position, last.position1]) ∧
      ((client i).position1 :: pairs).IsChain (· ≠ ·) ∧ (last.stage = .confirming → pairs ≠ []) := by
  intro start pairs last
  have htakes := FourPlayersGame.Takes.run db client board number events i
  exact ⟨htakes.latest, htakes.differ, htakes.confirmed⟩

section origin
variable {gameID : String}

/-- What is stored on the boards of the game, and what was accepted, has been published. -/
private structure Published (gameID : String) (m : Match) (signs : List (Side × Sign)) : Prop where
  game : ∀ i, (m.client i).gameID = gameID
  stored : ∀ n, ∀ w ∈ pairAt gameID m.db n, ∃ j, (j, .published w) ∈ signs
  taken : ∀ i n w, (i, .polled n (some w)) ∈ signs → ∃ j, (j, .published w) ∈ signs

private theorem Published.keep {m m' : Match} {signs : List (Side × Sign)} (h : Published gameID m signs)
    (hgame : ∀ i, (m'.client i).gameID = (m.client i).gameID) (hdb : m'.db = m.db)
    {more : List (Side × Sign)} (hmore : ∀ i n w, (i, .polled n (some w)) ∉ more) :
    Published gameID m' (signs ++ more) := by
  have later {w : Int × Int} : (∃ j, (j, Sign.published w) ∈ signs) →
      ∃ j, (j, Sign.published w) ∈ signs ++ more := fun ⟨j, hj⟩ => ⟨j, List.mem_append_left _ hj⟩
  refine ⟨fun i => (hgame i).trans (h.game i), fun n w hw => ?_, fun i n w hw => ?_⟩
  · rw [hdb] at hw
    exact later (h.stored n w hw)
  · rcases List.mem_append.mp hw with hw | hw
    · exact later (h.taken i n w hw)
    · exact absurd hw (hmore i n w)

private theorem set_gameID (m : Match) (i : Side) {c : FourPlayersGame}
    (h : c.gameID = (m.client i).gameID) (j : Side) : ((m.set i c).client j).gameID = (m.client j).gameID := by
  by_cases hj : j = i
  · subst hj
    rw [Match.set_same, h]
  · rw [Match.set_other m hj]

private theorem Published.poll {m : Match} {signs : List (Side × Sign)} (h : Published gameID m signs) (i : Side) :
    Published gameID (m.set i ((m.client i).poll m.db).1)
      (signs ++ (((m.client i).poll m.db).2.map (Prod.mk i)).toList) := by
  have nothing : ∀ j n w, (j, Sign.polled n (some w)) ∉ (none : Option (Side × Sign)).toList :=
    fun _ _ _ => List.not_mem_nil
  rcases (m.client i).poll_cases m.db with ⟨hsame, hsign⟩ | ⟨hsame, hsign, _⟩ | ⟨w, hw, _, hsame, hsign⟩ <;>
    rw [hsign]
  · exact h.keep (set_gameID m i hsame.1) rfl nothing
  · exact h.keep (set_gameID m i hsame.1) rfl (by simp)
  · -- what the poll takes is stored at the node it looks at
    rw [h.game i] at hw
    obtain ⟨j, hj⟩ := h.stored _ w hw
    have hkeep : Published gameID (m.set i ((m.client i).poll m.db).1) (signs ++ []) :=
      h.keep (set_gameID m i hsame.1) rfl nothing
    rw [List.append_nil] at hkeep
    refine ⟨hkeep.game, fun n v hv => ?_, fun k n v hv => ?_⟩
    · obtain ⟨l, hl⟩ := hkeep.stored n v hv
      exact ⟨l, List.mem_append_left _ hl⟩
    · rcases List.mem_append.mp hv with hv | hv
      · obtain ⟨l, hl⟩ := h.taken k n v hv
        exact ⟨l, List.mem_append_left _ hl⟩
      · cases List.mem_singleton.mp hv
        exact ⟨j, List.mem_append_left _ hj⟩

private theorem Published.work {m : Match} {signs : List (Side × Sign)} (h : Published gameID m signs) (i : Side) :
    Published gameID (m.step (i, .work)).1 (signs ++ (m.step (i, .work)).2.toList) := by
  rw [Match.step_work]
  obtain ⟨hsame, hpublish | ⟨sign, hquiet, hturn⟩⟩ := (m.client i).work_frame m.db
  · rw [hpublish]
    refine ⟨fun j => (set_gameID m i hsame.1 j).trans (h.game j), fun n w hw => ?_, fun k n w hw => ?_⟩
    · change pairAt gameID (makeMove (m.client i).gameID _ _ _ m.db) n = some w at hw
      rw [h.game i, pairAt_makeMove] at hw
      split at hw
      · rw [readBack, Option.ite_none_right_eq_some, Option.some.injEq] at hw
        exact ⟨i, by simp [hw.2]⟩
      · obtain ⟨j, hj⟩ := h.stored n w hw
        exact ⟨j, List.mem_append_left _ hj⟩
    · obtain ⟨j, hj⟩ := h.taken k n w (by simpa using hw)
      exact ⟨j, List.mem_append_left _ hj⟩
  · rw [hquiet]
    refine h.keep (set_gameID m i hsame.1) rfl fun k n w hw => ?_
    cases sign with
    | none => cases hw
    | some s =>
      obtain ⟨p, q, color, rfl⟩ := hturn s rfl
      cases List.mem_singleton.mp hw

private theorem published_step {m : Match} {signs : List (Side × Sign)} (h : Published gameID m signs)
    (e : Side × ClientEvent) : Published gameID (m.step e).1 (signs ++ (m.step e).2.toList) := by
  obtain ⟨i, e⟩ := e
  have nothing : ∀ j n w, (j, Sign.polled n (some w)) ∉ (none : Option (Side × Sign)).toList :=
    fun _ _ _ => List.not_mem_nil
  cases e with
  | tap x y =>
    rcases m.step_tap i x y with hstep | hstep <;> rw [hstep]
    · exact h.keep (fun _ => rfl) rfl nothing
    · exact h.keep (set_gameID m i (c := (m.client i).buttonPressed x y) rfl) rfl nothing
  | poll =>
    rcases m.step_poll i with hstep | hstep <;> rw [hstep]
    · exact h.keep (fun _ => rfl) rfl nothing
    · exact h.poll i
  | work => exact h.work i

private theorem accepted_was_published {m : Match} (hgame : ∀ i, (m.client i).gameID = gameID)
    (hempty : ∀ n, pairAt gameID m.db n = none) (events : List (Side × ClientEvent)) {i : Side}
    {w : Int × Int} (hw : w ∈ acceptedBy i (m.signs events)) : ∃ j, (j, .published w) ∈ m.signs events := by
  have hstart : Published gameID m [] := by
    refine ⟨hgame, fun n v hv => ?_, by simp⟩
    rw [hempty n] at hv
    cases hv
  have hrun : Published gameID (m.run events) (m.signs events) :=
    Mealy.run_induction (Published gameID) hstart (fun _ _ e h => published_step h e) events
  obtain ⟨⟨j, sign⟩, hmem, hsign⟩ := List.mem_filterMap.mp hw
  cases sign with
  | polled n pair =>
    cases pair with
    | none => cases hsign
    | some v =>
      simp only [Option.ite_none_right_eq_some, Option.some.injEq] at hsign
      obtain ⟨rfl, rfl⟩ := hsign
      exact hrun.taken j n v hmem
  | _ => cases hsign

private theorem mem_publishedBy {signs : List (Side × Sign)} {j : Side} {w : Int × Int}
    (h : (j, .published w) ∈ signs) : w ∈ publishedBy j signs := by
  have hown : Sign.published w ∈ own j signs := List.mem_filterMap.mpr ⟨_, h, if_pos rfl⟩
  exact List.mem_filterMap.mpr ⟨_, hown, rfl⟩

/-- Equal elements form a chain of different ones only when there is at most one. -/
private theorem prefix_of_all_eq {α : Type} {l : List α} {v : α} (hall : ∀ w ∈ l, w = v)
    (hchain : l.IsChain (· ≠ ·)) : l <+: [v] := by
  match l, hall, hchain with
  | [], _, _ => exact List.nil_prefix
  | [w], hall, _ =>
    rw [hall w List.mem_cons_self]
  | w :: w' :: rest, hall, hchain =>
    have hsame : w = w' := (hall w (by simp)).trans (hall w' (by simp)).symm
    exact absurd hsame (List.isChain_cons_cons.mp hchain).1

private theorem playGame_gameID (c : FourPlayersGame) (board : GameData) (number : Int) :
    (c.playGame board number).gameID = c.gameID := by
  rw [FourPlayersGame.playGame]
  split
  · rfl
  · rw [FourPlayersGame.loopHead]
    split <;> rfl

/-- In a game on whose boards nothing is stored yet, between clients whose semaphore2 is at
zero and whose polls hand over the stored pair: the odd client never publishes, the even
one publishes one pair at most, and whatever the boards they play on, each client accepts
no pair but that one, once. -/
theorem one_pair_accepted {db : Snapshot} (hempty : ∀ n, pairAt gameID db n = none)
    {client : Side → FourPlayersGame} (hgame : ∀ i, (client i).gameID = gameID)
    (hsemaphore : ∀ i, (client i).semaphore2 = 0) (hodd : (client .odd).person.tmod 2 ≠ 0)
    (board : Side → GameData) (number : Int) (events : List (Side × ClientEvent)) :
    let signs := (Match.start db client board number).signs events
    publishedBy .odd signs = [] ∧ (publishedBy .even signs).length ≤ 1 ∧
      ∀ i, acceptedBy i signs <+: publishedBy .even signs := by
  intro signs
  have hstalls := FourPlayersGame.Stalls.run db client board number hsemaphore events
  have hnone : publishedBy .odd signs = [] := by
    apply List.eq_nil_of_length_eq_zero
    have hsent := (hstalls .odd).sent
    rw [(hstalls .odd).odd hodd] at hsent
    rw [length_publishedBy]
    exact Nat.le_zero.mp hsent
  have hone : (publishedBy .even signs).length ≤ 1 := by
    rw [length_publishedBy]
    refine (hstalls .even).sent.trans ?_
    rcases (hstalls .even).board with ⟨hturns, _⟩ | ⟨_, _, _, hturns, _⟩ <;> rw [hturns]
    · exact Nat.zero_le 1
    · exact Nat.le_refl 1
  refine ⟨hnone, hone, fun i => ?_⟩
  have hsent (w : Int × Int) (hw : w ∈ acceptedBy i signs) : w ∈ publishedBy .even signs := by
    obtain ⟨j, hj⟩ := accepted_was_published
      (fun i => (playGame_gameID (client i) (board i) number).trans (hgame i)) hempty events hw
    cases j with
    | even => exact mem_publishedBy hj
    | odd =>
      have hmem : w ∈ publishedBy .odd signs := mem_publishedBy hj
      rw [hnone] at hmem
      cases hmem
  have hchain : (acceptedBy i signs).IsChain (· ≠ ·) :=
    (FourPlayersGame.Takes.run db client board number events i).differ.tail
  match hpublished : publishedBy .even signs, hone, hsent with
  | [], _, hsent =>
    rw [List.eq_nil_iff_forall_not_mem.mpr (fun w hw => List.not_mem_nil (hsent w hw))]
  | [v], _, hsent => exact prefix_of_all_eq (fun w hw => List.mem_singleton.mp (hsent w hw)) hchain

/-- The even client publishes its knight's move, taps square 1 and hears of it itself. -/
theorem knight_heard_by_its_player :
    let signs := twoClients.signs
      (knightTaps ++ [(.even, .work), (.even, .tap 91 253), (.even, .work), (.even, .poll)])
    acceptedBy .even signs = [(1, 42)] ∧ acceptedBy .even signs <+: publishedBy .even signs := by
  refine ⟨by decide +kernel, ?_⟩
  exact (@one_pair_accepted "-K1" .null (fun _ => rfl)
    _ (fun i => by cases i <;> rfl)
    (fun i => by cases i <;> rfl) (by decide) (fun _ => GameData.new.initBoardA) 1 _).2.2 .even

end origin

end MyIVR
