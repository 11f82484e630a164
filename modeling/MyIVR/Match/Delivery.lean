import MyIVR.Foundations.Relay
import MyIVR.Foundations.TreeWrites
import MyIVR.Match.FourPlayersGame

/-! The messages of a match, when a read hands over the stored pair. The node of the
board is a cell that both clients overwrite, and a poll looks at the node named by the
last tapped square; the match is a relay on that cell, so its deliveries are those of
the relay. -/
namespace MyIVR
open Swift KeyTree

/-- A message or a poll, as the relay has it. -/
def traffic : Side × Sign → Option (Relay.Step Side Int (Int × Int))
  | (i, .published pair) => some (.publish i pair)
  | (i, .polled number _) => some (.poll i number)
  | (_, .turn ..) => none

def acceptedBy (i : Side) (signs : List (Side × Sign)) : List (Int × Int) :=
  signs.filterMap fun
    | (j, .polled _ (some pair)) => if j = i then some pair else none
    | _ => none

/-- The pair stored at the node of a number, if both fields hold one. -/
def pairAt (gameID : String) (db : Snapshot) (number : Int) : Option (Int × Int) := do
  let (pos, pos1) ← storedPair gameID (toString number) db
  return (← pos, ← pos1)

/-- What is read back of a pair that was stored: numbers in the range of Int. -/
def readBack (pair : Int × Int) : Option (Int × Int) := if Fits pair.1 ∧ Fits pair.2 then some pair else none

theorem pairAt_makeMove (gameID : String) (db : Snapshot) (board pos pos1 number : Int) :
    pairAt gameID (makeMove gameID (toString board) pos pos1 db) number =
      if number = board then readBack (pos, pos1) else pairAt gameID db number := by
  split
  · rename_i hn
    have hnode : (makeMove gameID (toString board) pos pos1 db).get ["games", gameID, toString board] =
        (db.get ["games", gameID, toString board]).merge
          [("LastFrom", text (toString pos)), ("LastTo", text (toString pos1))] := Node.get_modify _ _ _
    have hpos : ((makeMove gameID (toString board) pos pos1 db).get
        ["games", gameID, toString board]).child "LastFrom" = text (toString pos) := by
      rw [hnode]
      exact Node.child_merge _ (by simp) (by simp)
    have hpos1 : ((makeMove gameID (toString board) pos pos1 db).get
        ["games", gameID, toString board]).child "LastTo" = text (toString pos1) := by
      rw [hnode]
      exact Node.child_merge _ (by simp) (by simp)
    rw [hn, pairAt, storedPair, hpos, hpos1]
    change (do return (← parseInt (toString pos), ← parseInt (toString pos1)) : Option (Int × Int)) = _
    rw [parseInt_toString, parseInt_toString, readBack]
    by_cases hfrom : Fits pos <;> by_cases hto : Fits pos1 <;> simp [hfrom, hto]
  · rename_i hn
    have hpart : Apart ["games", gameID, toString board] ["games", gameID, toString number] :=
      .inr (.inr (.inl fun heq => hn (toString_inj heq).symm))
    have hkept : (makeMove gameID (toString board) pos pos1 db).get ["games", gameID, toString number] =
        db.get ["games", gameID, toString number] := Node.get_modify_apart _ _ hpart
    simp only [pairAt, storedPair, hkept]

namespace FourPlayersGame

/-- A step of the worker leaves the address alone. It writes to the database when
it publishes, and shows no other traffic. -/
theorem work_frame (c : FourPlayersGame) (db : Snapshot) :
    SameAddress c (c.work db).1 ∧
    ((c.work db).2 = (makeMove c.gameID (toString c.boardID) c.boardID c.number db,
        some (.published (c.boardID, c.number))) ∨
      ∃ sign, (c.work db).2 = (db, sign) ∧ ∀ s ∈ sign, ∃ p q color, s = .turn p q color) := by
  have quiet : ∃ sign : Option Sign, (db, (none : Option Sign)) = (db, sign) ∧
      ∀ s ∈ sign, ∃ p q color, s = .turn p q color := ⟨none, rfl, by simp⟩
  rcases c.work_cases db with ⟨c', hw, hsame, _⟩ | ⟨site, _, _, hw⟩ | ⟨site, _, _, hw⟩ | ⟨_, hw⟩ |
    ⟨_, hw⟩ <;> rw [hw]
  · exact ⟨hsame, .inr quiet⟩
  · exact ⟨sameAddress_readCol c site, .inr quiet⟩
  · have read := sameAddress_readCol c site
    rcases (c.readCol site).targetHead_cases with
      ⟨fault, _, heq⟩ | ⟨board, _, _, heq⟩ | ⟨board, moved, _, _, _, heq⟩ <;> rw [heq]
    · exact ⟨read, .inr quiet⟩
    · exact ⟨read, .inr quiet⟩
    · exact ⟨read, .inr ⟨_, rfl, by simp⟩⟩
  · rw [loopHead]
    split <;> exact ⟨⟨rfl, rfl, rfl⟩, .inl rfl⟩
  · rw [receive]
    split <;> exact ⟨⟨rfl, rfl, rfl⟩, .inr quiet⟩

/-- A poll that runs looks at the node of the last tapped square and takes the
pair there when it differs from the last one. -/
theorem poll_cases (c : FourPlayersGame) (db : Snapshot) :
    (SameAddress c (c.poll db).1 ∧ (c.poll db).2 = none) ∨
    (SameAddress c (c.poll db).1 ∧ (c.poll db).2 = some (.polled c.number none) ∧
      ∀ w ∈ pairAt c.gameID db c.number, w = c.position1) ∨
    ∃ w, pairAt c.gameID db c.number = some w ∧ w ≠ c.position1 ∧
      SameAddress { c with position1 := w } (c.poll db).1 ∧
      (c.poll db).2 = some (.polled c.number (some w)) := by
  rw [poll]
  split
  · exact .inl ⟨⟨rfl, rfl, rfl⟩, rfl⟩
  · right
    simp only [pairAt]
    cases storedPair c.gameID (toString c.number) db with
    | none => exact .inl ⟨⟨rfl, rfl, rfl⟩, rfl, by simp⟩
    | some pair =>
      obtain ⟨pos, pos1⟩ := pair
      cases pos with
      | none => exact .inl ⟨⟨rfl, rfl, rfl⟩, rfl, by simp⟩
      | some x =>
        cases pos1 with
        | none => exact .inl ⟨⟨rfl, rfl, rfl⟩, rfl, by simp⟩
        | some y =>
          by_cases hw : c.position1 = (x, y)
          · left
            have hsame : ({ c with pending := c.pending - 1 } : FourPlayersGame).handler (some x, some y) =
                ({ c with pending := c.pending - 1 }, none) := if_neg (not_not.mpr hw)
            simp only [hsame]
            exact ⟨⟨rfl, rfl, rfl⟩, trivial, by rintro w ⟨⟩; exact hw.symm⟩
          · right
            have hnew : ({ c with pending := c.pending - 1 } : FourPlayersGame).handler (some x, some y) =
                ({ c with pending := c.pending - 1, position := c.position1, position1 := (x, y),
                          sucsess := true }, some (x, y)) := if_pos hw
            simp only [hnew]
            exact ⟨(x, y), rfl, Ne.symm hw, ⟨rfl, rfl, rfl⟩, rfl⟩

end FourPlayersGame

section relay
variable (gameID : String) (boardID : Int) (elsewhere : Int → Option (Int × Int))

/-- Two clients of one board, with the relay whose cell is the node of the board. -/
structure Relays (m : Match) (s : Relay.State Side (Int × Int)) : Prop where
  game : ∀ i, (m.client i).gameID = gameID
  board : ∀ i, (m.client i).boardID = boardID
  cell : pairAt gameID m.db boardID = s.cell
  others : ∀ n, n ≠ boardID → pairAt gameID m.db n = elsewhere n
  last : ∀ i, (m.client i).position1 = s.last i

variable {gameID boardID elsewhere} {m : Match} {s : Relay.State Side (Int × Int)}

private theorem Relays.find (h : Relays gameID boardID elsewhere m s) (n : Int) :
    Relay.find boardID elsewhere s.cell n = pairAt gameID m.db n := by
  rw [Relay.find]
  split
  · rename_i hn
    rw [hn, h.cell]
  · rename_i hn
    rw [h.others n hn]

private theorem Relays.set (h : Relays gameID boardID elsewhere m s) {j : Side} {c : FourPlayersGame}
    {w : Int × Int} (hc : FourPlayersGame.SameAddress { m.client j with position1 := w } c) :
    Relays gameID boardID elsewhere (m.set j c) { s with last := Function.update s.last j w } := by
  refine ⟨fun i => ?_, fun i => ?_, h.cell, h.others, fun i => ?_⟩ <;>
    by_cases hi : i = j
  · subst hi
    simpa [Match.set, hc.1] using h.game i
  · simpa [Match.set, Function.update_of_ne hi] using h.game i
  · subst hi
    simpa [Match.set, hc.2.1] using h.board i
  · simpa [Match.set, Function.update_of_ne hi] using h.board i
  · subst hi
    simp [Match.set, hc.2.2]
  · simpa [Match.set, Function.update_of_ne hi] using h.last i

private theorem Relays.keep (h : Relays gameID boardID elsewhere m s) {j : Side} {c : FourPlayersGame}
    (hc : FourPlayersGame.SameAddress (m.client j) c) : Relays gameID boardID elsewhere (m.set j c) s := by
  have hset := h.set (w := s.last j) (c := c) ⟨hc.1, hc.2.1, hc.2.2.trans (h.last j)⟩
  rwa [Function.update_eq_self] at hset

private theorem Relays.step (h : Relays gameID boardID elsewhere m s) (e : Side × ClientEvent) :
    Relays gameID boardID elsewhere (m.step e).1
      (Mealy.state (Relay.step readBack boardID elsewhere) s ((m.step e).2.toList.filterMap traffic)) ∧
    ∀ i, acceptedBy i (m.step e).2.toList =
      Relay.accepted readBack boardID elsewhere i s ((m.step e).2.toList.filterMap traffic) := by
  obtain ⟨j, ev⟩ := e
  cases ev with
  | tap x y =>
    rcases m.step_tap j x y with hstep | hstep <;> rw [hstep]
    · exact ⟨h, fun _ => rfl⟩
    · exact ⟨h.keep ⟨rfl, rfl, rfl⟩, fun _ => rfl⟩
  | poll =>
    rcases m.step_poll j with hstep | hstep <;> rw [hstep]
    · exact ⟨h, fun _ => rfl⟩
    · have hfind := h.find (m.client j).number
      rcases (m.client j).poll_cases m.db with
        ⟨hsame, hsign⟩ | ⟨hsame, hsign, hold⟩ | ⟨w, hw, hne, hset, hsign⟩ <;> rw [hsign]
      · exact ⟨h.keep hsame, fun _ => rfl⟩
      · have hrelay : Relay.step readBack boardID elsewhere s (.poll j (m.client j).number) = (s, none) := by
          rw [h.game j] at hold
          rw [Relay.step, hfind]
          cases hp : pairAt gameID m.db (m.client j).number with
          | none => rfl
          | some w => exact if_pos ((hold w hp).trans (h.last j))
        simp only [Option.map_some, Option.toList_some, List.filterMap_cons, traffic, List.filterMap_nil,
          acceptedBy, Relay.accepted, Mealy.outputs, Mealy.state, List.foldl_cons, List.foldl_nil, hrelay]
        exact ⟨h.keep hsame, fun _ => rfl⟩
      · have hrelay : Relay.step readBack boardID elsewhere s (.poll j (m.client j).number) =
            ({ s with last := Function.update s.last j w }, some (j, w)) := by
          rw [h.game j] at hw
          rw [h.last j] at hne
          rw [Relay.step, hfind, hw]
          exact if_neg hne
        simp only [Option.map_some, Option.toList_some, List.filterMap_cons, traffic, List.filterMap_nil,
          acceptedBy, Relay.accepted, Mealy.outputs, Mealy.state, List.foldl_cons, List.foldl_nil, hrelay]
        refine ⟨h.set hset, fun i => ?_⟩
        by_cases hi : j = i <;> simp [hi]
  | work =>
    rw [Match.step_work]
    obtain ⟨hsame, hwrite | ⟨sign, hquiet, hturn⟩⟩ := (m.client j).work_frame m.db
    · rw [hwrite, h.game j, h.board j]
      have hkept := h.keep hsame
      refine ⟨⟨hkept.game, hkept.board, ?_, fun n hn => ?_, hkept.last⟩, fun _ => rfl⟩
      · exact (pairAt_makeMove ..).trans (if_pos rfl)
      · exact (pairAt_makeMove ..).trans ((if_neg hn).trans (h.others n hn))
    · rw [hquiet]
      cases sign with
      | none => exact ⟨h.keep hsame, fun _ => rfl⟩
      | some sign =>
        obtain ⟨p, q, color, rfl⟩ := hturn sign rfl
        exact ⟨h.keep hsame, fun _ => rfl⟩

theorem Relays.run (h : Relays gameID boardID elsewhere m s) (events : List (Side × ClientEvent)) :
    ∀ i, acceptedBy i (m.signs events) =
      Relay.accepted readBack boardID elsewhere i s ((m.signs events).filterMap traffic) := by
  let Inv (m' : Match) (signs : List (Side × Sign)) : Prop :=
    Relays gameID boardID elsewhere m'
      (Mealy.state (Relay.step readBack boardID elsewhere) s (signs.filterMap traffic)) ∧
    ∀ i, acceptedBy i signs = Relay.accepted readBack boardID elsewhere i s (signs.filterMap traffic)
  have hrun : Inv (m.run events) (m.signs events) := by
    refine Mealy.run_induction Inv ⟨h, fun _ => rfl⟩ ?_ events
    rintro m' signs e ⟨hm, ha⟩
    obtain ⟨hm', ha'⟩ := hm.step e
    simp only [Inv]
    rw [List.filterMap_append, Mealy.state_append]
    refine ⟨hm', fun i => ?_⟩
    rw [Relay.accepted_append, ← ha i, ← ha' i]
    exact List.filterMap_append
  exact hrun.2

end relay

/-- At the end of every round each client has accepted the pairs that the other
published, each once and in order, and no others. -/
def Delivered (m : Match) (events : List (Side × ClientEvent)) (idle : List (Side × Int))
    (rounds : List (Relay.Round Side Int (Int × Int))) : Prop :=
  ∀ past later k, events = past ++ later →
    (m.signs past).filterMap traffic = Relay.trace idle (rounds.take k) →
    ∀ i, acceptedBy i (m.signs past) = Relay.heard i (rounds.take k)

/-- The clients publish in turn, never the same pair twice in a row, and every
publication is polled by the other client before the next one. -/
structure Orderly (rounds : List (Relay.Round Side Int (Int × Int))) : Prop where
  turns : (rounds.map Relay.Round.author).IsChain (· ≠ ·)
  differ : (rounds.map Relay.Round.value).IsChain (· ≠ ·)
  polled : ∀ r ∈ rounds, ∃ p ∈ r.polls, p.1 = r.author.other

/-- A match delivers exactly when the relay on the board's node is faithful:
between two publications a poll of the author finds nothing but the pair it took
last, and the polls of the other client turn from that to the published pair. -/
theorem delivered_iff {gameID : String} {boardID : Int} {m : Match}
    (hgame : ∀ i, (m.client i).gameID = gameID) (hboard : ∀ i, (m.client i).boardID = boardID)
    {events : List (Side × ClientEvent)} {idle : List (Side × Int)}
    {rounds : List (Relay.Round Side Int (Int × Int))}
    (hcut : (m.signs events).filterMap traffic = Relay.trace idle rounds) :
    Delivered m events idle rounds ↔
      Relay.Faithful readBack boardID (pairAt gameID m.db)
        ⟨pairAt gameID m.db boardID, fun i => (m.client i).position1⟩ idle rounds := by
  have hrelay : Relays gameID boardID (pairAt gameID m.db) m
      ⟨pairAt gameID m.db boardID, fun i => (m.client i).position1⟩ :=
    ⟨hgame, hboard, rfl, fun _ _ => rfl, fun _ => rfl⟩
  rw [← Relay.exact_iff]
  constructor
  · intro h k i
    rw [Relay.trace_take idle rounds k, List.filterMap_eq_append_iff] at hcut
    obtain ⟨signs, rest, hsigns, htraffic, _⟩ := hcut
    obtain ⟨past, later, hevents, hpast, _⟩ := Mealy.outputs_split hsigns
    change m.signs past = signs at hpast
    rw [← hpast] at htraffic
    rw [← htraffic, ← hrelay.run past i]
    exact h past later k hevents htraffic i
  · intro h past later k _ htraffic i
    rw [hrelay.run past i, htraffic]
    exact h k i

def newMatch : Match :=
  ⟨.null, fun
    | .even => (FourPlayersGame.entered 2 "-K1").playGame GameData.new.initBoardA 1
    | .odd => (FourPlayersGame.entered 1 "-K1").playGame GameData.new.initBoardA 1⟩

/-- The even client taps 57 and 42, moves the knight and publishes; the odd
client has tapped nothing, or square 1, and polls. -/
def knightSent (before : List (Side × ClientEvent)) : List (Side × ClientEvent) :=
  before ++ [(.odd, .work),
    (.even, .tap 91 (-13)), (.even, .work), (.even, .work), (.even, .work),
    (.even, .tap 129 63), (.even, .work), (.even, .work), (.even, .work), (.even, .work),
    (.odd, .poll)]

/-- The odd client's poll looks at node 0 and finds nothing. The even client taps
square 1, polls, and accepts the pair it has published itself. -/
theorem knight_undelivered :
    let events := knightSent [] ++ [(.even, .tap 91 253), (.even, .work), (.even, .poll)]
    let rounds : List (Relay.Round Side Int (Int × Int)) :=
      [⟨.even, (1, 42), [(.odd, 0), (.even, 1)]⟩]
    Orderly rounds ∧ (newMatch.signs events).filterMap traffic = Relay.trace [] rounds ∧
      acceptedBy .odd (newMatch.signs events) = [] ∧
      acceptedBy .even (newMatch.signs events) = [(1, 42)] ∧ ¬ Delivered newMatch events [] rounds := by
  intro events rounds
  have hcut : (newMatch.signs events).filterMap traffic = Relay.trace [] rounds := by decide +kernel
  have hodd : acceptedBy .odd (newMatch.signs events) = [] := by decide +kernel
  have heven : acceptedBy .even (newMatch.signs events) = [(1, 42)] := by decide +kernel
  refine ⟨⟨by simp [rounds], by simp [rounds], by simp [rounds, Side.other]⟩, hcut, hodd, heven,
    fun h => ?_⟩
  have hheard := h events [] 1 (List.append_nil _).symm hcut .odd
  rw [hodd] at hheard
  revert hheard
  decide

/-- An odd client that has tapped square 1 finds the pair in its poll. -/
theorem knight_delivered :
    acceptedBy .odd (newMatch.signs (knightSent [(.odd, .tap 91 253)])) = [(1, 42)] := by
  have hcut : (newMatch.signs (knightSent [(.odd, .tap 91 253)])).filterMap traffic =
      Relay.trace [] [⟨.even, (1, 42), [(.odd, 1)]⟩] := by decide +kernel
  have hgame (i : Side) : (newMatch.client i).gameID = "-K1" := by cases i <;> rfl
  have hboard (i : Side) : (newMatch.client i).boardID = 1 := by cases i <;> rfl
  refine (delivered_iff hgame hboard hcut).mpr ⟨fun i w hw => (by cases hw), ?_⟩ _ [] 1
    (List.append_nil _).symm hcut .odd
  intro past r rest heq
  cases past with
  | cons x past => simp at heq
  | nil =>
    cases heq
    refine ⟨fun w hw => (by cases hw), fun i hi => ?_⟩
    cases i with
    | even => exact absurd rfl hi
    | odd => exact ⟨by decide, [], [], rfl, List.forall_mem_nil _, List.forall_mem_nil _⟩

end MyIVR
