import MyIVR.Store.Decimal
import MyIVR.Store.Requests

/-! The list of games that searchGame reads. The record of a game stays complete
under the calls of players; the archive of saves is a child of the same node, and
no game. -/
namespace MyIVR
open Swift KeyTree

/-- The record of a game as searchGame expects it. -/
structure CompleteGame (snap : Snapshot) : Prop where
  texts : ∀ field ∈ ["name", "senderID", "uuid", "rait"], ∃ s, snap.child field = text s
  status : ∃ s, snap.child "status" = text s ∧ (parseInt s).isSome

def CompleteGames (db : Snapshot) : Prop := ∀ k ∈ (games db).keys, CompleteGame ((games db).child k)

/-- The fields of the record are those of the game. -/
structure Describes (snap : Snapshot) (game : Game) : Prop where
  name : snap.child "name" = text game.name
  status : snap.child "status" = text game.status
  senderID : snap.child "senderID" = text game.senderID
  uuid : snap.child "uuid" = text game.uuid
  rait : snap.child "rait" = text game.rait

def OpenGame (snap : Snapshot) : Prop :=
  ((asString? (snap.child "status")).bind parseInt).any (· < 4) = true

instance (snap : Snapshot) : Decidable (OpenGame snap) := inferInstanceAs (Decidable (_ = true))

section reader

private theorem asString_ok_iff {snap : Snapshot} : (∃ s, asString snap = .ok s) ↔ ∃ s, snap = text s := by
  constructor
  · rintro ⟨s, hs⟩
    unfold asString at hs
    split at hs
    · exact ⟨_, rfl⟩
    · cases hs
  · rintro ⟨s, rfl⟩
    exact ⟨s, rfl⟩

private theorem force_ok_iff {α : Type} {o : Option α} : (∃ x, force o = .ok x) ↔ o.isSome := by
  cases o with
  | none => simp [force]
  | some x => simp

/-- A round appends the game of an open record and skips every other record. -/
theorem searchRound_eq {snap : Snapshot} (h : CompleteGame snap) (gameArray : List Game) :
    ∃ game, Describes snap game ∧
      searchRound gameArray snap = .ok (if OpenGame snap then gameArray ++ [game] else gameArray) := by
  obtain ⟨htexts, status, hstatus, hparse⟩ := h
  obtain ⟨name, hname⟩ := htexts "name" (by simp)
  obtain ⟨senderID, hsender⟩ := htexts "senderID" (by simp)
  obtain ⟨uuid, huuid⟩ := htexts "uuid" (by simp)
  obtain ⟨rait, hrait⟩ := htexts "rait" (by simp)
  obtain ⟨n, hn⟩ := Option.isSome_iff_exists.mp hparse
  refine ⟨⟨name, status, senderID, uuid, rait⟩, ⟨hname, hstatus, hsender, huuid, hrait⟩, ?_⟩
  have hopen : OpenGame snap ↔ n < 4 := by simp [OpenGame, hstatus, text, asString?, hn]
  simp only [searchRound, hname, hstatus, hsender, huuid, hrait, text, asString, ok_bind, hn, force_some,
    pure_eq_ok, hopen]
  split <;> rfl

private theorem searchRound_ok_iff (gameArray : List Game) (snap : Snapshot) :
    (∃ l, searchRound gameArray snap = .ok l) ↔ CompleteGame snap := by
  constructor
  · rintro ⟨l, h⟩
    obtain ⟨name, hname, h⟩ := bind_eq_ok h
    obtain ⟨status, hstatus, h⟩ := bind_eq_ok h
    obtain ⟨senderID, hsender, h⟩ := bind_eq_ok h
    obtain ⟨uuid, huuid, h⟩ := bind_eq_ok h
    obtain ⟨rait, hrait, h⟩ := bind_eq_ok h
    obtain ⟨n, hn, _⟩ := bind_eq_ok h
    refine ⟨?_, ?_⟩
    · intro field hfield
      simp only [List.mem_cons, List.not_mem_nil, or_false] at hfield
      rcases hfield with rfl | rfl | rfl | rfl
      · exact asString_ok_iff.mp ⟨_, hname⟩
      · exact asString_ok_iff.mp ⟨_, hsender⟩
      · exact asString_ok_iff.mp ⟨_, huuid⟩
      · exact asString_ok_iff.mp ⟨_, hrait⟩
    · obtain ⟨s, hs⟩ := asString_ok_iff.mp ⟨_, hstatus⟩
      rw [hs] at hstatus
      cases hstatus
      exact ⟨status, hs, force_ok_iff.mp ⟨_, hn⟩⟩
  · intro h
    obtain ⟨game, _, hround⟩ := searchRound_eq h gameArray
    exact ⟨_, hround⟩

private theorem searchLoop_ok_iff (snaps : List Snapshot) (gameArray : List Game) :
    (∃ l, snaps.foldlM searchRound gameArray = .ok l) ↔ ∀ snap ∈ snaps, CompleteGame snap := by
  induction snaps generalizing gameArray with
  | nil => simp
  | cons snap rest ih =>
    rw [List.forall_mem_cons, ← searchRound_ok_iff gameArray, List.foldlM_cons]
    constructor
    · rintro ⟨l, h⟩
      obtain ⟨l', hround, hrest⟩ := bind_eq_ok h
      exact ⟨⟨l', hround⟩, (ih l').mp ⟨l, hrest⟩⟩
    · rintro ⟨⟨l', hround⟩, hrest⟩
      rw [hround, ok_bind]
      exact (ih l').mpr hrest

/-- searchGame does not fault exactly when every child of games is a complete record. -/
theorem searchGame_returns_iff (db : Snapshot) : (searchGame db).2 = none ↔ CompleteGames db := by
  have hloop := searchLoop_ok_iff ((games db).children.map Prod.snd) []
  have hchildren : (∀ snap ∈ (games db).children.map Prod.snd, CompleteGame snap) ↔ CompleteGames db := by
    constructor
    · intro h k hk
      exact h _ (List.mem_map.mpr ⟨(k, (games db).child k), Node.mem_children.mpr ⟨hk, rfl⟩, rfl⟩)
    · intro h snap hsnap
      obtain ⟨e, he, rfl⟩ := List.mem_map.mp hsnap
      obtain ⟨hkey, hchild⟩ := Node.mem_children.mp he
      exact hchild ▸ h e.1 hkey
  rw [← hchildren, ← hloop, searchGame]
  cases ((games db).children.map Prod.snd).foldlM searchRound [] <;> simp

end reader

namespace Request

def created : Request → Option String
  | createGame _ _ _ key _ => some key
  | _ => none

/-- A call of a player, when the games `known` have been created. The keys of
childByAutoId are not the name under which the saves are kept. -/
def Allowed (known : List String) : Request → Prop
  | createGame _ _ _ key _ => key ≠ "saves"
  | enterGame _ gameID status _ => gameID ∈ known ∧ (decimal status).isSome
  | makeMove gameID board _ _ => gameID ∈ known ∧ (board = "1" ∨ board = "2")
  | saveGame .. => True
  | setBoard .. | setFigure .. | setDead .. => False

/-- The call leaves the list of games readable: a save faults before it wrote a
square, and a status is the numeral of an Int. -/
def KeepsGames : Request → Prop
  | enterGame _ _ status _ => ∀ n, decimal status = some n → Fits n
  | saveGame _ _ _ _ board _ _ _ => board 0 = none
  | _ => True

end Request

def createdIn (rs : List Request) : List String := rs.filterMap Request.created

/-- Runs of players' calls on an empty database, in any interleaving. -/
inductive PlayersRun : List Request → Prop where
  | start : PlayersRun []
  | call {rs : List Request} {r : Request} (run : PlayersRun rs) (allowed : r.Allowed (createdIn rs)) :
      PlayersRun (rs ++ [r])

section effects
variable (db : Snapshot)

private theorem games_users (f : Snapshot → Snapshot) (p : List String) :
    games (db.modify f ("users" :: p)) = games db :=
  Node.child_modify_cons_ne f db (by decide) p

private theorem games_games (f : Snapshot → Snapshot) (p : List String) :
    games (db.modify f ("games" :: p)) = (games db).modify f p := Node.child_modify_cons f db "games" p

def newGameFields (name senderID : String) (rait : Int) (key : String) : List (String × Snapshot) :=
  [("name", text name), ("status", text "1"), ("senderID", text senderID), ("uuid", text key),
    ("rait", text (toString rait))]

theorem games_createGame (name senderID : String) (rait : Int) (key entryKey : String) :
    games ((Request.createGame name senderID rait key entryKey).perform db) =
      (games db).put key (((games db).child key).merge (newGameFields name senderID rait key)) :=
  (games_users _ _ _).trans (games_games _ _ _)

theorem games_enterGame (userID gameID status entryKey : String) :
    games ((Request.enterGame userID gameID status entryKey).perform db) =
      (games db).put gameID (((games db).child gameID).merge [("status", text status)]) := by
  refine (games_games _ _ _).trans ?_
  rw [games_users]
  rfl

private theorem games_makeMove (gameID board : String) (pos pos1 : Int) :
    games ((Request.makeMove gameID board pos pos1).perform db) =
      (games db).put gameID (((games db).child gameID).put board
        ((((games db).child gameID).child board).merge
          [("LastFrom", text (toString pos)), ("LastTo", text (toString pos1))])) :=
  games_games _ _ _

end effects

section complete
variable {snap : Snapshot}

theorem complete_new (name senderID : String) (rait : Int) (key : String) :
    CompleteGame (snap.merge (newGameFields name senderID rait key)) := by
  have hnodup : ((newGameFields name senderID rait key).map Prod.fst).Nodup := by
    simp [newGameFields]
  have hchild {field : String} {x : Snapshot} (h : (field, x) ∈ newGameFields name senderID rait key) :=
    snap.child_merge hnodup h
  refine ⟨?_, ?_⟩
  · intro field hfield
    simp only [List.mem_cons, List.not_mem_nil, or_false] at hfield
    rcases hfield with rfl | rfl | rfl | rfl
    · exact ⟨name, hchild (by simp [newGameFields])⟩
    · exact ⟨senderID, hchild (by simp [newGameFields])⟩
    · exact ⟨key, hchild (by simp [newGameFields])⟩
    · exact ⟨toString rait, hchild (by simp [newGameFields])⟩
  · exact ⟨"1", hchild (by simp [newGameFields]), by decide +kernel⟩

theorem CompleteGame.enter (h : CompleteGame snap) {status : String}
    (hstatus : (parseInt status).isSome) : CompleteGame (snap.merge [("status", text status)]) := by
  constructor
  · intro field hfield
    have hne : field ≠ "status" := by
      rintro rfl
      simp at hfield
    rw [Node.child_merge_of_notMem _ (by simpa using hne)]
    exact h.texts field hfield
  · exact ⟨status, Node.child_merge _ (by simp) (by simp), hstatus⟩

private theorem CompleteGame.move (h : CompleteGame snap) {board : String}
    (hboard : board = "1" ∨ board = "2") (x : Snapshot) : CompleteGame (snap.put board x) := by
  have hne {field : String} (hf : field ∈ ["name", "senderID", "uuid", "rait", "status"]) :
      field ≠ board := by
    rintro rfl
    rcases hboard with rfl | rfl <;> simp at hf
  constructor
  · intro field hfield
    rw [Node.child_put_ne _ (hne (List.mem_append_left ["status"] hfield))]
    exact h.texts field hfield
  · rw [Node.child_put_ne _ (hne (by simp))]
    exact h.status

end complete

section run
variable {rs : List Request}

private theorem createdIn_snoc (rs : List Request) (r : Request) :
    createdIn (rs ++ [r]) = createdIn rs ++ r.created.toList := by
  rw [createdIn, List.filterMap_append, createdIn]
  cases h : r.created <;> simp [h]

private theorem PlayersRun.saves_notMem (h : PlayersRun rs) : "saves" ∉ createdIn rs := by
  induction h with
  | start => exact List.not_mem_nil
  | @call rs r _ allowed ih =>
    rw [createdIn_snoc, List.mem_append, not_or]
    refine ⟨ih, fun hmem => ?_⟩
    cases r with
    | createGame name senderID rait key entryKey =>
      exact allowed (List.mem_singleton.mp hmem).symm
    | _ => cases hmem

/-- The games node holds the created games and nothing else, each complete. -/
private structure Sound (rs : List Request) (db : Snapshot) : Prop where
  known : ∀ k ∈ (games db).keys, k ∈ createdIn rs
  complete : ∀ k ∈ createdIn rs, CompleteGame ((games db).child k)

private theorem Sound.write {db db' : Snapshot} {rs' : List Request} {k : String} {x : Snapshot}
    (h : Sound rs db) (hdb : games db' = (games db).put k x) (hx : CompleteGame x)
    (hcreated : ∀ j, j ∈ createdIn rs' ↔ j = k ∨ j ∈ createdIn rs) : Sound rs' db' := by
  constructor
  · intro j hj
    rw [hdb, Node.keys_put, Finset.mem_insert] at hj
    exact (hcreated j).mpr (hj.imp id (h.known j))
  · intro j hj
    rw [hdb]
    by_cases hjk : j = k
    · rw [hjk, Node.child_put_same]
      exact hx
    · rw [Node.child_put_ne _ hjk]
      exact h.complete j (((hcreated j).mp hj).resolve_left hjk)

private theorem saveGame_faults_first {userID gameID saveKey date : String} {players color moves : Int}
    {board : Board} (h : board 0 = none) (db : Snapshot) :
    (Request.saveGame userID players color moves board gameID saveKey date).perform db = db := by
  have hfirst : (0 : Int) ∈ upTo 0 63 := mem_upTo.mpr (by omega)
  have hnot : ¬ Savable board := fun hall => by simpa [h] using hall 0 hfirst
  obtain ⟨rest, hrest⟩ : ∃ rest, upTo 0 63 = 0 :: rest := ⟨_, rfl⟩
  have hnone : squareWrites ["games", "saves", gameID] board (upTo 0 63) = [] := by
    rw [hrest, squareWrites, h]
  rw [Request.perform_eq, Request.writes, hnone, if_neg hnot, List.append_nil, runAll_nil]

private theorem Sound.call {db : Snapshot} {r : Request} (h : Sound rs db)
    (allowed : r.Allowed (createdIn rs)) (keeps : r.KeepsGames) : Sound (rs ++ [r]) (r.perform db) := by
  have same {g : String} (hg : g ∈ createdIn rs) (hnone : r.created = none) (j : String) :
      j ∈ createdIn (rs ++ [r]) ↔ j = g ∨ j ∈ createdIn rs := by
    rw [createdIn_snoc, hnone, Option.toList_none, List.append_nil]
    exact ⟨.inr, fun hj => hj.elim (fun heq => heq ▸ hg) id⟩
  cases r with
  | createGame name senderID rait key entryKey =>
    refine h.write (games_createGame db name senderID rait key entryKey)
      (complete_new name senderID rait key) (fun j => ?_)
    rw [createdIn_snoc, List.mem_append, or_comm]
    exact or_congr List.mem_singleton Iff.rfl
  | enterGame userID gameID status entryKey =>
    obtain ⟨n, hn⟩ := Option.isSome_iff_exists.mp allowed.2
    have hparse : (parseInt status).isSome := (parseInt_isSome_iff hn).mpr (keeps n hn)
    exact h.write (games_enterGame db userID gameID status entryKey)
      ((h.complete gameID allowed.1).enter hparse) (same allowed.1 rfl)
  | makeMove gameID board pos pos1 =>
    exact h.write (games_makeMove db gameID board pos pos1)
      ((h.complete gameID allowed.1).move allowed.2 _) (same allowed.1 rfl)
  | saveGame userID players color moves board gameID saveKey date =>
    have hnone : (Request.saveGame userID players color moves board gameID saveKey date).created = none := rfl
    have hcreated : createdIn (rs ++ [.saveGame userID players color moves board gameID saveKey date]) =
        createdIn rs := by
      rw [createdIn_snoc, hnone, Option.toList_none, List.append_nil]
    rw [saveGame_faults_first keeps]
    exact ⟨hcreated ▸ h.known, hcreated ▸ h.complete⟩
  | setBoard | setFigure | setDead => cases allowed

private theorem sound_run (h : PlayersRun rs) (keeps : ∀ r ∈ rs, r.KeepsGames) :
    Sound rs (performAll rs .null) := by
  induction h with
  | start =>
    refine ⟨fun k hk => ?_, fun k hk => ?_⟩
    · simp [games, Node.child, Node.keys] at hk
    · cases hk
  | @call rs r _ allowed ih =>
    rw [performAll_snoc]
    exact (ih (fun r' hr' => keeps r' (List.mem_append_left _ hr'))).call allowed (keeps r (by simp))

end run

section breakers
variable {rs : List Request}

private theorem no_name (h : PlayersRun rs) (v : Value) :
    (performAll rs .null).get ["games", "saves", "name"] ≠ .leaf v := by
  have keep (ws : List (Write String Value))
      (hws : ∀ w ∈ ws, w.Keeps ["games", "saves", "name"] ∨
        ∃ entries, w = ⟨["games", "saves", "name"], fun t => t.merge entries⟩) (t : Snapshot)
      (hleaf : (runAll ws t).get ["games", "saves", "name"] = .leaf v) :
      t.get ["games", "saves", "name"] = .leaf v := by
    induction ws generalizing t with
    | nil => exact hleaf
    | cons w ws ih =>
      rw [List.forall_mem_cons] at hws
      have htail := ih hws.2 (w.run t) hleaf
      rcases hws.1 with hkeep | ⟨entries, rfl⟩
      · rwa [hkeep] at htail
      · rw [Write.run, Node.get_modify] at htail
        exact Node.merge_eq_leaf htail
  induction h with
  | start => simp [Node.child]
  | @call rs r run allowed ih =>
    rw [performAll_snoc, Request.perform_eq]
    intro hleaf
    refine ih (keep r.writes (fun w hw => ?_) _ hleaf)
    have other {gameID : String} (hg : gameID ∈ createdIn rs) : gameID ≠ "saves" :=
      fun heq => run.saves_notMem (heq ▸ hg)
    cases Request.sends hw with
    | game => exact .inl (.apart (.inr (.inl allowed)))
    | status | move => exact .inl (.apart (.inr (.inl (other allowed.1))))
    | record userID players color moves board gameID saveKey date entries =>
      by_cases heq : gameID = "name"
      · subst heq
        exact .inr ⟨entries, rfl⟩
      · exact .inl (.apart (.inr (.inr (.inl heq))))
    | owner | player | index => exact .inl (.apart (.inl (by decide)))
    | board | figure | dead => cases allowed

private theorem saves_listed (userID : String) (players color moves : Int) {board : Board}
    (h : board 0 ≠ none) (gameID saveKey date : String) (db : Snapshot) :
    "saves" ∈ (games ((Request.saveGame userID players color moves board gameID saveKey date).perform
      db)).keys := by
  have kept (ws : List (Write String Value))
      (hws : ∀ w ∈ ws, w.path = ["games", "saves", gameID] ∨
        w.path = ["users", userID, "userSaves", saveKey]) (t : Snapshot)
      (ht : "saves" ∈ (games t).keys) : "saves" ∈ (games (runAll ws t)).keys := by
    induction ws generalizing t with
    | nil => exact ht
    | cons w ws ih =>
      rw [List.forall_mem_cons] at hws
      refine ih hws.2 _ ?_
      change "saves" ∈ (games (t.modify w.change w.path)).keys
      rcases hws.1 with hpath | hpath <;> rw [hpath]
      · rw [games_games, Node.keys_modify_cons]
        exact Finset.mem_insert_self ..
      · rwa [games_users]
  obtain ⟨piece, hpiece⟩ := Option.ne_none_iff_exists'.mp h
  obtain ⟨rest, hrest⟩ : ∃ rest, upTo 0 63 = 0 :: rest := ⟨_, rfl⟩
  obtain ⟨w, ws, hwrites⟩ : ∃ w ws, (Request.saveGame userID players color moves board gameID saveKey
      date).writes = w :: ws ∧ w.path = ["games", "saves", gameID] := by
    rw [Request.writes, hrest, squareWrites, hpiece]
    exact ⟨_, _, rfl, rfl⟩
  rw [Request.perform_eq, hwrites.1, runAll_cons]
  refine kept ws (fun v hv => Request.saveGame_path (hwrites.1 ▸ List.mem_cons_of_mem _ hv)) _ ?_
  change "saves" ∈ (games (db.modify w.change w.path)).keys
  rw [hwrites.2, games_games, Node.keys_modify_cons]
  exact Finset.mem_insert_self ..

private theorem unreadable_after {r : Request} (run : PlayersRun rs) (allowed : r.Allowed (createdIn rs))
    (h : ¬ r.KeepsGames) : ¬ CompleteGames (performAll (rs ++ [r]) .null) := by
  intro hcomplete
  cases r with
  | enterGame userID gameID status entryKey =>
    rw [Request.KeepsGames] at h
    push Not at h
    obtain ⟨n, hn, hfits⟩ := h
    rw [performAll_snoc] at hcomplete
    have hgames := games_enterGame (performAll rs .null) userID gameID status entryKey
    obtain ⟨s, hs, hparse⟩ := (hcomplete gameID (by simp [hgames])).status
    have hstatus : (((games (performAll rs .null)).child gameID).merge [("status", text status)]).child
        "status" = text status := Node.child_merge _ (by simp) (by simp)
    rw [hgames, Node.child_put_same, hstatus] at hs
    cases hs
    exact hfits ((parseInt_isSome_iff hn).mp hparse)
  | saveGame userID players color moves board gameID saveKey date =>
    have hrun := PlayersRun.call run allowed
    have hsaves := saves_listed userID players color moves h gameID saveKey date (performAll rs .null)
    rw [← performAll_snoc] at hsaves
    obtain ⟨s, hs⟩ := (hcomplete "saves" hsaves).texts "name" (by simp)
    exact no_name hrun (.str s) hs
  | createGame | makeMove => exact h trivial
  | setBoard | setFigure | setDead => cases allowed

end breakers

private theorem PlayersRun.init {rs : List Request} {r : Request} (h : PlayersRun (rs ++ [r])) :
    PlayersRun rs ∧ r.Allowed (createdIn rs) := by
  generalize heq : rs ++ [r] = l at h
  cases h with
  | start => simp at heq
  | call run allowed =>
    obtain ⟨rfl, hr⟩ := List.append_inj' heq rfl
    cases hr
    exact ⟨run, allowed⟩

private theorem PlayersRun.split {rs rest : List Request} (h : PlayersRun (rs ++ rest)) : PlayersRun rs := by
  induction rest using List.reverseRecOn with
  | nil => rwa [List.append_nil] at h
  | append_singleton rest r ih =>
    rw [← List.append_assoc] at h
    exact ih h.init.1

/-- In a run of players' calls the games list is complete and searchGame returns
after every call, exactly when no save wrote a square and no status was entered
that is out of the range of Int. -/
theorem games_listed_iff {rs : List Request} (h : PlayersRun rs) :
    (∀ first rest, rs = first ++ rest → CompleteGames (performAll first .null) ∧
        (searchGame (performAll first .null)).2 = none) ↔ ∀ r ∈ rs, r.KeepsGames := by
  constructor
  · intro hall r hr
    by_contra hbreaks
    obtain ⟨first, rest, rfl⟩ := List.append_of_mem hr
    rw [List.append_cons] at h hall
    obtain ⟨run, allowed⟩ := h.split.init
    exact unreadable_after run allowed hbreaks (hall _ rest rfl).1
  · rintro keeps first rest rfl
    have hsound := sound_run h.split (fun r hr => keeps r (List.mem_append_left _ hr))
    have hcomplete : CompleteGames (performAll first .null) :=
      fun k hk => hsound.complete k (hsound.known k hk)
    exact ⟨hcomplete, (searchGame_returns_iff _).mpr hcomplete⟩

def playedGame : List Request :=
  [.createGame "MyGame" "anna" 1 "-K1" "-K2", .enterGame "boris" "-K1" "2" "-K3",
    .makeMove "-K1" "1" 1 18]

theorem playedGame_listed : CompleteGames (performAll playedGame .null) := by
  have hcreate : PlayersRun [.createGame "MyGame" "anna" 1 "-K1" "-K2"] :=
    .call .start (show "-K1" ≠ "saves" by decide)
  have henter : PlayersRun ([.createGame "MyGame" "anna" 1 "-K1" "-K2"] ++
      [.enterGame "boris" "-K1" "2" "-K3"]) :=
    .call hcreate (show "-K1" ∈ ["-K1"] ∧ (decimal "2").isSome from ⟨by decide, by decide +kernel⟩)
  have hrun : PlayersRun playedGame :=
    .call henter (show "-K1" ∈ ["-K1"] ∧ ("1" = "1" ∨ "1" = "2") by decide)
  have hkeeps : ∀ r ∈ playedGame, r.KeepsGames := by
    intro r hr
    simp only [playedGame, List.mem_cons, List.not_mem_nil, or_false] at hr
    rcases hr with rfl | rfl | rfl
    · exact trivial
    · intro n hn
      have htwo : decimal "2" = some 2 := by decide +kernel
      rw [htwo] at hn
      cases hn
      decide
    · exact trivial
  exact ((games_listed_iff hrun).mpr hkeeps playedGame [] rfl).1

def newGameSave : Request :=
  .saveGame "boris" 2 0 0 GameData.new.initBoardA.boardA "-K3" "-K4" "date"

theorem newGameSave_unlists :
    PlayersRun ([.createGame "MyGame" "anna" 1 "-K1" "-K2"] ++ [newGameSave]) ∧
      ¬ CompleteGames (performAll ([.createGame "MyGame" "anna" 1 "-K1" "-K2"] ++ [newGameSave]) .null) ∧
      (searchGame (performAll ([.createGame "MyGame" "anna" 1 "-K1" "-K2"] ++ [newGameSave])
        .null)).2 ≠ none := by
  have hcreate : PlayersRun [.createGame "MyGame" "anna" 1 "-K1" "-K2"] :=
    .call .start (show "-K1" ≠ "saves" by decide)
  have hsave : ¬ newGameSave.KeepsGames := by
    intro hnone
    have hsome := (full_newGame 0).mpr (by omega)
    rw [show GameData.new.initBoardA.boardA 0 = none from hnone] at hsome
    cases hsome
  have hbroken := unreadable_after (r := newGameSave) hcreate trivial hsave
  exact ⟨.call hcreate trivial, hbroken, fun hnone => hbroken ((searchGame_returns_iff _).mp hnone)⟩

end MyIVR
