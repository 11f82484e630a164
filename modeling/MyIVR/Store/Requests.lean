import MyIVR.Foundations.TreeWrites
import MyIVR.Store.GameRecord

/-! The calls of DataService that write, and the writes each of them sends. Every
frame and every order of calls is argued on the paths of these writes. -/
namespace MyIVR
open Swift KeyTree

/-- The rounds of saveGame's loop that are sent before a missing square faults. -/
def roundsSent (ref : List String) (board : Board) : List Int → Snapshot → Snapshot
  | [], db => db
  | i :: rest, db =>
    match saveSquare ref board db i with
    | .error _ => db
    | .ok db => roundsSent ref board rest db

/-- A call that writes, with the keys childByAutoId returns in it and the date. -/
inductive Request where
  | setBoard (userID number : String)
  | setFigure (userID number : String)
  | createGame (name senderID : String) (rait : Int) (key entryKey : String)
  | enterGame (userID gameID status entryKey : String)
  | makeMove (gameID board : String) (pos pos1 : Int)
  | setDead (gameID board figure : String)
  | saveGame (userID : String) (players color moves : Int) (board : Board)
      (gameID saveKey date : String)

namespace Request

/-- The database a call leaves behind, also when it faults. -/
def perform : Request → Snapshot → Snapshot
  | setBoard userID number, db => MyIVR.setBoard userID number db
  | setFigure userID number, db => MyIVR.setFigure userID number db
  | createGame name senderID rait key entryKey, db =>
    (MyIVR.createGame name senderID rait key entryKey db).1
  | enterGame userID gameID status entryKey, db => MyIVR.enterGame userID gameID status entryKey db
  | makeMove gameID board pos pos1, db => MyIVR.makeMove gameID board pos pos1 db
  | setDead gameID board figure, db => MyIVR.setDead gameID board figure db
  | saveGame userID players color moves board gameID saveKey date, db =>
    match MyIVR.saveGame userID players color moves board gameID saveKey date db with
    | .ok db => db
    | .error _ => roundsSent ["games", "saves", gameID] board (upTo 0 63) db

/-- The keys childByAutoId returns, in the order of its calls. -/
def autoKeys : Request → List String
  | createGame _ _ _ key entryKey => [key, entryKey]
  | enterGame _ _ _ entryKey => [entryKey]
  | saveGame _ _ _ _ _ gameID saveKey _ => [gameID, saveKey]
  | _ => []

end Request

def performAll (requests : List Request) (db : Snapshot) : Snapshot :=
  requests.foldl (fun db r => r.perform db) db

@[simp] theorem performAll_nil (db : Snapshot) : performAll [] db = db := rfl

@[simp] theorem performAll_cons (r : Request) (rs : List Request) (db : Snapshot) :
    performAll (r :: rs) db = performAll rs (r.perform db) := rfl

theorem performAll_append (rs rs' : List Request) (db : Snapshot) :
    performAll (rs ++ rs') db = performAll rs' (performAll rs db) := List.foldl_append

@[simp] theorem performAll_snoc (rs : List Request) (r : Request) (db : Snapshot) :
    performAll (rs ++ [r]) db = r.perform (performAll rs db) := by
  rw [performAll, List.foldl_append]
  rfl

section save
variable (ref : List String) (board : Board)

/-- The writes of the rounds over a list of squares, up to the first missing one. -/
def squareWrites : List Int → List (Write String Value)
  | [] => []
  | i :: rest =>
    match board i with
    | none => []
    | some piece =>
      ⟨ref, fun t => t.merge (squareFields i piece.pieceType piece.color)⟩ :: squareWrites rest

private theorem saveSquare_some {i : Int} {piece : Piece} (h : board i = some piece) (db : Snapshot) :
    saveSquare ref board db i =
      .ok (db.modify (fun t => t.merge (squareFields i piece.pieceType piece.color)) ref) := by
  rw [saveSquare, h]
  rfl

private theorem saveSquare_none {i : Int} (h : board i = none) (db : Snapshot) :
    saveSquare ref board db i = .error .missingKey := by
  rw [saveSquare, h]
  rfl

private theorem roundsSent_eq (l : List Int) (db : Snapshot) :
    roundsSent ref board l db = runAll (squareWrites ref board l) db := by
  induction l generalizing db with
  | nil => rfl
  | cons i rest ih =>
    cases h : board i with
    | none => simp only [roundsSent, squareWrites, saveSquare_none _ _ h, h, runAll_nil]
    | some piece => simp only [roundsSent, squareWrites, saveSquare_some _ _ h, h, runAll_cons, ih, Write.run]

private theorem saveSquares_run (l : List Int) (db : Snapshot) :
    l.foldlM (saveSquare ref board) db =
      if ∀ i ∈ l, (board i).isSome then .ok (runAll (squareWrites ref board l) db)
      else .error .missingKey := by
  induction l generalizing db with
  | nil => rfl
  | cons i rest ih =>
    rw [List.foldlM_cons]
    cases h : board i with
    | none => simp [saveSquare_none _ _ h, h]
    | some piece => simp [saveSquare_some _ _ h, h, ih, squareWrites, Write.run]

def Savable : Prop := ∀ i ∈ upTo 0 63, (board i).isSome

instance : Decidable (Savable board) := inferInstanceAs (Decidable (∀ i ∈ upTo 0 63, (board i).isSome))

private theorem saveLoop (db : Snapshot) : (upTo 0 63).foldlM (saveSquare ref board) db =
    if Savable board then .ok (runAll (squareWrites ref board (upTo 0 63)) db)
    else .error .missingKey := saveSquares_run ref board (upTo 0 63) db

end save

/-- The writes after the loop of saveGame. -/
def recordEnd (userID : String) (players color moves : Int) (gameID saveKey date : String) :
    List (Write String Value) :=
  let ref := ["games", "saves", gameID]
  [⟨ref, fun t => t.merge [("players", text (toString players))]⟩,
    ⟨ref, fun t => t.merge [("moves", text (toString moves))]⟩,
    ⟨ref, fun t => t.merge [("date", text date)]⟩,
    ⟨ref, fun t => t.merge [("color", .leaf (.num color))]⟩,
    ⟨["users", userID, "userSaves", saveKey], fun _ => text gameID⟩]

private theorem saveGame_run (userID : String) (players color moves : Int) (board : Board)
    (gameID saveKey date : String) (db : Snapshot) :
    saveGame userID players color moves board gameID saveKey date db =
      if Savable board then
        .ok (runAll (squareWrites ["games", "saves", gameID] board (upTo 0 63) ++
          recordEnd userID players color moves gameID saveKey date) db)
      else .error .missingKey := by
  rw [saveGame, saveLoop, runAll_append]
  by_cases h : Savable board
  · rw [if_pos h, if_pos h]
    rfl
  · rw [if_neg h, if_neg h]
    rfl

namespace Request

/-- The writes a call sends, in order. -/
def writes : Request → List (Write String Value)
  | setBoard userID number => [⟨["users", userID], fun t => t.merge [("board", text number)]⟩]
  | setFigure userID number => [⟨["users", userID], fun t => t.merge [("figure", text number)]⟩]
  | createGame name senderID rait key entryKey =>
    [⟨["games", key], fun t => t.merge [("name", text name), ("status", text "1"),
        ("senderID", text senderID), ("uuid", text key), ("rait", text (toString rait))]⟩,
      ⟨["users", senderID, "userGames", entryKey], fun _ => text key⟩]
  | enterGame userID gameID status entryKey =>
    [⟨["users", userID, "userGames", entryKey], fun _ => text gameID⟩,
      ⟨["games", gameID], fun t => t.merge [("status", text status)]⟩]
  | makeMove gameID board pos pos1 =>
    [⟨["games", gameID, board],
      fun t => t.merge [("LastFrom", text (toString pos)), ("LastTo", text (toString pos1))]⟩]
  | setDead gameID board figure => [⟨["games", gameID, board], fun _ => text figure⟩]
  | saveGame userID players color moves board gameID saveKey date =>
    squareWrites ["games", "saves", gameID] board (upTo 0 63) ++
      if Savable board then recordEnd userID players color moves gameID saveKey date else []

theorem perform_eq (r : Request) (db : Snapshot) : r.perform db = runAll r.writes db := by
  cases r with
  | saveGame userID players color moves board gameID saveKey date =>
    rw [perform, writes, saveGame_run]
    by_cases h : Savable board
    · rw [if_pos h, if_pos h]
    · rw [if_neg h, if_neg h, List.append_nil]
      exact roundsSent_eq _ _ _ _
  | _ => rfl

theorem get_perform {r : Request} {path : List String} (h : ∀ w ∈ r.writes, w.Keeps path)
    (db : Snapshot) : (r.perform db).get path = db.get path := by
  rw [perform_eq, get_runAll h]

end Request

theorem squareWrites_merge {ref : List String} {board : Board} {l : List Int} {w : Write String Value}
    (h : w ∈ squareWrites ref board l) : ∃ entries, w = ⟨ref, fun t => t.merge entries⟩ := by
  induction l with
  | nil => cases h
  | cons i rest ih =>
    rw [squareWrites] at h
    split at h
    · cases h
    · rcases List.mem_cons.mp h with rfl | h
      · exact ⟨_, rfl⟩
      · exact ih h

section save
variable {userID gameID saveKey date : String} {players color moves : Int} {board : Board}
  {w : Write String Value}

theorem Request.saveGame_write
    (h : w ∈ (Request.saveGame userID players color moves board gameID saveKey date).writes) :
    (∃ entries, w = ⟨["games", "saves", gameID], fun t => t.merge entries⟩) ∨
      w = ⟨["users", userID, "userSaves", saveKey], fun _ => text gameID⟩ := by
  rw [writes, List.mem_append] at h
  rcases h with h | h
  · exact .inl (squareWrites_merge h)
  · split at h
    · simp only [recordEnd, List.mem_cons, List.not_mem_nil, or_false] at h
      rcases h with rfl | rfl | rfl | rfl | rfl
      iterate 4 exact .inl ⟨_, rfl⟩
      exact .inr rfl
    · cases h

theorem Request.saveGame_path
    (h : w ∈ (Request.saveGame userID players color moves board gameID saveKey date).writes) :
    w.path = ["games", "saves", gameID] ∨ w.path = ["users", userID, "userSaves", saveKey] := by
  rcases saveGame_write h with ⟨_, rfl⟩ | rfl
  · exact .inl rfl
  · exact .inr rfl

end save

namespace Request

/-- The writes of a call, one constructor for each place that sends one. -/
inductive Sends : Request → Write String Value → Prop
  | board (userID number : String) : Sends (setBoard userID number)
      ⟨["users", userID], fun t => t.merge [("board", text number)]⟩
  | figure (userID number : String) : Sends (setFigure userID number)
      ⟨["users", userID], fun t => t.merge [("figure", text number)]⟩
  | game (name senderID : String) (rait : Int) (key entryKey : String) :
      Sends (createGame name senderID rait key entryKey)
        ⟨["games", key], fun t => t.merge [("name", text name), ("status", text "1"),
          ("senderID", text senderID), ("uuid", text key), ("rait", text (toString rait))]⟩
  | owner (name senderID : String) (rait : Int) (key entryKey : String) :
      Sends (createGame name senderID rait key entryKey)
        ⟨["users", senderID, "userGames", entryKey], fun _ => text key⟩
  | player (userID gameID status entryKey : String) : Sends (enterGame userID gameID status entryKey)
      ⟨["users", userID, "userGames", entryKey], fun _ => text gameID⟩
  | status (userID gameID status entryKey : String) : Sends (enterGame userID gameID status entryKey)
      ⟨["games", gameID], fun t => t.merge [("status", text status)]⟩
  | move (gameID board : String) (pos pos1 : Int) : Sends (makeMove gameID board pos pos1)
      ⟨["games", gameID, board],
        fun t => t.merge [("LastFrom", text (toString pos)), ("LastTo", text (toString pos1))]⟩
  | dead (gameID board figure : String) : Sends (setDead gameID board figure)
      ⟨["games", gameID, board], fun _ => text figure⟩
  | record (userID : String) (players color moves : Int) (board : Board) (gameID saveKey date : String)
      (entries : List (String × Snapshot)) :
      Sends (saveGame userID players color moves board gameID saveKey date)
        ⟨["games", "saves", gameID], fun t => t.merge entries⟩
  | index (userID : String) (players color moves : Int) (board : Board) (gameID saveKey date : String) :
      Sends (saveGame userID players color moves board gameID saveKey date)
        ⟨["users", userID, "userSaves", saveKey], fun _ => text gameID⟩

theorem sends {r : Request} {w : Write String Value} (h : w ∈ r.writes) : r.Sends w := by
  cases r with
  | setBoard | setFigure | makeMove | setDead =>
    rw [writes, List.mem_singleton] at h
    subst h
    constructor
  | createGame | enterGame =>
    simp only [writes, List.mem_cons, List.not_mem_nil, or_false] at h
    rcases h with rfl | rfl <;> constructor
  | saveGame =>
    rcases saveGame_write h with ⟨entries, rfl⟩ | rfl <;> constructor

end Request

private theorem grows_below {node id top name k : String} {rest : List String}
    {f : Snapshot → Snapshot} : Write.Grows ⟨top :: name :: k :: rest, f⟩ [node, id] :=
  .below f (p := [top, name]) (q := [node, id]) rfl k rest

/-- No call takes a child from the record of a user or a game. -/
theorem Request.grows {r : Request} {w : Write String Value} (hw : w ∈ r.writes) (node id : String) :
    w.Grows [node, id] := by
  cases sends hw with
  | board | figure | game | status => exact .merge _ rfl
  | owner | player | move | dead | record | index => exact grows_below

theorem keys_performAll (requests : List Request) (db : Snapshot) (node id : String) :
    (db.get [node, id]).keys ⊆ ((performAll requests db).get [node, id]).keys := by
  induction requests generalizing db with
  | nil => exact Finset.Subset.refl _
  | cons r rest ih =>
    have hfirst : (db.get [node, id]).keys ⊆ ((r.perform db).get [node, id]).keys := by
      rw [Request.perform_eq]
      exact keys_runAll (fun w hw => Request.grows hw node id) db
    exact hfirst.trans (ih (r.perform db))

end MyIVR
