import MyIVR.Foundations.FlatStore
import MyIVR.Store.Requests

/-! The database as a table. Each call that names no game like the saves and no board
like a field of its game assigns values to addresses, and after any such calls the tree
holds at an address what the table does. -/
namespace MyIVR
open Swift KeyTree

inductive GameField where
  | name | status | senderID | uuid | rait
  deriving DecidableEq, Repr

def GameField.key : GameField → String
  | name => "name"
  | status => "status"
  | senderID => "senderID"
  | uuid => "uuid"
  | rait => "rait"

/-- What the calls keep: the preferences of a user, the entries of a user's games and
saves, the fields of a game, the last move on a board of it, and the fields of a save. -/
inductive Address where
  | board (userID : String)
  | figure (userID : String)
  | userGame (userID key : String)
  | userSave (userID key : String)
  | field (gameID : String) (field : GameField)
  | lastFrom (gameID board : String)
  | lastTo (gameID board : String)
  | record (gameID field : String)
  deriving DecidableEq, Repr

namespace Address

def path : Address → List String
  | board userID => ["users", userID, "board"]
  | figure userID => ["users", userID, "figure"]
  | userGame userID key => ["users", userID, "userGames", key]
  | userSave userID key => ["users", userID, "userSaves", key]
  | field gameID f => ["games", gameID, f.key]
  | lastFrom gameID b => ["games", gameID, b, "LastFrom"]
  | lastTo gameID b => ["games", gameID, b, "LastTo"]
  | record gameID name => ["games", "saves", gameID, name]

/-- No game is named like the node of the saves, and no board like a field of its game. -/
def Proper : Address → Prop
  | field gameID _ => gameID ≠ "saves"
  | lastFrom gameID b | lastTo gameID b => gameID ≠ "saves" ∧ ∀ f : GameField, b ≠ f.key
  | _ => True

end Address

private theorem key_inj {f g : GameField} (h : f.key = g.key) : f = g := by
  cases f <;> cases g <;> first | rfl | exact absurd h (by decide)

theorem addresses_spread : Spread Address.path Address.Proper := by
  intro a b ha hb hab
  cases a <;> cases b <;> simp only [Address.path, Address.Proper, Apart] at ha hb ⊢ <;> grind [key_inj]

namespace Request

/-- The values of the squares that saveGame sends, up to the first missing one. -/
def squaresAssigned (gameID : String) (board : Board) : List Int → List (Address × Snapshot)
  | [] => []
  | i :: rest =>
    match board i with
    | none => []
    | some piece =>
      (.record gameID (squareKey i ++ "PieceType"), text piece.pieceType.rawValue) ::
        (.record gameID (squareKey i ++ "Color"), text piece.color.rawValue) :: squaresAssigned gameID board rest

theorem squaresAssigned_address {gameID : String} {board : Board} {l : List Int} {a : Address}
    (h : a ∈ (squaresAssigned gameID board l).map Prod.fst) : ∃ name, a = .record gameID name := by
  induction l with
  | nil => cases h
  | cons i rest ih =>
    rw [squaresAssigned] at h
    split at h
    · cases h
    · simp only [List.map_cons, List.mem_cons] at h
      rcases h with h | h | h
      · exact ⟨_, h⟩
      · exact ⟨_, h⟩
      · exact ih h

/-- The assignments of a call, in order. A captured figure has no address: its text takes
the place of the board, and erases the last move there. -/
def assigns : Request → List (Address × Snapshot)
  | setBoard userID number => [(.board userID, text number)]
  | setFigure userID number => [(.figure userID, text number)]
  | createGame name senderID rait key entryKey =>
    [(.field key .name, text name), (.field key .status, text "1"), (.field key .senderID, text senderID),
      (.field key .uuid, text key), (.field key .rait, text (toString rait)),
      (.userGame senderID entryKey, text key)]
  | enterGame userID gameID status entryKey =>
    [(.userGame userID entryKey, text gameID), (.field gameID .status, text status)]
  | makeMove gameID board pos pos1 =>
    [(.lastFrom gameID board, text (toString pos)), (.lastTo gameID board, text (toString pos1))]
  | setDead gameID board _ => [(.lastFrom gameID board, .null), (.lastTo gameID board, .null)]
  | saveGame userID players color moves board gameID saveKey date =>
    squaresAssigned gameID board (upTo 0 63) ++
      if Savable board then
        [(.record gameID "players", text (toString players)), (.record gameID "moves", text (toString moves)),
          (.record gameID "date", text date), (.record gameID "color", .leaf (.num color)),
          (.userSave userID saveKey, text gameID)]
      else []

/-- A save assigns to its record and to its entry of the index. -/
theorem saveGame_address {userID gameID saveKey date : String} {players color moves : Int} {board : Board}
    {a : Address}
    (h : a ∈ (saveGame userID players color moves board gameID saveKey date).assigns.map Prod.fst) :
    (∃ name, a = .record gameID name) ∨ a = .userSave userID saveKey := by
  rw [assigns, List.map_append, List.mem_append] at h
  rcases h with h | h
  · exact .inl (squaresAssigned_address h)
  · split at h
    · simp only [List.map_cons, List.map_nil, List.mem_cons, List.not_mem_nil, or_false] at h
      rcases h with h | h | h | h | h
      iterate 4 exact .inl ⟨_, h⟩
      exact .inr h
    · cases h

def setAt (e : Address × Snapshot) : Write String Value := .set e.1.path e.2

private theorem squares_assigned (gameID : String) (board : Board) (l : List Int) (db : Snapshot) :
    runAll (squareWrites ["games", "saves", gameID] board l) db =
      runAll ((squaresAssigned gameID board l).map setAt) db := by
  induction l generalizing db with
  | nil => rfl
  | cons i rest ih =>
    rw [squareWrites, squaresAssigned]
    cases board i with
    | none => rfl
    | some piece =>
      simp only [List.map_cons, runAll_cons]
      rw [← ih]
      exact congrArg _ (Write.run_mergeAt ["games", "saves", gameID]
        (squareKey i ++ "PieceType", text piece.pieceType.rawValue)
        [(squareKey i ++ "Color", text piece.color.rawValue)] db)

theorem perform_assigns {r : Request} (h : ∀ gameID board figure, r ≠ setDead gameID board figure)
    (db : Snapshot) : r.perform db = runAll (r.assigns.map setAt) db := by
  cases r with
  | setBoard userID number => exact Write.run_mergeAt ["users", userID] ("board", text number) [] db
  | setFigure userID number => exact Write.run_mergeAt ["users", userID] ("figure", text number) [] db
  | createGame name senderID rait key entryKey =>
    exact congrArg (Write.run ⟨["users", senderID, "userGames", entryKey], fun _ => text key⟩)
      (Write.run_mergeAt ["games", key] ("name", text name) [("status", text "1"), ("senderID", text senderID),
        ("uuid", text key), ("rait", text (toString rait))] db)
  | enterGame userID gameID status entryKey =>
    exact Write.run_mergeAt ["games", gameID] ("status", text status) []
      (db.modify (fun _ => text gameID) ["users", userID, "userGames", entryKey])
  | makeMove gameID board pos pos1 =>
    exact Write.run_mergeAt ["games", gameID, board] ("LastFrom", text (toString pos))
      [("LastTo", text (toString pos1))] db
  | setDead gameID board figure => exact absurd rfl (h gameID board figure)
  | saveGame userID players color moves board gameID saveKey date =>
    rw [perform_eq, writes, assigns, runAll_append, squares_assigned, List.map_append, runAll_append]
    split
    · have hfield (k : String) (v t : Snapshot) :
          Write.run ⟨["games", "saves", gameID], fun u => u.merge [(k, v)]⟩ t =
            (setAt (.record gameID k, v)).run t := Write.run_mergeAt ["games", "saves", gameID] (k, v) [] t
      simp only [recordEnd, List.map_cons, List.map_nil, runAll_cons, runAll_nil, text, hfield]
      rfl
    · rfl

/-- The call names no game like the saves, and no board like a field of its game. -/
def Proper : Request → Prop
  | setBoard .. | setFigure .. | saveGame .. => True
  | createGame _ _ _ key _ => key ≠ "saves"
  | enterGame _ gameID _ _ => gameID ≠ "saves"
  | makeMove gameID board _ _ | setDead gameID board _ => gameID ≠ "saves" ∧ ∀ f : GameField, board ≠ f.key

theorem assigns_proper {r : Request} (h : r.Proper) {e : Address × Snapshot} (he : e ∈ r.assigns) :
    e.1.Proper := by
  cases r with
  | setBoard | setFigure =>
    cases List.mem_singleton.mp he
    trivial
  | createGame | enterGame | makeMove | setDead =>
    simp only [assigns, List.mem_cons, List.not_mem_nil, or_false] at he
    rcases he with rfl | rfl | rfl | rfl | rfl | rfl <;> trivial
  | saveGame =>
    rcases saveGame_address (List.mem_map_of_mem he) with ⟨name, hrecord⟩ | hentry
    · rw [hrecord]
      trivial
    · rw [hentry]
      trivial

def update (r : Request) (table : Address → Snapshot) : Address → Snapshot := Table.assign table r.assigns

private theorem get_setDead {gameID board figure : String} (h : (setDead gameID board figure).Proper)
    (db : Snapshot) {a : Address} (ha : a.Proper) :
    ((setDead gameID board figure).perform db).get a.path =
      (setDead gameID board figure).update (fun b => db.get b.path) a := by
  have hbelow (k : String) : ((setDead gameID board figure).perform db).get ["games", gameID, board, k] = .null :=
    Node.get_modify_below (fun _ => text figure) db ["games", gameID, board] [k]
  by_cases hfrom : a = .lastFrom gameID board
  · rw [hfrom, Address.path, hbelow]
    simp [update, assigns, Table.assign, Function.update]
  by_cases hto : a = .lastTo gameID board
  · rw [hto, Address.path, hbelow]
    simp [update, assigns, Table.assign, Function.update]
  · have hapart : Apart ["games", gameID, board] a.path := by
      obtain ⟨hsaves, hfield⟩ := h
      cases a <;> simp only [Address.path, Address.Proper, Apart] at ha ⊢ <;> grind
    rw [update, Table.assign_of_notMem _ (by simp [assigns, hfrom, hto])]
    exact Node.get_modify_apart _ db hapart

/-- A call changes the tree at the addresses as it changes the table. -/
theorem get_perform_proper {r : Request} (h : r.Proper) (db : Snapshot) {a : Address} (ha : a.Proper) :
    (r.perform db).get a.path = r.update (fun b => db.get b.path) a := by
  have hassigned : (∀ gameID board figure, r ≠ setDead gameID board figure) →
      (r.perform db).get a.path = r.update (fun b => db.get b.path) a := by
    intro hdead
    rw [perform_assigns hdead]
    exact addresses_spread.get_assigned (fun e he => assigns_proper h he) ha db
  cases r with
  | setDead => exact get_setDead h db ha
  | _ => exact hassigned (by simp)

end Request

theorem get_performAll_unassigned {requests : List Request} {a : Address} (ha : a.Proper)
    (h : ∀ r ∈ requests, r.Proper ∧ a ∉ r.assigns.map Prod.fst) (db : Snapshot) :
    (performAll requests db).get a.path = db.get a.path := by
  induction requests generalizing db with
  | nil => rfl
  | cons r rest ih =>
    obtain ⟨⟨hproper, ha'⟩, hrest⟩ := List.forall_mem_cons.mp h
    rw [performAll_cons, ih hrest, Request.get_perform_proper hproper db ha, Request.update,
      Table.assign_of_notMem _ ha']

/-- After any calls that name no game like the saves and no board like a field, on any
database, the tree holds at every address what the table holds that started with the
contents of the database and took the assignments in order. -/
theorem database_is_table {requests : List Request} (h : ∀ r ∈ requests, r.Proper) (db : Snapshot)
    {a : Address} (ha : a.Proper) : (performAll requests db).get a.path =
      requests.foldl (fun table r => r.update table) (fun b => db.get b.path) a := by
  induction requests using List.reverseRecOn with
  | nil => rfl
  | append_singleton rs r ih =>
    have hrs := ih fun r' hr' => h r' (List.mem_append_left _ hr')
    rw [performAll_snoc, Request.get_perform_proper (h r (by simp)) _ ha, List.foldl_append]
    exact Table.assign_congr hrs _

/-- The last move of a game that was created, joined and played. -/
theorem last_move_in_table :
    let requests : List Request := [.createGame "MyGame" "anna" 1 "-K1" "-K2",
      .enterGame "boris" "-K1" "2" "-K3", .makeMove "-K1" "1" 1 18]
    (performAll requests .null).get (Address.lastTo "-K1" "1").path =
      requests.foldl (fun table r => r.update table) (fun b => Node.null.get b.path) (.lastTo "-K1" "1") := by
  have hboard (f : GameField) : "1" ≠ f.key := by cases f <;> decide
  refine database_is_table ?_ .null ⟨by decide, hboard⟩
  simp only [List.forall_mem_cons, List.not_mem_nil, false_imp_iff, implies_true, and_true]
  exact ⟨show "-K1" ≠ "saves" by decide, show "-K1" ≠ "saves" by decide, show "-K1" ≠ "saves" by decide, hboard⟩

end MyIVR
