import MyIVR.Game.InitialBoard
import MyIVR.Game.MoveTest
import MyIVR.Store.DataService

/-! The record of a game: the fields saveGame writes, and what loadGame makes of
a record whose fields are all text. -/
namespace MyIVR
open Swift KeyTree

def squareFields (i : Int) (type : PieceType) (color : Color) : List (String × Snapshot) :=
  [(squareKey i ++ "PieceType", text type.rawValue), (squareKey i ++ "Color", text color.rawValue)]

/-- The fields of a record that stores a board, with the value of `color` given. -/
def recordFields (kinds : Square → PieceType × Color) (players moves date : String)
    (color : Snapshot) : List (String × Snapshot) :=
  (List.finRange 64).flatMap (fun s => squareFields (Square.key s) (kinds s).1 (kinds s).2) ++
    [("players", text players), ("moves", text moves), ("date", text date), ("color", color)]

def kindsOf (b : Board) (s : Square) : PieceType × Color := (kindAt b s.key).getD (.empty, .white)

theorem kindsOf_some {b : Board} {s : Square} {x : Piece} (h : b s.key = some x) :
    kindsOf b s = (x.pieceType, x.color) := by
  rw [kindsOf, kindAt, h]
  rfl

section keys

private theorem squareKey_length (s : Square) : (squareKey s.key).toList.length = 2 := by
  revert s
  decide +kernel

private theorem parseInt_squareKey (s : Square) : parseInt (squareKey s.key) = some s.key := by
  revert s
  decide +kernel

private theorem squareKey_append {s t : Square} {u v : String}
    (h : squareKey s.key ++ u = squareKey t.key ++ v) : s = t ∧ u = v := by
  have hlist : (squareKey s.key).toList ++ u.toList = (squareKey t.key).toList ++ v.toList := by
    rw [← String.toList_append, h, String.toList_append]
  obtain ⟨hkey, hname⟩ := List.append_inj hlist (by rw [squareKey_length, squareKey_length])
  refine ⟨Square.key_inj.mp (Option.some.inj ?_), String.toList_inj.mp hname⟩
  rw [← parseInt_squareKey, String.toList_inj.mp hkey, parseInt_squareKey]

theorem squareKey_fresh (s : Square) (k : String) (hk : k ∈ ["players", "moves", "date", "color"]) :
    k ≠ squareKey s.key ++ "PieceType" ∧ k ≠ squareKey s.key ++ "Color" := by
  revert s k
  decide +kernel

private theorem squareKeys_nodup : (((List.finRange 64).flatMap (fun s : Square =>
    [squareKey s.key ++ "PieceType", squareKey s.key ++ "Color"])) ++
      ["players", "moves", "date", "color"]).Nodup := by
  rw [List.nodup_append']
  refine ⟨List.nodup_flatMap.mpr ⟨fun s _ => ?_, ?_⟩, by decide, fun k hsquare hk => ?_⟩
  · rw [List.nodup_cons, List.mem_singleton]
    exact ⟨fun h => absurd (squareKey_append h).2 (by decide), List.nodup_singleton _⟩
  · refine (List.nodup_finRange 64).imp fun {s t} hne k hs ht => hne ?_
    simp only [List.mem_cons, List.not_mem_nil, or_false] at hs ht
    rcases hs with rfl | rfl <;> rcases ht with h | h <;> exact (squareKey_append h).1
  · obtain ⟨s, _, hs⟩ := List.mem_flatMap.mp hsquare
    have hfresh := squareKey_fresh s k hk
    simp only [List.mem_cons, List.not_mem_nil, or_false] at hs
    exact hs.elim hfresh.1 hfresh.2

end keys

section record
variable {kinds : Square → PieceType × Color} {players moves date : String} {color : Snapshot}

private theorem recordFields_nodup :
    ((recordFields kinds players moves date color).map Prod.fst).Nodup := by
  rw [recordFields, List.map_append, List.map_flatMap]
  exact squareKeys_nodup

theorem child_record (t : Snapshot) {k : String} {x : Snapshot}
    (h : (k, x) ∈ recordFields kinds players moves date color) :
    (t.merge (recordFields kinds players moves date color)).child k = x :=
  t.child_merge recordFields_nodup h

end record

theorem upTo_squares : upTo 0 63 = (List.finRange 64).map Square.key := by decide +kernel

section save
variable {b : Board} (ref : List String)

private theorem saveSquare_eq (hb : Full b) (db : Snapshot) (s : Square) :
    saveSquare ref b db s.key =
      .ok (db.modify (fun t => t.merge (squareFields s.key (kindsOf b s).1 (kindsOf b s).2)) ref) := by
  obtain ⟨x, hx⟩ := hb.at_square s
  rw [saveSquare, hx, kindsOf_some hx]
  rfl

private theorem saveSquares_eq (hb : Full b) (db : Snapshot) (squares : List Square)
    (fields : List (String × Snapshot)) :
    (squares.map Square.key).foldlM (saveSquare ref b) (db.modify (fun t => t.merge fields) ref) =
      .ok (db.modify (fun t => t.merge (fields ++ squares.flatMap
        (fun s => squareFields s.key (kindsOf b s).1 (kindsOf b s).2))) ref) := by
  induction squares generalizing fields with
  | nil => rw [List.flatMap_nil, List.append_nil]; rfl
  | cons s rest ih =>
    rw [List.map_cons, List.foldlM_cons, saveSquare_eq ref hb, ok_bind, Node.modify_modify,
      List.flatMap_cons, ← List.append_assoc, ← ih]
    simp only [Node.merge_append]

/-- saveGame on a full board returns. It writes one record and one index entry. -/
theorem saveGame_eq (hb : Full b) (userID : String) (players color moves : Int)
    (gameID saveKey date : String) (db : Snapshot) :
    saveGame userID players color moves b gameID saveKey date db = .ok
      ((db.modify (fun t => t.merge (recordFields (kindsOf b) (toString players) (toString moves) date
        (.leaf (.num color)))) ["games", "saves", gameID]).modify (fun _ => text gameID)
          ["users", userID, "userSaves", saveKey]) := by
  have hloop : (upTo 0 63).foldlM (saveSquare ["games", "saves", gameID] b) db =
      .ok (db.modify (fun t => t.merge ((List.finRange 64).flatMap
        (fun s : Square => squareFields s.key (kindsOf b s).1 (kindsOf b s).2)))
          ["games", "saves", gameID]) := by
    rw [upTo_squares, List.finRange_succ, List.map_cons, List.foldlM_cons, saveSquare_eq _ hb, ok_bind,
      saveSquares_eq _ hb, List.flatMap_cons]
  rw [saveGame, hloop]
  simp only [ok_bind, pure_eq_ok, Node.modify_modify, ← Node.merge_append, recordFields,
    List.cons_append, List.nil_append]

theorem saves_after (hb : Full b) {userID gameID saveKey date : String} {players color moves : Int}
    {db db' : Snapshot} (h : saveGame userID players color moves b gameID saveKey date db = .ok db') :
    saves db' = (saves db).put gameID (((saves db).child gameID).merge
      (recordFields (kindsOf b) (toString players) (toString moves) date (.leaf (.num color)))) := by
  rw [saveGame_eq hb] at h
  cases h
  rw [saves, Node.get_modify_ne _ _ (by decide)]
  exact Node.get_modify_snoc _ db ["games", "saves"] gameID

end save

/-- The fields of the squares spell out kinds of pieces. -/
def Readable (snap : Snapshot) (kinds : Square → PieceType × Color) : Prop :=
  ∀ s : Square, snap.child (squareKey s.key ++ "PieceType") = text (kinds s).1.rawValue ∧
    snap.child (squareKey s.key ++ "Color") = text (kinds s).2.rawValue

/-- A number stored as text. -/
def Spells (snap : Snapshot) (field : String) (n : Int) : Prop :=
  ∃ s, snap.child field = text s ∧ parseInt s = some n

/-- The call of the handler carries the record. -/
structure Carries (snap : Snapshot) (call : Save) : Prop where
  full : Full call.save
  board : ∃ kinds, Readable snap kinds ∧ ∀ s : Square, kindAt call.save s.key = some (kinds s)
  players : Spells snap "players" call.players
  color : Spells snap "color" call.color
  date : snap.child "date" = text call.date
  moves : Spells snap "moves" call.moves

/-- Every field of the record is text of the expected form. -/
structure WellFormed (snap : Snapshot) : Prop where
  board : ∃ kinds, Readable snap kinds
  players : ∃ n, Spells snap "players" n
  color : ∃ n, Spells snap "color" n
  date : ∃ s, snap.child "date" = text s
  moves : ∃ n, Spells snap "moves" n

/-- The record of a save spells the board and the players. -/
theorem readable_record (t : Snapshot) (kinds : Square → PieceType × Color)
    (players moves date : String) (color : Snapshot) :
    Readable (t.merge (recordFields kinds players moves date color)) kinds := by
  intro s
  have hmem (e : String × Snapshot) (he : e ∈ squareFields s.key (kinds s).1 (kinds s).2) :
      e ∈ recordFields kinds players moves date color :=
    List.mem_append_left _ (List.mem_flatMap.mpr ⟨s, List.mem_finRange s, he⟩)
  exact ⟨child_record t (hmem _ List.mem_cons_self),
    child_record t (hmem _ (List.mem_cons_of_mem _ List.mem_cons_self))⟩

theorem record_numbers (t : Snapshot) (kinds : Square → PieceType × Color)
    (players moves date : String) (color : Snapshot) :
    let snap := t.merge (recordFields kinds players moves date color)
    snap.child "players" = text players ∧ snap.child "moves" = text moves ∧
      snap.child "date" = text date ∧ snap.child "color" = color := by
  refine ⟨?_, ?_, ?_, ?_⟩ <;> exact child_record t (List.mem_append_right _ (by simp))

section load
variable {snap : Snapshot} {kinds : Square → PieceType × Color}

private theorem loadSquare_eq (h : Readable snap kinds) (pieces : GameData) (s : Square) :
    loadSquare snap pieces s.key = .ok (pieces.place s.key (kinds s).1 (kinds s).2) := by
  simp only [loadSquare, (h s).1, (h s).2, text, asString, ok_bind, PieceType.ofRawValue_rawValue,
    Color.ofRawValue_rawValue, force_some, pure_eq_ok]

private theorem kindAt_place (g : GameData) (k : Int) (type : PieceType) (color : Color) (i : Int) :
    kindAt (g.place k type color).boardA i = if i = k then some (type, color) else kindAt g.boardA i := by
  by_cases h : i = k
  · subst i
    simp [kindAt, GameData.place]
  · simp only [kindAt, GameData.place, Board.assign_ne _ h, if_neg h]

private theorem loadSquares_eq (h : Readable snap kinds) (squares : List Square) (pieces : GameData) :
    ∃ pieces', (squares.map Square.key).foldlM (loadSquare snap) pieces = .ok pieces' ∧
      ∀ k, kindAt pieces'.boardA k = kindAt pieces.boardA k ∧ (∀ s ∈ squares, k ≠ s.key) ∨
        ∃ s ∈ squares, k = s.key ∧ kindAt pieces'.boardA k = some (kinds s) := by
  induction squares generalizing pieces with
  | nil => exact ⟨pieces, rfl, fun k => .inl ⟨rfl, by simp⟩⟩
  | cons t rest ih =>
    rw [List.map_cons, List.foldlM_cons, loadSquare_eq h, ok_bind]
    obtain ⟨pieces', hload, hkinds⟩ := ih (pieces.place t.key (kinds t).1 (kinds t).2)
    refine ⟨pieces', hload, fun k => ?_⟩
    rcases hkinds k with ⟨hk, hrest⟩ | ⟨s, hs, hk⟩
    · rw [kindAt_place] at hk
      split at hk
      · exact .inr ⟨t, List.mem_cons_self, ‹k = t.key›, hk⟩
      · exact .inl ⟨hk, List.forall_mem_cons.mpr ⟨‹¬ k = t.key›, hrest⟩⟩
    · exact .inr ⟨s, List.mem_cons_of_mem _ hs, hk⟩

/-- A dictionary with no key outside the board. -/
def Inside (b : Board) : Prop := ∀ k, (b k).isSome → 0 ≤ k ∧ k ≤ 63

private theorem isSome_kindAt (b : Board) (k : Int) : (kindAt b k).isSome = (b k).isSome := by
  rw [kindAt, Option.isSome_map]

private theorem loadBoard_eq (h : Readable snap kinds) {pieces : GameData} (hin : Inside pieces.boardA) :
    ∃ pieces', (upTo 0 63).foldlM (loadSquare snap) pieces = .ok pieces' ∧ Full pieces'.boardA ∧
      ∀ s : Square, kindAt pieces'.boardA s.key = some (kinds s) := by
  obtain ⟨pieces', hload, hkinds⟩ := loadSquares_eq h (List.finRange 64) pieces
  have hall (s : Square) : kindAt pieces'.boardA s.key = some (kinds s) := by
    rcases hkinds s.key with ⟨_, hout⟩ | ⟨t, _, ht, hk⟩
    · exact absurd rfl (hout s (List.mem_finRange s))
    · rw [hk, Square.key_inj.mp ht]
  refine ⟨pieces', by rw [upTo_squares]; exact hload, fun k => ⟨fun hk => ?_, fun hk => ?_⟩, hall⟩
  · rcases hkinds k with ⟨hsame, _⟩ | ⟨t, _, rfl, _⟩
    · rw [← isSome_kindAt, hsame, isSome_kindAt] at hk
      exact hin k hk
    · exact t.key_range
  · obtain ⟨s, rfl⟩ := exists_square hk
    rw [← isSome_kindAt, hall s]
    rfl

private theorem asString_text (s : String) : asString (text s) = .ok s := rfl

/-- A well-formed record is read, whatever was read before it. -/
theorem loadRecord_eq (h : WellFormed snap) {pieces : GameData} (hin : Inside pieces.boardA) :
    ∃ pieces' call, loadRecord snap pieces = .ok (pieces', call) ∧ Inside pieces'.boardA ∧
      Carries snap call := by
  obtain ⟨kinds, hread⟩ := h.board
  obtain ⟨players, hplayers⟩ := h.players
  obtain ⟨color, hcolor⟩ := h.color
  obtain ⟨date, hdate⟩ := h.date
  obtain ⟨moves, hmoves⟩ := h.moves
  obtain ⟨pieces', hload, hfull, hkinds⟩ := loadBoard_eq hread hin
  refine ⟨pieces', ⟨pieces'.boardA, players, color, date, moves⟩, ?_, fun k hk => (hfull k).mp hk,
    hfull, ⟨kinds, hread, hkinds⟩, hplayers, hcolor, hdate, hmoves⟩
  obtain ⟨p, hp, hparse⟩ := hplayers
  obtain ⟨c, hc, hcparse⟩ := hcolor
  obtain ⟨m, hm, hmparse⟩ := hmoves
  rw [loadRecord, hload, hp, hc, hdate, hm]
  simp only [asString_text, ok_bind, hparse, hcparse, hmparse, force_some, pure_eq_ok]
  rfl

/-- The loop over well-formed records calls the handler once for each, in order. -/
theorem loadRecords_eq {snaps : List Snapshot} (h : ∀ snap ∈ snaps, WellFormed snap)
    {pieces : GameData} (hin : Inside pieces.boardA) :
    ∃ calls, loadRecords snaps pieces = (calls, none) ∧ List.Forall₂ Carries snaps calls := by
  induction snaps generalizing pieces with
  | nil => exact ⟨[], rfl, .nil⟩
  | cons snap rest ih =>
    rw [List.forall_mem_cons] at h
    obtain ⟨pieces', call, hload, hin', hcarries⟩ := loadRecord_eq h.1 hin
    obtain ⟨calls, hcalls, hrest⟩ := ih h.2 hin'
    refine ⟨call :: calls, ?_, .cons hcarries hrest⟩
    rw [loadRecords, hload]
    simp only [hcalls]

/-- A record whose color is a number cannot be read. -/
theorem loadRecord_number (hread : Readable snap kinds) {players : String}
    (hplayers : snap.child "players" = text players) {n : Int}
    (hcolor : snap.child "color" = .leaf (.num n)) :
    loadRecord snap .new = .error .badCast := by
  have hnew : Inside GameData.new.boardA := fun k hk => by cases hk
  obtain ⟨pieces', hload, _⟩ := loadBoard_eq hread hnew
  rw [loadRecord, hload, hplayers, hcolor]
  rfl

end load

end MyIVR
