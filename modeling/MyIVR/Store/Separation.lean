import Mathlib.Data.Set.List
import MyIVR.Foundations.Mealy
import MyIVR.Store.Independence

/-! What one client can learn from the calls of others, and what it can repeat. The
records of a user and of a game are separate views of the database, and every call
writes the same again when it is sent again. -/
namespace MyIVR
open Swift KeyTree

namespace Request

def OfUser (u : String) (r : Request) : Prop := r.user = some u

instance (u : String) (r : Request) : Decidable (r.OfUser u) := inferInstanceAs (Decidable (_ = _))

/-- The call writes the record of the game. The saves are kept like the boards of a
game of that name. -/
def WritesGame (g : String) (r : Request) : Prop := r.game = some g ∨ g = "saves" ∧ r.save.isSome

instance (g : String) (r : Request) : Decidable (r.WritesGame g) := inferInstanceAs (Decidable (_ ∨ _ ∧ _))

private theorem within_user {r : Request} {w : Write String Value} (hw : w ∈ r.writes) (u : String) :
    w.Within ["users", u] := by
  obtain ⟨record, rest, hregion, hpath⟩ := write_region hw
  cases hregion with
  | user h =>
    rename_i v
    by_cases heq : v = u
    · subst heq
      exact .inl ⟨rest, hpath.symm⟩
    · exact .inr (hpath ▸ .inr (.inl heq))
  | game | save => exact .inr (hpath ▸ .inl (by decide))

private theorem within_game {r : Request} {w : Write String Value} (hw : w ∈ r.writes) (g : String) :
    w.Within ["games", g] := by
  obtain ⟨record, rest, hregion, hpath⟩ := write_region hw
  cases hregion with
  | user => exact .inr (hpath ▸ .inl (by decide))
  | game h =>
    rename_i k
    by_cases heq : k = g
    · subst heq
      exact .inl ⟨rest, hpath.symm⟩
    · exact .inr (hpath ▸ .inr (.inl heq))
  | save h =>
    rename_i id
    by_cases heq : g = "saves"
    · subst heq
      exact .inl ⟨id :: rest, hpath.symm⟩
    · exact .inr (hpath ▸ .inr (.inl (Ne.symm heq)))

/-- The record of a user is decided by the calls that write it. -/
theorem separates_user (u : String) :
    Unwinding.Separates (fun (db : Snapshot) (r : Request) => r.perform db) (fun db => db.get ["users", u])
      (OfUser u) where
  consistent db db' r _ h := by
    rw [perform_eq, perform_eq]
    exact get_runAll_congr (fun w hw => within_user hw u) h
  hidden db r h := by
    apply get_perform_outside
    rintro record (⟨hu⟩ | ⟨_⟩ | ⟨_⟩)
    · exact .inr (.inl (fun heq => h (heq ▸ hu)))
    · exact .inl (by decide)
    · exact .inl (by decide)

theorem separates_game (g : String) :
    Unwinding.Separates (fun (db : Snapshot) (r : Request) => r.perform db) (fun db => db.get ["games", g])
      (WritesGame g) where
  consistent db db' r _ h := by
    rw [perform_eq, perform_eq]
    exact get_runAll_congr (fun w hw => within_game hw g) h
  hidden db r h := by
    apply get_perform_outside
    rintro record (⟨_⟩ | ⟨hg⟩ | ⟨hid⟩)
    · exact .inl (by decide)
    · exact .inr (.inl (fun heq => h (.inl (heq ▸ hg))))
    · refine .inr (.inl fun heq => h (.inr ⟨heq.symm, ?_⟩))
      exact Option.isSome_iff_exists.mpr ⟨_, hid⟩

end Request

/-- The record of a user and all that is read of it, after any calls of any clients on
any database, are what the user's own calls alone leave there. -/
theorem users_separated (requests : List Request) (db : Snapshot) (u : String) :
    let all := performAll requests db
    let own := performAll (requests.filter (Request.OfUser u)) db
    all.get ["users", u] = own.get ["users", u] ∧ board u all = board u own ∧
      figure u all = figure u own ∧ checkSaves u all = checkSaves u own := by
  intro all own
  have hrecord : all.get ["users", u] = own.get ["users", u] := (Request.separates_user u).purge rfl requests
  have hindex : all.get ["users", u, "userSaves"] = own.get ["users", u, "userSaves"] := by
    change all.get (["users", u] ++ ["userSaves"]) = own.get (["users", u] ++ ["userSaves"])
    rw [Node.get_append, hrecord, ← Node.get_append]
  refine ⟨hrecord, ?_, ?_, ?_⟩
  · rw [board, hrecord, ← board]
  · rw [figure, hrecord, ← figure]
  · rw [checkSaves, hindex, ← checkSaves]

/-- The record of a game and the status, the messages and the captured figures that are
read of it are decided by the calls on that game. -/
theorem games_separated (requests : List Request) (db : Snapshot) (g : String) :
    let all := performAll requests db
    let own := performAll (requests.filter (Request.WritesGame g)) db
    all.get ["games", g] = own.get ["games", g] ∧ checkStatus g all = checkStatus g own ∧
      ∀ b, updateGame g b all = updateGame g b own ∧ checkDead g b all = checkDead g b own := by
  intro all own
  have hrecord : all.get ["games", g] = own.get ["games", g] := (Request.separates_game g).purge rfl requests
  refine ⟨hrecord, ?_, fun b => ?_⟩
  · rw [checkStatus, hrecord, ← checkStatus]
  · have hboard : all.get ["games", g, b] = own.get ["games", g, b] := by
      change all.get (["games", g] ++ [b]) = own.get (["games", g] ++ [b])
      rw [Node.get_append, hrecord, ← Node.get_append]
    exact ⟨by rw [updateGame, hboard, ← updateGame], by rw [checkDead, hboard, ← checkDead]⟩

section retries

private theorem set_idempotent (p : List String) (x : Snapshot) : Write.Idempotent ⟨p, fun _ => x⟩ :=
  .of_change fun _ => rfl

private theorem twice {w v : Write String Value} (hw : w.Idempotent) (hv : v.Idempotent)
    {j k : String} {p q : List String} (hp : w.path = j :: p) (hq : v.path = k :: q) (h : j ≠ k)
    (db : Snapshot) : runAll [w, v] (runAll [w, v] db) = runAll [w, v] db := by
  have hcommute : w.Commutes v := by
    apply Write.Commutes.apart
    rw [hp, hq]
    exact .inl h
  apply runAll_idempotent
  · simp only [List.forall_mem_cons, List.not_mem_nil, false_imp_iff, implies_true, and_true]
    exact ⟨hw, hv⟩
  · simpa using hcommute

private theorem saveGame_writes (userID : String) (players color moves : Int) (board : Board)
    (gameID saveKey date : String) :
    ∃ (ls : List (List (String × Snapshot))) (tail : List (Write String Value)),
      (Request.saveGame userID players color moves board gameID saveKey date).writes =
        ls.map (Write.mergeAt ["games", "saves", gameID]) ++ tail ∧
      (tail = [] ∨ tail = [⟨["users", userID, "userSaves", saveKey], fun _ => text gameID⟩]) := by
  have hsquares : squareWrites ["games", "saves", gameID] board (upTo 0 63) ∈
      Set.range (List.map (Write.mergeAt ["games", "saves", gameID])) := by
    rw [Set.range_list_map]
    intro w hw
    obtain ⟨entries, rfl⟩ := squareWrites_merge hw
    exact ⟨entries, rfl⟩
  obtain ⟨ls, hls⟩ := hsquares
  by_cases h : Savable board
  · refine ⟨ls ++ [[("players", text (toString players))], [("moves", text (toString moves))],
      [("date", text date)], [("color", .leaf (.num color))]], _, ?_, .inr rfl⟩
    rw [Request.writes, if_pos h, ← hls, List.map_append, List.append_assoc]
    rfl
  · exact ⟨ls, [], by rw [Request.writes, if_neg h, hls], .inl rfl⟩

private theorem saveGame_twice (userID : String) (players color moves : Int) (board : Board)
    (gameID saveKey date : String) (db : Snapshot) :
    let ws := (Request.saveGame userID players color moves board gameID saveKey date).writes
    runAll ws (runAll ws db) = runAll ws db := by
  obtain ⟨ls, tail, hws, htail⟩ := saveGame_writes userID players color moves board gameID saveKey date
  intro ws
  rw [show ws = _ from hws]
  cases ls with
  | nil =>
    rcases htail with rfl | rfl
    · rfl
    · exact set_idempotent _ _ db
  | cons first ls =>
    have hmerge (t : Snapshot) : runAll ((first :: ls).map (Write.mergeAt ["games", "saves", gameID]) ++ tail) t =
        runAll (Write.mergeAt ["games", "saves", gameID] (first ++ ls.flatten) :: tail) t := by
      rw [runAll_append, runAll_mergeAt, runAll_cons]
    rw [hmerge, hmerge]
    rcases htail with rfl | rfl
    · exact Write.mergeAt_idempotent _ _ db
    · exact twice (Write.mergeAt_idempotent _ _) (set_idempotent _ _) rfl rfl (by decide) db

private theorem perform_twice (r : Request) (db : Snapshot) : r.perform (r.perform db) = r.perform db := by
  rw [Request.perform_eq, Request.perform_eq]
  cases r with
  | setBoard | setFigure | makeMove => exact Write.mergeAt_idempotent _ _ db
  | setDead => exact set_idempotent _ _ db
  | createGame => exact twice (Write.mergeAt_idempotent _ _) (set_idempotent _ _) rfl rfl (by decide) db
  | enterGame => exact twice (set_idempotent _ _) (Write.mergeAt_idempotent _ _) rfl rfl (by decide) db
  | saveGame => exact saveGame_twice ..

private theorem perform_comm {r r' : Request} (h : Independent r r') (fresh : FreshKeys r r') (db : Snapshot) :
    r'.perform (r.perform db) = r.perform (r'.perform db) := by
  simp only [Request.perform_eq]
  exact runAll_comm (fun w hw v hv => Request.writes_commute h fresh hw hv) db

/-- A call that is sent again after other clients' calls on other resources, in either
role, leaves the database as it is. -/
theorem retries_absorbed {r : Request} {requests : List Request}
    (h : ∀ r' ∈ requests, Independent r r' ∧ FreshKeys r r' ∨ Independent r' r ∧ FreshKeys r' r)
    (db : Snapshot) :
    r.perform (performAll requests (r.perform db)) = performAll requests (r.perform db) := by
  have hpast (db : Snapshot) : performAll requests (r.perform db) = r.perform (performAll requests db) := by
    induction requests generalizing db with
    | nil => rfl
    | cons r' rest ih =>
      rw [List.forall_mem_cons] at h
      have hswap : r'.perform (r.perform db) = r.perform (r'.perform db) := by
        rcases h.1 with ⟨hind, hfresh⟩ | ⟨hind, hfresh⟩
        · exact perform_comm hind hfresh db
        · exact (perform_comm hind hfresh db).symm
      rw [performAll_cons, performAll_cons, hswap, ih h.2]
  rw [hpast, perform_twice]

/-- A creation of a game is sent again after another player has joined another game. -/
theorem creation_retried :
    let create := Request.createGame "MyGame" "anna" 1 "-K1" "-K2"
    let join := Request.enterGame "boris" "-K3" "2" "-K4"
    create.perform (performAll [join] (create.perform .null)) = performAll [join] (create.perform .null) := by
  intro create join
  refine retries_absorbed (fun r' hr' => .inl ?_) .null
  cases List.mem_singleton.mp hr'
  refine ⟨.apart ?_ ?_, ?_, ?_⟩ <;> decide

end retries

end MyIVR
