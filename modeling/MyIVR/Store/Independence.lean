import MyIVR.Store.Requests

/-! Calls of different clients on different resources. Each call writes below the
records of its user, its game and its save, and such records lie on paths that part. -/
namespace MyIVR
open KeyTree

namespace Request

/-- The user whose record a call writes. -/
def user : Request → Option String
  | setBoard userID _ | setFigure userID _ | enterGame userID _ _ _ => some userID
  | createGame _ senderID _ _ _ => some senderID
  | saveGame userID _ _ _ _ _ _ _ => some userID
  | makeMove .. | setDead .. => none

/-- The game whose record a call writes. -/
def game : Request → Option String
  | createGame _ _ _ key _ => some key
  | enterGame _ gameID _ _ | makeMove gameID _ _ _ | setDead gameID _ _ => some gameID
  | setBoard .. | setFigure .. | saveGame .. => none

/-- The save whose record a call writes. -/
def save : Request → Option String
  | saveGame _ _ _ _ _ gameID _ _ => some gameID
  | _ => none

/-- The path is the record of a user, of a game or of a save that the call writes. -/
inductive Region (r : Request) : List String → Prop where
  | user {u : String} (h : u ∈ r.user) : Region r ["users", u]
  | game {g : String} (h : g ∈ r.game) : Region r ["games", g]
  | save {id : String} (h : id ∈ r.save) : Region r ["games", "saves", id]

/-- Every write of a call lies in one of its records. -/
theorem write_region {r : Request} {w : Write String Value} (h : w ∈ r.writes) :
    ∃ record rest, Region r record ∧ w.path = record ++ rest := by
  cases sends h with
  | board | figure => exact ⟨_, [], .user rfl, rfl⟩
  | game | status => exact ⟨_, [], .game rfl, rfl⟩
  | owner name senderID rait key entryKey => exact ⟨_, ["userGames", entryKey], .user rfl, rfl⟩
  | player userID gameID status entryKey => exact ⟨_, ["userGames", entryKey], .user rfl, rfl⟩
  | move gameID board => exact ⟨_, [board], .game rfl, rfl⟩
  | dead gameID board => exact ⟨_, [board], .game rfl, rfl⟩
  | record => exact ⟨_, [], .save rfl, rfl⟩
  | index userID players color moves board gameID saveKey =>
    exact ⟨_, ["userSaves", saveKey], .user rfl, rfl⟩

theorem save_mem_autoKeys {r : Request} {id : String} (h : id ∈ r.save) : id ∈ r.autoKeys := by
  cases r with
  | saveGame =>
    cases h
    exact List.mem_cons_self
  | _ => cases h

/-- A path that parts from every record of a call is not changed by it. -/
theorem get_perform_outside {r : Request} {path : List String}
    (h : ∀ record, Region r record → Apart record path) (db : Snapshot) :
    (r.perform db).get path = db.get path := by
  apply get_perform
  intro w hw
  obtain ⟨record, rest, hregion, hpath⟩ := write_region hw
  apply Write.Keeps.apart
  rw [hpath]
  exact ((h record hregion).symm.extend rest).symm

end Request

/-- The keys of childByAutoId in two calls are pairwise distinct, and game ids,
being such keys, are not the name under which the saves are kept. -/
structure FreshKeys (r r' : Request) : Prop where
  distinct : (r.autoKeys ++ r'.autoKeys).Nodup
  games : "saves" ∉ r.game ∧ "saves" ∉ r'.game

/-- The calls touch different resources. -/
inductive Independent : Request → Request → Prop where
  | apart {r r' : Request} (users : ∀ u ∈ r.user, u ∉ r'.user) (games : ∀ g ∈ r.game, g ∉ r'.game) :
      Independent r r'
  | boards {board board' : String} (h : board ≠ board') (gameID : String) (pos pos1 pos' pos1' : Int) :
      Independent (.makeMove gameID board pos pos1) (.makeMove gameID board' pos' pos1')
  | settings (userID number number' : String) :
      Independent (.setBoard userID number) (.setFigure userID number')
  | storage (userID name : String) (rait : Int) (key entryKey : String) (players color moves : Int)
      (board : Board) (gameID saveKey date : String) :
      Independent (.createGame name userID rait key entryKey)
        (.saveGame userID players color moves board gameID saveKey date)

/-- The fields of users, games and saves that neither call names are as before. -/
structure Untouched (r r' : Request) (db db' : Snapshot) : Prop where
  users : ∀ u, u ∉ r.user → u ∉ r'.user → ∀ path,
    db'.get ("users" :: u :: path) = db.get ("users" :: u :: path)
  games : ∀ g, g ≠ "saves" → g ∉ r.game → g ∉ r'.game → ∀ path,
    db'.get ("games" :: g :: path) = db.get ("games" :: g :: path)
  saves : ∀ id, id ∉ r.save → id ∉ r'.save → ∀ path,
    db'.get ("games" :: "saves" :: id :: path) = db.get ("games" :: "saves" :: id :: path)

namespace Request
variable {r r' : Request}

private theorem regions_apart (fresh : FreshKeys r r') (users : ∀ u ∈ r.user, u ∉ r'.user)
    (games : ∀ g ∈ r.game, g ∉ r'.game) {p q : List String} (hp : Region r p) (hq : Region r' q) :
    Apart p q := by
  cases hp with
  | user hu =>
    cases hq with
    | user hu' => exact .inr (.inl (fun heq => users _ hu (heq ▸ hu')))
    | game | save => exact .inl (by decide)
  | game hg =>
    cases hq with
    | user => exact .inl (by decide)
    | game hg' => exact .inr (.inl (fun heq => games _ hg (heq ▸ hg')))
    | save => exact .inr (.inl (fun heq => fresh.games.1 (heq ▸ hg)))
  | save hid =>
    cases hq with
    | user => exact .inl (by decide)
    | game hg' => exact .inr (.inl (fun heq => fresh.games.2 (heq ▸ hg')))
    | save hid' =>
      refine .inr (.inr (.inl fun heq => ?_))
      have hdisjoint := (List.nodup_append'.mp fresh.distinct).2.2
      exact hdisjoint (save_mem_autoKeys hid) (save_mem_autoKeys (heq ▸ hid'))

/-- The writes of independent calls commute pairwise. -/
theorem writes_commute (h : Independent r r') (fresh : FreshKeys r r')
    {w v : Write String Value} (hw : w ∈ r.writes) (hv : v ∈ r'.writes) : w.Commutes v := by
  cases h with
  | apart users games =>
    obtain ⟨p, rest, hp, hpath⟩ := write_region hw
    obtain ⟨q, rest', hq, hpath'⟩ := write_region hv
    apply Write.Commutes.apart
    rw [hpath, hpath']
    exact (((regions_apart fresh users games hp hq).extend rest').symm.extend rest).symm
  | boards hne =>
    simp only [writes, List.mem_singleton] at hw hv
    subst hw hv
    exact .apart (.inr (.inr (.inl hne)))
  | settings =>
    simp only [writes, List.mem_singleton] at hw hv
    subst hw hv
    intro t
    apply Node.modify_comm_same
    intro u
    exact (u.merge_comm (by simp)).symm
  | storage =>
    simp only [writes, List.mem_cons, List.not_mem_nil, or_false] at hw
    apply Write.Commutes.apart
    rcases hw with rfl | rfl <;> rcases saveGame_path hv with hv | hv <;> rw [hv]
    · exact .inr (.inl (fun heq => fresh.games.1 (Option.mem_some.mpr heq)))
    · exact .inl (by decide)
    · exact .inl (by decide)
    · exact .inr (.inr (.inl (by decide)))

private theorem untouched_one (hgames : "saves" ∉ r.game) (db : Snapshot) :
    Untouched r r db (r.perform db) := by
  constructor
  · intro u hu _ path
    apply get_perform_outside
    rintro record (⟨h⟩ | ⟨h⟩ | ⟨h⟩)
    · exact .inr (.inl (fun heq => hu (heq ▸ h)))
    · exact .inl (by decide)
    · exact .inl (by decide)
  · intro g hsaves hg _ path
    apply get_perform_outside
    rintro record (⟨h⟩ | ⟨h⟩ | ⟨h⟩)
    · exact .inl (by decide)
    · exact .inr (.inl (fun heq => hg (heq ▸ h)))
    · exact .inr (.inl (Ne.symm hsaves))
  · intro id hid _ path
    apply get_perform_outside
    rintro record (⟨h⟩ | ⟨h⟩ | ⟨h⟩)
    · exact .inl (by decide)
    · exact .inr (.inl (fun heq => hgames (heq ▸ h)))
    · exact .inr (.inr (.inl (fun heq => hid (heq ▸ h))))

private theorem untouched_two (hgames : "saves" ∉ r.game ∧ "saves" ∉ r'.game) (db : Snapshot) :
    Untouched r r' db (r'.perform (r.perform db)) := by
  have first := untouched_one hgames.1 db
  have second := untouched_one hgames.2 (r.perform db)
  exact ⟨fun u h h' path => (second.users u h' h' path).trans (first.users u h h path),
    fun g hs h h' path => (second.games g hs h' h' path).trans (first.games g hs h h path),
    fun id h h' path => (second.saves id h' h' path).trans (first.saves id h h path)⟩

end Request

theorem Untouched.symm {r r' : Request} {db db' : Snapshot} (h : Untouched r r' db db') :
    Untouched r' r db db' :=
  ⟨fun u hu hu' => h.users u hu' hu, fun g hs hg hg' => h.games g hs hg' hg,
    fun id hid hid' => h.saves id hid' hid⟩

/-- Calls on different resources give the same database in either order, and
neither order changes a field of a third user, game or save. -/
theorem independent_calls_commute {r r' : Request} (h : Independent r r') (fresh : FreshKeys r r')
    (db : Snapshot) :
    r'.perform (r.perform db) = r.perform (r'.perform db) ∧
      Untouched r r' db (r'.perform (r.perform db)) ∧ Untouched r r' db (r.perform (r'.perform db)) := by
  refine ⟨?_, Request.untouched_two fresh.games db,
    (Request.untouched_two fresh.games.symm db).symm⟩
  simp only [Request.perform_eq]
  exact runAll_comm (fun w hw v hv => Request.writes_commute h fresh hw hv) db

/-- One client creates a game while another joins a game that is there already. -/
theorem create_and_join_commute :
    let r := Request.createGame "MyGame" "anna" 1 "-K1" "-K2"
    let r' := Request.enterGame "boris" "-K0" "2" "-K3"
    r'.perform (r.perform .null) = r.perform (r'.perform .null) :=
  (independent_calls_commute (.apart (by decide) (by decide)) ⟨by decide, by decide⟩ .null).1

end MyIVR
