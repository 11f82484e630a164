import MyIVR.Store.Requests

/-! The index of a user's saves. It lists the saves of the user in the order in
which they were made, and each listed record keeps all its fields. -/
namespace MyIVR
open Swift KeyTree

def recordNames : List String :=
  (List.finRange 64).flatMap (fun s : Square => [squareKey s.key ++ "PieceType", squareKey s.key ++ "Color"]) ++
    ["players", "moves", "date", "color"]

def Recorded (snap : Snapshot) : Prop := ∀ field ∈ recordNames, ∃ v, snap.child field = .leaf v

namespace Request

/-- The calls of a run: all that write except setDead, and saves of full boards only. -/
def Listed : Request → Prop
  | setDead .. => False
  | saveGame _ _ _ _ board _ _ _ => Full board
  | _ => True

/-- The key and the value of the entry a call adds to the index of a user. -/
def indexEntry (u : String) : Request → Option (String × String)
  | saveGame userID _ _ _ _ gameID saveKey _ => if userID = u then some (saveKey, gameID) else none
  | _ => none

end Request

def indexOf (u : String) (requests : List Request) : List (String × String) :=
  requests.filterMap (Request.indexEntry u)

/-- The ids of the saves a user made, in the order of the calls. -/
def savesBy (u : String) (requests : List Request) : List String := (indexOf u requests).map Prod.snd

/-- childByAutoId returns strictly increasing keys, none of them a name that the
program itself uses below games. -/
structure AutoKeys (requests : List Request) : Prop where
  increasing : (requests.flatMap Request.autoKeys).Pairwise (· < ·)
  reserved : ∀ k ∈ requests.flatMap Request.autoKeys, k ≠ "saves" ∧ k ≠ "status"

section keys
variable {rs : List Request} {r : Request}

theorem AutoKeys.init (h : AutoKeys (rs ++ [r])) : AutoKeys rs := by
  obtain ⟨hinc, hres⟩ := h
  rw [List.flatMap_append] at hinc hres
  exact ⟨(List.pairwise_append.mp hinc).1, fun k hk => hres k (List.mem_append_left _ hk)⟩

theorem AutoKeys.last_lt (h : AutoKeys (rs ++ [r])) {j k : String} (hj : j ∈ rs.flatMap Request.autoKeys)
    (hk : k ∈ r.autoKeys) : j < k := by
  have hinc := h.increasing
  rw [List.flatMap_append] at hinc
  exact (List.pairwise_append.mp hinc).2.2 j hj k (by simpa using hk)

theorem AutoKeys.last_reserved (h : AutoKeys (rs ++ [r])) {k : String} (hk : k ∈ r.autoKeys) :
    k ≠ "saves" ∧ k ≠ "status" := by
  apply h.reserved
  rw [List.flatMap_append]
  exact List.mem_append_right _ (by simpa using hk)

theorem indexEntry_keys {u : String} {e : String × String} (h : r.indexEntry u = some e) :
    e.1 ∈ r.autoKeys ∧ e.2 ∈ r.autoKeys := by
  cases r with
  | saveGame =>
    simp only [Request.indexEntry, Option.ite_none_right_eq_some, Option.some.injEq] at h
    obtain ⟨_, rfl⟩ := h
    simp [Request.autoKeys]
  | _ => cases h

theorem indexOf_keys {u : String} {e : String × String} (h : e ∈ indexOf u rs) :
    e.1 ∈ rs.flatMap Request.autoKeys ∧ e.2 ∈ rs.flatMap Request.autoKeys := by
  obtain ⟨r, hr, he⟩ := List.mem_filterMap.mp h
  obtain ⟨h₁, h₂⟩ := indexEntry_keys he
  exact ⟨List.mem_flatMap.mpr ⟨r, hr, h₁⟩, List.mem_flatMap.mpr ⟨r, hr, h₂⟩⟩

theorem indexOf_snoc (u : String) (rs : List Request) (r : Request) :
    indexOf u (rs ++ [r]) = indexOf u rs ++ (r.indexEntry u).toList := by
  rw [indexOf, List.filterMap_append, indexOf]
  cases h : r.indexEntry u <;> simp [h]

end keys

section frames
variable {r : Request} (db : Snapshot)

theorem perform_index (hr : r.Listed) {u : String} (h : r.indexEntry u = none) :
    (r.perform db).get ["users", u, "userSaves"] = db.get ["users", u, "userSaves"] := by
  apply Request.get_perform
  intro w hw
  cases Request.sends hw with
  | board userID | figure userID =>
    by_cases heq : userID = u
    · subst heq
      exact .merge (by simp) ["users", userID] []
    · exact .apart (.inr (.inl heq))
  | game | status | move | record => exact .apart (.inl (by decide))
  | owner | player => exact .apart (.inr (.inr (.inl (by decide))))
  | dead => cases hr
  | index userID =>
    have hu : userID ≠ u := by
      rintro rfl
      simp [Request.indexEntry] at h
    exact .apart (.inr (.inl hu))

theorem perform_record (hr : r.Listed) (hkeys : "saves" ∉ r.autoKeys) {id field : String}
    (hid : id ∉ r.autoKeys) (hstatus : id ≠ "status") (hfrom : field ≠ "LastFrom") (hto : field ≠ "LastTo") :
    (r.perform db).get ["games", "saves", id, field] = db.get ["games", "saves", id, field] := by
  apply Request.get_perform
  intro w hw
  cases Request.sends hw with
  | board | figure | owner | player | index => exact .apart (.inl (by decide))
  | game => exact .apart (.inr (.inl (fun heq => hkeys (heq ▸ List.mem_cons_self))))
  | status userID gameID =>
    by_cases heq : gameID = "saves"
    · subst heq
      exact .merge (by simpa using hstatus) ["games", "saves"] [field]
    · exact .apart (.inr (.inl heq))
  | move gameID board =>
    by_cases heq : gameID = "saves"
    · subst heq
      by_cases hboard : board = id
      · subst hboard
        exact .merge (by simp [hfrom, hto]) ["games", "saves", board] []
      · exact .apart (.inr (.inr (.inl hboard)))
    · exact .apart (.inr (.inl heq))
  | dead => cases hr
  | record => exact .apart (.inr (.inr (.inl (fun heq => hid (heq ▸ List.mem_cons_self)))))

end frames

section save
variable {b : Board} (hb : Full b) (userID : String) (players color moves : Int)
  (gameID saveKey date : String) (db : Snapshot)
include hb

private theorem perform_save :
    (Request.saveGame userID players color moves b gameID saveKey date).perform db =
      (db.modify (fun t => t.merge (recordFields (kindsOf b) (toString players) (toString moves) date
        (.leaf (.num color)))) ["games", "saves", gameID]).modify (fun _ => text gameID)
          ["users", userID, "userSaves", saveKey] := by
  rw [Request.perform, saveGame_eq hb]

private theorem save_index :
    ((Request.saveGame userID players color moves b gameID saveKey date).perform db).get
        ["users", userID, "userSaves"] =
      (db.get ["users", userID, "userSaves"]).put saveKey (text gameID) := by
  rw [perform_save hb]
  refine (Node.get_modify_snoc _ _ ["users", userID, "userSaves"] saveKey).trans ?_
  have hpart : Apart ["games", "saves", gameID] ["users", userID, "userSaves"] := .inl (by decide)
  rw [Node.get_modify_apart _ _ hpart]

private theorem save_record {field : String} (h : field ∈ recordNames) :
    ∃ v, ((Request.saveGame userID players color moves b gameID saveKey date).perform db).get
      ["games", "saves", gameID, field] = .leaf v := by
  have hentry : ∃ v, (field, Node.leaf v) ∈ recordFields (kindsOf b) (toString players)
      (toString moves) date (.leaf (.num color)) := by
    rw [recordNames, List.mem_append] at h
    rcases h with h | h
    · obtain ⟨s, hs, hfield⟩ := List.mem_flatMap.mp h
      simp only [List.mem_cons, List.not_mem_nil, or_false] at hfield
      rcases hfield with rfl | rfl
      · exact ⟨_, List.mem_append_left _ (List.mem_flatMap.mpr ⟨s, hs, List.mem_cons_self⟩)⟩
      · exact ⟨_, List.mem_append_left _ (List.mem_flatMap.mpr
          ⟨s, hs, List.mem_cons_of_mem _ List.mem_cons_self⟩)⟩
    · simp only [List.mem_cons, List.not_mem_nil, or_false] at h
      rcases h with rfl | rfl | rfl | rfl
      · exact ⟨.str (toString players), List.mem_append_right _ (by simp [text])⟩
      · exact ⟨.str (toString moves), List.mem_append_right _ (by simp [text])⟩
      · exact ⟨.str date, List.mem_append_right _ (by simp [text])⟩
      · exact ⟨.num color, List.mem_append_right _ (by simp)⟩
  obtain ⟨v, hv⟩ := hentry
  have hpart : Apart ["users", userID, "userSaves", saveKey] ["games", "saves", gameID, field] :=
    .inl (by decide)
  refine ⟨v, ?_⟩
  rw [perform_save hb, Node.get_modify_apart _ _ hpart]
  refine (Node.get_modify_below _ _ ["games", "saves", gameID] [field]).trans ?_
  rw [Node.get_cons, Node.get_nil, child_record _ hv]

end save

section run

/-- What a run of calls leaves of the saves of a user. -/
structure Indexed (u : String) (rs : List Request) (db : Snapshot) : Prop where
  entries : (db.get ["users", u, "userSaves"]).children = (indexOf u rs).map (fun e => (e.1, text e.2))
  records : ∀ e ∈ indexOf u rs, ∀ field ∈ recordNames,
    ∃ v, db.get ["games", "saves", e.2, field] = .leaf v

private theorem recordNames_ne {field : String} (h : field ∈ recordNames) :
    field ≠ "LastFrom" ∧ field ≠ "LastTo" := by
  have hall : ∀ f ∈ recordNames, f ≠ "LastFrom" ∧ f ≠ "LastTo" := by decide +kernel
  exact hall field h

private theorem Indexed.keep {u : String} {rs : List Request} {r : Request} {db : Snapshot}
    (h : Indexed u rs db) (hkeys : AutoKeys (rs ++ [r])) (hr : r.Listed) (hnone : r.indexEntry u = none) :
    Indexed u (rs ++ [r]) (r.perform db) := by
  have hindex : indexOf u (rs ++ [r]) = indexOf u rs := by
    rw [indexOf_snoc, hnone, Option.toList_none, List.append_nil]
  constructor
  · rw [perform_index db hr hnone, hindex, h.entries]
  · rw [hindex]
    intro e he field hfield
    obtain ⟨v, hv⟩ := h.records e he field hfield
    obtain ⟨_, hid⟩ := indexOf_keys he
    refine ⟨v, (perform_record db hr ?_ ?_ ?_ (recordNames_ne hfield).1 (recordNames_ne hfield).2).trans hv⟩
    · exact fun hsaves => (hkeys.last_reserved hsaves).1 rfl
    · exact fun hlast => lt_irrefl e.2 (hkeys.last_lt hid hlast)
    · exact (hkeys.init.reserved e.2 hid).2

private theorem Indexed.save {u : String} {rs : List Request} {db : Snapshot} (h : Indexed u rs db)
    {players color moves : Int} {b : Board} {gameID saveKey date : String}
    (hkeys : AutoKeys (rs ++ [.saveGame u players color moves b gameID saveKey date])) (hb : Full b) :
    Indexed u (rs ++ [.saveGame u players color moves b gameID saveKey date])
      ((Request.saveGame u players color moves b gameID saveKey date).perform db) := by
  have hindex : indexOf u (rs ++ [.saveGame u players color moves b gameID saveKey date]) =
      indexOf u rs ++ [(saveKey, gameID)] := by
    rw [indexOf_snoc, Request.indexEntry, if_pos rfl, Option.toList_some]
  have hr : (Request.saveGame u players color moves b gameID saveKey date).Listed := hb
  constructor
  · rw [save_index hb, Node.children_put_last, h.entries, hindex, List.map_append, List.map_singleton]
    intro j hj
    have hmem : (j, (db.get ["users", u, "userSaves"]).child j) ∈
        (db.get ["users", u, "userSaves"]).children := Node.mem_children.mpr ⟨hj, rfl⟩
    rw [h.entries] at hmem
    obtain ⟨e, he, heq⟩ := List.mem_map.mp hmem
    rw [← (Prod.mk.inj heq).1]
    exact hkeys.last_lt (indexOf_keys he).1 (by simp [Request.autoKeys])
  · rw [hindex]
    intro e he field hfield
    rcases List.mem_append.mp he with he | he
    · obtain ⟨v, hv⟩ := h.records e he field hfield
      obtain ⟨_, hid⟩ := indexOf_keys he
      refine ⟨v, (perform_record db hr ?_ ?_ ?_ (recordNames_ne hfield).1 (recordNames_ne hfield).2).trans hv⟩
      · exact fun hsaves => (hkeys.last_reserved hsaves).1 rfl
      · exact fun hlast => lt_irrefl e.2 (hkeys.last_lt hid hlast)
      · exact (hkeys.init.reserved e.2 hid).2
    · rw [List.mem_singleton.mp he]
      exact save_record hb u players color moves gameID saveKey date db hfield

theorem indexed_run (u : String) {rs : List Request} (hkeys : AutoKeys rs) (hrs : ∀ r ∈ rs, r.Listed) :
    Indexed u rs (performAll rs .null) := by
  induction rs using List.reverseRecOn with
  | nil => exact ⟨by simp [Node.child, Node.children, Node.keys, indexOf], fun e he => by cases he⟩
  | append_singleton rs r ih =>
    have hr : r.Listed := hrs r (by simp)
    have h := ih hkeys.init (fun r' hr' => hrs r' (List.mem_append_left _ hr'))
    rw [performAll_snoc]
    cases hentry : r.indexEntry u with
    | none => exact h.keep hkeys hr hentry
    | some e =>
      cases r with
      | saveGame userID =>
        simp only [Request.indexEntry, Option.ite_none_right_eq_some] at hentry
        obtain ⟨rfl, _⟩ := hentry
        exact h.save hkeys hr
      | _ => cases hentry

private theorem asString_fold (ids acc : List String) :
    ids.foldlM (fun saveGamesID id => do
      return saveGamesID ++ [← asString (text id)]) acc = (.ok (acc ++ ids) : Except Fault _) := by
  induction ids generalizing acc with
  | nil => rw [List.append_nil]; rfl
  | cons id rest ih =>
    rw [List.foldlM_cons]
    exact (ih (acc ++ [id])).trans (by rw [List.append_assoc, List.singleton_append])

private theorem nodup_savesBy (u : String) {rs : List Request} (hkeys : AutoKeys rs) :
    (savesBy u rs).Nodup := by
  induction rs using List.reverseRecOn with
  | nil => exact List.nodup_nil
  | append_singleton rs r ih =>
    rw [savesBy, indexOf_snoc, List.map_append]
    cases hentry : r.indexEntry u with
    | none => rw [Option.toList_none, List.map_nil, List.append_nil]; exact ih hkeys.init
    | some e =>
      rw [List.nodup_append']
      refine ⟨ih hkeys.init, List.nodup_singleton _, fun id hid hlast => ?_⟩
      obtain ⟨e', he', rfl⟩ := List.mem_map.mp hid
      rw [Option.toList_some, List.map_singleton, List.mem_singleton] at hlast
      exact lt_irrefl e'.2 (hkeys.last_lt (indexOf_keys he').2 (hlast ▸ (indexEntry_keys hentry).2))

/-- After any run of calls on an empty database checkSaves calls its handler
once, with the ids of the user's saves in the order they were made, no id twice,
and every id names a complete record. -/
theorem checkSaves_lists_saves (u : String) {rs : List Request} (hkeys : AutoKeys rs)
    (hrs : ∀ r ∈ rs, r.Listed) :
    checkSaves u (performAll rs .null) = ([savesBy u rs], none) ∧ (savesBy u rs).Nodup ∧
      ∀ id ∈ savesBy u rs, Recorded ((saves (performAll rs .null)).child id) := by
  have h := indexed_run u hkeys hrs
  refine ⟨?_, nodup_savesBy u hkeys, fun id hid field hfield => ?_⟩
  · have hvalues : (((performAll rs .null).get ["users", u, "userSaves"]).children.map Prod.snd) =
        (savesBy u rs).map text := by
      rw [h.entries, savesBy, List.map_map, List.map_map]
      rfl
    rw [checkSaves, hvalues, List.foldlM_map, asString_fold, List.nil_append]
  · obtain ⟨e, he, rfl⟩ := List.mem_map.mp hid
    exact h.records e he field hfield

def sampleSaves : List Request :=
  [.saveGame "anna" 2 0 0 GameData.new.initBoardA.boardA "-K1" "-K2" "date",
    .createGame "MyGame" "anna" 1 "-K3" "-K4",
    .saveGame "boris" 2 0 0 GameData.new.initBoardA.boardA "-K5" "-K6" "date"]

theorem sampleSaves_listed :
    checkSaves "anna" (performAll sampleSaves .null) = ([["-K1"]], none) := by
  have hkeys : AutoKeys sampleSaves := ⟨by decide, by decide⟩
  have hlisted : ∀ r ∈ sampleSaves, r.Listed := by
    intro r hr
    simp only [sampleSaves, List.mem_cons, List.not_mem_nil, or_false] at hr
    rcases hr with rfl | rfl | rfl
    · exact full_newGame
    · exact trivial
    · exact full_newGame
  exact (checkSaves_lists_saves "anna" hkeys hlisted).1

end run

end MyIVR
