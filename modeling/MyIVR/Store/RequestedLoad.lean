import MyIVR.Store.GameRecord

/-! Loading next to other saves. The reader calls its handler for every record
under games/saves, not for the one it was asked for. -/
namespace MyIVR
open Swift KeyTree

def WellFormedSaves (db : Snapshot) : Prop := ∀ id ∈ (saves db).keys, WellFormed ((saves db).child id)

/-- The load of a save calls its handler once, with the record of the save. -/
def LoadsOnly (id : String) (db : Snapshot) (call : Save) : Prop :=
  loadGame id db = ([call], none) ∧ Carries ((saves db).child id) call

private theorem loadGame_eq {db : Snapshot} (h : WellFormedSaves db) (id : String) :
    ∃ calls, loadGame id db = (calls, none) ∧
      List.Forall₂ Carries ((saves db).children.map Prod.snd) calls := by
  apply loadRecords_eq
  · intro snap hsnap
    obtain ⟨e, he, rfl⟩ := List.mem_map.mp hsnap
    obtain ⟨hkey, hchild⟩ := Node.mem_children.mp he
    exact hchild ▸ h e.1 hkey
  · intro k hk
    cases hk

private theorem calls_length {db : Snapshot} (h : WellFormedSaves db) {id : String} {calls : List Save}
    (hload : loadGame id db = (calls, none)) : calls.length = (saves db).keys.card := by
  obtain ⟨calls', hload', hcalls⟩ := loadGame_eq h id
  cases hload.symm.trans hload'
  rw [← hcalls.length_eq, List.length_map, Node.length_children]

private theorem loadsOnly_iff {db : Snapshot} (h : WellFormedSaves db) {id : String}
    (hid : id ∈ (saves db).keys) : (∃ call, LoadsOnly id db call) ↔ (saves db).keys = {id} := by
  constructor
  · rintro ⟨call, hload, _⟩
    obtain ⟨k, hk⟩ := Finset.card_eq_one.mp (calls_length h hload).symm
    rw [hk, Finset.mem_singleton] at hid
    rw [hk, hid]
  · intro hkeys
    obtain ⟨calls, hload, hcalls⟩ := loadGame_eq h id
    rw [Node.children_of_keys_eq_singleton hkeys, List.map_singleton] at hcalls
    cases hcalls with
    | cons hcarries hrest =>
      cases hrest
      exact ⟨_, hload, hcarries⟩

/-- Two well-formed databases that agree on a record: a load of it calls the
handler once in both, with that record and alike, exactly when neither database
holds another record. -/
theorem loads_requested_iff {db₁ db₂ : Snapshot} (h₁ : WellFormedSaves db₁) (h₂ : WellFormedSaves db₂)
    {id : String} (hid₁ : id ∈ (saves db₁).keys) (hid₂ : id ∈ (saves db₂).keys)
    (agree : (saves db₁).child id = (saves db₂).child id) :
    (∃ call, LoadsOnly id db₁ call ∧ LoadsOnly id db₂ call) ↔
      (saves db₁).keys = {id} ∧ (saves db₂).keys = {id} := by
  constructor
  · rintro ⟨call, hload₁, hload₂⟩
    exact ⟨(loadsOnly_iff h₁ hid₁).mp ⟨call, hload₁⟩, (loadsOnly_iff h₂ hid₂).mp ⟨call, hload₂⟩⟩
  · rintro ⟨hkeys₁, hkeys₂⟩
    obtain ⟨call, hload₁⟩ := (loadsOnly_iff h₁ hid₁).mpr hkeys₁
    have hsame : loadGame id db₂ = loadGame id db₁ := by
      rw [loadGame, loadGame, Node.children_of_keys_eq_singleton hkeys₁,
        Node.children_of_keys_eq_singleton hkeys₂, List.map_singleton, List.map_singleton, agree]
    exact ⟨call, hload₁, hsame.trans hload₁.1, agree ▸ hload₁.2⟩

def sampleRecord : Snapshot :=
  Node.null.merge (recordFields (fun _ => (.empty, .white)) "1" "0" "date" (text "0"))

private theorem wellFormed_sampleRecord : WellFormed sampleRecord := by
  have hboard := readable_record .null (fun _ => (.empty, .white)) "1" "0" "date" (text "0")
  obtain ⟨hplayers, hmoves, hdate, hcolor⟩ :=
    record_numbers .null (fun _ => (.empty, .white)) "1" "0" "date" (text "0")
  exact ⟨⟨_, hboard⟩, ⟨1, _, hplayers, by decide +kernel⟩, ⟨0, _, hcolor, by decide +kernel⟩,
    ⟨_, hdate⟩, ⟨0, _, hmoves, by decide +kernel⟩⟩

def savesOf (ids : List String) : Snapshot :=
  Node.null.modify (fun t => t.merge (ids.map (fun id => (id, sampleRecord)))) ["games", "saves"]

private theorem saves_savesOf {ids : List String} (hnodup : ids.Nodup) :
    (saves (savesOf ids)).keys = ids.toFinset ∧
      ∀ id ∈ ids, (saves (savesOf ids)).child id = sampleRecord := by
  have hsaves : saves (savesOf ids) = Node.null.merge (ids.map (fun id => (id, sampleRecord))) :=
    Node.get_modify _ _ ["games", "saves"]
  have hkeys : (ids.map (fun id => (id, sampleRecord))).map Prod.fst = ids := by
    rw [List.map_map]
    exact List.map_id ids
  rw [hsaves]
  refine ⟨?_, fun id hid => ?_⟩
  · rw [Node.keys_merge, hkeys]
    exact Finset.empty_union _
  · exact Node.child_merge _ (hkeys.symm ▸ hnodup) (List.mem_map.mpr ⟨id, hid, rfl⟩)

private theorem wellFormed_savesOf {ids : List String} (hnodup : ids.Nodup) :
    WellFormedSaves (savesOf ids) := by
  obtain ⟨hkeys, hchild⟩ := saves_savesOf hnodup
  intro id hid
  rw [hkeys, List.mem_toFinset] at hid
  rw [hchild id hid]
  exact wellFormed_sampleRecord

/-- A second save in the database adds a call to the load of the first. -/
theorem other_save_adds_call :
    (WellFormedSaves (savesOf ["a"]) ∧ WellFormedSaves (savesOf ["a", "b"]) ∧
      "a" ∈ (saves (savesOf ["a"])).keys ∧ "a" ∈ (saves (savesOf ["a", "b"])).keys ∧
      (saves (savesOf ["a"])).child "a" = (saves (savesOf ["a", "b"])).child "a") ∧
    ¬ ∃ call, LoadsOnly "a" (savesOf ["a"]) call ∧ LoadsOnly "a" (savesOf ["a", "b"]) call := by
  have hone : ["a"].Nodup := by decide
  have htwo : ["a", "b"].Nodup := by decide
  obtain ⟨hkeys₁, hchild₁⟩ := saves_savesOf hone
  obtain ⟨hkeys₂, hchild₂⟩ := saves_savesOf htwo
  have hwell := wellFormed_savesOf htwo
  have hmem : "a" ∈ (saves (savesOf ["a", "b"])).keys := by
    rw [hkeys₂]
    decide
  refine ⟨⟨wellFormed_savesOf hone, hwell, by rw [hkeys₁]; decide, hmem, ?_⟩, ?_⟩
  · rw [hchild₁ "a" (by decide), hchild₂ "a" (by decide)]
  · rintro ⟨call, _, hload⟩
    have honly := (loadsOnly_iff hwell hmem).mp ⟨call, hload⟩
    rw [hkeys₂] at honly
    exact absurd honly (by decide)

/-- Records elsewhere in the database do not matter. -/
theorem single_save_loads :
    ∃ call, LoadsOnly "a" (savesOf ["a"]) call ∧
      LoadsOnly "a" ((savesOf ["a"]).put "users" (text "none")) call := by
  have hone : ["a"].Nodup := by decide
  obtain ⟨hkeys, _⟩ := saves_savesOf hone
  have hsame : saves ((savesOf ["a"]).put "users" (text "none")) = saves (savesOf ["a"]) := by
    rw [saves, Node.get_cons, Node.child_put_ne _ (by decide)]
    rfl
  have hwell := wellFormed_savesOf hone
  have hmem : "a" ∈ (saves (savesOf ["a"])).keys := by
    rw [hkeys]
    decide
  refine (loads_requested_iff hwell ?_ hmem ?_ ?_).mpr ⟨?_, ?_⟩
  · rw [WellFormedSaves, hsame]
    exact hwell
  · rw [hsame]
    exact hmem
  · rw [hsame]
  · rw [hkeys]
    rfl
  · rw [hsame, hkeys]
    rfl

end MyIVR
