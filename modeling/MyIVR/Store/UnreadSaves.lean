import MyIVR.Store.Requests

/-! What loadGame reads of any database, and of those that the program itself leaves
behind. The loop stops at the first record that is not well formed, and no record
that a client writes is. -/
namespace MyIVR
open Swift KeyTree

section record
variable {snap : Snapshot}

private theorem asString_eq_ok {s : String} (h : asString snap = .ok s) : snap = text s := by
  match snap, h with
  | .leaf (.str s), h =>
    cases h
    rfl

private theorem force_eq_ok {α : Type} {o : Option α} {x : α} (h : force o = .ok x) : o = some x := by
  cases o with
  | none => cases h
  | some y =>
    cases h
    rfl

private theorem text_of_asString? {s : String} (h : asString? snap = some s) : snap = text s := by
  match snap, h with
  | .leaf (.str s), h =>
    cases h
    rfl

private theorem rawValue_eq {t : PieceType} {s : String} (h : PieceType.ofRawValue s = some t) :
    s = t.rawValue := by
  have hfound : (t.rawValue == s) = true := List.find?_some (p := fun t => PieceType.rawValue t == s) h
  exact (beq_iff_eq.mp hfound).symm

private theorem colorValue_eq {c : Color} {s : String} (h : Color.ofRawValue s = some c) :
    s = c.rawValue := by
  have hfound : (c.rawValue == s) = true := List.find?_some (p := fun c => Color.rawValue c == s) h
  exact (beq_iff_eq.mp hfound).symm

private theorem loadSquare_ok {pieces pieces' : GameData} {i : Int}
    (h : loadSquare snap pieces i = .ok pieces') : ∃ type color,
      snap.child (squareKey i ++ "PieceType") = text (PieceType.rawValue type) ∧
        snap.child (squareKey i ++ "Color") = text (Color.rawValue color) := by
  obtain ⟨piece, hpiece, h⟩ := bind_eq_ok h
  obtain ⟨color, hcolor, h⟩ := bind_eq_ok h
  obtain ⟨type, htype, h⟩ := bind_eq_ok h
  obtain ⟨c, hc, _⟩ := bind_eq_ok h
  refine ⟨type, c, ?_, ?_⟩
  · rw [asString_eq_ok hpiece, rawValue_eq (force_eq_ok htype)]
  · rw [asString_eq_ok hcolor, colorValue_eq (force_eq_ok hc)]

private theorem loadSquares_ok {l : List Int} {pieces pieces' : GameData}
    (h : l.foldlM (loadSquare snap) pieces = .ok pieces') : ∀ i ∈ l, ∃ type color,
      snap.child (squareKey i ++ "PieceType") = text (PieceType.rawValue type) ∧
        snap.child (squareKey i ++ "Color") = text (Color.rawValue color) := by
  induction l generalizing pieces with
  | nil => simp
  | cons i rest ih =>
    rw [List.foldlM_cons] at h
    obtain ⟨next, hfirst, hrest⟩ := bind_eq_ok h
    exact List.forall_mem_cons.mpr ⟨loadSquare_ok hfirst, ih hrest⟩

private theorem spells_of_ok {field s : String} {n : Int} (hs : asString (snap.child field) = .ok s)
    (hn : force (parseInt s) = .ok n) : Spells snap field n := ⟨s, asString_eq_ok hs, force_eq_ok hn⟩

private theorem loadRecord_ok {pieces : GameData} {r : GameData × Save}
    (h : loadRecord snap pieces = .ok r) : WellFormed snap := by
  obtain ⟨pieces', hboard, h⟩ := bind_eq_ok h
  obtain ⟨players, hplayers, h⟩ := bind_eq_ok h
  obtain ⟨color, hcolor, h⟩ := bind_eq_ok h
  obtain ⟨moves, hmoves, h⟩ := bind_eq_ok h
  obtain ⟨n, hn, h⟩ := bind_eq_ok h
  obtain ⟨c, hc, h⟩ := bind_eq_ok h
  obtain ⟨date, hdate, h⟩ := bind_eq_ok h
  obtain ⟨m, hm, _⟩ := bind_eq_ok h
  have hsquares (s : Square) := loadSquares_ok hboard s.key
    (by rw [upTo_squares]; exact List.mem_map_of_mem (List.mem_finRange s))
  choose type color' htype hcolor' using hsquares
  refine ⟨⟨fun s => (type s, color' s), fun s => ⟨htype s, hcolor' s⟩⟩, ⟨n, spells_of_ok hplayers hn⟩,
    ⟨c, spells_of_ok hcolor hc⟩, ⟨date, ?_⟩, ⟨m, spells_of_ok hmoves hm⟩⟩
  exact text_of_asString? (force_eq_ok hdate)

end record

private theorem loadRecords_prefix (snaps : List Snapshot) {pieces : GameData} (hin : Inside pieces.boardA) :
    ∃ read rest calls fault, snaps = read ++ rest ∧ loadRecords snaps pieces = (calls, fault) ∧
      (∀ snap ∈ read, WellFormed snap) ∧ List.Forall₂ Carries read calls ∧
      (∀ snap ∈ rest.head?, ¬ WellFormed snap) ∧ (fault = none ↔ rest = []) := by
  induction snaps generalizing pieces with
  | nil => exact ⟨[], [], [], none, rfl, rfl, by simp, .nil, by simp, by simp⟩
  | cons snap later ih =>
    cases h : loadRecord snap pieces with
    | error fault =>
      refine ⟨[], snap :: later, [], some fault, rfl, by rw [loadRecords, h], by simp, .nil, ?_, by simp⟩
      rintro _ ⟨⟩ hwf
      obtain ⟨_, _, hok, _⟩ := loadRecord_eq hwf hin
      cases h.symm.trans hok
    | ok r =>
      have hwf := loadRecord_ok h
      obtain ⟨pieces', call, hok, hin', hcarries⟩ := loadRecord_eq hwf hin
      obtain ⟨read, rest, calls, fault, rfl, hload, hread, hcalls, hrest, hfault⟩ := ih hin'
      refine ⟨snap :: read, rest, call :: calls, fault, rfl, ?_, List.forall_mem_cons.mpr ⟨hwf, hread⟩,
        .cons hcarries hcalls, hrest, hfault⟩
      rw [loadRecords, hok]
      simp only [hload]

/-- On any database loadGame calls its handler once for each record up to the first that
is not well formed, with that record, and it faults exactly when there is such a record. -/
theorem load_reads_prefix (id : String) (db : Snapshot) :
    ∃ read rest calls fault, (saves db).children.map Prod.snd = read ++ rest ∧
      loadGame id db = (calls, fault) ∧ (∀ snap ∈ read, WellFormed snap) ∧
      List.Forall₂ Carries read calls ∧ (∀ snap ∈ rest.head?, ¬ WellFormed snap) ∧
      (fault = none ↔ rest = []) :=
  loadRecords_prefix _ (fun k hk => by cases hk)

section reachable

/-- No record under games/saves has its color as text. -/
private def Unspelled (db : Snapshot) : Prop := ∀ id s, db.get ["games", "saves", id, "color"] ≠ text s

variable {db : Snapshot}

private theorem Unspelled.apart (h : Unspelled db) {p : List String} (f : Snapshot → Snapshot)
    (hp : ∀ id, Apart p ["games", "saves", id, "color"]) : Unspelled (db.modify f p) := by
  intro id s
  rw [Node.get_modify_apart f db (hp id)]
  exact h id s

private theorem Unspelled.texts (h : Unspelled db) (g : String) (fields : List (String × String)) :
    Unspelled (db.modify (fun t => t.merge (fields.map (fun e => (e.1, text e.2)))) ["games", g]) := by
  by_cases hg : g = "saves"
  · subst hg
    intro id s
    rw [show ["games", "saves", id, "color"] = ["games", "saves"] ++ [id, "color"] from rfl,
      Node.get_modify_below, Node.get_cons]
    rcases Node.child_merge_cases (db.get ["games", "saves"]) (fields.map (fun e => (e.1, text e.2))) id with
      hsame | ⟨e, he, hentry⟩
    · rw [hsame]
      exact h id s
    · obtain ⟨e', _, rfl⟩ := List.mem_map.mp he
      rw [hentry]
      nofun
  · exact h.apart _ (fun id => .inr (.inl hg))

private theorem Unspelled.record (h : Unspelled db) (g id : String) {f : Snapshot → Snapshot}
    (hf : ∀ t, (∀ s, t.child "color" ≠ text s) → ∀ s, (f t).child "color" ≠ text s) :
    Unspelled (db.modify f ["games", g, id]) := by
  by_cases hg : g = "saves"
  · subst hg
    intro id' s
    by_cases hid : id = id'
    · subst hid
      change (db.modify f ["games", "saves", id]).get (["games", "saves", id] ++ ["color"]) ≠ text s
      rw [Node.get_modify_below]
      exact hf _ (fun s => h id s) s
    · rw [Node.get_modify_apart f db
        (show Apart ["games", "saves", id] ["games", "saves", id', "color"] from .inr (.inr (.inl hid)))]
      exact h id' s
  · exact h.apart _ (fun id' => .inr (.inl hg))

private theorem Unspelled.fields (h : Unspelled db) (g id : String) {entries : List (String × Snapshot)}
    (hcolor : "color" ∉ entries.map Prod.fst) :
    Unspelled (db.modify (fun t => t.merge entries) ["games", g, id]) :=
  h.record g id fun t ht s => by
    rw [t.child_merge_of_notMem hcolor]
    exact ht s

private theorem squareWrites_color {ref : List String} {board : Board} {l : List Int}
    {w : Write String Value} (hl : ∀ i ∈ l, ∃ s : Square, s.key = i) (h : w ∈ squareWrites ref board l) :
    ∃ entries, w = ⟨ref, fun t => t.merge entries⟩ ∧ "color" ∉ entries.map Prod.fst := by
  induction l with
  | nil => cases h
  | cons i rest ih =>
    rw [List.forall_mem_cons] at hl
    rw [squareWrites] at h
    split at h
    · cases h
    · rename_i piece _
      rcases List.mem_cons.mp h with rfl | h
      · obtain ⟨s, rfl⟩ := hl.1
        obtain ⟨htype, hcolor⟩ := squareKey_fresh s "color" (by simp)
        exact ⟨_, rfl, by simp [squareFields, htype, hcolor]⟩
      · exact ih hl.2 h

private theorem Unspelled.save (h : Unspelled db) {userID gameID saveKey date : String}
    {players color moves : Int} {board : Board} {w : Write String Value}
    (hw : w ∈ (Request.saveGame userID players color moves board gameID saveKey date).writes) :
    Unspelled (w.run db) := by
  rw [Request.writes, List.mem_append] at hw
  rcases hw with hw | hw
  · obtain ⟨entries, rfl, hcolor⟩ := squareWrites_color (fun i hi => by
      rw [upTo_squares] at hi
      obtain ⟨s, _, hs⟩ := List.mem_map.mp hi
      exact ⟨s, hs⟩) hw
    exact h.fields "saves" gameID hcolor
  · split at hw
    · simp only [recordEnd, List.mem_cons, List.not_mem_nil, or_false] at hw
      rcases hw with rfl | rfl | rfl | rfl | rfl
      iterate 3 exact h.fields "saves" gameID (by simp)
      · exact h.record "saves" gameID fun t _ s => by
          rw [t.child_merge (by simp) (List.mem_singleton_self _)]
          intro hleaf
          cases hleaf
      · exact h.apart _ (fun id => .inl (by decide))
    · cases hw

private theorem Unspelled.perform (h : Unspelled db) (r : Request) : Unspelled (r.perform db) := by
  cases r with
  | setBoard | setFigure => exact h.apart _ (fun id => .inl (by decide))
  | createGame name senderID rait key entryKey =>
    have hgame := h.texts key [("name", name), ("status", "1"), ("senderID", senderID), ("uuid", key),
      ("rait", toString rait)]
    exact hgame.apart (p := ["users", senderID, "userGames", entryKey]) _ (fun id => .inl (by decide))
  | enterGame userID gameID status entryKey =>
    have hentry := h.apart (p := ["users", userID, "userGames", entryKey]) (fun _ => text gameID)
      (fun id => .inl (by decide))
    exact hentry.texts gameID [("status", status)]
  | makeMove gameID board => exact h.fields gameID board (by simp)
  | setDead gameID board figure => exact h.record gameID board fun t _ s => nofun
  | saveGame =>
    rw [Request.perform_eq]
    exact runAll_induction Unspelled h (fun w hw t ht => ht.save hw)

private theorem unspelled_run (requests : List Request) : Unspelled (performAll requests .null) := by
  induction requests using List.reverseRecOn with
  | nil => exact fun id s => by rw [performAll_nil, Node.get_null]; nofun
  | append_singleton rs r ih =>
    rw [performAll_snoc]
    exact ih.perform r

end reachable

/-- Whatever calls the clients have made, from an empty database, loadGame never calls
its handler, and it faults as soon as there is one save. -/
theorem saves_never_read (requests : List Request) (id : String) :
    let db := performAll requests .null
    (loadGame id db).1 = [] ∧ ((loadGame id db).2 = none ↔ (saves db).keys = ∅) := by
  intro db
  have hin : Inside GameData.new.boardA := fun k hk => by cases hk
  obtain ⟨read, rest, calls, fault, hsnaps, hload, hread, hcalls, _, hfault⟩ :=
    loadRecords_prefix ((saves db).children.map Prod.snd) hin
  have hnone : read = [] := by
    rw [List.eq_nil_iff_forall_not_mem]
    intro snap hsnap
    obtain ⟨e, he, rfl⟩ := List.mem_map.mp (hsnaps ▸ List.mem_append_left rest hsnap)
    obtain ⟨c, s, hcolor, _⟩ := (hread _ hsnap).color
    rw [(Node.mem_children.mp he).2] at hcolor
    exact unspelled_run requests e.1 s hcolor
  subst hnone
  cases hcalls
  have hempty : rest = [] ↔ (saves db).keys = ∅ := by
    rw [List.nil_append] at hsnaps
    rw [← hsnaps, List.map_eq_nil_iff, ← List.length_eq_zero_iff, Node.length_children, Finset.card_eq_zero]
  rw [loadGame, hload]
  exact ⟨rfl, hfault.trans hempty⟩

end MyIVR
