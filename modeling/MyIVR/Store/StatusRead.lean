import MyIVR.Store.GamesList

/-! Readers that look one level too deep. checkStatus asks each child of a game for
a field that the writers keep in the game itself; no child of a game has one. -/
namespace MyIVR
open Swift KeyTree

/-- No grandchild of the node has a child with this key. -/
def Hollow (node field : String) (db : Snapshot) : Prop := ∀ g c, db.get [node, g, c, field] = .null

section hollow
variable {node field : String} {db : Snapshot} {g : String}

theorem hollow_null : Hollow node field .null := fun g c => Node.get_null [node, g, c, field]

theorem Hollow.elsewhere (h : Hollow node field db) {top : String} (hne : top ≠ node) (p : List String)
    (f : Snapshot → Snapshot) : Hollow node field (db.modify f (top :: p)) := by
  intro g c
  rw [Node.get_modify_apart f db (show Apart (top :: p) [node, g, c, field] from .inl hne), h]

theorem Hollow.texts (h : Hollow node field db) (fields : List (String × String)) :
    Hollow node field (db.modify (fun t => t.merge (fields.map (fun e => (e.1, text e.2)))) [node, g]) := by
  intro g' c
  by_cases hg : g = g'
  · subst hg
    rw [show [node, g, c, field] = [node, g] ++ [c, field] from rfl, Node.get_modify_below, Node.get_cons]
    rcases Node.child_merge_cases (db.get [node, g]) (fields.map (fun e => (e.1, text e.2))) c with
      hsame | ⟨e, he, hentry⟩
    · rw [hsame]
      exact h g c
    · obtain ⟨e', _, rfl⟩ := List.mem_map.mp he
      rw [hentry]
      rfl
  · rw [Node.get_modify_apart _ db (show Apart [node, g] [node, g', c, field] from .inr (.inl hg)), h]

theorem Hollow.fields (h : Hollow node field db) {c : String} {entries : List (String × Snapshot)}
    (hfield : field ∉ entries.map Prod.fst) :
    Hollow node field (db.modify (fun t => t.merge entries) [node, g, c]) := by
  intro g' c'
  by_cases hpath : g = g' ∧ c = c'
  · obtain ⟨rfl, rfl⟩ := hpath
    rw [← h g c]
    exact db.get_modify_merge hfield [node, g, c] []
  · rw [not_and_or] at hpath
    rw [Node.get_modify_apart _ db
      (show Apart [node, g, c] [node, g', c', field] from .inr (hpath.imp id .inl)), h]

theorem Hollow.entry (h : Hollow node field db) {c k : String} (hne : k ≠ field) (f : Snapshot → Snapshot) :
    Hollow node field (db.modify f [node, g, c, k]) := by
  intro g' c'
  rw [Node.get_modify_apart _ db (show Apart [node, g, c, k] [node, g', c', field] from
    .inr (.inr (.inr (.inl hne)))), h]

end hollow

namespace Request

def OfGame : Request → Prop
  | createGame .. | enterGame .. | makeMove .. => True
  | _ => False

/-- A move is not sent to a board that is named like the status. -/
def OnBoard : Request → Prop
  | makeMove _ board _ _ => board ≠ "status"
  | _ => True

def statusOf (gameID : String) : Request → Option String
  | createGame _ _ _ key _ => if key = gameID then some "1" else none
  | enterGame _ gameID' status _ => if gameID' = gameID then some status else none
  | _ => none

end Request

/-- The status written last for a game. -/
def latestStatus (gameID : String) (requests : List Request) : Option String :=
  (requests.filterMap (Request.statusOf gameID)).getLast?

/-- checkStatus hands the status written last to its handler, once. -/
def StatusReturned (gameID : String) (requests : List Request) : Prop :=
  ∃ status, latestStatus gameID requests = some status ∧
    checkStatus gameID (performAll requests .null) = ([status], none)

private theorem hollow_perform {r : Request} (hr : r.OfGame) {db : Snapshot}
    (h : Hollow "games" "status" db) : Hollow "games" "status" (r.perform db) := by
  cases r with
  | createGame name senderID rait key entryKey =>
    refine Hollow.elsewhere ?_ (by decide) _ _
    exact h.texts [("name", name), ("status", "1"), ("senderID", senderID), ("uuid", key),
      ("rait", toString rait)]
  | enterGame userID gameID status entryKey =>
    exact (h.elsewhere (by decide) _ _).texts [("status", status)]
  | makeMove gameID board pos pos1 => exact h.fields (by simp)
  | setBoard | setFigure | setDead | saveGame => cases hr

theorem hollow_run {requests : List Request} (h : ∀ r ∈ requests, r.OfGame) :
    Hollow "games" "status" (performAll requests .null) := by
  induction requests using List.reverseRecOn with
  | nil => exact hollow_null
  | append_singleton rs r ih =>
    rw [performAll_snoc]
    exact hollow_perform (h r (by simp)) (ih (fun r' hr' => h r' (by simp [hr'])))

private theorem created_fields {gameID : String} {requests : List Request}
    (h : gameID ∈ createdIn requests) :
    "name" ∈ ((performAll requests .null).get ["games", gameID]).keys := by
  obtain ⟨r, hr, hcreated⟩ := List.mem_filterMap.mp h
  obtain ⟨first, rest, rfl⟩ := List.append_of_mem hr
  rw [List.append_cons, performAll_append, performAll_snoc]
  apply keys_performAll
  cases r with
  | createGame name senderID rait key entryKey =>
    cases hcreated
    change "name" ∈ ((games ((Request.createGame name senderID rait gameID entryKey).perform
      (performAll first .null))).child gameID).keys
    rw [games_createGame, Node.child_put_same, Node.keys_merge]
    simp [newGameFields]
  | _ => cases hcreated

theorem callEach_faults_first {α : Type} {body : Snapshot → Except Fault α} {fault : Fault}
    {l : List Snapshot} (hne : l ≠ []) (h : ∀ snap ∈ l, body snap = .error fault) :
    callEach body l = ([], some fault) := by
  cases l with
  | nil => exact absurd rfl hne
  | cons snap rest => rw [callEach, h snap List.mem_cons_self]

private theorem checkStatus_faults {requests : List Request} (h : ∀ r ∈ requests, r.OfGame)
    {gameID : String} (hcreated : gameID ∈ createdIn requests) :
    checkStatus gameID (performAll requests .null) = ([], some .badCast) := by
  refine callEach_faults_first ?_ fun snap hsnap => ?_
  · rw [ne_eq, List.map_eq_nil_iff, ← List.length_eq_zero_iff, Node.length_children, Finset.card_eq_zero]
    exact Finset.ne_empty_of_mem (created_fields hcreated)
  · obtain ⟨e, he, rfl⟩ := List.mem_map.mp hsnap
    have hnull : e.2.child "status" = .null := by
      rw [(Node.mem_children.mp he).2]
      exact hollow_run h gameID e.1
    rw [hnull]
    rfl

private theorem not_returned {requests : List Request} (h : ∀ r ∈ requests, r.OfGame) {gameID : String}
    (hcreated : gameID ∈ createdIn requests) : ¬ StatusReturned gameID requests := by
  rintro ⟨status, _, hreturned⟩
  rw [checkStatus_faults h hcreated] at hreturned
  cases hreturned

private theorem status_perform {r : Request} (hr : r.OfGame) (hboard : r.OnBoard) (gameID : String)
    (db : Snapshot) : (r.perform db).get ["games", gameID, "status"] =
      ((r.statusOf gameID).map text).getD (db.get ["games", gameID, "status"]) := by
  cases r with
  | createGame name senderID rait key entryKey =>
    refine (Node.get_modify_ne _ _ (by decide) _ _).trans ?_
    by_cases hkey : key = gameID
    · subst hkey
      rw [Request.statusOf, if_pos rfl]
      refine (Node.get_modify_below _ _ ["games", key] ["status"]).trans ?_
      exact Node.child_merge _ (by simp) (by simp)
    · rw [Request.statusOf, if_neg hkey]
      exact Node.get_modify_apart _ _ (.inr (.inl hkey))
  | enterGame userID gameID' status entryKey =>
    by_cases hkey : gameID' = gameID
    · subst hkey
      rw [Request.statusOf, if_pos rfl]
      refine (Node.get_modify_below _ _ ["games", gameID'] ["status"]).trans ?_
      exact Node.child_merge _ (by simp) (by simp)
    · rw [Request.statusOf, if_neg hkey]
      have hapart : Apart ["games", gameID'] ["games", gameID, "status"] := .inr (.inl hkey)
      refine (Node.get_modify_apart _ _ hapart).trans ?_
      exact Node.get_modify_ne _ _ (by decide) _ _
  | makeMove gameID' board pos pos1 =>
    exact Node.get_modify_apart _ _ (.inr (.inr (.inl hboard)))
  | setBoard | setFigure | setDead | saveGame => cases hr

/-- The status written last is stored, one level above the place where checkStatus looks. -/
theorem status_stored {requests : List Request} (h : ∀ r ∈ requests, r.OfGame ∧ r.OnBoard)
    (gameID : String) : (performAll requests .null).get ["games", gameID, "status"] =
      ((latestStatus gameID requests).map text).getD .null := by
  induction requests using List.reverseRecOn with
  | nil => exact Node.get_null _
  | append_singleton rs r ih =>
    have hr := h r (by simp)
    rw [performAll_snoc, status_perform hr.1 hr.2, ih (fun r' hr' => h r' (by simp [hr'])), latestStatus,
      latestStatus, List.filterMap_append]
    cases hstatus : r.statusOf gameID <;> simp [hstatus]

/-- After any calls of createGame, enterGame and makeMove, checkStatus on a created
game faults and calls its handler never. -/
theorem status_never_returned {requests : List Request} (h : ∀ r ∈ requests, r.OfGame) {gameID : String}
    (hcreated : gameID ∈ createdIn requests) :
    ¬ StatusReturned gameID requests ∧
      checkStatus gameID (performAll requests .null) = ([], some .badCast) :=
  ⟨not_returned h hcreated, checkStatus_faults h hcreated⟩

/-- A game is created, joined and played. -/
theorem playedGame_status_faults :
    ¬ StatusReturned "-K1" [.createGame "MyGame" "anna" 1 "-K1" "-K2",
        .enterGame "boris" "-K1" "2" "-K3", .makeMove "-K1" "1" 1 18] ∧
      checkStatus "-K1" (performAll [.createGame "MyGame" "anna" 1 "-K1" "-K2",
        .enterGame "boris" "-K1" "2" "-K3", .makeMove "-K1" "1" 1 18] .null) = ([], some .badCast) :=
  status_never_returned (by simp [Request.OfGame]) (by simp [createdIn, Request.created])

/-- The status of a game that was just created is lost. -/
theorem newGame_status_lost :
    latestStatus "-K1" [.createGame "MyGame" "anna" 1 "-K1" "-K2"] = some "1" ∧
      ¬ StatusReturned "-K1" [.createGame "MyGame" "anna" 1 "-K1" "-K2"] :=
  ⟨by decide, not_returned (by simp [Request.OfGame]) (by simp [createdIn, Request.created])⟩

end MyIVR
