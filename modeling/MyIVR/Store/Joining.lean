import MyIVR.Foundations.LostUpdate
import MyIVR.Store.Decimal
import MyIVR.Store.Requests
import Mathlib.Algebra.BigOperators.Group.Finset.Piecewise

/-! Clients that join a game. Each reads the stored status and later overwrites it
with one more, so the status is a counter that can lose joins; the entries under
userGames are not overwritten. -/
namespace MyIVR
open KeyTree

def storedStatus (gameID : String) (db : Snapshot) : Option Int :=
  (asString? (db.get ["games", gameID, "status"])).bind decimal

/-- A step of a client, known by its user id. -/
inductive JoinStep where
  | read (userID : String)
  | enter (userID entryKey : String)
  deriving DecidableEq

def JoinStep.client : JoinStep → String
  | read userID => userID
  | enter userID _ => userID

/-- The database, and the status each client read. -/
structure Lobby where
  db : Snapshot
  held : String → Option Int

def join (gameID : String) (s : Lobby) : JoinStep → Lobby
  | .read userID => { s with held := Function.update s.held userID (storedStatus gameID s.db) }
  | .enter userID entryKey =>
    match s.held userID with
    | some status => { s with db := enterGame userID gameID (toString (status + 1)) entryKey s.db }
    | none => s

def joins (gameID : String) (s : Lobby) (steps : List JoinStep) : Lobby := steps.foldl (join gameID) s

theorem joins_snoc (gameID : String) (s : Lobby) (steps : List JoinStep) (e : JoinStep) :
    joins gameID s (steps ++ [e]) = join gameID (joins gameID s steps) e := by
  rw [joins, List.foldl_append]
  rfl

/-- Every client of the run reads once and enters once, in this order. -/
def EachOnce (steps : List JoinStep) : Prop :=
  ∀ u, steps.filter (fun e => e.client == u) = [] ∨
    ∃ k, steps.filter (fun e => e.client == u) = [.read u, .enter u k]

/-- The userGames entries that refer to a game. -/
def entriesOf (gameID : String) (db : Snapshot) (u : String) : Finset String :=
  (db.get ["users", u, "userGames"]).keys.filter
    (fun k => asString? (db.get ["users", u, "userGames", k]) = some gameID)

def members (gameID : String) (db : Snapshot) : Nat :=
  ∑ u ∈ (db.child "users").keys, (entriesOf gameID db u).card

section counter

/-- A join is an increment of the status by a read and a blind write. -/
def JoinStep.increment : JoinStep → LostUpdate.Step String
  | read userID => .read userID
  | enter userID _ => .write userID

/-- No client enters between another's read and its enterGame. -/
def Undisturbed (steps : List JoinStep) : Prop := LostUpdate.Undisturbed (steps.map JoinStep.increment)

def entered (steps : List JoinStep) : Nat := LostUpdate.writes (steps.map JoinStep.increment)

/-- The lobby shows the counter. -/
structure Shows (gameID : String) (s : Lobby) (c : LostUpdate.State String) : Prop where
  status : storedStatus gameID s.db = some c.value
  held : s.held = c.held

private theorem storedStatus_enterGame (userID gameID entryKey : String) (n : Int) (db : Snapshot) :
    storedStatus gameID (enterGame userID gameID (toString n) entryKey db) = some n := by
  have hget : (enterGame userID gameID (toString n) entryKey db).get ["games", gameID, "status"] =
      text (toString n) := by
    refine (Node.get_modify_below _ _ ["games", gameID] ["status"]).trans ?_
    exact Node.child_merge _ (by simp) (by simp)
  rw [storedStatus, hget]
  exact decimal_toString n

private theorem Shows.step {gameID : String} {s : Lobby} {c : LostUpdate.State String}
    (h : Shows gameID s c) (e : JoinStep) :
    Shows gameID (join gameID s e) (LostUpdate.step c e.increment) := by
  cases e with
  | read u =>
    refine ⟨h.status, ?_⟩
    change Function.update s.held u (storedStatus gameID s.db) = Function.update c.held u (some c.value)
    rw [h.status, h.held]
  | enter u k =>
    have hheld := congrFun h.held u
    cases hc : c.held u with
    | none =>
      rw [hc] at hheld
      simpa only [join, hheld, JoinStep.increment, LostUpdate.step, hc] using h
    | some v =>
      rw [hc] at hheld
      simp only [join, hheld, JoinStep.increment, LostUpdate.step, hc]
      exact ⟨storedStatus_enterGame u gameID k (v + 1) s.db, h.held⟩

theorem shows_run {gameID : String} {s : Lobby} {c : LostUpdate.State String} (h : Shows gameID s c)
    (steps : List JoinStep) :
    Shows gameID (joins gameID s steps) (LostUpdate.run c (steps.map JoinStep.increment)) := by
  induction steps generalizing s c with
  | nil => exact h
  | cons e steps ih => exact ih (h.step e)

private theorem EachOnce.prepared {steps : List JoinStep} (h : EachOnce steps) :
    ∀ past u k rest, steps = past ++ .enter u k :: rest → .read u ∈ past := by
  rintro past u k rest rfl
  have hfilter : (past ++ .enter u k :: rest).filter (fun e => e.client == u) =
      past.filter (fun e => e.client == u) ++ .enter u k :: rest.filter (fun e => e.client == u) := by
    rw [List.filter_append, List.filter_cons]
    simp [JoinStep.client]
  rcases h u with hnone | ⟨k', honce⟩
  · rw [hfilter] at hnone
    simp at hnone
  · rw [hfilter] at honce
    cases hpast : past.filter (fun e => e.client == u) with
    | nil =>
      rw [hpast] at honce
      cases honce
    | cons e past' =>
      rw [hpast] at honce
      obtain ⟨rfl, _⟩ := List.cons.inj honce
      exact (List.mem_filter.mp (hpast ▸ List.mem_cons_self)).1

end counter

section members
variable (gameID : String) (db : Snapshot)

private theorem userGames_entry (u k : String) :
    (db.modify (fun _ => text gameID) ["users", u, "userGames", k]).get ["users", u, "userGames"] =
      (db.get ["users", u, "userGames"]).put k (text gameID) :=
  Node.get_modify_snoc _ db ["users", u, "userGames"] k

private theorem entriesOf_congr {db' : Snapshot} {v : String}
    (h : db'.get ["users", v, "userGames"] = db.get ["users", v, "userGames"]) :
    entriesOf gameID db' v = entriesOf gameID db v := by
  have hentry (k : String) : db'.get ["users", v, "userGames", k] = db.get ["users", v, "userGames", k] :=
    congrArg (fun t => t.child k) h
  simp only [entriesOf, h, hentry]

private theorem entriesOf_entry {u k : String} :
    entriesOf gameID (db.modify (fun _ => text gameID) ["users", u, "userGames", k]) u =
      insert k (entriesOf gameID db u) := by
  have hnode := userGames_entry gameID db u k
  ext j
  rw [entriesOf, hnode, Finset.mem_filter, Node.keys_put, Finset.mem_insert, Finset.mem_insert,
    entriesOf, Finset.mem_filter]
  have hchild : (db.modify (fun _ => text gameID) ["users", u, "userGames", k]).get
      ["users", u, "userGames", j] = ((db.get ["users", u, "userGames"]).put k (text gameID)).child j :=
    congrArg (fun t => t.child j) hnode
  rw [hchild]
  by_cases hj : j = k
  · subst hj
    simp [text, asString?]
  · rw [Node.child_put_ne _ hj]
    simp only [hj, false_or]
    rfl

private theorem members_eq_sum {users : Finset String} (h : (db.child "users").keys ⊆ users) :
    members gameID db = ∑ u ∈ users, (entriesOf gameID db u).card := by
  apply Finset.sum_subset h
  intro u _ hu
  have hnone : db.get ["users", u, "userGames"] = .null := by
    rw [Node.get_cons, Node.get_cons, Node.child_of_notMem hu]
    exact Node.get_null _
  rw [entriesOf, hnone]
  rfl

theorem members_entry {u k : String} (h : k ∉ (db.get ["users", u, "userGames"]).keys) :
    members gameID (db.modify (fun _ => text gameID) ["users", u, "userGames", k]) =
      members gameID db + 1 := by
  have hkeys : ((db.modify (fun _ => text gameID) ["users", u, "userGames", k]).child "users").keys =
      insert u (db.child "users").keys := by
    rw [Node.child_modify_cons, Node.keys_modify_cons]
  have hcard (v : String) :
      (entriesOf gameID (db.modify (fun _ => text gameID) ["users", u, "userGames", k]) v).card =
        (entriesOf gameID db v).card + if v = u then 1 else 0 := by
    by_cases hv : v = u
    · subst hv
      rw [entriesOf_entry, Finset.card_insert_of_notMem, if_pos rfl]
      exact fun hmem => h (Finset.mem_filter.mp hmem).1
    · have hpart : Apart ["users", u, "userGames", k] ["users", v, "userGames"] :=
        .inr (.inl (Ne.symm hv))
      rw [entriesOf_congr _ _ (db.get_modify_apart _ hpart), if_neg hv, add_zero]
  rw [members, hkeys, members_eq_sum gameID db (Finset.subset_insert u _)]
  simp only [hcard, Finset.sum_add_distrib, Finset.sum_ite_eq', Finset.mem_insert_self, if_true]

private theorem members_games (f : Snapshot → Snapshot) (p : List String) :
    members gameID (db.modify f ("games" :: p)) = members gameID db := by
  have husers : (db.modify f ("games" :: p)).child "users" = db.child "users" :=
    Node.child_modify_cons_ne f db (by decide) p
  have hentries (u : String) : entriesOf gameID (db.modify f ("games" :: p)) u = entriesOf gameID db u := by
    have hpart : Apart ("games" :: p) ["users", u, "userGames"] := .inl (by decide)
    exact entriesOf_congr _ _ (db.get_modify_apart f hpart)
  simp only [members, husers, hentries]

theorem members_enterGame {u k : String} (status : String)
    (h : k ∉ (db.get ["users", u, "userGames"]).keys) :
    members gameID (enterGame u gameID status k db) = members gameID db + 1 := by
  rw [enterGame, members_games, members_entry _ _ h]

theorem members_createGame (name : String) {u k : String} (rait : Int)
    (h : k ∉ (db.get ["users", u, "userGames"]).keys) :
    members gameID (createGame name u rait gameID k db).1 = members gameID db + 1 := by
  have hpart : Apart ["games", gameID] ["users", u, "userGames"] := .inl (by decide)
  rw [createGame, members_entry _ _ (by rwa [db.get_modify_apart _ hpart]), members_games]

end members

section run

def entryKeys (steps : List JoinStep) : List String :=
  steps.filterMap (fun | .enter _ entryKey => some entryKey | .read _ => none)

/-- The keys are pairwise distinct, and no entry of a user has one of them yet. -/
structure FreshEntries (keys : List String) (db : Snapshot) : Prop where
  distinct : keys.Nodup
  unused : ∀ u, ∀ k ∈ keys, k ∉ (db.get ["users", u, "userGames"]).keys

variable {gameID : String} {s : Lobby} {steps : List JoinStep}

private theorem entryKeys_snoc (steps : List JoinStep) (e : JoinStep) :
    entryKeys (steps ++ [e]) = entryKeys steps ++ entryKeys [e] := List.filterMap_append ..

private theorem userGames_enterGame (userID status k : String) (db : Snapshot) (u : String) :
    ∀ j ∈ ((enterGame userID gameID status k db).get ["users", u, "userGames"]).keys,
      j = k ∨ j ∈ (db.get ["users", u, "userGames"]).keys := by
  have hpart : Apart ["games", gameID] ["users", u, "userGames"] := .inl (by decide)
  intro j hj
  rw [enterGame, Node.get_modify_apart _ _ hpart] at hj
  by_cases hu : userID = u
  · subst hu
    rw [userGames_entry, Node.keys_put, Finset.mem_insert] at hj
    exact hj
  · have hother : Apart ["users", userID, "userGames", k] ["users", u, "userGames"] := .inr (.inl hu)
    rw [Node.get_modify_apart _ _ hother] at hj
    exact .inr hj

private theorem joins_keys (u : String) :
    ∀ j ∈ ((joins gameID s steps).db.get ["users", u, "userGames"]).keys,
      j ∈ entryKeys steps ∨ j ∈ (s.db.get ["users", u, "userGames"]).keys := by
  induction steps using List.reverseRecOn with
  | nil => exact fun j hj => .inr hj
  | append_singleton steps e ih =>
    intro j hj
    rw [entryKeys_snoc, List.mem_append]
    rw [joins_snoc] at hj
    cases e with
    | read v => exact (ih j hj).imp .inl id
    | enter v k =>
      simp only [join] at hj
      split at hj
      · rcases userGames_enterGame _ _ _ _ _ j hj with rfl | hj
        · exact .inl (.inr (by simp [entryKeys]))
        · exact (ih j hj).imp .inl id
      · exact (ih j hj).imp .inl id

private theorem FreshEntries.init {e : JoinStep} {db : Snapshot}
    (h : FreshEntries (entryKeys (steps ++ [e])) db) : FreshEntries (entryKeys steps) db := by
  rw [entryKeys_snoc] at h
  exact ⟨(List.nodup_append'.mp h.distinct).1, fun u k hk => h.unused u k (List.mem_append_left _ hk)⟩

private theorem joins_members (hfresh : FreshEntries (entryKeys steps) s.db)
    (hheld : ∀ past u k rest, steps = past ++ .enter u k :: rest →
      ∃ v, (joins gameID s past).held u = some v) :
    members gameID (joins gameID s steps).db = members gameID s.db + entered steps := by
  induction steps using List.reverseRecOn with
  | nil => rfl
  | append_singleton steps e ih =>
    have hprefix := ih hfresh.init (fun past u k rest heq => hheld past u k (rest ++ [e]) (by rw [heq]; simp))
    have hentered : entered (steps ++ [e]) = entered steps + if e.increment.isRead then 0 else 1 := by
      rw [entered, List.map_append, entered]
      exact LostUpdate.writes_snoc _ _
    rw [joins_snoc, hentered]
    cases e with
    | read u => exact hprefix
    | enter u k =>
      obtain ⟨v, hv⟩ := hheld steps u k [] rfl
      have hk : k ∉ ((joins gameID s steps).db.get ["users", u, "userGames"]).keys := by
        intro hmem
        have hdistinct := hfresh.distinct
        rw [entryKeys_snoc, List.nodup_append'] at hdistinct
        rcases joins_keys u k hmem with hk | hk
        · exact hdistinct.2.2 hk (by simp [entryKeys])
        · refine hfresh.unused u k ?_ hk
          rw [entryKeys_snoc]
          exact List.mem_append_right _ (by simp [entryKeys])
      simp only [join, hv]
      rw [members_enterGame _ _ _ hk, hprefix]
      rfl

end run

/-- The lobby after createGame on a database, before any other client acts. -/
def createdLobby (name senderID : String) (rait : Int) (key entryKey : String) (db : Snapshot) : Lobby :=
  ⟨(createGame name senderID rait key entryKey db).1, fun _ => none⟩

private theorem storedStatus_createGame (name senderID : String) (rait : Int) (key entryKey : String)
    (db : Snapshot) : storedStatus key (createGame name senderID rait key entryKey db).1 = some 1 := by
  have hpart : Apart ["users", senderID, "userGames", entryKey] ["games", key, "status"] :=
    .inl (by decide)
  have hget : (createGame name senderID rait key entryKey db).1.get ["games", key, "status"] =
      text "1" := by
    refine (Node.get_modify_apart _ _ hpart).trans ?_
    refine (Node.get_modify_below _ _ ["games", key] ["status"]).trans ?_
    exact Node.child_merge _ (by simp) (by simp)
  rw [storedStatus, hget]
  exact decimal_toString 1

private theorem held_before (gameID : String) {s : Lobby} {c : LostUpdate.State String}
    (h : Shows gameID s c) {steps : List JoinStep} (honce : EachOnce steps) :
    ∀ past u k rest, steps = past ++ .enter u k :: rest → ∃ v, (joins gameID s past).held u = some v := by
  intro past u k rest heq
  have hread : LostUpdate.Step.read u ∈ past.map JoinStep.increment :=
    List.mem_map.mpr ⟨.read u, honce.prepared past u k rest heq, rfl⟩
  obtain ⟨v, hv⟩ := LostUpdate.held_of_read c hread
  exact ⟨v, (congrFun (shows_run h past).held u).trans hv⟩

private theorem EachOnce.counter {steps : List JoinStep} (h : EachOnce steps) :
    LostUpdate.Prepared (steps.map JoinStep.increment) := by
  intro past u rest heq
  obtain ⟨past', tail, rfl, rfl, htail⟩ := List.map_eq_append_iff.mp heq
  obtain ⟨e, rest', rfl, he, _⟩ := List.map_eq_cons_iff.mp htail
  cases e with
  | read v => cases he
  | enter v k =>
    cases he
    exact List.mem_map.mpr ⟨.read u, h.prepared past' u k rest' rfl, rfl⟩

/-- After all clients of a new game have joined, the entries under userGames count
them all. The status does exactly when nobody entered between another's read and enterGame. -/
theorem joins_counted_iff (name senderID : String) (rait : Int) {key entryKey : String} {db : Snapshot}
    (hnew : members key db = 0) {steps : List JoinStep}
    (hfresh : FreshEntries (entryKey :: entryKeys steps) db) (honce : EachOnce steps) :
    let final := (joins key (createdLobby name senderID rait key entryKey db) steps).db
    members key final = 1 + entered steps ∧
      (storedStatus key final = some (1 + (entered steps : Int)) ∧
        storedStatus key final = some (members key final : Int) ↔ Undisturbed steps) := by
  intro final
  have hshows : Shows key (createdLobby name senderID rait key entryKey db) (.start 1) :=
    ⟨storedStatus_createGame name senderID rait key entryKey db, rfl⟩
  have hentries : FreshEntries (entryKeys steps) (createGame name senderID rait key entryKey db).1 := by
    refine ⟨(List.nodup_cons.mp hfresh.distinct).2, fun u k hk hmem => ?_⟩
    have hpart : Apart ["games", key] ["users", u, "userGames"] := .inl (by decide)
    have hold := hfresh.unused u k (List.mem_cons_of_mem _ hk)
    rw [createGame] at hmem
    by_cases hu : senderID = u
    · subst hu
      rw [userGames_entry, Node.get_modify_apart _ _ hpart, Node.keys_put, Finset.mem_insert] at hmem
      rcases hmem with rfl | hmem
      · exact (List.nodup_cons.mp hfresh.distinct).1 hk
      · exact hold hmem
    · have hother : Apart ["users", senderID, "userGames", entryKey] ["users", u, "userGames"] :=
        .inr (.inl hu)
      rw [Node.get_modify_apart _ _ hother, Node.get_modify_apart _ _ hpart] at hmem
      exact hold hmem
  have hmembers : members key final = 1 + entered steps := by
    have hcreated := members_createGame key db name rait (hfresh.unused senderID entryKey List.mem_cons_self)
    rw [hnew] at hcreated
    have hrun := joins_members (s := createdLobby name senderID rait key entryKey db) hentries
      (held_before key hshows honce)
    change members key final = members key (createGame name senderID rait key entryKey db).1 + _ at hrun
    omega
  have hstatus : storedStatus key final =
      some (LostUpdate.run (.start 1) (steps.map JoinStep.increment)).value := (shows_run hshows steps).status
  refine ⟨hmembers, ?_⟩
  rw [hmembers, hstatus, Undisturbed, ← LostUpdate.value_eq_iff 1 honce.counter]
  simp [entered]

theorem successive_joins_counted :
    members "-K1" (joins "-K1" (createdLobby "MyGame" "anna" 1 "-K1" "-K2" .null)
      [.read "boris", .enter "boris" "-K3", .read "clara", .enter "clara" "-K4"]).db = 3 := by
  have honce : EachOnce [.read "boris", .enter "boris" "-K3", .read "clara", .enter "clara" "-K4"] := by
    intro u
    by_cases hb : "boris" = u
    · subst hb
      exact .inr ⟨"-K3", by decide⟩
    by_cases hc : "clara" = u
    · subst hc
      exact .inr ⟨"-K4", by decide⟩
    · exact .inl (by simp [JoinStep.client, hb, hc])
  have hfresh : FreshEntries ("-K2" :: entryKeys [.read "boris", .enter "boris" "-K3", .read "clara",
      .enter "clara" "-K4"]) .null := by
    refine ⟨by decide, fun u k _ hk => ?_⟩
    rw [Node.get_null] at hk
    cases hk
  exact (joins_counted_iff "MyGame" "anna" 1 rfl hfresh honce).1

/-- Both clients read before either enters. -/
def simultaneousJoins : List JoinStep :=
  [.read "boris", .read "clara", .enter "boris" "-K3", .enter "clara" "-K4"]

/-- Two clients read the status before either enters: it counts two players of three. -/
theorem simultaneous_joins_lost :
    EachOnce simultaneousJoins ∧
      let final := (joins "-K1" (createdLobby "MyGame" "anna" 1 "-K1" "-K2" .null) simultaneousJoins).db
      storedStatus "-K1" final = some 2 ∧ members "-K1" final = 3 ∧ 1 + entered simultaneousJoins = 3 := by
  refine ⟨fun u => ?_, by decide +kernel⟩
  by_cases hb : "boris" = u
  · subst hb
    exact .inr ⟨"-K3", by decide⟩
  by_cases hc : "clara" = u
  · subst hc
    exact .inr ⟨"-K4", by decide⟩
  · exact .inl (by simp [simultaneousJoins, JoinStep.client, hb, hc])

end MyIVR
