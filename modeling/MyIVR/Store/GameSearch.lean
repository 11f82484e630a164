import MyIVR.Store.GamesList

/-! What searchGame hands to its handler. The callback collects the open games, but
it runs after the handler has been called with the array still empty. -/
namespace MyIVR
open Swift KeyTree

/-- The array the callback captures, and the calls of the handler so far. -/
structure Search where
  gameArray : List Game
  handled : List (List Game)

namespace Search

/-- The body of searchGame, from the registration of the callback to its return. -/
def body : Search :=
  let s : Search := ⟨[], []⟩
  { s with handled := s.handled ++ [s.gameArray] }

/-- The callback, which is run when the body has returned. -/
def callback (db : Snapshot) (s : Search) : Except Fault Search := do
  let gameArray ← ((games db).children.map Prod.snd).foldlM searchRound s.gameArray
  return { s with gameArray := gameArray }

/-- The calls of the handler are those of the body, whatever the callback does. -/
theorem searchGame_eq (db : Snapshot) :
    searchGame db = match body.callback db with
      | .ok s => (s.handled, none)
      | .error fault => (body.handled, some fault) := by
  change searchGame db = match (((games db).children.map Prod.snd).foldlM searchRound [] >>= fun l =>
    .ok ({ body with gameArray := l } : Search)) with
      | .ok s => (s.handled, none)
      | .error fault => (body.handled, some fault)
  rw [searchGame]
  cases ((games db).children.map Prod.snd).foldlM searchRound [] <;> rfl

end Search

/-- One game for each open record of the games node, with the fields of the record. -/
def ListsOpenGames (db : Snapshot) (l : List Game) : Prop :=
  ∃ keys : List String, keys.Nodup ∧ (∀ k, k ∈ keys ↔ k ∈ (games db).keys ∧ OpenGame ((games db).child k)) ∧
    List.Forall₂ (fun k game => Describes ((games db).child k) game) keys l

private theorem searchLoop_eq (read : String → Snapshot) (keys : List String)
    (h : ∀ k ∈ keys, CompleteGame (read k)) (gameArray : List Game) :
    ∃ l, (keys.map read).foldlM searchRound gameArray = .ok (gameArray ++ l) ∧
      List.Forall₂ (fun k game => Describes (read k) game) (keys.filter (fun k => OpenGame (read k))) l := by
  induction keys generalizing gameArray with
  | nil => exact ⟨[], by simp, .nil⟩
  | cons k keys ih =>
    rw [List.forall_mem_cons] at h
    obtain ⟨game, hgame, hround⟩ := searchRound_eq h.1 gameArray
    rw [List.map_cons, List.foldlM_cons, hround, ok_bind]
    by_cases hopen : OpenGame (read k)
    · obtain ⟨l, hl, hlist⟩ := ih h.2 (gameArray ++ [game])
      rw [if_pos hopen, hl, List.filter_cons_of_pos (by simpa using hopen)]
      exact ⟨game :: l, by simp, .cons hgame hlist⟩
    · rw [if_neg hopen, List.filter_cons_of_neg (by simpa using hopen)]
      exact ih h.2 gameArray

/-- When the callback has run, the array holds the open games. The handler has seen
the empty array, and nothing else. -/
theorem callback_lists_open {db : Snapshot} (h : CompleteGames db) :
    ∃ l, Search.body.callback db = .ok ⟨l, [[]]⟩ ∧ ListsOpenGames db l := by
  have hread : (games db).children.map Prod.snd = ((games db).keys.sort (· ≤ ·)).map (games db).child := by
    rw [Node.children, List.map_map]
    rfl
  obtain ⟨l, hl, hlist⟩ := searchLoop_eq (games db).child ((games db).keys.sort (· ≤ ·))
    (fun k hk => h k ((Finset.mem_sort _).mp hk)) []
  refine ⟨l, ?_, _, ((games db).keys.sort_nodup (· ≤ ·)).filter _, fun k => ?_, hlist⟩
  · rw [Search.callback, hread]
    change (List.foldlM searchRound [] _ >>= _) = _
    rw [hl]
    rfl
  · rw [List.mem_filter, Finset.mem_sort, decide_eq_true_eq]

theorem created_game_collected :
    ∃ l, Search.body.callback (performAll [.createGame "MyGame" "anna" 1 "-K1" "-K2"] .null) = .ok ⟨l, [[]]⟩ ∧
      ListsOpenGames (performAll [.createGame "MyGame" "anna" 1 "-K1" "-K2"] .null) l := by
  refine callback_lists_open fun k hk => ?_
  rw [performAll_cons, performAll_nil, games_createGame] at hk ⊢
  obtain rfl : k = "-K1" := by
    rw [Node.keys_put, show (games .null).keys = ∅ from rfl] at hk
    simpa using hk
  rw [Node.child_put_same]
  exact complete_new ..

/-- Over the whole execution the handler is called once, with the open games. -/
def ReturnsOpenGames (db : Snapshot) : Prop := ∃ l, searchGame db = ([l], none) ∧ ListsOpenGames db l

private theorem not_returns {db : Snapshot} {k : String} (hk : k ∈ (games db).keys)
    (hopen : OpenGame ((games db).child k)) : ¬ ReturnsOpenGames db := by
  rintro ⟨l, hl, keys, _, hkeys, hlist⟩
  cases List.singleton_inj.mp (congrArg Prod.fst hl)
  rw [List.forall₂_nil_right_iff] at hlist
  subst hlist
  cases (hkeys k).mpr ⟨hk, hopen⟩

/-- On a games node of complete records searchGame returns the open games exactly
when there are none. -/
theorem open_games_returned_iff {db : Snapshot} (h : CompleteGames db) :
    ReturnsOpenGames db ↔ ∀ k ∈ (games db).keys, ¬ OpenGame ((games db).child k) := by
  constructor
  · exact fun hreturns k hk hopen => not_returns hk hopen hreturns
  · intro hclosed
    refine ⟨[], Prod.ext rfl ((searchGame_returns_iff db).mpr h), [], List.nodup_nil, fun k => ?_, .nil⟩
    constructor
    · exact fun hk => absurd hk List.not_mem_nil
    · exact fun hk => absurd hk.2 (hclosed k hk.1)

/-- A game that has just been created is not found. -/
theorem created_game_not_found :
    CompleteGames (performAll [.createGame "MyGame" "anna" 1 "-K1" "-K2"] .null) ∧
      OpenGame ((games (performAll [.createGame "MyGame" "anna" 1 "-K1" "-K2"] .null)).child "-K1") ∧
      ¬ ReturnsOpenGames (performAll [.createGame "MyGame" "anna" 1 "-K1" "-K2"] .null) := by
  have hgames := games_createGame .null "MyGame" "anna" 1 "-K1" "-K2"
  have hopen : OpenGame ((games (performAll [.createGame "MyGame" "anna" 1 "-K1" "-K2"] .null)).child
      "-K1") := by decide +kernel
  refine ⟨fun k hk => ?_, hopen, not_returns ?_ hopen⟩
  · rw [performAll_cons, performAll_nil, hgames] at hk ⊢
    obtain rfl : k = "-K1" := by
      rw [Node.keys_put, show (games .null).keys = ∅ from rfl] at hk
      simpa using hk
    rw [Node.child_put_same]
    exact complete_new ..
  · rw [performAll_cons, performAll_nil, hgames]
    simp

/-- A game that is full is not found, as it should be. -/
theorem full_game_not_found : ReturnsOpenGames (performAll
    [.createGame "MyGame" "anna" 1 "-K1" "-K2", .enterGame "boris" "-K1" "4" "-K3"] .null) := by
  have hgames : ∃ snap : Snapshot, CompleteGame snap ∧ ¬ OpenGame snap ∧ games (performAll
      [.createGame "MyGame" "anna" 1 "-K1" "-K2", .enterGame "boris" "-K1" "4" "-K3"] .null) =
        (games (performAll [.createGame "MyGame" "anna" 1 "-K1" "-K2"] .null)).put "-K1" snap := by
    refine ⟨_, ?_, ?_, games_enterGame (performAll [.createGame "MyGame" "anna" 1 "-K1" "-K2"] .null)
      "boris" "-K1" "4" "-K3"⟩
    · rw [performAll_cons, performAll_nil, games_createGame, Node.child_put_same]
      exact (complete_new ..).enter (by decide +kernel)
    · decide +kernel
  obtain ⟨snap, hcomplete, hclosed, hgames⟩ := hgames
  have honly (k : String) (hk : k ∈ (games (performAll [.createGame "MyGame" "anna" 1 "-K1" "-K2",
      .enterGame "boris" "-K1" "4" "-K3"] .null)).keys) : k = "-K1" := by
    rw [hgames, performAll_cons, performAll_nil, games_createGame, Node.keys_put, Node.keys_put,
      show (games .null).keys = ∅ from rfl] at hk
    simpa using hk
  refine (open_games_returned_iff fun k hk => ?_).mpr fun k hk => ?_
  · rw [honly k hk, hgames, Node.child_put_same]
    exact hcomplete
  · rw [honly k hk, hgames, Node.child_put_same]
    exact hclosed

end MyIVR
