import MyIVR.Store.StatusRead

/-! The preferences of a user. The setters write two fields of the user's record; the
readers ask every child of the record for a child of its own, and call the handler
with the default for each of them. -/
namespace MyIVR
open Swift KeyTree

/-- What the screen of registration shows at the end. -/
inductive Presented where
  | alert (message : String)
  | segue (identifier : String)
  deriving DecidableEq, Repr

def newUserFields (name email password : String) : List (String × String) :=
  [("name", name), ("email", email), ("password", password), ("board", "1"), ("figure", "1")]

/-- `user` is the id that createUser hands to its completion, none on an error. -/
def register (name email password : String) (user : Option String) (db : Snapshot) :
    Snapshot × Option Presented :=
  if !name.isEmpty && !email.isEmpty && !password.isEmpty then
    match user with
    | some uid =>
      (db.modify (fun t => t.merge ((newUserFields name email password).map (fun e => (e.1, text e.2))))
        ["users", uid], some (.segue "GoToNavController"))
    | none => (db, none)
  else (db, some (.alert "Заполните все поля"))

namespace Request

def boardOf (userID : String) : Request → Option String
  | setBoard userID' number => if userID' = userID then some number else none
  | _ => none

def figureOf (userID : String) : Request → Option String
  | setFigure userID' number => if userID' = userID then some number else none
  | _ => none

end Request

/-- The board chosen last, or the one of the registration. -/
def latestBoard (userID : String) (requests : List Request) : String :=
  (requests.filterMap (Request.boardOf userID)).getLast?.getD "1"

def latestFigure (userID : String) (requests : List Request) : String :=
  (requests.filterMap (Request.figureOf userID)).getLast?.getD "1"

/-- After the calls, the readers hand the choices made last to their handlers, once. -/
structure PreferencesRead (userID : String) (requests : List Request) (db : Snapshot) : Prop where
  board : board userID (performAll requests db) = ([latestBoard userID requests], none)
  figure : figure userID (performAll requests db) = ([latestFigure userID requests], none)

theorem callEach_ok {α : Type} (f : Snapshot → α) (l : List Snapshot) :
    callEach (fun snap => .ok (f snap)) l = (l.map f, none) := by
  induction l with
  | nil => rfl
  | cons snap rest ih => rw [callEach, ih, List.map_cons]

section reader
variable (field userID : String) (db : Snapshot)

/-- The readers of the preferences are one function of the field they look for. -/
private def choice : List String × Option Fault :=
  callEach (fun snap => .ok ((asString? (snap.child field)).getD "1"))
    ((db.get ["users", userID]).children.map Prod.snd)

private theorem length_choice : (choice field userID db).1.length = (db.get ["users", userID]).keys.card := by
  rw [choice, callEach_ok, List.length_map, List.length_map, Node.length_children]

private theorem choice_default {field : String} {db : Snapshot} (h : Hollow "users" field db) :
    choice field userID db = (List.replicate (db.get ["users", userID]).keys.card "1", none) := by
  rw [choice, callEach_ok, ← Node.length_children, ← List.length_map Prod.snd, ← List.map_const']
  refine Prod.ext (List.map_congr_left fun snap hsnap => ?_) rfl
  obtain ⟨e, he, rfl⟩ := List.mem_map.mp hsnap
  have hnull : e.2.child field = .null := by
    rw [(Node.mem_children.mp he).2]
    exact h userID e.1
  rw [hnull]
  rfl

end reader

section registered
variable {name email password : String} (uid : String) (db : Snapshot)

private theorem register_filled (h : name ≠ "" ∧ email ≠ "" ∧ password ≠ "") :
    register name email password (some uid) db = (db.modify (fun t => t.merge
      ((newUserFields name email password).map (fun e => (e.1, text e.2)))) ["users", uid],
        some (.segue "GoToNavController")) := by
  rw [register, if_pos (by simpa [String.isEmpty_iff, and_assoc] using h)]

private theorem five_children (h : name ≠ "" ∧ email ≠ "" ∧ password ≠ "") (requests : List Request) :
    5 ≤ ((performAll requests (register name email password (some uid) db).1).get ["users", uid]).keys.card := by
  have hfields : ({"name", "email", "password", "board", "figure"} : Finset String) ⊆
      ((register name email password (some uid) db).1.get ["users", uid]).keys := by
    rw [register_filled uid db h, Node.get_modify, Node.keys_merge]
    exact Finset.subset_union_right
  exact Finset.card_le_card (hfields.trans (keys_performAll requests _ "users" uid))

/-- No calls that follow a registration make the readers of the preferences call their
handlers once: they call them for each of the five fields at least. -/
theorem preferences_never_read (h : name ≠ "" ∧ email ≠ "" ∧ password ≠ "") (requests : List Request) :
    ¬ PreferencesRead uid requests (register name email password (some uid) db).1 ∧
      5 ≤ (board uid (performAll requests (register name email password (some uid) db).1)).1.length ∧
      5 ≤ (figure uid (performAll requests (register name email password (some uid) db).1)).1.length := by
  have hfive := five_children uid db h requests
  have hboard := (length_choice "number" uid _).ge.trans' hfive
  have hfigure := (length_choice "figure" uid _).ge.trans' hfive
  refine ⟨fun hread => ?_, hboard, hfigure⟩
  have hone : (choice "number" uid _).1.length = 1 := congrArg (fun r => r.1.length) hread.board
  omega

end registered

section defaults
variable {field : String}

private theorem hollow_write {r : Request} (hkeys : field ∉ r.autoKeys) {w : Write String Value}
    (hw : w ∈ r.writes) {db : Snapshot} (h : Hollow "users" field db) :
    Hollow "users" field (w.run db) := by
  cases Request.sends hw with
  | board userID number => exact h.texts [("board", number)]
  | figure userID number => exact h.texts [("figure", number)]
  | game | status | move | dead | record => exact h.elsewhere (by decide) _ _
  | owner | player | index => exact h.entry (fun heq => hkeys (by simp [Request.autoKeys, heq])) _

private theorem hollow_performAll {requests : List Request} (hkeys : ∀ r ∈ requests, field ∉ r.autoKeys)
    {db : Snapshot} (h : Hollow "users" field db) : Hollow "users" field (performAll requests db) := by
  induction requests generalizing db with
  | nil => exact h
  | cons r rest ih =>
    rw [List.forall_mem_cons] at hkeys
    rw [performAll_cons, Request.perform_eq]
    exact ih hkeys.2 (runAll_induction (Hollow "users" field) h (fun w hw t ht => hollow_write hkeys.1 hw ht))

/-- The calls of the handlers all carry the default, one for each child of the record,
whatever was chosen. -/
theorem preferences_default {name email password : String}
    (h : name ≠ "" ∧ email ≠ "" ∧ password ≠ "") (uid : String) {requests : List Request}
    (hkeys : ∀ r ∈ requests, "number" ∉ r.autoKeys ∧ "figure" ∉ r.autoKeys) :
    let db := performAll requests (register name email password (some uid) .null).1
    board uid db = (List.replicate (db.get ["users", uid]).keys.card "1", none) ∧
      figure uid db = (List.replicate (db.get ["users", uid]).keys.card "1", none) := by
  rw [register_filled uid .null h]
  have hollow (field : String) (hfield : ∀ r ∈ requests, field ∉ r.autoKeys) :=
    hollow_performAll hfield (hollow_null.texts (g := uid) (newUserFields name email password))
  exact ⟨choice_default uid (hollow "number" (fun r hr => (hkeys r hr).1)),
    choice_default uid (hollow "figure" (fun r hr => (hkeys r hr).2))⟩

end defaults

/-- A user registers and chooses board 2 and figures 2. -/
theorem chosen_board_forgotten :
    latestBoard "u1" [.setBoard "u1" "2", .setFigure "u1" "2"] = "2" ∧
      board "u1" (performAll [.setBoard "u1" "2", .setFigure "u1" "2"]
        (register "anna" "anna@mail" "secret" (some "u1") .null).1) = (["1", "1", "1", "1", "1"], none) ∧
      ¬ PreferencesRead "u1" [.setBoard "u1" "2", .setFigure "u1" "2"]
        (register "anna" "anna@mail" "secret" (some "u1") .null).1 := by
  have hboard : board "u1" (performAll [.setBoard "u1" "2", .setFigure "u1" "2"]
      (register "anna" "anna@mail" "secret" (some "u1") .null).1) = (["1", "1", "1", "1", "1"], none) := by
    refine (preferences_default (by decide) "u1" (by simp [Request.autoKeys])).1.trans ?_
    have hcard : ((performAll [.setBoard "u1" "2", .setFigure "u1" "2"]
      (register "anna" "anna@mail" "secret" (some "u1") .null).1).get ["users", "u1"]).keys.card = 5 := by
      decide +kernel
    rw [hcard]
    rfl
  refine ⟨by decide, hboard, fun hread => ?_⟩
  exact absurd (congrArg (fun r => r.1.length) (hboard.symm.trans hread.board)) (by decide)

/-- A user chooses board 2 and creates a game: both readers call their handlers five times or more. -/
theorem chosen_preferences_never_read :
    ¬ PreferencesRead "u1" [.setBoard "u1" "2", .createGame "MyGame" "u1" 1 "-K1" "-K2"]
        (register "anna" "anna@mail" "secret" (some "u1") .null).1 ∧
      5 ≤ (board "u1" (performAll [.setBoard "u1" "2", .createGame "MyGame" "u1" 1 "-K1" "-K2"]
        (register "anna" "anna@mail" "secret" (some "u1") .null).1)).1.length ∧
      5 ≤ (figure "u1" (performAll [.setBoard "u1" "2", .createGame "MyGame" "u1" 1 "-K1" "-K2"]
        (register "anna" "anna@mail" "secret" (some "u1") .null).1)).1.length :=
  preferences_never_read "u1" .null (by decide) _

end MyIVR
