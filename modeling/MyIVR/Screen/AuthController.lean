import MyIVR.Foundations.Mealy
import MyIVR.Store.Preferences

/-! AuthController, the screen of registration and sign-in. The Done button asks the
segmented control for the mode and the Return key asks the flag signup. Each path has
its own copy of the decision and of the record. -/
namespace MyIVR
open Swift KeyTree

structure TextField where
  text : String
  placeholder : String
  alpha : Int
  isEnabled : Bool
  deriving DecidableEq, Repr

/-- The index is that of segementedControl, and `doneBtn` the text on the button. -/
structure AuthController where
  signup : Bool
  selectedSegmentIndex : Int
  doneBtn : String
  emailField : TextField
  nameField : TextField
  passwordField : TextField
  deriving DecidableEq, Repr

/-- What Firebase Auth hands to a completion: the id of `result`, and `error`. -/
structure AuthResult where
  result : Option String
  error : Option String
  deriving DecidableEq, Repr

/-- The id bound by `if error == nil { if let result = result { ... } }`. -/
def AuthResult.user (r : AuthResult) : Option String := if r.error = none then r.result else none

/-- A call that a submission makes, to Firebase or to the screen. -/
inductive AuthEffect where
  | createUser (email password : String)
  | signIn (email password : String)
  | updateUser (uid : String) (fields : List (String × String))
  | performSegue (identifier : String)
  | showAlert (message : String)
  | dismiss
  deriving DecidableEq, Repr

/-- The write a call sends to the database. -/
def AuthEffect.writes : AuthEffect → List (Write String Value)
  | updateUser uid fields =>
    [⟨["users", uid], fun t => t.merge (fields.map (fun e => (e.1, text e.2)))⟩]
  | _ => []

def submitted (effects : List AuthEffect) (db : Snapshot) : Snapshot :=
  runAll (effects.flatMap AuthEffect.writes) db

namespace AuthController

/-- The controller as the storyboard sets it up. -/
def initial : AuthController :=
  ⟨true, 0, "Регистрация", ⟨"", "", 1, true⟩, ⟨"", "", 1, true⟩, ⟨"", "", 1, true⟩⟩

section screen
variable (c : AuthController)

def showRegistration : AuthController :=
  { c with nameField := { c.nameField with alpha := 1, isEnabled := true }, doneBtn := "Регистрация" }

def showSignIn : AuthController :=
  { c with nameField := { c.nameField with alpha := 0, isEnabled := true }, doneBtn := "Вход" }

def viewDidLoad : AuthController :=
  let c := { c with emailField := { c.emailField with placeholder := "Email" } }
  let c := { c with nameField := { c.nameField with placeholder := "Name" } }
  let c := { c with passwordField := { c.passwordField with placeholder := "Password" } }
  c.showRegistration

def segmentChanged : AuthController :=
  if c.selectedSegmentIndex = 0 then c.showRegistration else c.showSignIn

variable (r : AuthResult)

/-- The calls of register, in order, when Auth answers r. -/
def register : List AuthEffect :=
  let email := c.emailField.text
  let password := c.passwordField.text
  let name := c.nameField.text
  if !name.isEmpty && !email.isEmpty && !password.isEmpty then
    .createUser email password :: match r.user with
      | some uid =>
        [.updateUser uid (newUserFields name email password), .performSegue "GoToNavController"]
      | none => []
  else [.showAlert "Заполните все поля"]

def signIn : List AuthEffect :=
  let email := c.emailField.text
  let password := c.passwordField.text
  if !email.isEmpty && !password.isEmpty then
    .signIn email password :: if r.error = none then [.performSegue "GoToNavController"] else []
  else [.showAlert "Заполните все поля"]

def donePressed : List AuthEffect := if c.selectedSegmentIndex = 0 then c.register r else c.signIn r

/-- The second component is the value returned to the text field. -/
def textFieldShouldReturn : List AuthEffect × Bool :=
  let email := c.emailField.text
  let password := c.passwordField.text
  let name := c.nameField.text
  let effects : List AuthEffect :=
    if c.signup then
      if !name.isEmpty && !email.isEmpty && !password.isEmpty then
        .createUser email password :: match r.user with
          | some uid =>
            [.updateUser uid [("name", name), ("email", email), ("password", password)], .dismiss]
          | none => []
      else [.showAlert "Заполните все поля"]
    else
      if !email.isEmpty && !password.isEmpty then
        .signIn email password :: if r.error = none then [.dismiss] else []
      else [.showAlert "Заполните все поля"]
  (effects, true)

end screen

/-- What the user does, with the answer of Auth where there is one. -/
inductive Input where
  | segment (index : Int)
  | email (text : String)
  | name (text : String)
  | password (text : String)
  | done (r : AuthResult)
  | returnKey (r : AuthResult)

def step (c : AuthController) : Input → AuthController × Option (List AuthEffect)
  | .segment index => ({ c with selectedSegmentIndex := index }.segmentChanged, none)
  | .email text => ({ c with emailField := { c.emailField with text := text } }, none)
  | .name text => ({ c with nameField := { c.nameField with text := text } }, none)
  | .password text => ({ c with passwordField := { c.passwordField with text := text } }, none)
  | .done r => (c, some (c.donePressed r))
  | .returnKey r => (c, some (c.textFieldShouldReturn r).1)

def after (inputs : List Input) : AuthController := Mealy.state step initial.viewDidLoad inputs

/-- The Done button and the Return key choose the same action, and leave the same fields
in the records of the users. -/
structure SubmitsAgree (c : AuthController) (r : AuthResult) (db : Snapshot) : Prop where
  action : (c.donePressed r).head? = (c.textFieldShouldReturn r).1.head?
  record : ∀ uid field, (submitted (c.donePressed r) db).get ["users", uid, field] =
    (submitted (c.textFieldShouldReturn r).1 db).get ["users", uid, field]

/-- The button names the mode of the segmented control, and the name is hidden in sign-in. -/
structure ShowsMode (c : AuthController) : Prop where
  button : c.doneBtn = if c.selectedSegmentIndex = 0 then "Регистрация" else "Вход"
  name : c.nameField.alpha = if c.selectedSegmentIndex = 0 then 1 else 0

section runs
variable (c : AuthController) (inputs : List Input)

theorem showsMode_segmentChanged : c.segmentChanged.ShowsMode := by
  by_cases h : c.selectedSegmentIndex = 0
  · rw [segmentChanged, if_pos h]
    exact ⟨(if_pos h).symm, (if_pos h).symm⟩
  · rw [segmentChanged, if_neg h]
    exact ⟨(if_neg h).symm, (if_neg h).symm⟩

/-- What the user sees is the mode in which the Done button acts. -/
theorem showsMode_after : (after inputs).ShowsMode := by
  refine Mealy.run_induction (fun (c : AuthController) _ => c.ShowsMode) ⟨rfl, rfl⟩ ?_ inputs
  intro c _ i h
  cases i with
  | segment index => exact showsMode_segmentChanged _
  | email | name | password | done | returnKey => exact ⟨h.button, h.name⟩

private theorem signup_segmentChanged : c.segmentChanged.signup = c.signup := by
  rw [segmentChanged]
  split <;> rfl

/-- Nothing the user does changes the flag that the Return key asks. -/
theorem signup_after : (after inputs).signup = true := by
  refine Mealy.run_induction (fun (c : AuthController) _ => c.signup = true) rfl ?_ inputs
  intro c _ i h
  cases i with
  | segment index => exact (signup_segmentChanged _).trans h
  | email | name | password | done | returnKey => exact h

/-- In no history does the Return key sign in. -/
theorem return_never_signs_in (r : AuthResult) (email password : String) :
    .signIn email password ∉ ((after inputs).textFieldShouldReturn r).1 := by
  simp only [textFieldShouldReturn]
  rw [if_pos (signup_after inputs)]
  split
  · cases r.user <;> simp
  · simp

end runs

section record
variable (uid : String) (db : Snapshot)

private theorem get_updateUser (fields : List (String × String)) (field : String) :
    (submitted [.updateUser uid fields] db).get ["users", uid, field] =
      ((db.get ["users", uid]).merge (fields.map (fun e => (e.1, text e.2)))).child field :=
  Node.get_modify_below _ db ["users", uid] [field]

private theorem get_updateUser_ne (fields : List (String × String)) {uid' : String} (h : uid ≠ uid')
    (field : String) : (submitted [.updateUser uid fields] db).get ["users", uid', field] =
      db.get ["users", uid', field] :=
  Node.get_modify_apart _ db (.inr (.inl h))

private theorem record_iff (fields : List (String × String)) {added : List (String × String)}
    (hnodup : (added.map Prod.fst).Nodup)
    (hdisjoint : ∀ k ∈ added.map Prod.fst, k ∉ fields.map Prod.fst) :
    (∀ uid' field, (submitted [.updateUser uid (fields ++ added)] db).get ["users", uid', field] =
        (submitted [.updateUser uid fields] db).get ["users", uid', field]) ↔
      ∀ e ∈ added, db.get ["users", uid, e.1] = text e.2 := by
  have hkeys (l : List (String × String)) :
      (l.map (fun e => (e.1, text e.2))).map Prod.fst = l.map Prod.fst := List.map_map
  have hadded : ((added.map (fun e => (e.1, text e.2))).map Prod.fst).Nodup := by rwa [hkeys]
  have hkeeps := Node.merge_keeps_iff
    ((db.get ["users", uid]).merge (fields.map (fun e => (e.1, text e.2)))) hadded
  rw [← Node.merge_append, ← List.map_append] at hkeeps
  have hbefore {e : String × String} (he : e ∈ added) :
      ((db.get ["users", uid]).merge (fields.map (fun e => (e.1, text e.2)))).child e.1 =
        db.get ["users", uid, e.1] := by
    apply Node.child_merge_of_notMem
    rw [hkeys]
    exact hdisjoint e.1 (List.mem_map_of_mem he)
  constructor
  · intro h e he
    rw [← hbefore he]
    refine hkeeps.mp (fun k => ?_) (e.1, text e.2) (List.mem_map_of_mem he)
    rw [← get_updateUser, ← get_updateUser, h uid k]
  · intro h uid' field
    by_cases huid : uid = uid'
    · subst huid
      rw [get_updateUser, get_updateUser]
      refine hkeeps.mpr (fun e he => ?_) field
      obtain ⟨e', he', rfl⟩ := List.mem_map.mp he
      rw [hbefore he', h e' he']
    · rw [get_updateUser_ne uid db _ huid, get_updateUser_ne uid db _ huid]

end record

/-- The registration of the Done button is the one that the readers of the preferences follow. -/
theorem submitted_register (c : AuthController) (r : AuthResult) (db : Snapshot) :
    submitted (c.register r) db =
      (MyIVR.register c.nameField.text c.emailField.text c.passwordField.text r.user db).1 := by
  simp only [register, MyIVR.register]
  split
  · cases r.user <;> rfl
  · rfl

section paths
variable {c : AuthController} (r : AuthResult) (db : Snapshot)

section unfilled

private theorem register_unfilled
    (h : c.nameField.text = "" ∨ c.emailField.text = "" ∨ c.passwordField.text = "") :
    c.register r = [.showAlert "Заполните все поля"] := by
  rw [register, if_neg]
  rcases h with h | h | h <;> simp [h]

private theorem signIn_unfilled (h : c.emailField.text = "" ∨ c.passwordField.text = "") :
    c.signIn r = [.showAlert "Заполните все поля"] := by
  rw [signIn, if_neg]
  rcases h with h | h <;> simp [h]

private theorem done_unfilled (h : c.emailField.text = "" ∨ c.passwordField.text = "" ∨
    c.selectedSegmentIndex = 0 ∧ c.nameField.text = "") :
    c.donePressed r = [.showAlert "Заполните все поля"] := by
  rw [donePressed]
  split
  · rename_i hmode
    apply register_unfilled
    rcases h with h | h | ⟨_, h⟩
    · exact .inr (.inl h)
    · exact .inr (.inr h)
    · exact .inl h
  · rename_i hmode
    apply signIn_unfilled
    rw [← or_assoc] at h
    exact h.resolve_right (fun h => hmode h.1)

private theorem return_unfilled (hsignup : c.signup = true)
    (h : c.nameField.text = "" ∨ c.emailField.text = "" ∨ c.passwordField.text = "") :
    (c.textFieldShouldReturn r).1 = [.showAlert "Заполните все поля"] := by
  simp only [textFieldShouldReturn]
  rw [if_pos hsignup, if_neg]
  rcases h with h | h | h <;> simp [h]

private theorem agree_unfilled (hsignup : c.signup = true) (h : c.emailField.text = "" ∨
    c.passwordField.text = "" ∨ c.selectedSegmentIndex = 0 ∧ c.nameField.text = "") :
    c.SubmitsAgree r db := by
  have hreturn := return_unfilled r hsignup (or_rotate.mpr (h.imp_right (Or.imp_right And.right)))
  constructor
  · rw [done_unfilled r h, hreturn]
  · intro uid field
    rw [done_unfilled r h, hreturn]

end unfilled

variable (hemail : c.emailField.text ≠ "") (hpassword : c.passwordField.text ≠ "")
include hemail hpassword

private theorem signIn_differs (hsignup : c.signup = true) (hmode : c.selectedSegmentIndex ≠ 0) :
    ¬ c.SubmitsAgree r db := by
  intro h
  have haction := h.action
  rw [donePressed, if_neg hmode, signIn, if_pos (by simp [hemail, hpassword]), List.head?_cons] at haction
  by_cases hname : c.nameField.text = ""
  · rw [return_unfilled r hsignup (.inl hname)] at haction
    cases haction
  · simp only [textFieldShouldReturn] at haction
    rw [if_pos hsignup, if_pos (by simp [hname, hemail, hpassword]), List.head?_cons] at haction
    cases haction

private theorem done_filled (hmode : c.selectedSegmentIndex = 0) (hname : c.nameField.text ≠ "") :
    (c.donePressed r).head? = some (.createUser c.emailField.text c.passwordField.text) ∧
      submitted (c.donePressed r) db = r.user.elim db fun uid => submitted [.updateUser uid
        (newUserFields c.nameField.text c.emailField.text c.passwordField.text)] db := by
  rw [donePressed, if_pos hmode, register, if_pos (by simp [hname, hemail, hpassword])]
  refine ⟨List.head?_cons, ?_⟩
  cases r.user <;> rfl

private theorem return_filled (hsignup : c.signup = true) (hname : c.nameField.text ≠ "") :
    (c.textFieldShouldReturn r).1.head? =
        some (.createUser c.emailField.text c.passwordField.text) ∧
      submitted (c.textFieldShouldReturn r).1 db = r.user.elim db fun uid => submitted [.updateUser uid
        [("name", c.nameField.text), ("email", c.emailField.text), ("password", c.passwordField.text)]] db := by
  simp only [textFieldShouldReturn]
  rw [if_pos hsignup, if_pos (by simp [hname, hemail, hpassword])]
  refine ⟨List.head?_cons, ?_⟩
  cases r.user <;> rfl

private theorem registration (hsignup : c.signup = true) (hmode : c.selectedSegmentIndex = 0)
    (hname : c.nameField.text ≠ "") :
    c.SubmitsAgree r db ↔ ∀ uid, r.user = some uid →
      db.get ["users", uid, "board"] = text "1" ∧ db.get ["users", uid, "figure"] = text "1" := by
  obtain ⟨hdone, hdb⟩ := done_filled r db hemail hpassword hmode hname
  obtain ⟨hreturn, hdb'⟩ := return_filled r db hemail hpassword hsignup hname
  have hagree : c.SubmitsAgree r db ↔ ∀ uid field,
      (submitted (c.donePressed r) db).get ["users", uid, field] =
        (submitted (c.textFieldShouldReturn r).1 db).get ["users", uid, field] :=
    ⟨fun h => h.record, fun h => ⟨hdone.trans hreturn.symm, h⟩⟩
  rw [hagree, hdb, hdb']
  cases r.user with
  | none => simp
  | some uid =>
    have hnodup : (([("board", "1"), ("figure", "1")] : List (String × String)).map Prod.fst).Nodup := by
      simp
    refine (record_iff uid db [("name", c.nameField.text), ("email", c.emailField.text),
      ("password", c.passwordField.text)] hnodup (by simp)).trans ?_
    simp

end paths

section agreement
variable {c : AuthController} (hsignup : c.signup = true)
include hsignup

private theorem agree_iff (r : AuthResult) (db : Snapshot) : c.SubmitsAgree r db ↔
    c.emailField.text = "" ∨ c.passwordField.text = "" ∨ c.selectedSegmentIndex = 0 ∧
      (c.nameField.text = "" ∨ ∀ uid, r.user = some uid →
        db.get ["users", uid, "board"] = text "1" ∧ db.get ["users", uid, "figure"] = text "1") := by
  by_cases halert : c.emailField.text = "" ∨ c.passwordField.text = "" ∨
      c.selectedSegmentIndex = 0 ∧ c.nameField.text = ""
  · exact iff_of_true (agree_unfilled r db hsignup halert)
      (halert.imp_right (Or.imp_right (And.imp_right .inl)))
  obtain ⟨hemail, hrest⟩ := not_or.mp halert
  obtain ⟨hpassword, hrest⟩ := not_or.mp hrest
  rw [or_iff_right hemail, or_iff_right hpassword]
  by_cases hmode : c.selectedSegmentIndex = 0
  · have hname : c.nameField.text ≠ "" := fun hname => hrest ⟨hmode, hname⟩
    rw [and_iff_right hmode, or_iff_right hname]
    exact registration r db hemail hpassword hsignup hmode hname
  · exact iff_of_false (signIn_differs r db hemail hpassword hsignup hmode) (fun h => hmode h.1)

private theorem always_agree_iff : (∀ r db, c.SubmitsAgree r db) ↔
    c.emailField.text = "" ∨ c.passwordField.text = "" ∨
      c.selectedSegmentIndex = 0 ∧ c.nameField.text = "" := by
  constructor
  · intro h
    have hnew := (agree_iff hsignup _ _).mp (h ⟨some "", none⟩ .null)
    refine hnew.imp_right (Or.imp_right (And.imp_right (Or.resolve_right · fun hrecord => ?_)))
    have hboard := (hrecord "" rfl).1
    rw [Node.get_null] at hboard
    cases hboard
  · intro h r db
    exact (agree_iff hsignup r db).mpr (h.imp_right (Or.imp_right (And.imp_right .inl)))

end agreement

/-- After every history, the inputs and the databases on which the two paths agree, and
the histories after which they agree for every answer of Auth. -/
theorem submitsAgree_iff (inputs : List Input) :
    (∀ r db, (after inputs).SubmitsAgree r db ↔
      (after inputs).emailField.text = "" ∨ (after inputs).passwordField.text = "" ∨
        (after inputs).selectedSegmentIndex = 0 ∧ ((after inputs).nameField.text = "" ∨
          ∀ uid, r.user = some uid → db.get ["users", uid, "board"] = text "1" ∧
            db.get ["users", uid, "figure"] = text "1")) ∧
      ((∀ r db, (after inputs).SubmitsAgree r db) ↔
        (after inputs).emailField.text = "" ∨ (after inputs).passwordField.text = "" ∨
          (after inputs).selectedSegmentIndex = 0 ∧ (after inputs).nameField.text = "") :=
  ⟨agree_iff (signup_after inputs), always_agree_iff (signup_after inputs)⟩

/-- A user who fills in the fields and changes to sign-in: the Done button signs in, the
Return key creates an account. Without the change both register, with different records. -/
theorem return_registers :
    ¬ (after [.name "anna", .email "anna@mail", .password "secret", .segment 1]).SubmitsAgree
        ⟨some "u1", none⟩ .null ∧
      ((after [.name "anna", .email "anna@mail", .password "secret", .segment 1]).donePressed
        ⟨some "u1", none⟩).head? = some (.signIn "anna@mail" "secret") ∧
      ((after [.name "anna", .email "anna@mail", .password "secret", .segment 1]).textFieldShouldReturn
        ⟨some "u1", none⟩).1.head? = some (.createUser "anna@mail" "secret") ∧
      ¬ (after [.name "anna", .email "anna@mail", .password "secret"]).SubmitsAgree
        ⟨some "u1", none⟩ .null := by
  refine ⟨fun h => absurd h.action (by decide), by decide, by decide, fun h => ?_⟩
  rcases (agree_iff (signup_after _) _ _).mp h with hempty | hempty | ⟨_, hempty | hrecord⟩
  · exact absurd hempty (by decide)
  · exact absurd hempty (by decide)
  · exact absurd hempty (by decide)
  · cases (hrecord "u1" rfl).1

end AuthController

end MyIVR
