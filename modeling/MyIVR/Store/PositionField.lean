import MyIVR.Game.InitialBoard
import MyIVR.Store.DataService

/-! The square a piece records in its own field Position. Every new Piece object
is stored under its Position, and no call changes the field, so it stays right
until a piece goes to another square. -/
namespace MyIVR
open Swift KeyTree

/-- Every piece is stored under its Position. -/
def Coherent (b : Board) : Prop := ∀ k x, b k = some x → x.position = k

/-- A board as a game starts with it: set up by initBoardA over any dictionary on
0...63, or handed to the handler of loadGame for any database. -/
inductive Origin : GameData → Prop where
  | initBoardA (g : GameData) (prior : ∀ k, (g.boardA k).isSome → 0 ≤ k ∧ k ≤ 63) : Origin g.initBoardA
  | loadGame (gameID : String) (db : Snapshot) (call : Save) (fresh : Nat)
      (handed : call ∈ (loadGame gameID db).1) : Origin ⟨call.save, fresh⟩

/-- A call that assigns to the board. -/
inductive BoardCall where
  | goTo (p q : Square)
  | kill (p q : Square)
  | canKill (p q : Square)
  deriving DecidableEq, Repr

namespace BoardCall

def perform (g : GameData) : BoardCall → Except Fault GameData
  | goTo p q => .ok (g.goTo p.key q.key)
  | kill p q => .ok (g.kill p.key q.key)
  | canKill p q => (g.canKill p.key q.key).map Prod.snd

def performs (g : GameData) (calls : List BoardCall) : Except Fault GameData := calls.foldlM perform g

/-- A move that ends where it starts, or no move at all. -/
def Stays : BoardCall → Prop
  | goTo p q | kill p q => p = q
  | canKill _ _ => True

instance (c : BoardCall) : Decidable c.Stays := by
  cases c with
  | goTo p q | kill p q => exact inferInstanceAs (Decidable (p = q))
  | canKill => exact isTrue trivial

end BoardCall

section origin

theorem Coherent.place {g : GameData} (h : Coherent g.boardA) (k : Int) (type : PieceType) (color : Color) :
    Coherent (g.place k type color).boardA := by
  intro i x hx
  rw [GameData.place_boardA] at hx
  by_cases hi : i = k
  · subst i
    rw [Board.assign_same, Option.some.injEq] at hx
    rw [← hx]
  · rw [Board.assign_ne _ hi] at hx
    exact h i x hx

theorem coherent_initBoardA {g : GameData} (prior : ∀ k, (g.boardA k).isSome → 0 ≤ k ∧ k ≤ 63) :
    Coherent g.initBoardA.boardA := by
  intro k x hx
  have hrange : 0 ≤ k ∧ k ≤ 63 := (full_initBoardA prior k).mp (by rw [hx]; rfl)
  obtain ⟨s, rfl⟩ := exists_square hrange
  obtain ⟨n, type, color, _, hs⟩ := initBoardA_square g s
  cases hx.symm.trans hs
  rfl

private theorem loadSquare_places {snap : Snapshot} {g g' : GameData} {i : Int}
    (h : loadSquare snap g i = .ok g') : ∃ type color, g' = g.place i type color := by
  rw [loadSquare] at h
  obtain ⟨piece, _, h⟩ := bind_eq_ok h
  obtain ⟨color, _, h⟩ := bind_eq_ok h
  obtain ⟨type, _, h⟩ := bind_eq_ok h
  obtain ⟨color', _, h⟩ := bind_eq_ok h
  cases h
  exact ⟨type, color', rfl⟩

private theorem loadSquares_places {snap : Snapshot} {l : List Int} {g g' : GameData}
    (h : l.foldlM (loadSquare snap) g = .ok g') (hc : Coherent g.boardA) :
    Coherent g'.boardA ∧ ∀ k, (g'.boardA k).isSome ↔ k ∈ l ∨ (g.boardA k).isSome := by
  induction l generalizing g with
  | nil =>
    cases h
    exact ⟨hc, by simp⟩
  | cons i rest ih =>
    rw [List.foldlM_cons] at h
    obtain ⟨g₁, hplace, h⟩ := bind_eq_ok h
    obtain ⟨type, color, rfl⟩ := loadSquare_places hplace
    obtain ⟨hcoherent, hkeys⟩ := ih h (hc.place i type color)
    refine ⟨hcoherent, fun k => ?_⟩
    rw [hkeys, List.mem_cons, GameData.place_boardA]
    by_cases hk : k = i
    · subst k
      simp
    · rw [Board.assign_ne _ hk, or_iff_right hk]

private theorem loadRecord_board {snap : Snapshot} {g pieces : GameData} {save : Save}
    (h : loadRecord snap g = .ok (pieces, save)) :
    (upTo 0 63).foldlM (loadSquare snap) g = .ok pieces ∧ save.save = pieces.boardA := by
  rw [loadRecord] at h
  obtain ⟨pieces', hsquares, h⟩ := bind_eq_ok h
  iterate 7 obtain ⟨_, _, h⟩ := bind_eq_ok h
  cases h
  exact ⟨hsquares, rfl⟩

private theorem loadRecords_coherent {snaps : List Snapshot} {g : GameData} (hc : Coherent g.boardA)
    (hin : ∀ k, (g.boardA k).isSome → 0 ≤ k ∧ k ≤ 63) :
    ∀ call ∈ (loadRecords snaps g).1, Full call.save ∧ Coherent call.save := by
  induction snaps generalizing g with
  | nil => exact List.forall_mem_nil _
  | cons snap rest ih =>
    rw [loadRecords]
    cases hrecord : loadRecord snap g with
    | error fault => exact List.forall_mem_nil _
    | ok result =>
      obtain ⟨pieces, save⟩ := result
      obtain ⟨hsquares, hsave⟩ := loadRecord_board hrecord
      obtain ⟨hcoherent, hkeys⟩ := loadSquares_places hsquares hc
      have hfull : Full pieces.boardA := by
        intro k
        rw [hkeys, mem_upTo]
        exact ⟨fun hk => hk.elim id (hin k), .inl⟩
      have hrest := ih hcoherent (fun k => (hfull k).mp)
      intro call hcall
      rcases List.mem_cons.mp hcall with rfl | hcall
      · rw [hsave]
        exact ⟨hfull, hcoherent⟩
      · exact hrest call hcall

theorem Origin.coherent {g : GameData} (h : Origin g) : Full g.boardA ∧ Coherent g.boardA := by
  cases h with
  | initBoardA g prior => exact ⟨full_initBoardA prior, coherent_initBoardA prior⟩
  | loadGame gameID db call fresh handed =>
    refine loadRecords_coherent (fun k x hx => by cases hx) (fun k hk => by cases hk) call handed

end origin

section run
variable {g g' : GameData}

private theorem goTo_coherent_iff (hfull : Full g.boardA) (h : Coherent g.boardA) (p q : Square) :
    Coherent (g.goTo p.key q.key).boardA ↔ p = q := by
  obtain ⟨x, hx⟩ := hfull.at_square p
  rw [GameData.goTo_boardA]
  constructor
  · intro hafter
    by_contra hne
    have hkey : q.key ≠ p.key := fun heq => hne (Square.key_inj.mp heq).symm
    have hq := hafter q.key x (by rw [Board.assign_ne _ hkey, Board.assign_same, hx])
    exact hkey (hq.symm.trans (h p.key x hx))
  · rintro rfl
    rw [Board.assign_self]
    exact h.place p.key .empty .white

private theorem call_coherent_iff (hfull : Full g.boardA) (h : Coherent g.boardA) {c : BoardCall}
    (hc : c.perform g = .ok g') : Full g'.boardA ∧ (Coherent g'.boardA ↔ c.Stays) := by
  cases c with
  | goTo p q | kill p q =>
    cases hc
    exact ⟨GameData.full_goTo hfull p.key_range q.key_range, goTo_coherent_iff hfull h p q⟩
  | canKill p q =>
    rw [BoardCall.perform] at hc
    cases hkill : g.canKill p.key q.key with
    | error e =>
      rw [hkill] at hc
      cases hc
    | ok result =>
      obtain ⟨r, g₁⟩ := result
      rw [hkill] at hc
      cases hc
      rw [GameData.canKill_boardA hkill]
      exact ⟨hfull, iff_of_true h trivial⟩

private theorem performs_snoc {calls : List BoardCall} {c : BoardCall}
    (h : BoardCall.performs g (calls ++ [c]) = .ok g') :
    ∃ g₁, BoardCall.performs g calls = .ok g₁ ∧ c.perform g₁ = .ok g' := by
  rw [BoardCall.performs, List.foldlM_append] at h
  obtain ⟨g₁, hcalls, h⟩ := bind_eq_ok h
  rw [List.foldlM_cons] at h
  obtain ⟨g₂, hc, h⟩ := bind_eq_ok h
  cases h
  exact ⟨g₁, hcalls, hc⟩

private theorem performs_stay (hfull : Full g.boardA) (h : Coherent g.boardA) {calls : List BoardCall}
    (hrun : BoardCall.performs g calls = .ok g') (hstay : ∀ c ∈ calls, c.Stays) :
    Full g'.boardA ∧ Coherent g'.boardA := by
  induction calls using List.reverseRecOn generalizing g' with
  | nil =>
    cases hrun
    exact ⟨hfull, h⟩
  | append_singleton calls c ih =>
    obtain ⟨g₁, hcalls, hc⟩ := performs_snoc hrun
    obtain ⟨hfull₁, h₁⟩ := ih hcalls (fun c' hc' => hstay c' (List.mem_append_left _ hc'))
    obtain ⟨hfull', hiff⟩ := call_coherent_iff hfull₁ h₁ hc
    exact ⟨hfull', hiff.mpr (hstay c (by simp))⟩

/-- Through any calls that return, from any board a game starts with: every piece
is under its Position on all boards on the way exactly when no GoTo or kill goes
to another square. -/
theorem positions_coherent_iff (horigin : Origin g) {calls : List BoardCall}
    (hrun : BoardCall.performs g calls = .ok g') :
    (∀ past rest g₁, calls = past ++ rest → BoardCall.performs g past = .ok g₁ → Coherent g₁.boardA) ↔
      ∀ c ∈ calls, c.Stays := by
  obtain ⟨hfull, hstart⟩ := horigin.coherent
  constructor
  · intro hall
    induction calls using List.reverseRecOn generalizing g' with
    | nil => exact List.forall_mem_nil _
    | append_singleton calls c ih =>
      obtain ⟨g₁, hcalls, hc⟩ := performs_snoc hrun
      have hpast := ih hcalls (fun past rest g₂ heq => hall past (rest ++ [c]) g₂ (by rw [heq, List.append_assoc]))
      obtain ⟨hfull₁, h₁⟩ := performs_stay hfull hstart hcalls hpast
      have hlast := (call_coherent_iff hfull₁ h₁ hc).2.mp (hall _ [] g' (List.append_nil _).symm hrun)
      exact List.forall_mem_append.mpr ⟨hpast, by simpa using hlast⟩
  · rintro hstay past rest g₁ rfl hpast
    exact (performs_stay hfull hstart hpast (fun c hc => hstay c (List.mem_append_left _ hc))).2

end run

private theorem origin_newGame : Origin GameData.new.initBoardA :=
  .initBoardA .new (fun k hk => by cases hk)

/-- After white's opening pawn move the pawn on 24 still has Position 8. -/
theorem moved_pawn_incoherent :
    Origin GameData.new.initBoardA ∧
      ((GameData.new.initBoardA.goTo 8 24).boardA 24).map Piece.position = some 8 ∧
      ¬ Coherent (GameData.new.initBoardA.goTo 8 24).boardA := by
  have hposition : ((GameData.new.initBoardA.goTo 8 24).boardA 24).map Piece.position = some 8 := by
    decide +kernel
  refine ⟨origin_newGame, hposition, fun h => ?_⟩
  obtain ⟨x, hx, hx8⟩ := Option.map_eq_some_iff.mp hposition
  exact absurd ((h 24 x hx).symm.trans hx8) (by decide)

/-- A bishop that is sent to its own square leaves the board coherent. -/
theorem staying_bishop_coherent : Coherent (GameData.new.initBoardA.goTo 2 2).boardA :=
  (positions_coherent_iff origin_newGame (show BoardCall.performs _ [.goTo 2 2] = .ok _ from rfl)).mpr
    (by decide) [.goTo 2 2] [] _ rfl rfl

end MyIVR
