import MyIVR.Game.PawnProgress
import MyIVR.Game.QueenRule

/-! The way of every object of a new game. Its updates form one unbroken way from
its first square to where it stands, in the geometry of its kind; kings have no
way at all, bishops keep the colour of their square and knights change it. -/
namespace MyIVR
open Swift Full Itinerary

/-- What holds of the board of a new game, and is kept by every executed update
together with the updates before it, holds after every run. -/
theorem newGame_induction (Inv : Board → List Move → Prop) (start : Inv startNewGame.verf.boardA [])
    (move : ∀ w done p q m, Worker.Playing GameData.new.initBoardA w done → Worker.Executes w p q m →
      Inv w.verf.boardA done → Inv m.after.boardA (done ++ [m]))
    (taps : List Square) : Inv (startNewGame.run taps).verf.boardA (startNewGame.executed taps) := by
  refine (Mealy.run_induction (fun w done => Worker.Playing GameData.new.initBoardA w done ∧
    Inv w.verf.boardA done) ⟨.start full_newGame emptiesWhite_newGame, start⟩ ?_ taps).2
  rintro w done s ⟨hplaying, hinv⟩
  refine ⟨hplaying.tap s, ?_⟩
  cases hmove : (w.tap s).2 with
  | none =>
    rw [Option.toList_none, List.append_nil, hplaying.same_board hmove]
    exact hinv
  | some m =>
    obtain ⟨p, hexecutes⟩ := hplaying.executes hmove
    rw [Option.toList_some, hexecutes.after]
    exact move w done p s m hplaying hexecutes hinv

namespace Worker.Executes
variable {w : Worker} {p q : Square} {m : Move}

theorem reaches (h : Executes w p q m) {x : Piece} (hx : m.before.boardA p.key = some x) :
    Reaches x.pieceType x.color p.key q.key := by
  have haccept := h.accept
  cases hk : m.kind with
  | goTo =>
    rw [hk] at haccept
    exact ((h.full.canGoTo_true_iff p q hx).mp haccept).1.1
  | kill =>
    rw [hk] at haccept
    exact ((h.full.kills_true_iff p q hx).mp haccept.2).1.2

theorem lineFree (h : Executes w p q m) {x : Piece} (hx : m.before.boardA p.key = some x) :
    LineFree m.before.boardA x.pieceType p.key q.key := by
  have haccept := h.accept
  cases hk : m.kind with
  | goTo =>
    rw [hk] at haccept
    have hline := ((h.full.canGoTo_true_iff p q hx).mp haccept).2
    exact fun k hkey => ⟨(hline k hkey).1, .inr (hline k hkey).2⟩
  | kill =>
    rw [hk] at haccept
    exact ((h.full.kills_true_iff p q hx).mp haccept.2).2

end Worker.Executes

/-- The object that stands on a square when the game starts. -/
def StartsOn (x : Piece) (s : Square) : Prop := occupants startNewGame.verf.boardA s = some x

/-- The updates of each object lead from its first square to the one it stands on. -/
def Travels (b : Board) (done : List Move) : Prop :=
  ∀ x s, StartsOn x s → ∃ t : Square,
    Leads Move.position Move.nextPosition s.key (journey x.ref done) t.key ∧
      (∀ i, occupants b i = some x → i = t) ∧
      ∀ m ∈ journey x.ref done, Reaches x.pieceType x.color m.position m.nextPosition

private theorem startsOn_unique {x : Piece} {s t : Square} (hs : StartsOn x s) (ht : StartsOn x t) :
    s = t :=
  (represents_of_reaches full_newGame (.refl _)).apart s t x x hs ht rfl

private theorem travels_start : Travels startNewGame.verf.boardA [] := by
  intro x s hs
  exact ⟨s, .stay s.key, fun i hi => startsOn_unique hi hs, List.forall_mem_nil _⟩

private theorem travels_move {w : Worker} {done : List Move} {p q : Square} {m : Move}
    (hplaying : Worker.Playing GameData.new.initBoardA w done) (he : Worker.Executes w p q m)
    (h : Travels w.verf.boardA done) : Travels m.after.boardA (done ++ [m]) := by
  have hrepresents : Represents .new w.verf.boardA :=
    represents_of_reaches hplaying.full hplaying.reaches
  obtain ⟨x, hx, hoccupied, _⟩ := he.source_occupied
  have hstand : occupants w.verf.boardA p = some x := occupants_eq_some.mpr ⟨he.before ▸ hx, hoccupied⟩
  have hmoves (ref : Nat) : m.Moves ref ↔ x.ref = ref := by
    rw [Move.Moves, Move.mover, he.position, hx, Option.map_some, Option.some.injEq]
  intro y s hs
  obtain ⟨t, hleads, hstands, hlegs⟩ := h y s hs
  rw [he.occupants_after, he.before]
  by_cases href : x.ref = y.ref
  · have hxy : x = y := initialPieces_eq (hrepresents.drawn p x hstand) ⟨s, hs⟩ href
    subst y
    rw [journey_moved ((hmoves _).mpr rfl)]
    refine ⟨q, ?_, fun i hi => ?_, ?_⟩
    · rw [← he.nextPosition]
      apply Leads.leg
      rwa [he.position, hstands p hstand]
    · obtain ⟨hip, ⟨hiq, _⟩ | ⟨_, hi⟩⟩ := Placement.relocate_origin hi
      · exact hiq
      · exact absurd ((hstands i hi).trans (hstands p hstand).symm) hip
    · rw [List.forall_mem_append, List.forall_mem_singleton, he.position, he.nextPosition]
      exact ⟨hlegs, he.reaches hx⟩
  · rw [journey_other (fun hm => href ((hmoves _).mp hm))]
    refine ⟨t, hleads, fun i hi => ?_, hlegs⟩
    obtain ⟨_, ⟨_, hpy⟩ | ⟨_, hi⟩⟩ := Placement.relocate_origin hi
    · exact absurd (congrArg Piece.ref (Option.some.inj (hstand.symm.trans hpy))) href
    · exact hstands i hi

theorem travels_run (taps : List Square) :
    Travels (startNewGame.run taps).verf.boardA (startNewGame.executed taps) :=
  newGame_induction Travels travels_start (fun _ _ _ _ _ hplaying he h => travels_move hplaying he h) taps

private def Gone (b : Board) (done : List Move) : Prop :=
  (∀ m ∈ done, ∀ y, m.before.boardA m.nextPosition = some y → y.pieceType ≠ .empty →
    ∀ i, occupants b i ≠ some y) ∧
  done.Pairwise (fun m m' => ∀ y, m.before.boardA m.nextPosition = some y → y.pieceType ≠ .empty →
    ∀ x, m'.mover = some x → x ≠ y)

private theorem gone_move {w : Worker} {done : List Move} {p q : Square} {m : Move}
    (hplaying : Worker.Playing GameData.new.initBoardA w done) (he : Worker.Executes w p q m)
    (h : Gone w.verf.boardA done) : Gone m.after.boardA (done ++ [m]) := by
  have hrepresents : Represents .new w.verf.boardA :=
    represents_of_reaches hplaying.full hplaying.reaches
  obtain ⟨x, hx, hoccupied, _⟩ := he.source_occupied
  have hstand : occupants w.verf.boardA p = some x := occupants_eq_some.mpr ⟨he.before ▸ hx, hoccupied⟩
  obtain ⟨habsent, horder⟩ := h
  constructor
  · intro m' hm' y hy hne i hi
    rw [he.occupants_after, he.before] at hi
    obtain ⟨hip, horigin⟩ := Placement.relocate_origin hi
    rcases List.mem_append.mp hm' with hm' | hm'
    · rcases horigin with ⟨_, hpy⟩ | ⟨_, hiy⟩
      · exact habsent m' hm' y hy hne p hpy
      · exact habsent m' hm' y hy hne i hiy
    · rw [List.mem_singleton.mp hm', he.nextPosition, he.before] at hy
      have hq : occupants w.verf.boardA q = some y := occupants_eq_some.mpr ⟨hy, hne⟩
      rcases horigin with ⟨hiq, hpy⟩ | ⟨hiq, hiy⟩
      · exact hip (hiq.trans (hrepresents.apart q p y y hq hpy rfl))
      · exact hiq (hrepresents.apart i q y y hiy hq rfl)
  · rw [List.pairwise_append]
    refine ⟨horder, List.pairwise_singleton _ _, fun m' hm' e he' y hy hne z hz hzy => ?_⟩
    rw [List.mem_singleton.mp he', Move.mover, he.position, hx, Option.some.injEq] at hz
    exact habsent m' hm' y hy hne p (hzy ▸ hz ▸ hstand)

private theorem movers {w : Worker} {done : List Move} {p q : Square} {m : Move}
    (hplaying : Worker.Playing GameData.new.initBoardA w done) (he : Worker.Executes w p q m) :
    ∃ x s, StartsOn x s ∧ m.mover = some x := by
  obtain ⟨x, hx, hoccupied, _⟩ := he.source_occupied
  have hstand : occupants w.verf.boardA p = some x := occupants_eq_some.mpr ⟨he.before ▸ hx, hoccupied⟩
  obtain ⟨s, hs⟩ := (represents_of_reaches hplaying.full hplaying.reaches).drawn p x hstand
  exact ⟨x, s, hs, by rw [Move.mover, he.position, hx]⟩

/-- In every run of a new game the updates that move one object lead from its first
square to where it stands, each in the geometry of its kind. Every update moves an
object of the first board, and none that an update before it took off the board. -/
theorem objects_travel (taps : List Square) :
    Travels (startNewGame.run taps).verf.boardA (startNewGame.executed taps) ∧
      (∀ m ∈ startNewGame.executed taps, ∃ x s, StartsOn x s ∧ m.mover = some x) ∧
      (startNewGame.executed taps).Pairwise (fun m m' => ∀ y,
        m.before.boardA m.nextPosition = some y → y.pieceType ≠ .empty →
          ∀ x, m'.mover = some x → x ≠ y) := by
  refine ⟨travels_run taps, fun m hm => ?_, ?_⟩
  · obtain ⟨ts, p, q, us, _, he⟩ := executed_newGame hm
    exact movers (playing_newGame ts) he
  · exact (newGame_induction Gone ⟨List.forall_mem_nil _, .nil⟩
      (fun _ _ _ _ _ hplaying he h => gone_move hplaying he h) taps).2

section kings

private theorem king_stands {x : Piece} {s : Square} (hs : StartsOn x s) (hking : x.pieceType = .king)
    (taps : List Square) : occupants (startNewGame.run taps).verf.boardA s = some x ↔
      ∀ m ∈ startNewGame.executed taps, m.nextPosition ≠ s.key := by
  refine newGame_induction (fun b done => occupants b s = some x ↔ ∀ m ∈ done, m.nextPosition ≠ s.key)
    (iff_of_true hs (List.forall_mem_nil _)) (fun w done p q m _ he ih => ?_) taps
  obtain ⟨y, hy, hoccupied, _⟩ := he.source_occupied
  have hstand : occupants w.verf.boardA p = some y := occupants_eq_some.mpr ⟨he.before ▸ hy, hoccupied⟩
  have hmover : y ≠ x := by
    rintro rfl
    have hreaches := he.reaches hy
    rw [hking] at hreaches
    exact hreaches
  rw [List.forall_mem_append, List.forall_mem_singleton, he.nextPosition, he.occupants_after, he.before, ← ih]
  by_cases hp : s = p
  · subst hp
    rw [Placement.relocate_source, hstand]
    exact iff_of_false nofun (fun h => hmover (Option.some.inj h.1))
  by_cases hq : s = q
  · subst hq
    rw [Placement.relocate_target hp, hstand]
    exact iff_of_false (fun h => hmover (Option.some.inj h)) (fun h => h.2 rfl)
  · rw [Placement.relocate_other hp hq]
    exact (and_iff_left (fun heq => hq (Square.key_inj.mp heq.symm))).symm

/-- In every run of a new game a king is moved by no update. It stands on its first
square as long as no update has gone there, and nowhere else. -/
theorem kings_stay (taps : List Square) {x : Piece} {s : Square} (hs : StartsOn x s)
    (hking : x.pieceType = .king) :
    journey x.ref (startNewGame.executed taps) = [] ∧
      ∀ i, occupants (startNewGame.run taps).verf.boardA i = some x ↔
        i = s ∧ ∀ m ∈ startNewGame.executed taps, m.nextPosition ≠ s.key := by
  obtain ⟨t, hleads, hstands, hlegs⟩ := travels_run taps x s hs
  have hnone : journey x.ref (startNewGame.executed taps) = [] := by
    rw [List.eq_nil_iff_forall_not_mem]
    intro m hm
    have hreaches := hlegs m hm
    rw [hking] at hreaches
    exact hreaches
  rw [hnone] at hleads
  have hts : t = s := Square.key_inj.mp hleads.eq_of_nil
  refine ⟨hnone, fun i => ⟨fun hi => ?_, ?_⟩⟩
  · have his : i = s := (hstands i hi).trans hts
    exact ⟨his, (king_stands hs hking taps).mp (his ▸ hi)⟩
  · rintro ⟨rfl, hfree⟩
    exact (king_stands hs hking taps).mpr hfree

theorem white_king_stays :
    journey 4 (startNewGame.executed [8, 24, 57, 42]) = [] ∧
      ∀ i, occupants (startNewGame.run [8, 24, 57, 42]).verf.boardA i = some ⟨4, .king, 4, .white⟩ ↔
        i = 4 ∧ ∀ m ∈ startNewGame.executed [8, 24, 57, 42], m.nextPosition ≠ Square.key 4 :=
  kings_stay [8, 24, 57, 42] (x := ⟨4, .king, 4, .white⟩) (s := 4) rfl rfl

end kings

section colours

/-- The squares whose row and column have an odd sum. -/
def light (k : Int) : Bool := decide ((row k + col k) % 2 = 1)

private theorem light_diagonal {p q : Int} (h : |row p - row q| = |col p - col q|) : light q = light p := by
  rw [light, light, decide_eq_decide]
  rcases abs_eq_abs.mp h with h | h <;> omega

private theorem light_jump {p q : Int} (h : knightJump (row p) (col p) (row q) (col q)) :
    light q = !light p := by
  rw [light, light, ← decide_not, decide_eq_decide]
  simp only [knightJump] at h
  omega

private theorem not_iterate (n : Nat) (b : Bool) : Nat.iterate not n b = b ↔ Even n := by
  rcases Nat.even_or_odd n with h | h
  · rw [Function.Involutive.iterate_even Bool.involutive_not h]
    exact iff_of_true rfl h
  · rw [Function.Involutive.iterate_odd Bool.involutive_not h]
    exact iff_of_false (Bool.not_ne_self b) (Nat.not_even_iff_odd.mpr h)

/-- In every run of a new game a bishop stands on squares of the colour of its first
square, and a knight exactly when it has been moved an even number of times. -/
theorem bishops_and_knights_colours (taps : List Square) {x : Piece} {s i : Square} (hs : StartsOn x s)
    (hi : occupants (startNewGame.run taps).verf.boardA i = some x) :
    (x.pieceType = .bishop → light i.key = light s.key) ∧
      (x.pieceType = .knight → (light i.key = light s.key ↔
        Even (journey x.ref (startNewGame.executed taps)).length)) := by
  obtain ⟨t, hleads, hstands, hlegs⟩ := travels_run taps x s hs
  rw [hstands i hi]
  constructor
  · intro hbishop
    rw [hbishop] at hlegs
    exact hleads.invariant (fun m hm => light_diagonal (hlegs m hm))
  · intro hknight
    rw [hknight] at hlegs
    have hturned : light t.key = not^[(journey x.ref (startNewGame.executed taps)).length] (light s.key) :=
      hleads.iterate (fun m hm => light_jump (hlegs m hm))
    rw [hturned]
    exact not_iterate _ _

theorem moved_knight_colour :
    (PieceType.knight = .bishop → light (Square.key 18) = light (Square.key 1)) ∧
      (PieceType.knight = .knight → (light (Square.key 18) = light (Square.key 1) ↔
        Even (journey 1 (startNewGame.executed [1, 18])).length)) :=
  bishops_and_knights_colours [1, 18] (x := ⟨1, .knight, 1, .white⟩) (s := 1) (i := 18) rfl (by decide +kernel)

end colours

private theorem squares_differ {w : Worker} {p q : Square} {m : Move} (he : Worker.Executes w p q m)
    {x : Piece} (hx : m.before.boardA p.key = some x) (hne : x.pieceType ≠ .bishop)
    (hoccupied : x.pieceType ≠ .empty) : p ≠ q := by
  rintro rfl
  have haccepted : acceptance m.before p.key p.key = .ok true := by
    rw [acceptance_true_iff]
    have haccept := he.accept
    cases hk : m.kind <;> rw [hk] at haccept
    · exact .inl haccept
    · exact .inr haccept
  have htake := ((he.full.accepted_iff p p hx (fun hb => absurd hb hne)).mp haccepted).2.1
  exact not_takeable_self (by rwa [emptyAt_some hx, beq_eq_false_iff_ne]) htake

/-- In every run of a new game each update of a rook or a queen goes along a row or
along a column, to another square. No queen ever moves along a diagonal. -/
theorem rooks_and_queens_straight (taps : List Square) :
    ∀ m ∈ startNewGame.executed taps, ∀ x, m.mover = some x →
      x.pieceType = .rook ∨ x.pieceType = .queen →
        (row m.position = row m.nextPosition ↔ col m.position ≠ col m.nextPosition) := by
  intro m hm x hx htype
  obtain ⟨ts, p, q, us, _, he⟩ := executed_newGame hm
  rw [Move.mover, he.position] at hx
  rw [he.position, he.nextPosition]
  have hdiffer : p ≠ q := squares_differ he hx
    (by rcases htype with h | h <;> rw [h] <;> decide) (by rcases htype with h | h <;> rw [h] <;> decide)
  constructor
  · intro hr hc
    exact hdiffer (same_square hr hc)
  · intro hc
    by_contra hr
    rcases htype with hrook | hqueen
    · have hreaches := he.reaches hx
      rw [hrook] at hreaches
      exact hreaches.elim hc hr
    · have hline := he.lineFree hx
      rw [hqueen] at hline
      exact queen_diagonal_not_free _ hr hc hline

theorem moved_rook_straight : ∃ m ∈ startNewGame.executed [9, 25, 48, 32, 0, 16],
    (m.position = 0 ∧ m.nextPosition = 16) ∧
      (row m.position = row m.nextPosition ↔ col m.position ≠ col m.nextPosition) := by
  have hlast : ((startNewGame.executed [9, 25, 48, 32, 0, 16]).map
      (fun m => (m.position, m.nextPosition, m.mover))).getLast? = some (0, 16, some ⟨0, .rook, 0, .white⟩) := by
    decide +kernel
  obtain ⟨m, hm, heq⟩ := List.mem_map.mp (List.mem_of_getLast? hlast)
  obtain ⟨hp, hq, hx⟩ : m.position = 0 ∧ m.nextPosition = 16 ∧ m.mover = some ⟨0, .rook, 0, .white⟩ := by
    simpa using heq
  exact ⟨m, hm, ⟨hp, hq⟩, rooks_and_queens_straight [9, 25, 48, 32, 0, 16] m hm _ hx (.inl rfl)⟩

end MyIVR
