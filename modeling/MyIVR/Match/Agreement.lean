import MyIVR.Game.InitialBoard
import MyIVR.Match.FourPlayersGame

/-! The boards of two clients across a move. The sender publishes the number of
the board in place of the square it moved from, and the last tapped square in place
of the target, and applies no capture, so the boards stay equal only under a condition
on the squares. -/
namespace MyIVR
open Swift

/-- The board with the piece of p standing on q and p empty, object identities aside. -/
structure Moved (b : Board) (p q : Square) (b' : Board) : Prop where
  target : kindAt b' q.key = kindAt b p.key
  source : kindAt b' p.key = some (.empty, .white)
  others : ∀ k, k ≠ p.key → k ≠ q.key → kindAt b' k = kindAt b k

theorem moved_iff {b b' : Board} {p q : Square} (h : p ≠ q) :
    Moved b p q b' ↔ kindAt b' = Kinds.move (kindAt b) p.key q.key := by
  have hkeys : q.key ≠ p.key := fun hk => h (Square.key_inj.mp hk).symm
  constructor
  · intro hm
    funext k
    rw [Kinds.move]
    split
    · rename_i hp
      rw [hp, hm.source]
    · split
      · rename_i hq
        rw [hq, hm.target]
      · rename_i hp hq
        exact hm.others k hp hq
  · intro heq
    refine ⟨?_, ?_, fun k hp hq => ?_⟩
    · rw [heq, Kinds.move, if_neg hkeys, if_pos rfl]
    · rw [heq, Kinds.move, if_pos rfl]
    · rw [heq, Kinds.move, if_neg hp, if_neg hq]

namespace FourPlayersGame

/-- The client's loops have taken p and q: a black piece stands on p, and one of the
tests accepts the pair. What `number` holds by now is left open, for presses go on. -/
structure Chose (c : FourPlayersGame) (p q : Square) : Prop where
  source : c.source = p.key
  target : c.target = q.key
  selected : c.rejectsSource = false
  accepted : ∃ board, rejectsTarget c.board p.key q.key = .ok (false, board)

/-- The client after presses at these centres. -/
def pressed (c : FourPlayersGame) (presses : List (Int × Int)) : FourPlayersGame :=
  presses.foldl (fun c press => c.buttonPressed press.1 press.2) c

/-- The receiver behind cheking with a pair. The wait on semaphore2, which nothing
in the source signals, is granted. -/
def receivePair (r : FourPlayersGame) (pair : Int × Int) : FourPlayersGame :=
  ({ r with position1 := pair } : FourPlayersGame).receive

/-- After the sender's turn, with presses `late` before makeMove, and the receiver's
reading of its message the boards are equal, and equal to b with the move made. -/
def Agree (c r : FourPlayersGame) (p q : Square) (late : List (Int × Int)) : Prop :=
  let sent := c.targetHead.1.pressed late
  let received := r.receivePair sent.message
  kindAt received.board.boardA = kindAt sent.board.boardA ∧
    Moved c.board.boardA p q sent.board.boardA

/-- The square the piece moved from has the board's number, the last press before
makeMove was on q, the squares differ, and the move is one that CanGoTo accepts. -/
def Sound (c : FourPlayersGame) (p q : Square) (late : List (Int × Int)) : Prop :=
  c.boardID = p.key ∧ (c.pressed late).number = q.key ∧ p ≠ q ∧
    canGoTo c.board.boardA p.key q.key = .ok true

variable {c r : FourPlayersGame} {p q : Square}

private theorem pressed_same (c : FourPlayersGame) (late : List (Int × Int)) :
    (c.pressed late).board = c.board ∧ (c.pressed late).boardID = c.boardID := by
  induction late generalizing c with
  | nil => exact ⟨rfl, rfl⟩
  | cons press late ih => exact ih (c.buttonPressed press.1 press.2)

private theorem pressed_number {c c' : FourPlayersGame} (h : c'.number = c.number) (late : List (Int × Int)) :
    (c'.pressed late).number = (c.pressed late).number := by
  induction late generalizing c c' with
  | nil => exact h
  | cons press late ih => exact ih rfl

private theorem Chose.black (h : c.Chose p q) : kindAt c.board.boardA p.key ≠ some (.empty, .white) := by
  have hs := h.selected
  rw [rejectsSource, h.source, Bool.or_eq_false_iff] at hs
  intro hk
  obtain ⟨x, hx, hkind⟩ := Option.map_eq_some_iff.mp hk
  rw [Prod.mk.injEq] at hkind
  simp [hx, hkind.1] at hs

private theorem moveIfFree_cases (g : GameData) (p q : Int) :
    (∃ fault, canGoTo g.boardA p q = .error fault ∧ moveIfFree g p q = .error fault) ∨
      canGoTo g.boardA p q = .ok false ∧ moveIfFree g p q = .ok g ∨
        canGoTo g.boardA p q = .ok true ∧ moveIfFree g p q = .ok (g.goTo p q) := by
  rw [moveIfFree]
  rcases canGoTo g.boardA p q with fault | answer
  · exact .inl ⟨fault, rfl, rfl⟩
  · cases answer
    · exact .inr (.inl ⟨rfl, rfl⟩)
    · exact .inr (.inr ⟨rfl, rfl⟩)

/-- The sender's board after its turn: moved when CanGoTo accepts, as it was after a capture. -/
private theorem Chose.sent (h : c.Chose p q) (late : List (Int × Int)) :
    (c.targetHead.1.pressed late).message = (c.boardID, (c.pressed late).number) ∧
      ((canGoTo c.board.boardA p.key q.key = .ok true ∧
          ∃ board : GameData, board.boardA = c.board.boardA ∧
            (c.targetHead.1.pressed late).board = board.goTo p.key q.key) ∨
        canGoTo c.board.boardA p.key q.key ≠ .ok true ∧
          (c.targetHead.1.pressed late).board.boardA = c.board.boardA) := by
  obtain ⟨board, ha⟩ := h.accepted
  have hcases := c.targetHead_cases
  rw [h.source, h.target, ha] at hcases
  obtain ⟨hboard, hboardID⟩ := c.targetHead.1.pressed_same late
  rcases hcases with ⟨_, hr, _⟩ | ⟨_, hr, _⟩ | ⟨board', moved, hr, hb, hm, heq⟩
  · cases hr
  · cases hr
  · have hmessage : (c.targetHead.1.pressed late).message = (c.boardID, (c.pressed late).number) := by
      have hnumber : c.targetHead.1.number = c.number := by rw [heq]
      rw [message, hboardID, pressed_number hnumber late, heq]
    rw [hboard]
    refine ⟨hmessage, ?_⟩
    rw [heq]
    rcases moveIfFree_cases board' p.key q.key with ⟨_, _, hfree⟩ | ⟨hgo, hfree⟩ | ⟨hgo, hfree⟩
    · rw [hfree] at hm
      cases hm
    · rw [hfree] at hm
      cases hm
      rw [hb] at hgo
      exact .inr ⟨by rw [hgo]; simp, hb⟩
    · rw [hfree] at hm
      cases hm
      rw [hb] at hgo
      exact .inl ⟨hgo, board', hb, rfl⟩

private theorem receivePair_cases (r : FourPlayersGame) (m n : Int) :
    kindAt (r.receivePair (m, n)).board.boardA = kindAt r.board.boardA ∨
      canGoTo r.board.boardA m n = .ok true ∧
        kindAt (r.receivePair (m, n)).board.boardA = Kinds.move (kindAt r.board.boardA) m n := by
  rw [receivePair, receive]
  rcases moveIfFree_cases r.board m n with ⟨_, _, hfree⟩ | ⟨_, hfree⟩ | ⟨hgo, hfree⟩ <;> simp only [hfree]
  · exact .inl trivial
  · exact .inl trivial
  · exact .inr ⟨hgo, kindAt_goTo ..⟩

private theorem occupied_of_canGoTo {b : Board} {m n : Int} (h : canGoTo b m n = .ok true) :
    kindAt b m ≠ some (.empty, .white) := by
  intro hk
  obtain ⟨x, hx, hkind⟩ := Option.map_eq_some_iff.mp hk
  rw [Prod.mk.injEq] at hkind
  simp [canGoTo, hx, hkind.1] at h

private theorem kinds_differ {b : Board} (hb : Full b) (hgo : canGoTo b p.key q.key = .ok true) (hpq : p ≠ q) :
    kindAt b q.key ≠ kindAt b p.key := by
  intro hk
  obtain ⟨hp, htarget, _⟩ := hb.canGoTo_true hgo
  rcases htarget with rfl | hq | hne
  · exact hpq rfl
  · rw [emptyAt, typeAt_eq_kindAt, hk, ← typeAt_eq_kindAt, ← emptyAt, hp] at hq
    cases hq
  · rw [colorAt_eq_kindAt, colorAt_eq_kindAt, hk] at hne
    exact hne rfl

private theorem Sound.agree {late : List (Int × Int)} (hs : c.Sound p q late)
    (hequal : kindAt r.board.boardA = kindAt c.board.boardA) (h : c.Chose p q) : Agree c r p q late := by
  obtain ⟨hsource, hnumber, hpq, hgo⟩ := hs
  obtain ⟨hmessage, hsent⟩ := h.sent late
  rw [Agree]
  simp only [hmessage]
  rcases hsent with ⟨_, board, hb, hsent⟩ | ⟨hno, _⟩
  · have hreceived : (r.receivePair (c.boardID, (c.pressed late).number)).board = r.board.goTo p.key q.key := by
      rw [receivePair, receive, moveIfFree]
      simp only [hsource, hnumber, canGoTo_congr hequal, hgo, ok_bind]
      rfl
    rw [hsent, hreceived, kindAt_goTo, kindAt_goTo, hequal, moved_iff hpq, kindAt_goTo, hb]
    exact ⟨rfl, rfl⟩
  · exact absurd hgo hno

/-- Across an accepted move the boards agree exactly when it is sound. -/
theorem agree_iff (hfull : Full c.board.boardA) (hequal : kindAt r.board.boardA = kindAt c.board.boardA)
    (h : c.Chose p q) (late : List (Int × Int)) : Agree c r p q late ↔ Sound c p q late := by
  refine ⟨?_, fun hs => hs.agree hequal h⟩
  obtain ⟨hmessage, hsent⟩ := h.sent late
  rw [Agree]
  simp only [hmessage]
  rintro ⟨hagree, hmoved⟩
  have hpq : p ≠ q := by
    rintro rfl
    exact h.black (hmoved.target.symm.trans hmoved.source)
  have hkeys : q.key ≠ p.key := fun hk => hpq (Square.key_inj.mp hk).symm
  have hgo : canGoTo c.board.boardA p.key q.key = .ok true := by
    rcases hsent with ⟨hgo, _⟩ | ⟨_, hb⟩
    · exact hgo
    · rw [hb] at hmoved
      exact absurd hmoved.source h.black
  rcases r.receivePair_cases c.boardID (c.pressed late).number with hstays | ⟨hreceived, hmove⟩
  · rw [hstays, hequal] at hagree
    exact absurd ((congrFun hagree p.key).trans hmoved.source) h.black
  · rw [hmove, hequal] at hagree
    rw [canGoTo_congr hequal] at hreceived
    -- the message names the square that is empty afterwards, and the one that holds the piece
    have hsource : c.boardID = p.key := by
      by_contra hn
      have hp := (congrFun hagree p.key).trans hmoved.source
      rw [Kinds.move, if_neg (Ne.symm hn)] at hp
      split at hp
      · exact occupied_of_canGoTo hreceived hp
      · exact h.black hp
    refine ⟨hsource, ?_, hpq, hgo⟩
    by_contra hn
    have hq := (congrFun hagree q.key).trans hmoved.target
    rw [hsource, Kinds.move, if_neg hkeys, if_neg (Ne.symm hn)] at hq
    exact kinds_differ hfull hgo hpq hq

/-- The client when its loops have read p and then q, before any press that follows. -/
def ask (c : FourPlayersGame) (p q : Square) : FourPlayersGame :=
  { c with
    row := MyIVR.row p.key, col := MyIVR.col p.key
    row1 := MyIVR.row q.key, col1 := MyIVR.col q.key, number := q.key }

end FourPlayersGame

/-- A turn of one client: the squares its loops take, and the presses between its
reading of the target and makeMove. -/
structure Exchange where
  sender : Side
  source : Square
  target : Square
  late : List (Int × Int)

/-- One client moves, and the other reads its message. -/
def exchange (client : Side → FourPlayersGame) (e : Exchange) : Side → FourPlayersGame :=
  let sender := ((client e.sender).ask e.source e.target).targetHead.1.pressed e.late
  fun i => if i = e.sender then sender else (client i).receivePair sender.message

def exchanges (client : Side → FourPlayersGame) (es : List Exchange) : Side → FourPlayersGame :=
  es.foldl exchange client

/-- Every move of the exchange is accepted and sound where it is made. -/
def SoundRun (client : Side → FourPlayersGame) (es : List Exchange) : Prop :=
  ∀ past e later, es = past ++ e :: later →
    let c := (exchanges client past e.sender).ask e.source e.target
    c.Chose e.source e.target ∧ c.Sound e.source e.target e.late

private theorem exchange_kinds {client : Side → FourPlayersGame} {b : Kinds}
    (h : ∀ j, kindAt (client j).board.boardA = b) {e : Exchange}
    (hc : ((client e.sender).ask e.source e.target).Chose e.source e.target)
    (hs : ((client e.sender).ask e.source e.target).Sound e.source e.target e.late) (j : Side) :
    kindAt (exchange client e j).board.boardA = Kinds.move b e.source.key e.target.key := by
  have hequal : kindAt (client j).board.boardA =
      kindAt ((client e.sender).ask e.source e.target).board.boardA := by
    rw [h j]
    exact (h e.sender).symm
  obtain ⟨hagree, hmoved⟩ := hs.agree hequal hc
  have hsent := (moved_iff hs.2.2.1).mp hmoved
  have hb : kindAt ((client e.sender).ask e.source e.target).board.boardA = b := h e.sender
  rw [hb] at hsent
  simp only [exchange]
  split
  · exact hsent
  · rw [hagree, hsent]

private theorem exchanges_kinds {client : Side → FourPlayersGame} {b : Kinds}
    (h : ∀ j, kindAt (client j).board.boardA = b) {es : List Exchange} (hs : SoundRun client es) (j : Side) :
    kindAt (exchanges client es j).board.boardA =
      es.foldl (fun b e => Kinds.move b e.source.key e.target.key) b := by
  induction es using List.reverseRecOn generalizing j with
  | nil => exact h j
  | append_singleton es e ih =>
    obtain ⟨hc, hsound⟩ := hs es e [] rfl
    have hpast := ih (fun past e' later heq => hs past e' (later ++ [e]) (by rw [heq]; simp))
    rw [exchanges, List.foldl_append, List.foldl_append]
    exact exchange_kinds hpast hc hsound j

/-- Let the boards of the clients be full and equal to b. Across an accepted move of one
client, whatever is pressed before makeMove, they agree exactly when the move is sound,
and through sound moves they agree after any number of exchanges. Every wait of a
receiver on semaphore2 is granted. -/
theorem replicas_agree_iff (client : Side → FourPlayersGame) (b : Kinds)
    (hfull : ∀ j, Full (client j).board.boardA) (h : ∀ j, kindAt (client j).board.boardA = b) :
    (∀ (i : Side) (p q : Square) (late : List (Int × Int)), ((client i).Chose p q) →
      ((client i).Agree (client i.other) p q late ↔ (client i).Sound p q late)) ∧
    ∀ es, SoundRun client es → ∀ j,
      kindAt (exchanges client es j).board.boardA =
        es.foldl (fun b e => Kinds.move b e.source.key e.target.key) b :=
  ⟨fun i _ _ late hc => FourPlayersGame.agree_iff (hfull i) ((h i.other).trans (h i).symm) hc late,
    fun _ hs j => exchanges_kinds h hs j⟩

def facing (board : GameData) (p q : Square) : Side → FourPlayersGame
  | .even => ((FourPlayersGame.entered 2 "-K1").playGame board 1).ask p q
  | .odd => ((FourPlayersGame.entered 1 "-K1").playGame board 1).ask p q

private theorem facing_chose {board : GameData} {p q : Square}
    (hs : (facing board p q .even).rejectsSource = false)
    (hgo : canGoTo board.boardA p.key q.key = .ok true) : (facing board p q .even).Chose p q where
  source := row_col p.key
  target := row_col q.key
  selected := hs
  accepted := ⟨board, by
    have hb : (facing board p q .even).board = board := rfl
    rw [rejectsTarget, hb, hgo]
    rfl⟩

/-- A black knight moves on the boards of a new game. The other client looks for
a move of what stands on square 1, and its board keeps the knight. -/
theorem knight_move_lost :
    (facing GameData.new.initBoardA 57 42 .even).Chose 57 42 ∧
      ¬ (facing GameData.new.initBoardA 57 42 .even).Agree
        (facing GameData.new.initBoardA 57 42 .odd) 57 42 [] := by
  refine ⟨facing_chose (by decide +kernel) (by decide +kernel), fun h => ?_⟩
  have hkind := congrFun h.1 57
  revert hkind
  decide +kernel

/-- A black knight on square 1 moves to 18. Both boards follow when 18 is tapped once
more, and not when square 0 is, which is published in its place. -/
theorem knight_on_one_agrees :
    let board := GameData.new.initBoardA.goTo 57 1
    (facing board 1 18 .even).Agree (facing board 1 18 .odd) 1 18 [(129, 177)] ∧
      ¬ (facing board 1 18 .even).Agree (facing board 1 18 .odd) 1 18 [(53, 253)] ∧
      ∀ j, kindAt (exchanges (facing board 1 18) [⟨.even, 1, 18, []⟩] j).board.boardA =
        Kinds.move (kindAt board.boardA) 1 18 := by
  intro board
  have hs : (facing board 1 18 .even).rejectsSource = false := by decide +kernel
  have hgo : canGoTo board.boardA (1 : Square).key (18 : Square).key = .ok true := by decide +kernel
  have hequal (j : Side) : kindAt (facing board 1 18 j).board.boardA = kindAt board.boardA := by
    cases j <;> rfl
  have hfull (j : Side) : Full (facing board 1 18 j).board.boardA := by
    have hb : Full board.boardA := GameData.full_goTo full_newGame (by decide) (by decide)
    cases j <;> exact hb
  obtain ⟨hstep, hrun⟩ := replicas_agree_iff (facing board 1 18) (kindAt board.boardA) hfull hequal
  have hchose := facing_chose hs hgo
  refine ⟨(hstep .even 1 18 _ hchose).mpr ⟨rfl, by decide, by decide, hgo⟩, fun h => ?_,
    hrun [⟨.even, 1, 18, []⟩] ?_⟩
  · have hnumber := ((hstep .even 1 18 _ hchose).mp h).2.1
    revert hnumber
    decide
  · intro past e later heq
    cases past with
    | nil =>
      cases heq
      exact ⟨hchose, rfl, rfl, by decide, hgo⟩
    | cons x past => simp at heq

end MyIVR
