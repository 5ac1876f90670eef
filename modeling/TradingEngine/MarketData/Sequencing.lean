import TradingEngine.MarketData.MarketDataProperties

/-! Sequencing of the incremental book. Under pushes that arrive in any order,
the book is the replay of the last snapshot and of the updates chained onto it,
provided no update is received while the book has no snapshot: such an update
is applied too. -/

set_option autoImplicit false

namespace TradingEngine

open Library.Exec

variable {D : Type} [DoubleArith D]

namespace OrderBook

/-- Two books no reader can tell apart; slots beyond the held levels may differ. -/
structure Same (left right : OrderBook D) : Prop where
  levels : ∀ side, left.levels side = right.levels side
  lastSeqId : left.lastSeqId = right.lastSeqId
  hasSnapshot : left.hasSnapshot = right.hasSnapshot

theorem levels_update_congr {left right : OrderBook D} (same : ∀ side, left.levels side = right.levels side)
    (updates : List (BookSide × D × D)) (side : BookSide) :
    (left.update updates).levels side = (right.update updates).levels side := by
  induction updates generalizing left right with
  | nil => exact same side
  | cons change rest ih =>
      refine ih fun other => ?_
      rw [levels_setLevel, levels_setLevel, same change.1, same other]

@[simp] theorem lastSeqId_update (book : OrderBook D) (updates : List (BookSide × D × D)) :
    (book.update updates).lastSeqId = book.lastSeqId := by
  induction updates generalizing book with
  | nil => rfl
  | cons change rest ih =>
      obtain ⟨side, price, size⟩ := change
      refine (ih _).trans ?_
      cases side <;> rfl

@[simp] theorem hasSnapshot_update (book : OrderBook D) (updates : List (BookSide × D × D)) :
    (book.update updates).hasSnapshot = book.hasSnapshot := by
  induction updates generalizing book with
  | nil => rfl
  | cons change rest ih =>
      obtain ⟨side, price, size⟩ := change
      refine (ih _).trans ?_
      cases side <;> rfl

end OrderBook

namespace BookPush

/-- `next` is an update chained onto `previous`. -/
def Follows (previous next : BookPush) : Prop :=
  next.isSnapshot = false ∧ Json.parseLL previous.seqIdText = .ok next.prevSeqId

/-- What is left of an applied push: its updates on its base, under its seqId. -/
theorem of_apply_ok {push : BookPush} {book next : OrderBook D} (ran : push.apply book = .ok .unit next) :
    ∃ seqId, Json.parseLL push.seqIdText = .ok seqId ∧ push.outcome D = .ok seqId ∧
      next = ((push.base book).update push.updates).setSeqId seqId := by
  rw [push.apply_eq book] at ran
  cases outcome : push.outcome D with
  | error exception => simp [outcome] at ran
  | ok seqId =>
      simp only [outcome, EStateM.Result.ok.injEq, true_and] at ran
      refine ⟨seqId, ?_, rfl, ran.symm⟩
      obtain ⟨_, -, afterBids⟩ := except_bind_eq_ok outcome
      obtain ⟨_, -, afterAsks⟩ := except_bind_eq_ok afterBids
      exact afterAsks

/-- Applying a push to books that start its updates alike gives the same book. -/
theorem same_apply {push : BookPush} {book next other : OrderBook D} (ran : push.apply book = .ok .unit next)
    (levels : ∀ side, (push.base book).levels side = (push.base other).levels side)
    (hasSnapshot : (push.base book).hasSnapshot = (push.base other).hasSnapshot) :
    next.Same (finalState (push.apply other)) := by
  obtain ⟨seqId, -, outcome, rfl⟩ := of_apply_ok ran
  rw [push.apply_eq other, outcome]
  constructor
  · intro side
    simp only [finalState_ok, OrderBook.levels_setSeqId]
    exact OrderBook.levels_update_congr levels _ side
  · rfl
  · simpa [OrderBook.setSeqId] using hasSnapshot

end BookPush

/-- The book a list of pushes builds from nothing. -/
def replay (pushes : List BookPush) : OrderBook D :=
  pushes.foldl (fun book push => finalState (push.apply book)) .initial

/-- The last snapshot of a list of pushes and what comes after it. -/
def sinceSnapshot (pushes : List BookPush) : List BookPush :=
  pushes.foldl (fun chain push => if push.isSnapshot then [push] else chain ++ [push]) []

theorem sinceSnapshot_concat (pushes : List BookPush) (push : BookPush) :
    sinceSnapshot (pushes ++ [push]) =
      if push.isSnapshot then [push] else sinceSnapshot pushes ++ [push] := by
  simp [sinceSnapshot]

theorem getLast?_sinceSnapshot (pushes : List BookPush) :
    (sinceSnapshot pushes).getLast? = pushes.getLast? := by
  rcases List.eq_nil_or_concat pushes with rfl | ⟨earlier, last, rfl⟩
  · rfl
  · rw [List.concat_eq_append, sinceSnapshot_concat]
    split <;> simp

theorem replay_concat (pushes : List BookPush) (push : BookPush) :
    (replay (pushes ++ [push]) : OrderBook D) = finalState (push.apply (replay pushes)) := by
  simp [replay]

/-!
## Sessions
-/

/-- The book and the pushes reported as applied to it, in order. -/
structure BookSession (D : Type) [DoubleArith D] where
  book : OrderBook D
  applied : List BookPush

namespace BookSession

def initial : BookSession D := ⟨.initial, []⟩

def receive (message : Text) : EStateM Exn (BookSession D) PUnit := fun session =>
  match applyBookMessage message session.book with
  | .error exception book => .error exception { session with book := book }
  | .ok .kApplied book =>
      match readPush message with
      | .ok (some push) => .ok .unit ⟨book, session.applied ++ [push]⟩
      | _ => .ok .unit { session with book := book }
  | .ok _ book => .ok .unit { session with book := book }

/-- The message is no update, or the book has a snapshot. -/
def SnapshotFirst (session : BookSession D) (message : Text) : Prop :=
  match readPush message with
  | .ok (some push) => push.isSnapshot = true ∨ session.book.hasSnapshot = true
  | _ => True

instance (session : BookSession D) (message : Text) : Decidable (session.SnapshotFirst message) :=
  match read : readPush message with
  | .ok (some push) =>
      decidable_of_iff (push.isSnapshot = true ∨ session.book.hasSnapshot = true)
        (by simp only [SnapshotFirst, read])
  | .ok none => isTrue (by simp only [SnapshotFirst, read])
  | .error _ => isTrue (by simp only [SnapshotFirst, read])

/-- A snapshot and an unbroken chain of updates after it. -/
def Unbroken (chain : List BookPush) : Prop :=
  ∃ snapshot rest, chain = snapshot :: rest ∧ snapshot.isSnapshot = true ∧
    (snapshot :: rest).IsChain BookPush.Follows

structure Sequenced (session : BookSession D) : Prop where
  same : session.book.Same (replay (sinceSnapshot session.applied))
  unbroken : session.applied = [] ∨ Unbroken (sinceSnapshot session.applied)
  lastSeqId : ∀ last ∈ session.applied.getLast?, Json.parseLL last.seqIdText = .ok session.book.lastSeqId
  hasSnapshot : session.book.hasSnapshot = true ↔ session.applied ≠ []

theorem sequenced_initial : (initial : BookSession D).Sequenced where
  same := ⟨fun _ => rfl, rfl, rfl⟩
  unbroken := .inl rfl
  lastSeqId := by simp [initial]
  hasSnapshot := by simp [initial, OrderBook.initial]

theorem sequenced_snapshot {session : BookSession D} {push : BookPush} {book : OrderBook D}
    (snapshot : push.isSnapshot = true) (ran : push.apply session.book = .ok .unit book) :
    (⟨book, session.applied ++ [push]⟩ : BookSession D).Sequenced := by
  have chain : sinceSnapshot (session.applied ++ [push]) = [push] := by
    rw [sinceSnapshot_concat, if_pos snapshot]
  have cleared (start : OrderBook D) : push.base start = start.beginSnapshot := if_pos snapshot
  constructor
  · rw [chain]
    refine BookPush.same_apply ran (fun side => ?_) ?_
    · rw [cleared, cleared, OrderBook.levels_beginSnapshot, OrderBook.levels_beginSnapshot]
    · rw [cleared, cleared]
      rfl
  · rw [chain]
    exact .inr ⟨push, [], rfl, snapshot, by simp⟩
  · obtain ⟨seqId, parsed, -, rfl⟩ := BookPush.of_apply_ok ran
    simpa [OrderBook.setSeqId] using parsed
  · obtain ⟨seqId, -, -, rfl⟩ := BookPush.of_apply_ok ran
    simp [OrderBook.setSeqId, cleared, OrderBook.beginSnapshot]

theorem sequenced_update {session : BookSession D} (sequenced : session.Sequenced) {push : BookPush}
    {book : OrderBook D} (update : push.isSnapshot = false) (has : session.book.hasSnapshot = true)
    (chained : push.prevSeqId = session.book.lastSeqId) (ran : push.apply session.book = .ok .unit book) :
    (⟨book, session.applied ++ [push]⟩ : BookSession D).Sequenced := by
  have chain : sinceSnapshot (session.applied ++ [push]) = sinceSnapshot session.applied ++ [push] := by
    rw [sinceSnapshot_concat, if_neg (by simp [update])]
  have kept (start : OrderBook D) : push.base start = start := if_neg (by simp [update])
  have some_applied := sequenced.hasSnapshot.mp has
  constructor
  · rw [chain, replay_concat]
    refine BookPush.same_apply ran (fun side => ?_) ?_
    · rw [kept, kept]
      exact sequenced.same.levels side
    · rw [kept, kept]
      exact sequenced.same.hasSnapshot
  · obtain ⟨snapshot, rest, whole, first, linked⟩ := sequenced.unbroken.resolve_left some_applied
    refine .inr ⟨snapshot, rest ++ [push], by rw [chain, whole]; rfl, first, ?_⟩
    rw [← List.cons_append, List.isChain_append]
    refine ⟨linked, by simp, ?_⟩
    intro last lastMember next nextMember
    obtain rfl : push = next := by simpa using nextMember
    refine ⟨update, ?_⟩
    rw [chained]
    apply sequenced.lastSeqId last
    rw [← getLast?_sinceSnapshot, whole]
    exact lastMember
  · obtain ⟨seqId, parsed, -, rfl⟩ := BookPush.of_apply_ok ran
    simpa [OrderBook.setSeqId] using parsed
  · obtain ⟨seqId, -, -, rfl⟩ := BookPush.of_apply_ok ran
    simp [OrderBook.setSeqId, kept, has]

/-- A push that is not turned away, in a session that admits it. -/
theorem chained_of_accepted {session : BookSession D} {push : BookPush}
    (first : push.isSnapshot = true ∨ session.book.hasSnapshot = true)
    (accepted : push.gaps session.book = false) :
    push.isSnapshot = true ∨ push.isSnapshot = false ∧ session.book.hasSnapshot = true ∧
      push.prevSeqId = session.book.lastSeqId := by
  cases snapshot : push.isSnapshot with
  | true => exact .inl rfl
  | false =>
      have has := first.resolve_left (by simp [snapshot])
      refine .inr ⟨rfl, has, ?_⟩
      simpa [BookPush.gaps, snapshot, has] using accepted

theorem sequenced_apply {session : BookSession D} (sequenced : session.Sequenced) {push : BookPush}
    (first : push.isSnapshot = true ∨ session.book.hasSnapshot = true)
    (accepted : push.gaps session.book = false) {book : OrderBook D}
    (ran : push.apply session.book = .ok .unit book) :
    (⟨book, session.applied ++ [push]⟩ : BookSession D).Sequenced := by
  rcases chained_of_accepted first accepted with snapshot | ⟨update, has, chained⟩
  · exact sequenced_snapshot snapshot ran
  · exact sequenced_update sequenced update has chained ran

/-- The three ways `ApplyBookMessage` can return. -/
theorem of_applyBookMessage_ok {message : Text} {book next : OrderBook D} {result : BookMessageResult}
    (ran : applyBookMessage message book = .ok result next) :
    (result ≠ .kApplied ∧ next = book) ∨
      ∃ push, result = .kApplied ∧ readPush message = .ok (some push) ∧ push.gaps book = false ∧
        push.apply book = .ok .unit next := by
  rw [applyBookMessage_eq] at ran
  cases read : readPush message with
  | error exception => simp [read] at ran
  | ok pushed =>
      cases pushed with
      | none =>
          simp only [read, EStateM.Result.ok.injEq] at ran
          exact .inl ⟨by simp [← ran.1], ran.2.symm⟩
      | some push =>
          simp only [read] at ran
          by_cases gap : push.gaps book = true
          · rw [if_pos gap, EStateM.Result.ok.injEq] at ran
            exact .inl ⟨by simp [← ran.1], ran.2.symm⟩
          · rw [if_neg gap] at ran
            cases applied : push.apply book with
            | error exception middle => simp [applied] at ran
            | ok value middle =>
                simp only [applied, EStateM.Result.ok.injEq] at ran
                obtain ⟨rfl, rfl⟩ := ran
                exact .inr ⟨push, rfl, rfl, by simpa using gap, applied⟩

theorem sequenced_receive {session next : BookSession D} (sequenced : session.Sequenced) {message : Text}
    (admitted : session.SnapshotFirst message) (ran : receive message session = .ok .unit next) :
    next.Sequenced := by
  unfold receive at ran
  cases processed : applyBookMessage message session.book with
  | error exception book => simp [processed] at ran
  | ok result book =>
      rcases of_applyBookMessage_ok processed with ⟨notApplied, rfl⟩ | ⟨push, rfl, read, accepted, applied⟩
      · have unchanged : next = session := by
          cases result with
          | kApplied => exact absurd rfl notApplied
          | kIgnored | kGapDetected => simpa [processed] using ran.symm
        rw [unchanged]
        exact sequenced
      · simp only [processed, read, EStateM.Result.ok.injEq, true_and] at ran
        simp only [SnapshotFirst, read] at admitted
        rw [← ran]
        exact sequenced_apply sequenced admitted accepted applied

/-- What each report of `ApplyBookMessage` says about the book, as long as no
update arrives before the first snapshot. -/
theorem book_is_replay {session : BookSession D}
    (run : Reaches receive SnapshotFirst initial session) (message : Text)
    (admitted : session.SnapshotFirst message) {result : BookMessageResult} {book : OrderBook D}
    (ran : applyBookMessage message session.book = .ok result book) :
    match result with
    | .kApplied => ∃ push, readPush message = .ok (some push) ∧
        (push.isSnapshot = true ∨ session.book.hasSnapshot = true ∧
          ∃ last, session.applied.getLast? = some last ∧
            Json.parseLL last.seqIdText = .ok push.prevSeqId) ∧
        Unbroken (sinceSnapshot (session.applied ++ [push])) ∧
        book.Same (replay (sinceSnapshot (session.applied ++ [push])))
    | .kGapDetected => book = session.book
    | .kIgnored => book = session.book := by
  have sequenced : session.Sequenced :=
    run.invariant Sequenced sequenced_initial fun _ _ _ holds admits stepped =>
      sequenced_receive holds admits stepped
  rcases of_applyBookMessage_ok ran with ⟨notApplied, unchanged⟩ | ⟨push, rfl, read, accepted, applied⟩
  · cases result with
    | kApplied => exact absurd rfl notApplied
    | kIgnored | kGapDetected => exact unchanged
  · simp only [SnapshotFirst, read] at admitted
    have next := sequenced_apply sequenced admitted accepted applied
    refine ⟨push, read, ?_, next.unbroken.resolve_left (by simp), next.same⟩
    rcases chained_of_accepted admitted accepted with snapshot | ⟨-, has, chained⟩
    · exact .inl snapshot
    · have isLast := List.getLast?_eq_some_getLast (sequenced.hasSnapshot.mp has)
      exact .inr ⟨has, _, isLast, chained ▸ sequenced.lastSeqId _ isLast⟩

def opened : BookSession ℚ := finalState (forM [snapshotPush] receive initial)

theorem book_is_replay_after_update :
    ∃ push, readPush updatePush = .ok (some push) ∧ Unbroken (sinceSnapshot (opened.applied ++ [push])) := by
  have run : Reaches receive SnapshotFirst initial opened := Reaches.start.all _ (by decide +kernel)
  have applied : returned (applyBookMessage updatePush opened.book) = some .kApplied := by decide +kernel
  obtain ⟨push, read, -, unbroken, -⟩ :=
    book_is_replay run updatePush (by decide +kernel) (eq_ok_of_returned applied)
  exact ⟨push, read, unbroken⟩

/-- An update is applied to a book that has no snapshot, and still has none after it. -/
theorem update_applied_without_snapshot :
    let processed := applyBookMessage (booksPush "[[\"101\",\"1\"]]" "[]" "6" "5") (.initial : OrderBook ℚ)
    returned processed = some .kApplied ∧ (finalState processed).hasSnapshot = false ∧
      (finalState processed).bestAsk = some 101 ∧ (finalState processed).lastSeqId = 6 := by
  decide +kernel

end BookSession

end TradingEngine
