import TradingEngine.MarketData.EmptyLevels
import TradingEngine.MarketData.Sequencing

/-! The book against the venue's own. The venue has a full book at every seqId,
and a push tells either the whole of one or the step from one to the next.
Whatever pushes are lost, repeated or overtaken, the book is the venue's at the
seqId it names: only its depth is bounded. -/

set_option autoImplicit false

namespace TradingEngine

open Library.Exec Library.BoundedRanking

variable {D : Type} [DoubleArith D]

/-- A full book: the size resting at each price of each side. -/
abbrev Quotes (D : Type) : Type := BookSide → D → Option D

namespace Quotes

variable [DecidableEq D]

omit [DoubleArith D] [DecidableEq D] in
def empty : Quotes D := fun _ _ => none

def set (quotes : Quotes D) (side : BookSide) (price size : D) : Quotes D :=
  Function.update quotes side
    (Function.update (quotes side) price (if isEmptySize size then none else some size))

def update (quotes : Quotes D) (updates : List (BookSide × D × D)) : Quotes D :=
  updates.foldl (fun current change => current.set change.1 change.2.1 change.2.2) quotes

theorem set_self (quotes : Quotes D) (side : BookSide) (price size : D) :
    quotes.set side price size side =
      Function.update (quotes side) price (if isEmptySize size then none else some size) :=
  Function.update_self ..

theorem set_of_ne (quotes : Quotes D) {side other : BookSide} (different : other ≠ side) (price size : D) :
    quotes.set side price size other = quotes other :=
  Function.update_of_ne different ..

end Quotes

/-!
## Levels against quotes
-/

namespace OrderBook

/-- One side beside the quotes it stands for. -/
def tracked (book : OrderBook D) (quotes : Quotes D) (drops : BookSide → D → Nat) (side : BookSide) :
    Tracked D D :=
  ⟨book.levels side, quotes side, drops side⟩

def Mirrors (book : OrderBook D) (quotes : Quotes D) (drops : BookSide → D → Nat) : Prop :=
  ∀ side, (book.tracked quotes drops side).Valid side.before kCapacity

theorem mirrors_beginSnapshot (book : OrderBook D) :
    book.beginSnapshot.Mirrors Quotes.empty fun _ _ => 0 := by
  intro side
  rw [tracked, levels_beginSnapshot]
  exact Tracked.Valid.empty side.before _

theorem Mirrors.setSeqId {book : OrderBook D} {quotes : Quotes D} {drops : BookSide → D → Nat}
    (mirrors : book.Mirrors quotes drops) (seqId : Int) : (book.setSeqId seqId).Mirrors quotes drops := by
  intro side
  rw [tracked, levels_setSeqId]
  exact mirrors side

section exact

variable [DecidableEq D]

/-- For each price, how many better prices of its side were deleted since the side lost
it to lack of room, less those that came in, after one more update. -/
def countDrop (book : OrderBook D) (drops : BookSide → D → Nat) (side : BookSide) (price size : D) :
    BookSide → D → Nat := fun on other =>
  if on ≠ side then drops on other
  else if isEmptySize size then
    if book.Holds side price ∧ side.before price other then drops on other + 1 else drops on other
  else if (other = price ∨ book.Holds side other) ∧ ¬ (book.setLevel side price size).Holds side other then 0
  else if ¬ book.Holds side price ∧ side.before price other then drops on other - 1
  else drops on other

def countDrops (book : OrderBook D) (drops : BookSide → D → Nat) :
    List (BookSide × D × D) → BookSide → D → Nat
  | [] => drops
  | (side, price, size) :: rest =>
      (book.setLevel side price size).countDrops (book.countDrop drops side price size) rest

theorem tracked_setLevel_of_ne (book : OrderBook D) (quotes : Quotes D) (drops : BookSide → D → Nat)
    {side other : BookSide} (different : other ≠ side) (price size : D) :
    (book.setLevel side price size).tracked (quotes.set side price size)
        (book.countDrop drops side price size) other = book.tracked quotes drops other := by
  have counted : book.countDrop drops side price size other = drops other := by
    funext price
    exact if_pos different
  rw [tracked, levels_setLevel, if_neg different, quotes.set_of_ne different, counted]
  rfl

variable [TotalDouble D]

/-- A deletion of a held or crowded-out price, or the assignment of a size. -/
theorem tracked_setLevel (book : OrderBook D) (quotes : Quotes D) (drops : BookSide → D → Nat)
    (side : BookSide) (ranked : Ranked side.before (book.levels side)) {price size : D}
    (deletes : isEmptySize size = true → book.Holds side price ∨ book.Crowds side price) :
    (book.setLevel side price size).tracked (quotes.set side price size)
        (book.countDrop drops side price size) side =
      (book.tracked quotes drops side).apply side.before kCapacity
        (if isEmptySize size then .erase price else .assign price size) := by
  have own := book.levels_setLevel side side price size
  rw [if_pos rfl, setLevels_ranked side ranked] at own
  cases empty : isEmptySize size with
  | true =>
      have erased : (book.setLevel side price size).levels side = erase price (book.levels side) := by
        by_cases held : price ∈ keys (book.levels side)
        · rw [own, if_pos ⟨empty, held⟩]
        · have crowds := (deletes empty).resolve_left held
          rw [own, if_neg fun both => held both.2, assign_crowded side.before held crowds.1
            fun entry member => decide_eq_true (crowds.2 entry member)]
          refine (List.filter_eq_self.mpr fun entry member => ?_).symm
          exact decide_eq_true fun same => held (same ▸ List.mem_map_of_mem member)
      have counted : book.countDrop drops side price size side = fun other =>
          if price ∈ keys (book.levels side) ∧ side.before price other then drops side other + 1
          else drops side other := by
        funext other
        rw [countDrop, if_neg (not_not_intro rfl), if_pos empty]
        rfl
      simp only [tracked, erased, counted, Quotes.set_self, empty, ↓reduceIte, Tracked.apply]
      rfl
  | false =>
      rw [if_neg fun both => Bool.false_ne_true (empty.symm.trans both.1)] at own
      simp only [tracked, Quotes.set_self, empty, Bool.false_eq_true, ↓reduceIte, Tracked.apply,
        Tracked.mk.injEq, own, true_and]
      funext other
      simp only [countDrop, Holds, own, empty, ne_eq, not_true_eq_false, Bool.false_eq_true, ↓reduceIte,
        List.mem_cons]
      rfl

theorem Mirrors.setLevel {book : OrderBook D} {quotes : Quotes D} {drops : BookSide → D → Nat}
    (mirrors : book.Mirrors quotes drops) {side : BookSide} {price size : D}
    (deletes : isEmptySize size = true → book.Holds side price ∨ book.Crowds side price) :
    (book.setLevel side price size).Mirrors (quotes.set side price size)
      (book.countDrop drops side price size) := by
  intro other
  by_cases same : other = side
  · subst same
    rw [tracked_setLevel book quotes drops other (mirrors other).ranked deletes]
    exact (mirrors other).apply other.before _
  · rw [tracked_setLevel_of_ne book quotes drops same]
    exact mirrors other

theorem Mirrors.update {book : OrderBook D} {quotes : Quotes D} {drops : BookSide → D → Nat}
    (mirrors : book.Mirrors quotes drops) (updates : List (BookSide × D × D))
    (deletes : book.DeletesHeld updates) :
    (book.update updates).Mirrors (quotes.update updates) (book.countDrops drops updates) := by
  induction updates generalizing book quotes drops with
  | nil => exact mirrors
  | cons change rest ih =>
      obtain ⟨side, price, size⟩ := change
      exact ih (mirrors.setLevel deletes.1) deletes.2

end exact

end OrderBook

/-!
## The feed
-/

/-- A snapshot tells the venue's book at its seqId, an update how that book came
from the one before it. -/
def BookPush.Tells [DecidableEq D] (venue : Int → Quotes D) (push : BookPush) : Prop :=
  ∀ seqId, Json.parseLL push.seqIdText = .ok seqId →
    venue seqId = (if push.isSnapshot then .empty else venue push.prevSeqId).update push.updates

/-- The source, with the net deletions of better prices since each side lost each price. -/
structure FeedSession (D : Type) [DoubleArith D] where
  source : JsonBookSource D
  drops : BookSide → D → Nat

namespace FeedSession

variable [DecidableEq D]

def initial (instId : Text) : FeedSession D := ⟨.initial instId, fun _ _ => 0⟩

def dropsAfter (session : FeedSession D) (push : BookPush) : BookSide → D → Nat :=
  if push.gaps session.source.book then session.drops
  else (push.base session.source.book).countDrops
    (if push.isSnapshot then fun _ _ => 0 else session.drops) push.updates

def receive (message : Text) : EStateM Exn (FeedSession D) PUnit := fun session =>
  match JsonBookSource.onMessage message session.source, readPush message with
  | .error exception source, _ => .error exception { session with source := source }
  | .ok _ source, .ok (some push) => .ok .unit ⟨source, session.dropsAfter push⟩
  | .ok _ source, _ => .ok .unit { session with source := source }

/-- Any push the venue ever sent, in any order, but a snapshot first and no
deletion of a price the book neither holds nor crowds out. -/
def Admits (venue : Int → Quotes D) (session : FeedSession D) (message : Text) : Prop :=
  match readPush message with
  | .ok (some push) => push.Tells venue ∧
      (push.isSnapshot = true ∨ session.source.book.hasSnapshot = true) ∧
      (push.gaps session.source.book = false →
        (push.base session.source.book).DeletesHeld push.updates)
  | _ => True

structure Faithful (venue : Int → Quotes D) (session : FeedSession D) : Prop where
  current : session.source.book.hasSnapshot = true →
    session.source.book.Mirrors (venue session.source.book.lastSeqId) session.drops
  published : ∀ book ∈ session.source.published, ∃ drops, book.Mirrors (venue book.lastSeqId) drops

omit [DecidableEq D] in
theorem faithful_initial (venue : Int → Quotes D) (instId : Text) :
    (initial instId : FeedSession D).Faithful venue where
  current := by simp [initial, JsonBookSource.initial, OrderBook.initial]
  published := by simp [initial, JsonBookSource.initial]

variable [TotalDouble D]

/-- The book an accepted push leaves is the venue's at the push's seqId. -/
theorem mirrors_apply {venue : Int → Quotes D} {session : FeedSession D} (faithful : session.Faithful venue)
    {push : BookPush} (tells : push.Tells venue)
    (first : push.isSnapshot = true ∨ session.source.book.hasSnapshot = true)
    (accepted : push.gaps session.source.book = false)
    (deletes : (push.base session.source.book).DeletesHeld push.updates) {book : OrderBook D}
    (ran : push.apply session.source.book = .ok .unit book) :
    book.Mirrors (venue book.lastSeqId) (session.dropsAfter push) := by
  obtain ⟨seqId, parsed, -, rfl⟩ := BookPush.of_apply_ok ran
  have base : (push.base session.source.book).Mirrors
      (if push.isSnapshot then .empty else venue push.prevSeqId)
      (if push.isSnapshot then fun _ _ => 0 else session.drops) := by
    cases snapshot : push.isSnapshot with
    | true =>
        rw [BookPush.base, if_pos snapshot]
        exact OrderBook.mirrors_beginSnapshot _
    | false =>
        -- the update chains onto the book, so it starts from the venue's book there
        have has := first.resolve_left (by simp [snapshot])
        have chained : push.prevSeqId = session.source.book.lastSeqId := by
          simpa [BookPush.gaps, snapshot, has] using accepted
        rw [BookPush.base, if_neg (by simp [snapshot]), chained]
        exact faithful.current has
  have told : venue (OrderBook.setSeqId ((push.base session.source.book).update push.updates)
      seqId).lastSeqId = _ := tells seqId parsed
  have drops : session.dropsAfter push = _ := if_neg (Bool.eq_false_iff.mp accepted)
  rw [told, drops]
  exact (base.update _ deletes).setSeqId seqId

theorem faithful_receive {venue : Int → Quotes D} {session next : FeedSession D}
    (faithful : session.Faithful venue) {message : Text} (admitted : session.Admits venue message)
    (ran : receive message session = .ok .unit next) : next.Faithful venue := by
  unfold receive JsonBookSource.onMessage at ran
  rw [applyBookMessage_eq] at ran
  cases read : readPush message with
  | error exception => simp [read] at ran
  | ok pushed =>
      cases pushed with
      | none =>
          simp only [read, EStateM.Result.ok.injEq, true_and] at ran
          rwa [← ran]
      | some push =>
          simp only [read] at ran
          by_cases gap : push.gaps session.source.book = true
          · have drops : session.dropsAfter push = session.drops := if_pos gap
            simp only [if_pos gap, drops, EStateM.Result.ok.injEq, true_and] at ran
            rw [← ran]
            exact ⟨faithful.current, faithful.published⟩
          · rw [if_neg gap] at ran
            cases applied : push.apply session.source.book with
            | error exception book => simp [applied] at ran
            | ok value book =>
                simp only [applied, EStateM.Result.ok.injEq, true_and] at ran
                simp only [Admits, read] at admitted
                have accepted := Bool.eq_false_iff.mpr gap
                have mirrors := mirrors_apply faithful admitted.1 admitted.2.1 accepted
                  (admitted.2.2 accepted) applied
                rw [← ran]
                refine ⟨fun _ => mirrors, ?_⟩
                intro shown member
                rcases List.mem_append.mp member with old | new
                · exact faithful.published shown old
                · rw [List.mem_singleton.mp new]
                  exact ⟨_, mirrors⟩

end FeedSession

/-!
## A venue of three pushes
-/

namespace FeedSession

/-- The pushes of a venue: the seqId before, the own one and the changes. -/
def sampleHistory : List (Int × Int × List (BookSide × ℚ × ℚ)) :=
  [(-1, 10, [(.bid, 99, 1), (.ask, 101, 2)]), (10, 11, [(.ask, 101, 0), (.ask, 102, 1)]),
    (11, 12, [(.bid, 99, 3)])]

def sampleVenue (seqId : Int) : Quotes ℚ :=
  Quotes.empty.update ((sampleHistory.filter fun entry => entry.2.1 ≤ seqId).flatMap fun entry => entry.2.2)

def overtakingPush : Text := booksPush "[]" "[[\"99\",\"3\"]]" "12" "11"

/-- The message is read as a push of the history that the session may receive. -/
def Expects (session : FeedSession ℚ) (message : Text) : Prop :=
  match readPush message with
  | .ok (some push) =>
      (∃ entry ∈ sampleHistory, push.prevSeqId = entry.1 ∧
        (Json.parseLL push.seqIdText).toOption = some entry.2.1 ∧ push.updates = entry.2.2) ∧
      (push.isSnapshot = true ∨ session.source.book.hasSnapshot = true) ∧
      (push.gaps session.source.book = false →
        (push.base session.source.book).DeletesHeld push.updates)
  | _ => False

instance (session : FeedSession ℚ) (message : Text) : Decidable (session.Expects message) := by
  unfold Expects
  split <;> infer_instance

theorem sampleVenue_step {entry : Int × Int × List (BookSide × ℚ × ℚ)} (listed : entry ∈ sampleHistory) :
    sampleVenue entry.2.1 =
      (if entry.1 = kSnapshotSeqId then .empty else sampleVenue entry.1).update entry.2.2 := by
  simp only [sampleHistory, List.mem_cons, List.not_mem_nil, or_false] at listed
  rcases listed with rfl | rfl | rfl <;> rfl

theorem admits_of_expects {session : FeedSession ℚ} {message : Text} (expects : session.Expects message) :
    session.Admits sampleVenue message := by
  unfold Expects at expects
  unfold Admits
  split at expects
  · obtain ⟨⟨entry, listed, before, own, changes⟩, first, deletes⟩ := expects
    refine ⟨?_, first, deletes⟩
    intro seqId parsed
    rw [parsed] at own
    obtain rfl : seqId = entry.2.1 := Option.some.inj own
    rw [sampleVenue_step listed, changes, before, BookPush.isSnapshot, before]
    simp only [decide_eq_true_eq]
  · exact expects.elim

def sampleSession : FeedSession ℚ :=
  finalState (forM [snapshotPush, overtakingPush, updatePush, overtakingPush] receive (initial kEthUsdt))

end FeedSession

end TradingEngine
