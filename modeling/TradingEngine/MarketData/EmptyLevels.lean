import TradingEngine.MarketData.MarketDataProperties

/-! Levels of size zero. A deletion of a price the side does not hold is stored
as a level, unless a full side of better prices crowds it out; every other
update keeps the book free of empty levels, on both feeds. -/

set_option autoImplicit false

namespace TradingEngine

open Library.Exec Library.BoundedRanking

variable {D : Type} [DoubleArith D]

def isEmptySize (size : D) : Bool := DoubleArith.eq size (DoubleArith.lit 0)

namespace OrderBook

def NoEmptyLevel (book : OrderBook D) : Prop :=
  ∀ side, ∀ level ∈ book.levels side, isEmptySize level.2 = false

/-- A full side on which every level ranks before the price. -/
def Crowds (book : OrderBook D) (side : BookSide) (price : D) : Prop :=
  (book.levels side).length = kCapacity ∧ ∀ level ∈ book.levels side, side.before level.1 price

instance (book : OrderBook D) (side : BookSide) (price : D) : Decidable (book.Crowds side price) :=
  inferInstanceAs (Decidable (_ ∧ _))

/-- Each update of size zero names a price held at that point, or one a full side
crowds out. -/
def DeletesHeld (book : OrderBook D) : List (BookSide × D × D) → Prop
  | [] => True
  | (side, price, size) :: rest =>
      (isEmptySize size = true → book.Holds side price ∨ book.Crowds side price) ∧
        (book.setLevel side price size).DeletesHeld rest

instance decidableDeletesHeld [DecidableEq D] : (book : OrderBook D) →
    (updates : List (BookSide × D × D)) → Decidable (book.DeletesHeld updates)
  | _, [] => isTrue trivial
  | book, (side, price, size) :: rest =>
      have := decidableDeletesHeld (book.setLevel side price size) rest
      inferInstanceAs (Decidable (_ ∧ _))

theorem length_levels_le (book : OrderBook D) (side : BookSide) :
    (book.levels side).length ≤ kCapacity := by
  cases side with
  | bid => exact (PriceLevels.length_view book.bids).trans_le book.bids.bounded
  | ask => exact (PriceLevels.length_view book.asks).trans_le book.asks.bounded

structure Sound (book : OrderBook D) : Prop where
  ranked : ∀ side, Ranked side.before (book.levels side)
  noEmpty : book.NoEmptyLevel

theorem Sound.of_levels_eq {book other : OrderBook D} (sound : book.Sound)
    (same : ∀ side, other.levels side = book.levels side) : other.Sound where
  ranked side := same side ▸ sound.ranked side
  noEmpty side level member := sound.noEmpty side level (same side ▸ member)

theorem Sound.of_levels_nil {book : OrderBook D} (empty : ∀ side, book.levels side = []) : book.Sound where
  ranked side := by
    rw [empty]
    exact List.Pairwise.nil
  noEmpty side := by simp [empty]

section total

variable [TotalDouble D]

theorem ranked_setLevel {book : OrderBook D} (ranked : ∀ side, Ranked side.before (book.levels side))
    (side : BookSide) (price size : D) (other : BookSide) :
    Ranked other.before ((book.setLevel side price size).levels other) := by
  classical
  rw [levels_setLevel]
  split
  · rename_i same
    subst same
    rw [setLevels_ranked other (ranked other)]
    split
    · exact List.Pairwise.filter _ (ranked other)
    · exact ranked_assign other.before (ranked other) _ _ _
  · exact ranked other

/-- Exactly the updates that leave a book without empty levels as it should be. -/
theorem noEmpty_setLevel_iff {book : OrderBook D} (sound : book.Sound) (side : BookSide) (price size : D) :
    (book.setLevel side price size).NoEmptyLevel ↔
      (isEmptySize size = true → book.Holds side price ∨ book.Crowds side price) := by
  classical
  have updated := setLevels_ranked side (sound.ranked side) price size
  have own := book.levels_setLevel side side price size
  rw [if_pos rfl, updated] at own
  constructor
  · intro noEmpty empty
    by_contra neither
    rw [not_or] at neither
    rw [if_neg fun both => neither.1 both.2] at own
    rcases mem_assign_new side.before size (book.length_levels_le side) neither.1 with kept | crowded
    · have contradiction := noEmpty side (price, size) (own ▸ kept)
      rw [empty] at contradiction
      cases contradiction
    · exact neither.2 ⟨crowded.1, fun level member => of_decide_eq_true (crowded.2 level member)⟩
  · intro deletes other level member
    by_cases same : other = side
    · subst same
      rw [own] at member
      split at member
      · exact sound.noEmpty other level (List.mem_filter.mp member).1
      · rename_i notErased
        rcases mem_assign other.before member with rfl | old
        · by_contra empty
          rw [Bool.not_eq_false] at empty
          rcases deletes empty with held | crowds
          · exact notErased ⟨empty, held⟩
          · have fresh : price ∉ keys (book.levels other) := fun held => notErased ⟨empty, held⟩
            rw [assign_crowded other.before fresh crowds.1
              fun entry entryHeld => decide_eq_true (crowds.2 entry entryHeld)] at member
            exact fresh (List.mem_map_of_mem member)
        · exact sound.noEmpty other level old
    · rw [levels_setLevel, if_neg same] at member
      exact sound.noEmpty other level member

theorem Sound.update {book : OrderBook D} (sound : book.Sound) (updates : List (BookSide × D × D))
    (deletes : book.DeletesHeld updates) : (book.update updates).Sound := by
  induction updates generalizing book with
  | nil => exact sound
  | cons change rest ih =>
      obtain ⟨side, price, size⟩ := change
      obtain ⟨first, later⟩ := deletes
      exact ih ⟨ranked_setLevel sound.ranked side price size,
        (noEmpty_setLevel_iff sound side price size).mpr first⟩ later

end total

end OrderBook

/-!
## Both feeds
-/

structure Feeds (D : Type) [DoubleArith D] where
  json : JsonBookSource D
  sbe : SbeBboSource D

inductive FeedMessage where
  | json (message : Text)
  | sbe (message : Text)

namespace Feeds

def initial : Feeds D := ⟨.initial kEthUsdt, .initial⟩

def receive : FeedMessage → EStateM Exn (Feeds D) PUnit
  | .json message => fun feeds =>
      match JsonBookSource.onMessage message feeds.json with
      | .ok _ source => .ok .unit { feeds with json := source }
      | .error exception source => .error exception { feeds with json := source }
  | .sbe message => modify fun feeds => { feeds with sbe := feeds.sbe.onMessage message }

/-- The sizes of an accepted binary message are not zero. -/
def FillsBoth (source : SbeBboSource D) (bbo : Sbe.BboTbt D) : Prop :=
  source.lastSeqId < bbo.seqId → isEmptySize bbo.bidSz = false ∧ isEmptySize bbo.askSz = false

instance (source : SbeBboSource D) (bbo : Sbe.BboTbt D) : Decidable (FillsBoth source bbo) :=
  inferInstanceAs (Decidable (_ → _))

/-- The zero-size levels of a message that is not turned away are deletions of
held or crowded-out prices. -/
def DeletesHeld (feeds : Feeds D) : FeedMessage → Prop
  | .json message =>
      match readPush message with
      | .ok (some push) =>
          push.gaps feeds.json.book = false → (push.base feeds.json.book).DeletesHeld push.updates
      | _ => True
  | .sbe message =>
      match Sbe.decodeBboTbt message with
      | some bbo => FillsBoth feeds.sbe bbo
      | none => True

instance [DecidableEq D] (feeds : Feeds D) (message : FeedMessage) : Decidable (feeds.DeletesHeld message) :=
  match message with
  | .json text =>
      match read : readPush text with
      | .ok (some push) =>
          decidable_of_iff (push.gaps feeds.json.book = false →
            (push.base feeds.json.book).DeletesHeld push.updates) (by simp only [DeletesHeld, read])
      | .ok none => isTrue (by simp only [DeletesHeld, read])
      | .error _ => isTrue (by simp only [DeletesHeld, read])
  | .sbe text =>
      match decoded : (Sbe.decodeBboTbt text : Option (Sbe.BboTbt D)) with
      | some bbo => decidable_of_iff (FillsBoth feeds.sbe bbo) (by simp only [DeletesHeld, decoded])
      | none => isTrue (by simp only [DeletesHeld, decoded])

theorem book_onMessage (message : Text) (source : JsonBookSource D) :
    (finalState (JsonBookSource.onMessage message source)).book =
      finalState (applyBookMessage message source.book) := by
  unfold JsonBookSource.onMessage
  cases applyBookMessage message source.book with
  | error exception book => rfl
  | ok result book => cases result <;> rfl

theorem json_receive (message : Text) (feeds : Feeds D) :
    finalState (receive (.json message) feeds) =
      { feeds with json := finalState (JsonBookSource.onMessage message feeds.json) } := by
  simp only [receive]
  cases JsonBookSource.onMessage message feeds.json <;> rfl

structure Sound (feeds : Feeds D) : Prop where
  json : feeds.json.book.Sound
  sbe : feeds.sbe.book.Sound

theorem sound_initial : (initial : Feeds D).Sound where
  json := .of_levels_nil OrderBook.levels_initial
  sbe := .of_levels_nil OrderBook.levels_initial

section total

variable [TotalDouble D]

theorem sound_applyBookMessage {book : OrderBook D} (sound : book.Sound) {message : Text}
    (deletes : ∀ push, readPush message = .ok (some push) → push.gaps book = false →
      (push.base book).DeletesHeld push.updates) :
    (finalState (applyBookMessage message book)).Sound := by
  rw [applyBookMessage_eq]
  cases read : readPush message with
  | error exception => exact sound
  | ok pushed =>
      cases pushed with
      | none => exact sound
      | some push =>
          dsimp only
          split
          · exact sound
          · rename_i accepted
            have base : (push.base book).Sound := by
              unfold BookPush.base
              split
              · exact .of_levels_nil book.levels_beginSnapshot
              · exact sound
            have updated := base.update _ (deletes push read (by simpa using accepted))
            rw [push.apply_eq book]
            cases push.outcome D with
            | error exception => exact updated
            | ok seqId => exact updated.of_levels_eq fun side => OrderBook.levels_setSeqId _ _ side

theorem sound_replaceBook (book : OrderBook D) {bbo : Sbe.BboTbt D}
    (bid : isEmptySize bbo.bidSz = false) (ask : isEmptySize bbo.askSz = false) :
    (SbeBboSource.replaceBook bbo book).Sound := by
  have cleared : book.beginSnapshot.Sound := .of_levels_nil book.levels_beginSnapshot
  have updated := cleared.update [(.bid, bbo.bidPx, bbo.bidSz), (.ask, bbo.askPx, bbo.askSz)]
    ⟨by simp [bid], by simp [ask], trivial⟩
  exact updated.of_levels_eq fun side => OrderBook.levels_setSeqId _ _ side

theorem sound_receive {feeds : Feeds D} (sound : feeds.Sound) {message : FeedMessage}
    (deletes : feeds.DeletesHeld message) : (finalState (receive message feeds)).Sound := by
  cases message with
  | json message =>
      rw [json_receive]
      refine ⟨?_, sound.sbe⟩
      dsimp only
      rw [book_onMessage]
      refine sound_applyBookMessage sound.json fun push read => ?_
      simpa only [DeletesHeld, read] using deletes
  | sbe message =>
      refine ⟨sound.json, ?_⟩
      change (feeds.sbe.onMessage message).book.Sound
      unfold SbeBboSource.onMessage
      cases decoded : (Sbe.decodeBboTbt message : Option (Sbe.BboTbt D)) with
      | none => exact sound.sbe
      | some bbo =>
          dsimp only
          split
          · exact sound.sbe
          · rename_i fresh
            simp only [DeletesHeld, decoded, FillsBoth] at deletes
            obtain ⟨bid, ask⟩ := deletes (by omega)
            exact sound_replaceBook feeds.sbe.book bid ask

theorem sound_of_reaches {feeds : Feeds D}
    (run : Reaches (fun message => settle (receive message)) DeletesHeld initial feeds) : feeds.Sound := by
  refine run.invariant Sound sound_initial ?_
  intro current message next sound admitted ran
  cases ran
  exact sound_receive sound admitted

omit [TotalDouble D] in
theorem quantity_at_best {book : OrderBook D} (noEmpty : book.NoEmptyLevel) (side : BookSide) (price : D)
    (best : book.best side = some price) :
    ∃ size, (price, size) ∈ book.levels side ∧ isEmptySize size = false := by
  rw [OrderBook.best_eq_head] at best
  obtain ⟨level, member, rfl⟩ := List.mem_map.mp (List.mem_of_mem_head? best)
  exact ⟨level.2, member, noEmpty side level member⟩

/-- Neither feed ever holds an empty level, nor reports an empty best price, as
long as no zero-size level names a price its side does not hold. -/
theorem no_empty_level {feeds : Feeds D}
    (run : Reaches (fun message => settle (receive message)) DeletesHeld initial feeds) :
    (feeds.json.book.NoEmptyLevel ∧ feeds.sbe.book.NoEmptyLevel) ∧
    ∀ book ∈ [feeds.json.book, feeds.sbe.book], ∀ side price, book.best side = some price →
      ∃ size, (price, size) ∈ book.levels side ∧ isEmptySize size = false := by
  have sound := sound_of_reaches run
  refine ⟨⟨sound.json.noEmpty, sound.sbe.noEmpty⟩, ?_⟩
  intro book member
  rcases List.mem_pair.mp member with rfl | rfl
  · exact quantity_at_best sound.json.noEmpty
  · exact quantity_at_best sound.sbe.noEmpty

end total

/-- The state after messages that may throw. -/
def after (messages : List FeedMessage) : Feeds D :=
  finalState (forM messages (fun message => settle (receive message)) initial)

theorem no_empty_level_after_delete :
    (after [.json snapshotPush, .json updatePush] : Feeds ℚ).json.book.best .ask = some 102 ∧
    (after [.json snapshotPush, .json updatePush] : Feeds ℚ).json.book.NoEmptyLevel := by
  refine ⟨by decide +kernel, (no_empty_level ?_).1.1⟩
  exact Reaches.start.all _ (by decide +kernel)

/-- A deletion of a price the book never held becomes its best ask. -/
theorem empty_level_from_unheld_delete :
    ∃ feeds : Feeds ℚ, Reaches (fun message => settle (receive message)) (fun _ _ => True) initial feeds ∧
      (101, 0) ∈ feeds.json.book.levels .ask ∧ feeds.json.book.best .ask = some 101 := by
  refine ⟨after [.json (booksPush "[]" "[[\"99\",\"1\"]]" "10" "-1"),
    .json (booksPush "[[\"101\",\"0\"]]" "[]" "11" "10")], ?_, by decide +kernel, by decide +kernel⟩
  exact Reaches.start.all _ (by decide +kernel)

end Feeds

end TradingEngine
