import TradingEngine.MarketData.SbeSchema
import TradingEngine.MarketData.Sequencing

/-! Whole runs of the binary feed. What it shows is the newest top of book it was
sent, so it depends on which messages arrived and not on their order or number. -/

set_option autoImplicit false

namespace TradingEngine

namespace Sbe.BboTbt

variable {D : Type}

/-- The one level of each side. -/
def quotes (top : BboTbt D) : BookSide → D × D
  | .bid => (top.bidPx, top.bidSz)
  | .ask => (top.askPx, top.askSz)

end Sbe.BboTbt

namespace SbeBboSource

variable {D : Type} [DoubleArith D]

def run (messages : List Text) : SbeBboSource D :=
  messages.foldl (fun source message => source.onMessage message) initial

/-- The tops of book among the messages. -/
def tops (messages : List Text) : List (Sbe.BboTbt D) := messages.filterMap Sbe.decodeBboTbt

theorem run_concat (messages : List Text) (message : Text) :
    (run (messages ++ [message]) : SbeBboSource D) = (run messages).onMessage message :=
  List.foldl_concat ..

theorem tops_concat (messages : List Text) (message : Text) :
    (tops (messages ++ [message]) : List (Sbe.BboTbt D)) =
      tops messages ++ (Sbe.decodeBboTbt message).toList := by
  rw [tops, List.filterMap_append]
  rfl

structure Shows (book : OrderBook D) (top : Sbe.BboTbt D) : Prop where
  levels : ∀ side, book.levels side = [top.quotes side]
  lastSeqId : book.lastSeqId = top.seqId
  hasSnapshot : book.hasSnapshot = true

theorem shows_replaceBook (top : Sbe.BboTbt D) (book : OrderBook D) : Shows (replaceBook top book) top where
  levels side := by
    have bid := (book.beginSnapshot).levels_setLevel .bid side top.bidPx top.bidSz
    have ask := ((book.beginSnapshot).setLevel .bid top.bidPx top.bidSz).levels_setLevel .ask side
      top.askPx top.askSz
    cases side with
    | bid =>
        rw [if_neg (by decide), bid, if_pos rfl, OrderBook.levels_beginSnapshot] at ask
        exact ask
    | ask =>
        rw [if_pos rfl, bid, if_neg (by decide), OrderBook.levels_beginSnapshot] at ask
        exact ask
  lastSeqId := rfl
  hasSnapshot := rfl

/-- The source after some messages: nothing accepted yet, or the newest of their
tops of book. -/
structure Newest (messages : List Text) (source : SbeBboSource D) : Prop where
  bound : ∀ top ∈ (tops messages : List (Sbe.BboTbt D)), top.seqId ≤ source.lastSeqId
  shown : source = initial ∨
    ∃ top ∈ tops messages, top.seqId = source.lastSeqId ∧ -1 < top.seqId ∧ Shows source.book top
  ordered : (source.published.map (·.lastSeqId)).Pairwise (· < ·)
  recent : ∀ book ∈ source.published, book.lastSeqId ≤ source.lastSeqId

theorem newest_initial : Newest [] (initial : SbeBboSource D) where
  bound := by simp [tops]
  shown := .inl rfl
  ordered := List.Pairwise.nil
  recent := by simp [initial]

theorem Newest.skip {messages : List Text} {source : SbeBboSource D} (newest : Newest messages source)
    {message : Text}
    (stale : ∀ top : Sbe.BboTbt D, Sbe.decodeBboTbt message = some top → top.seqId ≤ source.lastSeqId) :
    Newest (messages ++ [message]) source where
  bound top member := by
    rw [tops_concat, List.mem_append, Option.mem_toList] at member
    exact member.elim (newest.bound top) (stale top)
  shown := newest.shown.imp_right fun ⟨top, member, rest⟩ =>
    ⟨top, by rw [tops_concat]; exact List.mem_append_left _ member, rest⟩
  ordered := newest.ordered
  recent := newest.recent

theorem Newest.accept {messages : List Text} {source : SbeBboSource D} (newest : Newest messages source)
    (floor : -1 ≤ source.lastSeqId) {message : Text} {top : Sbe.BboTbt D}
    (decoded : Sbe.decodeBboTbt message = some top) (fresh : source.lastSeqId < top.seqId) :
    Newest (messages ++ [message]) ⟨replaceBook top source.book, top.seqId,
      source.published ++ [replaceBook top source.book]⟩ where
  bound other member := by
    rw [tops_concat, decoded, List.mem_append, Option.mem_toList, Option.some.injEq] at member
    rcases member with old | rfl
    · exact (newest.bound other old).trans fresh.le
    · exact le_rfl
  shown := by
    refine .inr ⟨top, ?_, rfl, floor.trans_lt fresh, shows_replaceBook top source.book⟩
    rw [tops_concat, decoded]
    exact List.mem_append_right _ (Option.mem_toList.mpr rfl)
  ordered := by
    rw [List.map_append, List.pairwise_append]
    refine ⟨newest.ordered, List.pairwise_singleton _ _, ?_⟩
    intro earlier member later isLast
    obtain ⟨book, published, rfl⟩ := List.mem_map.mp member
    rw [List.mem_singleton.mp isLast]
    exact (newest.recent book published).trans_lt fresh
  recent book member := by
    rcases List.mem_append.mp member with old | new
    · exact (newest.recent book old).trans fresh.le
    · rw [List.mem_singleton.mp new]
      exact le_rfl

theorem floor_onMessage {source : SbeBboSource D} (floor : -1 ≤ source.lastSeqId) (message : Text) :
    -1 ≤ (source.onMessage message).lastSeqId := by
  unfold onMessage
  split
  · exact floor
  · split
    · exact floor
    · rename_i fresh
      exact floor.trans (Int.not_le.mp fresh).le

theorem newest_onMessage {messages : List Text} {source : SbeBboSource D} (newest : Newest messages source)
    (floor : -1 ≤ source.lastSeqId) (message : Text) :
    Newest (messages ++ [message]) (source.onMessage message) := by
  unfold onMessage
  cases decoded : (Sbe.decodeBboTbt message : Option (Sbe.BboTbt D)) with
  | none => exact newest.skip (by simp [decoded])
  | some top =>
      dsimp only
      split
      · rename_i stale
        refine newest.skip fun other same => ?_
        obtain rfl : top = other := Option.some.inj (decoded.symm.trans same)
        exact stale
      · rename_i fresh
        exact newest.accept floor decoded (Int.not_le.mp fresh)

theorem newest_run (messages : List Text) :
    Newest messages (run messages : SbeBboSource D) ∧ -1 ≤ (run messages : SbeBboSource D).lastSeqId := by
  induction messages using List.reverseRecOn with
  | nil => exact ⟨newest_initial, le_rfl⟩
  | append_singleton earlier message ih =>
      rw [run_concat]
      exact ⟨newest_onMessage ih.1 ih.2 message, floor_onMessage ih.2 message⟩

theorem mem_tops_of_same {left right : List Text} (same : ∀ message, message ∈ left ↔ message ∈ right)
    {top : Sbe.BboTbt D} (member : top ∈ tops right) : top ∈ tops left := by
  obtain ⟨message, received, decoded⟩ := List.mem_filterMap.mp member
  exact List.mem_filterMap.mpr ⟨message, (same message).mpr received, decoded⟩

/-- Nothing accepted from one order of the messages, nothing from another. -/
theorem initial_of_same {left right : List Text} (same : ∀ message, message ∈ left ↔ message ∈ right)
    (idle : (run left : SbeBboSource D) = initial) : (run right : SbeBboSource D) = initial := by
  rcases (newest_run (D := D) right).1.shown with none_accepted | ⟨top, member, -, accepted, -⟩
  · exact none_accepted
  · have bounded := (newest_run left).1.bound top (mem_tops_of_same same member)
    rw [idle] at bounded
    exact absurd (accepted.trans_le bounded) (lt_irrefl _)

/-- Messages that arrive in another order, or more than once, leave the same book;
the books handed on are ever newer. -/
theorem bbo_feed_converges (left right : List Text) (same : ∀ message, message ∈ left ↔ message ∈ right)
    (consistent : ∀ first ∈ (tops left : List (Sbe.BboTbt D)), ∀ second ∈ (tops left : List (Sbe.BboTbt D)),
      first.seqId = second.seqId → ∀ side, first.quotes side = second.quotes side) :
    (run left : SbeBboSource D).book.Same (run right).book ∧
      ((run left : SbeBboSource D).published.map (·.lastSeqId)).Pairwise (· < ·) := by
  refine ⟨?_, (newest_run left).1.ordered⟩
  have newestLeft := (newest_run (D := D) left).1
  have newestRight := (newest_run (D := D) right).1
  rcases newestLeft.shown with idle | ⟨first, firstTop, firstLast, -, firstShown⟩
  · rw [idle, initial_of_same same idle]
    exact ⟨fun _ => rfl, rfl, rfl⟩
  rcases newestRight.shown with idle | ⟨second, secondTop, secondLast, -, secondShown⟩
  · rw [idle, initial_of_same (fun message => (same message).symm) idle]
    exact ⟨fun _ => rfl, rfl, rfl⟩
  have member := mem_tops_of_same same secondTop
  have later := newestLeft.bound second member
  have earlier := newestRight.bound first (mem_tops_of_same (fun message => (same message).symm) firstTop)
  have seqId : first.seqId = second.seqId := by omega
  constructor
  · intro side
    rw [firstShown.levels, secondShown.levels, consistent first firstTop second member seqId]
  · rw [firstShown.lastSeqId, secondShown.lastSeqId, seqId]
  · rw [firstShown.hasSnapshot, secondShown.hasSnapshot]

/-- One order bid for at the price and one offered a point above. -/
def sampleTop (seqId price : BitVec 64) : Text :=
  Sbe.BboTbtChannelEvent.message
    { instIdCode := 1, tsUs := 0, outTime := 0, seqId := seqId, askPxMantissa := price + 1, askSzMantissa := 1,
      bidPxMantissa := price, bidSzMantissa := 1, askOrdCount := 1, bidOrdCount := 1, pxExponent := 0,
      szExponent := 0 } 0 [] []

theorem bbo_feed_converges_swapped :
    (run [sampleTop 8 100, sampleTop 7 90, sampleTop 8 100] : SbeBboSource ℚ).book.Same
        (run [sampleTop 7 90, sampleTop 8 100]).book ∧
      (run [sampleTop 7 90, sampleTop 8 100] : SbeBboSource ℚ).book.levels .bid = [(100, 1)] := by
  have alike : ∀ first ∈ (tops [sampleTop 8 100, sampleTop 7 90, sampleTop 8 100] : List (Sbe.BboTbt ℚ)),
      ∀ second ∈ (tops [sampleTop 8 100, sampleTop 7 90, sampleTop 8 100] : List (Sbe.BboTbt ℚ)),
        first.seqId = second.seqId →
          first.quotes .bid = second.quotes .bid ∧ first.quotes .ask = second.quotes .ask := by
    decide +kernel
  refine ⟨(bbo_feed_converges _ _ ?_ ?_).1, by decide +kernel⟩
  · intro message
    simp only [List.mem_cons, List.not_mem_nil, or_false]
    tauto
  · intro first firstTop second secondTop seqId side
    obtain ⟨bid, ask⟩ := alike first firstTop second secondTop seqId
    cases side with
    | bid => exact bid
    | ask => exact ask

end SbeBboSource

end TradingEngine
