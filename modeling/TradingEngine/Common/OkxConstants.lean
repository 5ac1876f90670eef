import TradingEngine.Common.Basic

/-! The field names and values of the exchange's messages that the modelled
functions look up or compare with. -/

set_option autoImplicit false

namespace TradingEngine

def kEmpty : Text := []

def kEthUsdt : Text := "ETH-USDT".toList

def kCode : Text := "code".toList
def kData : Text := "data".toList
def kOrdId : Text := "ordId".toList
def kClOrdId : Text := "clOrdId".toList
def kSCode : Text := "sCode".toList
def kSMsg : Text := "sMsg".toList

/-- The value `code` and `sCode` hold on success. -/
def kSuccessCode : Text := "0".toList

def kCash : Text := "cash".toList
def kBuy : Text := "buy".toList
def kSell : Text := "sell".toList
def kLimit : Text := "limit".toList
def kMarket : Text := "market".toList

def kEvent : Text := "event".toList
def kLoginEvent : Text := "login".toList

def kChannel : Text := "channel".toList
def kBooksChannel : Text := "books".toList
def kSeqId : Text := "seqId".toList
def kPrevSeqId : Text := "prevSeqId".toList
def kSnapshotSeqId : Int := -1
def kAsks : Text := "asks".toList
def kBids : Text := "bids".toList
def kBooksLevelPriceIdx : Nat := 0
def kBooksLevelSizeIdx : Nat := 1

def kOrdersChannel : Text := "orders".toList
def kInstId : Text := "instId".toList
def kSide : Text := "side".toList
def kPx : Text := "px".toList
def kSz : Text := "sz".toList
def kAccFillSz : Text := "accFillSz".toList
def kAvgPx : Text := "avgPx".toList
def kFillPx : Text := "fillPx".toList
def kFillSz : Text := "fillSz".toList
def kState : Text := "state".toList
def kStateLive : Text := "live".toList
def kStatePartiallyFilled : Text := "partially_filled".toList
def kStateFilled : Text := "filled".toList
def kStateCanceled : Text := "canceled".toList
def kStateMmpCanceled : Text := "mmp_canceled".toList

def kAccountChannel : Text := "account".toList
def kDetails : Text := "details".toList
def kCcy : Text := "ccy".toList
def kCashBal : Text := "cashBal".toList
def kAvailBal : Text := "availBal".toList

def kId : Text := "id".toList
def kOrderOp : Text := "order".toList
def kCancelOrderOp : Text := "cancel-order".toList
def kAmendOrderOp : Text := "amend-order".toList

end TradingEngine
