import TradingEngine.Common.OkxConstants

/-! Sliding-window rate limits. The ring of timestamps is the queue it holds,
oldest first; a slot is never overwritten while it counts. -/

set_option autoImplicit false

namespace TradingEngine

structure SlidingWindowLimiter where
  capacity : Nat
  window : Int
  timestamps : List Int

namespace SlidingWindowLimiter

def create (capacity : Nat) (window : Int) : SlidingWindowLimiter := ⟨capacity, window, []⟩

/-- The timestamps still in the window; only a run of old ones at the head leaves. -/
def recent (limiter : SlidingWindowLimiter) (now : Int) : List Int :=
  limiter.timestamps.dropWhile (· < now - limiter.window)

def tryAcquire (limiter : SlidingWindowLimiter) (now : Int) : Bool × SlidingWindowLimiter :=
  let kept := limiter.recent now
  if limiter.capacity ≤ kept.length then (false, { limiter with timestamps := kept })
  else (true, { limiter with timestamps := kept ++ [now] })

end SlidingWindowLimiter

structure EndpointRateLimiter where
  orderLimiter : SlidingWindowLimiter
  cancelLimiter : SlidingWindowLimiter
  amendLimiter : SlidingWindowLimiter

def EndpointRateLimiter.tryAcquire (limiter : EndpointRateLimiter) (op : Text) (now : Int) :
    Except Exn (Bool × EndpointRateLimiter) :=
  if op = kOrderOp then
    let (granted, next) := limiter.orderLimiter.tryAcquire now
    .ok (granted, { limiter with orderLimiter := next })
  else if op = kCancelOrderOp then
    let (granted, next) := limiter.cancelLimiter.tryAcquire now
    .ok (granted, { limiter with cancelLimiter := next })
  else if op = kAmendOrderOp then
    let (granted, next) := limiter.amendLimiter.tryAcquire now
    .ok (granted, { limiter with amendLimiter := next })
  else .error (.invalidArgument ("Unknown rate-limited op: ".toList ++ op))

end TradingEngine
