import Mathlib.Data.List.AList
import Mathlib.Data.Rat.Floor

/-!
# Token-bucket rate limiting

One bucket for each key.  Times are in milliseconds; the refill rate is an exact rational.
-/

namespace BlossomRs.RateLimit

/-- `MAX_TRACKED_KEYS`. -/
def maxTrackedKeys : Nat :=
  10000

structure RateLimitConfig where
  maxTokens : Nat
  refillRate : ℚ

structure Bucket where
  tokens : Nat
  lastRefill : Nat
deriving DecidableEq

structure RateLimiter where
  buckets : AList fun _ : String => Bucket
  config : RateLimitConfig

namespace RateLimiter

/-- `cleanup`: forget the buckets not refilled since the threshold. -/
def cleanup (limiter : RateLimiter) (maxAgeMs nowMs : Nat) : RateLimiter :=
  let threshold := nowMs - maxAgeMs
  let stale := limiter.buckets.entries.filter fun entry => entry.2.lastRefill ≤ threshold
  let kept := stale.foldl (fun buckets entry => buckets.erase entry.1) limiter.buckets
  { limiter with buckets := kept }

/-- The bucket after the tokens that became due were added; the refill time moves only when some
did. -/
def refill (config : RateLimitConfig) (nowMs : Nat) (bucket : Bucket) : Bucket :=
  let elapsedMs := nowMs - bucket.lastRefill
  let newTokens := ⌊(elapsedMs : ℚ) / 1000 * config.refillRate⌋.toNat
  if 0 < elapsedMs ∧ 0 < newTokens then
    ⟨min (bucket.tokens + newTokens) config.maxTokens, nowMs⟩
  else bucket

/-- `check`: may this key make a request now? -/
def check (limiter : RateLimiter) (key : String) (nowMs : Nat) : Bool × RateLimiter :=
  let full (limiter : RateLimiter) : Prop :=
    key ∉ limiter.buckets ∧ maxTrackedKeys ≤ limiter.buckets.keys.length
  let limiter := if full limiter then limiter.cleanup (10 * 60 * 1000) nowMs else limiter
  if full limiter then (false, limiter)
  else
    let bucket := (limiter.buckets.lookup key).getD ⟨limiter.config.maxTokens, nowMs⟩
    let bucket := refill limiter.config nowMs bucket
    if bucket.tokens = 0 then
      (false, { limiter with buckets := limiter.buckets.insert key bucket })
    else
      let taken := { bucket with tokens := bucket.tokens - 1 }
      (true, { limiter with buckets := limiter.buckets.insert key taken })

end RateLimiter

end BlossomRs.RateLimit
