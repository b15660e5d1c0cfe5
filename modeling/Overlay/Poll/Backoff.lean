/-!
# Retry delays

A failed first poll is tried again after a delay that doubles with each attempt
up to a bound, plus a jitter of up to a tenth. Delays are counted in 64-bit
milliseconds: doubling stays at the largest number, but the sum of delay and
jitter may pass it, and then there is no delay, nor a range that delays of all
draws are in.
-/

namespace Overlay.Poll

/-- The largest number of milliseconds. -/
def maxMillis : Nat := 18446744073709551615

/-- `2 ^ n`, at most the largest number. -/
def doublings (n : Nat) : Nat := if n < 64 then Nat.pow 2 n else maxMillis

/-- The delay before an attempt's retry, without jitter. Attempts count from 1. -/
def cappedDelay (attempt base bound : Nat) : Nat :=
  if attempt = 0 then 0 else min (min (base * doublings (attempt - 1)) maxMillis) bound

/-- The jitter that a random draw gives for a delay. -/
def jitter (delay draw : Nat) : Nat := if delay / 10 = 0 then 0 else draw % (delay / 10)

/-- The growing delay before an attempt's retry. -/
def growingDelay? (attempt base bound draw : Nat) : Option Nat :=
  let delay := cappedDelay attempt base bound
  let sum := delay + jitter delay draw
  if sum ≤ maxMillis then some sum else none

/-- The delay before an attempt's retry: fixed when the bound leaves no room to grow. -/
def retryDelay? (attempt base bound draw : Nat) : Option Nat :=
  if bound ≤ base then some base else growingDelay? attempt base bound draw

/-- The draw that gives the largest jitter for a delay; draw 0 gives the smallest. -/
def lastDraw (delay : Nat) : Nat := delay / 10 - 1

/-- The smallest and the largest delay before an attempt's retry, unless a draw gives none. -/
def delayRange? (delay? : Nat → Nat → Nat → Nat → Option Nat) (attempt base bound : Nat) :
    Option (Nat × Nat) := do
  let least ← delay? attempt base bound 0
  let most ← delay? attempt base bound (lastDraw (cappedDelay attempt base bound))
  return (least, most)

end Overlay.Poll
