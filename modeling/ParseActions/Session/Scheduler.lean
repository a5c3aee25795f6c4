import ParseActions.Number.Double

/-!
# Scheduling refreshes

Times and durations are numbers of nanoseconds since some origin, up to a greatest one of `2 ^ 64`
seconds less one nanosecond. Each edit asks for a refresh after some delay. A new request takes the
place of one that is pending, so that a burst of edits makes one refresh.

## Main definitions

* `Time.later`: the end of a duration, at most the greatest time
* `Time.ofMilliseconds`, `Time.ofMillisecondsRounded`, `Time.toMilliseconds`
* `Scheduler.request`: asks for a refresh
* `Scheduler.take`: takes the pending request if it is due
* `Scheduler.timeLeft?`: the time until the pending request is due
-/

namespace ParseActions

/-! ## Time -/

namespace Time

/-- The nanoseconds of a second. -/
def second : Nat := 1000000000

/-- The greatest time. -/
def greatest : Nat :=
  (Double.maxWord + 1) * second - 1

/-- The end of a duration that begins at a time. -/
def later (time duration : Nat) : Nat :=
  min (time + duration) greatest

/-- A whole number of milliseconds. -/
def ofMilliseconds (ms : Nat) : Nat :=
  ms * 1000000

/-- The quotient rounded to the nearest whole number, and to the even one of two. -/
def dividedToEven (a b : Nat) : Nat :=
  let q := a / b
  let r := a % b
  if b < 2 * r ∨ (2 * r = b ∧ q % 2 = 1) then q + 1 else q

/-- The nanoseconds of a positive number of seconds. -/
def ofSeconds (seconds : Float) : Nat :=
  match Double.parts? seconds with
  | none => 0
  | some ⟨_, m, e⟩ =>
    if 0 ≤ e then (m <<< e.toNat) * second else dividedToEven (m * second) (1 <<< (-e).toNat)

/-- A number of milliseconds; there is no time before the origin. -/
def ofMillisecondsRounded (ms : Float) : Nat :=
  if ms.isFinite && 0.0 < ms then ofSeconds (ms / 1000.0) else 0

/-- A time as a number of milliseconds. -/
def toMilliseconds (time : Nat) : Float :=
  (Float.ofNat (time / second) + Float.ofNat (time % second) / 1000000000.0) * 1000.0

end Time

/-! ## Requests -/

/-- The pending request, and counts of requests. -/
structure Scheduler where
  /-- When the pending request is due. -/
  due : Option Nat
  /-- The number of requests. -/
  generation : Nat
  /-- The number of requests that were replaced while pending. -/
  superseded : Nat
  deriving DecidableEq

namespace Scheduler

/-- No requests. -/
def start : Scheduler :=
  ⟨none, 0, 0⟩

/-- Whether a request is pending. -/
def hasPending (s : Scheduler) : Bool :=
  s.due.isSome

/-- Asks for a refresh after a delay. -/
def request (s : Scheduler) (delay now : Nat) : Scheduler where
  due := some (Time.later now delay)
  generation := s.generation + 1
  superseded := if s.hasPending then s.superseded + 1 else s.superseded

/-- Whether a pending request is due. -/
def isDue (s : Scheduler) (now : Nat) : Bool :=
  s.due.any (· ≤ now)

/-- Drops the pending request. The flag tells whether there was one. -/
def cancel (s : Scheduler) : Bool × Scheduler :=
  (s.hasPending, { s with due := none })

/-- Takes the pending request if it is due. The flag tells whether it was taken. -/
def take (s : Scheduler) (now : Nat) : Bool × Scheduler :=
  if s.isDue now then (true, { s with due := none }) else (false, s)

/-- The time until the pending request is due, which is zero when it is overdue. -/
def timeLeft? (s : Scheduler) (now : Nat) : Option Nat :=
  s.due.map (· - now)

end Scheduler

end ParseActions
