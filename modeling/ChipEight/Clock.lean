/-!
# Clock

Turns elapsed time into whole instruction steps and timer ticks. Time is a 64-bit count of
nanoseconds that the host reads; the clock remembers the reading it last accounted for. Both
domains carry what is left of a period as a debt in nanoseconds times rate, so how many steps and
ticks come due depends on the time that has passed and not on how often anyone asks.

The clock also owns the delay and sound timers, which count down sixty times a second and stop at
zero.
-/

namespace ChipEight

/-- A reading of the time, in nanoseconds. -/
abbrev Reading := UInt64

/-- The reading after `nanos` more nanoseconds. A move is capped at the largest reading, and the
counter wraps. -/
def Reading.later (r : Reading) (nanos : Nat) : Reading :=
  r + UInt64.ofNat (min nanos 0xFFFFFFFFFFFFFFFF)

/-- Leftover time, in nanoseconds times rate. -/
abbrev Debt := BitVec 128

structure Clock where
  delay : UInt8
  sound : UInt8
  rate : UInt32
  cpuDebt : Debt
  timerDebt : Debt
  lastReading : Reading
  deriving DecidableEq

namespace Clock

/-- Ticks of the timers per second. -/
abbrev timerRate : Nat := 60

/-- The slowest and the fastest supported step rate. -/
abbrev minRate : UInt32 := 1
@[inherit_doc minRate] abbrev maxRate : UInt32 := 1000

abbrev defaultRate : UInt32 := 500

/-- The debt that makes one step or one tick. -/
abbrev period : Nat := 1000000000

/-- A clock with stopped timers and nothing owed, counting from `now`. The rate is brought into
the supported range. -/
def start (rate : UInt32) (now : Reading) : Clock where
  delay := 0
  sound := 0
  rate := max minRate (min maxRate rate)
  cpuDebt := 0
  timerDebt := 0
  lastReading := now

/-- Counts from a new time source, which reads `now`. What is owed stays owed. -/
def attach (c : Clock) (now : Reading) : Clock :=
  { c with lastReading := now }

/-- Stops the timers, forgets what is owed and counts from `now`. -/
def reset (c : Clock) (now : Reading) : Clock :=
  { c with delay := 0, sound := 0, cpuDebt := 0, timerDebt := 0, lastReading := now }

def countDown (timer n : UInt8) : UInt8 :=
  timer - min timer n

def tick (c : Clock) (n : UInt8) : Clock :=
  { c with delay := countDown c.delay n, sound := countDown c.sound n }

/-- The time since the last reading; none if the counter went backwards. -/
def elapsed (c : Clock) (now : Reading) : Nat :=
  now.toNat - c.lastReading.toNat

/-- The timer debt once the time up to `now` is added. -/
def timerOwed (c : Clock) (now : Reading) : Debt :=
  c.timerDebt + BitVec.ofNat 128 (c.elapsed now * timerRate)

/-- The step debt once the time up to `now` is added. -/
def cpuOwed (c : Clock) (now : Reading) : Debt :=
  c.cpuDebt + BitVec.ofNat 128 (c.elapsed now * c.rate.toNat)

/-- The timer ticks due at `now`. The timers hold a byte and stop at zero, so more than 255 ticks
do no more than 255. -/
def ticksDue (c : Clock) (now : Reading) : UInt8 :=
  UInt8.ofNat (min ((c.timerOwed now).toNat / period) 255)

/-- The steps due at `now`, capped at what a 64-bit count holds. -/
def stepsDue (c : Clock) (now : Reading) : Nat :=
  min ((c.cpuOwed now).toNat / period) 0xFFFFFFFFFFFFFFFF

/-- Accounts for the time up to `now`: applies the ticks that are due and keeps the rests. The
steps that are due are the caller's to run. -/
def advance (c : Clock) (now : Reading) : Clock :=
  { c.tick (c.ticksDue now) with
    cpuDebt := BitVec.ofNat 128 ((c.cpuOwed now).toNat % period)
    timerDebt := BitVec.ofNat 128 ((c.timerOwed now).toNat % period)
    lastReading := now }

end Clock
end ChipEight
