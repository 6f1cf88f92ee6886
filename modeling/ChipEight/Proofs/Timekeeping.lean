import ChipEight.Clock

/-!
# Exact timekeeping

A clock that owes less than a period counts without loss: the steps it grants, the ticks it
applies and the debts it carries are those of the whole time that it has counted, however the
time was cut up. One advance does so (`Clock.advance_keeps`, `Clock.advance_countsDown`), and two
accounts in a row make one (`Clock.Keeps.trans`, `Clock.CountsDown.trans`), so a whole sequence of
advances and replaced time sources does (`Clock.start_calls`).
-/

namespace ChipEight.Clock

/-! ## Sound clocks -/

/-- A supported rate, and less than a period owed. -/
structure Sound (c : Clock) : Prop where
  rate_pos : 1 ≤ c.rate.toNat
  rate_le : c.rate.toNat ≤ 1000
  cpuDebt_lt : c.cpuDebt.toNat < period
  timerDebt_lt : c.timerDebt.toNat < period

/-- A clock goes at the asked rate, brought between 1 and 1000. -/
theorem toNat_rate_start (rate : UInt32) (now : Reading) :
    (Clock.start rate now).rate.toNat = max 1 (min 1000 rate.toNat) := by
  have hmin : (min maxRate rate).toNat = min 1000 rate.toNat := by
    by_cases h : maxRate ≤ rate
    · have hle : 1000 ≤ rate.toNat := UInt32.le_iff_toNat_le.1 h
      have hm : min maxRate rate = maxRate := if_pos h
      rw [hm, Nat.min_eq_left hle]
      rfl
    · have hlt : ¬ 1000 ≤ rate.toNat := fun hle => h (UInt32.le_iff_toNat_le.2 hle)
      have hm : min maxRate rate = rate := if_neg h
      rw [hm, Nat.min_eq_right (by omega)]
  have hmax : (max minRate (min maxRate rate)).toNat = max 1 (min maxRate rate).toNat := by
    by_cases h : minRate ≤ min maxRate rate
    · have hle : 1 ≤ (min maxRate rate).toNat := UInt32.le_iff_toNat_le.1 h
      have hm : max minRate (min maxRate rate) = min maxRate rate := if_pos h
      rw [hm, Nat.max_eq_right hle]
    · have hlt : ¬ 1 ≤ (min maxRate rate).toNat := fun hle => h (UInt32.le_iff_toNat_le.2 hle)
      have hm : max minRate (min maxRate rate) = minRate := if_neg h
      rw [hm, Nat.max_eq_left (by omega)]
      rfl
  rw [← hmin, ← hmax]
  rfl

theorem start_sound (rate : UInt32) (now : Reading) : (Clock.start rate now).Sound where
  rate_pos := by rw [toNat_rate_start]; omega
  rate_le := by rw [toNat_rate_start]; omega
  cpuDebt_lt := Nat.zero_lt_succ _
  timerDebt_lt := Nat.zero_lt_succ _

theorem attach_sound {c : Clock} (h : c.Sound) (now : Reading) : (c.attach now).Sound :=
  ⟨h.rate_pos, h.rate_le, h.cpuDebt_lt, h.timerDebt_lt⟩

theorem reset_sound {c : Clock} (h : c.Sound) (now : Reading) : (c.reset now).Sound :=
  ⟨h.rate_pos, h.rate_le, Nat.zero_lt_succ _, Nat.zero_lt_succ _⟩

theorem tick_sound {c : Clock} (h : c.Sound) (n : UInt8) : (c.tick n).Sound :=
  ⟨h.rate_pos, h.rate_le, h.cpuDebt_lt, h.timerDebt_lt⟩

/-! ## One advance -/

theorem elapsed_lt (c : Clock) (now : Reading) : c.elapsed now < UInt64.size :=
  Nat.lt_of_le_of_lt (Nat.sub_le _ _) now.toNat_lt

/-- In a sound clock the sum that the timers are owed does not wrap. -/
theorem toNat_timerOwed {c : Clock} (h : c.Sound) (now : Reading) :
    (c.timerOwed now).toNat = c.timerDebt.toNat + c.elapsed now * timerRate := by
  have hd : c.timerDebt.toNat < 1000000000 := h.timerDebt_lt
  have he : c.elapsed now < 18446744073709551616 := c.elapsed_lt now
  unfold timerOwed timerRate
  rw [BitVec.toNat_add, BitVec.toNat_ofNat]
  omega

/-- Over any time of 64 bits a sound clock comes to owe fewer steps than 64 bits can count. -/
theorem owed_lt {c : Clock} (h : c.Sound) {time : Nat} (ht : time < UInt64.size) :
    c.cpuDebt.toNat + time * c.rate.toNat < period * UInt64.size := by
  have hd : c.cpuDebt.toNat < 1000000000 := h.cpuDebt_lt
  have hmul : time * c.rate.toNat ≤ 18446744073709551616 * 1000 :=
    Nat.mul_le_mul (Nat.le_of_lt ht) h.rate_le
  have hsize : period * UInt64.size = 1000000000 * 18446744073709551616 := rfl
  omega

theorem cpuOwed_lt {c : Clock} (h : c.Sound) (now : Reading) :
    c.cpuDebt.toNat + c.elapsed now * c.rate.toNat < period * UInt64.size :=
  owed_lt h (c.elapsed_lt now)

theorem toNat_cpuOwed {c : Clock} (h : c.Sound) (now : Reading) :
    (c.cpuOwed now).toNat = c.cpuDebt.toNat + c.elapsed now * c.rate.toNat := by
  have hlt : _ < 1000000000 * 18446744073709551616 := cpuOwed_lt h now
  unfold cpuOwed
  rw [BitVec.toNat_add, BitVec.toNat_ofNat]
  omega

theorem stepsDue_eq {c : Clock} (h : c.Sound) (now : Reading) :
    c.stepsDue now = (c.cpuDebt.toNat + c.elapsed now * c.rate.toNat) / period := by
  have hlt : _ < 18446744073709551616 := Nat.div_lt_of_lt_mul (cpuOwed_lt h now)
  unfold stepsDue
  rw [toNat_cpuOwed h]
  omega

/-- Timers count down to zero and no further. -/
theorem toNat_countDown (timer n : UInt8) : (countDown timer n).toNat = timer.toNat - n.toNat := by
  unfold countDown
  by_cases h : timer ≤ n
  · have hle : timer.toNat ≤ n.toNat := UInt8.le_iff_toNat_le.1 h
    have hm : min timer n = timer := if_pos h
    rw [hm, UInt8.sub_self, Nat.sub_eq_zero_of_le hle]
    rfl
  · have hle : n.toNat ≤ timer.toNat := Nat.le_of_not_le fun hh => h (UInt8.le_iff_toNat_le.2 hh)
    have hm : min timer n = n := if_neg h
    rw [hm, UInt8.toNat_sub_of_le _ _ (UInt8.le_iff_toNat_le.2 hle)]

/-- The cap on the ticks of one advance does not show: timers hold at most 255. -/
theorem toNat_countDown_ticksDue {c : Clock} (h : c.Sound) (now : Reading) (timer : UInt8) :
    (countDown timer (c.ticksDue now)).toNat =
      timer.toNat - (c.timerDebt.toNat + c.elapsed now * timerRate) / period := by
  have ht := timer.toNat_lt
  have hn : (c.ticksDue now).toNat =
      min ((c.timerDebt.toNat + c.elapsed now * timerRate) / period) 255 := by
    unfold ticksDue
    rw [toNat_timerOwed h, UInt8.toNat_ofNat', Nat.mod_eq_of_lt (by omega)]
  rw [toNat_countDown, hn]
  omega

theorem toNat_debt_mod (n : Nat) : (BitVec.ofNat 128 (n % period)).toNat = n % period := by
  rw [BitVec.toNat_ofNat]
  unfold period
  omega

theorem toNat_cpuDebt_advance (c : Clock) (now : Reading) :
    (c.advance now).cpuDebt.toNat = (c.cpuOwed now).toNat % period :=
  toNat_debt_mod _

theorem toNat_timerDebt_advance (c : Clock) (now : Reading) :
    (c.advance now).timerDebt.toNat = (c.timerOwed now).toNat % period :=
  toNat_debt_mod _

/-- Accounting for time keeps a clock sound. -/
theorem advance_sound {c : Clock} (h : c.Sound) (now : Reading) : (c.advance now).Sound where
  rate_pos := h.rate_pos
  rate_le := h.rate_le
  cpuDebt_lt := by
    rw [toNat_cpuDebt_advance]
    exact Nat.mod_lt _ (by decide)
  timerDebt_lt := by
    rw [toNat_timerDebt_advance]
    exact Nat.mod_lt _ (by decide)

/-! ## Accounts

`Keeps` is about the steps and the debts, `CountsDown` about the timers. They are apart because a
program may set the timers while the time runs.
-/

/-- From `c` on, `time` nanoseconds were counted: `steps` steps were granted, and the clock that
has come of it carries the rest. -/
structure Keeps (c : Clock) (time : Nat) (c' : Clock) (steps : Nat) : Prop where
  rate : c'.rate = c.rate
  steps : steps = (c.cpuDebt.toNat + time * c.rate.toNat) / period
  cpuDebt : c'.cpuDebt.toNat = (c.cpuDebt.toNat + time * c.rate.toNat) % period
  timerDebt : c'.timerDebt.toNat = (c.timerDebt.toNat + time * timerRate) % period

/-- From `c` on, the timers were left alone while `time` nanoseconds were counted. -/
structure CountsDown (c : Clock) (time : Nat) (c' : Clock) : Prop where
  delay : c'.delay.toNat = c.delay.toNat - (c.timerDebt.toNat + time * timerRate) / period
  sound : c'.sound.toNat = c.sound.toNat - (c.timerDebt.toNat + time * timerRate) / period

theorem advance_keeps {c : Clock} (h : c.Sound) (now : Reading) :
    Keeps c (c.elapsed now) (c.advance now) (c.stepsDue now) where
  rate := rfl
  steps := stepsDue_eq h now
  cpuDebt := by rw [toNat_cpuDebt_advance, toNat_cpuOwed h]
  timerDebt := by rw [toNat_timerDebt_advance, toNat_timerOwed h]

theorem advance_countsDown {c : Clock} (h : c.Sound) (now : Reading) :
    CountsDown c (c.elapsed now) (c.advance now) where
  delay := toNat_countDown_ticksDue h now c.delay
  sound := toNat_countDown_ticksDue h now c.sound

/-- What is carried from a first account into a second is neither lost nor counted twice. -/
theorem div_add_div_carry (debt a b rate : Nat) :
    (debt + a * rate) / period + ((debt + a * rate) % period + b * rate) / period =
      (debt + (a + b) * rate) / period := by
  rw [Nat.add_mul, ← Nat.add_assoc]
  -- the products are opaque from here on, so that what is left is linear
  generalize debt + a * rate = m, b * rate = n
  unfold period
  omega

theorem mod_add_mod_carry (debt a b rate : Nat) :
    ((debt + a * rate) % period + b * rate) % period = (debt + (a + b) * rate) % period := by
  rw [Nat.mod_add_mod, Nat.add_mul, Nat.add_assoc]

theorem Keeps.trans {c c' c'' : Clock} {a b m n : Nat} (h : Keeps c a c' m)
    (h' : Keeps c' b c'' n) : Keeps c (a + b) c'' (m + n) where
  rate := h'.rate.trans h.rate
  steps := by rw [h.steps, h'.steps, h.cpuDebt, h.rate, div_add_div_carry]
  cpuDebt := by rw [h'.cpuDebt, h.cpuDebt, h.rate, mod_add_mod_carry]
  timerDebt := by rw [h'.timerDebt, h.timerDebt, mod_add_mod_carry]

theorem CountsDown.trans {c c' c'' : Clock} {a b m : Nat} (hk : Keeps c a c' m)
    (h : CountsDown c a c') (h' : CountsDown c' b c'') : CountsDown c (a + b) c'' where
  delay := by rw [h'.delay, h.delay, hk.timerDebt, Nat.sub_sub, div_add_div_carry]
  sound := by rw [h'.sound, h.sound, hk.timerDebt, Nat.sub_sub, div_add_div_carry]

/-- The steps that come due in some time. -/
def stepsIn (c : Clock) (time : Nat) : Nat :=
  (c.cpuDebt.toNat + time * c.rate.toNat) / period

theorem stepsIn_lt {c : Clock} (h : c.Sound) {time : Nat} (ht : time < UInt64.size) :
    c.stepsIn time < UInt64.size :=
  Nat.div_lt_of_lt_mul (owed_lt h ht)

theorem Keeps.stepsIn_add {c c' : Clock} {a m : Nat} (h : Keeps c a c' m) (b : Nat) :
    c.stepsIn (a + b) = m + c'.stepsIn b := by
  unfold stepsIn
  rw [h.steps, h.cpuDebt, h.rate, div_add_div_carry]

theorem Keeps.refl {c : Clock} (h : c.Sound) : Keeps c 0 c 0 where
  rate := rfl
  steps := by rw [Nat.zero_mul, Nat.add_zero, Nat.div_eq_of_lt h.cpuDebt_lt]
  cpuDebt := by rw [Nat.zero_mul, Nat.add_zero, Nat.mod_eq_of_lt h.cpuDebt_lt]
  timerDebt := by rw [Nat.zero_mul, Nat.add_zero, Nat.mod_eq_of_lt h.timerDebt_lt]

theorem CountsDown.refl {c : Clock} (h : c.Sound) : CountsDown c 0 c where
  delay := by rw [Nat.zero_mul, Nat.add_zero, Nat.div_eq_of_lt h.timerDebt_lt, Nat.sub_zero]
  sound := by rw [Nat.zero_mul, Nat.add_zero, Nat.div_eq_of_lt h.timerDebt_lt, Nat.sub_zero]

/-- Asking again at the reading that was last accounted for changes nothing. -/
theorem advance_of_lastReading {c : Clock} (h : c.Sound) :
    c.stepsDue c.lastReading = 0 ∧ c.advance c.lastReading = c := by
  have he : c.elapsed c.lastReading = 0 := Nat.sub_self _
  have hk := advance_keeps h c.lastReading
  have ht := advance_countsDown h c.lastReading
  have hk0 := Keeps.refl h
  have ht0 := CountsDown.refl h
  rw [he] at hk ht
  have hdelay : (c.advance c.lastReading).delay = c.delay :=
    UInt8.toNat_inj.1 (ht.delay.trans ht0.delay.symm)
  have hsound : (c.advance c.lastReading).sound = c.sound :=
    UInt8.toNat_inj.1 (ht.sound.trans ht0.sound.symm)
  have hcpu : (c.advance c.lastReading).cpuDebt = c.cpuDebt :=
    BitVec.eq_of_toNat_eq (hk.cpuDebt.trans hk0.cpuDebt.symm)
  have htimer : (c.advance c.lastReading).timerDebt = c.timerDebt :=
    BitVec.eq_of_toNat_eq (hk.timerDebt.trans hk0.timerDebt.symm)
  refine ⟨hk.steps.trans hk0.steps.symm, ?_⟩
  calc c.advance c.lastReading
      = ⟨(c.advance c.lastReading).delay, (c.advance c.lastReading).sound, c.rate,
          (c.advance c.lastReading).cpuDebt, (c.advance c.lastReading).timerDebt,
          c.lastReading⟩ := rfl
    _ = c := by rw [hdelay, hsound, hcpu, htimer]

/-! ## Sequences of calls -/

/-- What may happen to a clock that nobody resets: it is asked what is due, or it gets a new time
source. Either comes with a reading, and readings may go anywhere, as a counter that wraps does. -/
inductive Call where
  | advance (now : Reading)
  | attach (now : Reading)
  deriving Repr, DecidableEq

def afterCalls (c : Clock) : List Call → Clock
  | [] => c
  | .advance now :: calls => (c.advance now).afterCalls calls
  | .attach now :: calls => (c.attach now).afterCalls calls

def granted (c : Clock) : List Call → Nat
  | [] => 0
  | .advance now :: calls => c.stepsDue now + (c.advance now).granted calls
  | .attach now :: calls => (c.attach now).granted calls

/-- The time that some calls see pass, the reading before them being `last`. Time that seems to
run backwards does not count, and neither does the way from one source to another. -/
def counted (last : Reading) : List Call → Nat
  | [] => 0
  | .advance now :: calls => (now.toNat - last.toNat) + counted now calls
  | .attach now :: calls => counted now calls

/-- The calls account for the time that they see pass, and for no other. -/
theorem afterCalls_accounts (calls : List Call) {c : Clock} (h : c.Sound) :
    (c.afterCalls calls).Sound ∧
      Keeps c (counted c.lastReading calls) (c.afterCalls calls) (c.granted calls) ∧
      CountsDown c (counted c.lastReading calls) (c.afterCalls calls) := by
  induction calls generalizing c with
  | nil => exact ⟨h, .refl h, .refl h⟩
  | cons call calls ih =>
    cases call with
    | advance now =>
      obtain ⟨hs, hk, ht⟩ := ih (advance_sound h now)
      have hk1 := advance_keeps h now
      exact ⟨hs, hk1.trans hk, .trans hk1 (advance_countsDown h now) ht⟩
    | attach now =>
      -- only the reading has moved, and nothing is accounted for
      obtain ⟨hs, hk, ht⟩ := ih (attach_sound h now)
      exact ⟨hs, ⟨hk.rate, hk.steps, hk.cpuDebt, hk.timerDebt⟩, ⟨ht.delay, ht.sound⟩⟩

/-- **Exact time accounting.** Whatever the rate asked for, the first reading and the timers, a
clock grants the steps, applies the ticks and carries the debts of exactly the time that its calls
have seen pass. Asking it twice at one reading, or right after a new source, grants nothing. -/
theorem start_calls (rate : UInt32) (start : Reading) (delay sound : UInt8) (calls : List Call) :
    let first : Clock := { Clock.start rate start with delay, sound }
    let last := first.afterCalls calls
    let r := max 1 (min 1000 rate.toNat)
    let time := counted start calls
    first.granted calls = r * time / period ∧
      last.rate.toNat = r ∧
      last.cpuDebt.toNat = r * time % period ∧
      last.timerDebt.toNat = 60 * time % period ∧
      last.delay.toNat = delay.toNat - 60 * time / period ∧
      last.sound.toNat = sound.toNat - 60 * time / period ∧
      (last.stepsDue last.lastReading = 0 ∧ last.advance last.lastReading = last) ∧
      ∀ now, (last.attach now).stepsDue now = 0 ∧
        (last.attach now).advance now = last.attach now := by
  intro first last r time
  have hstart := start_sound rate start
  have hfirst : first.Sound :=
    ⟨hstart.rate_pos, hstart.rate_le, hstart.cpuDebt_lt, hstart.timerDebt_lt⟩
  have hrate : first.rate.toNat = r := toNat_rate_start rate start
  have hcpu : first.cpuDebt.toNat = 0 := rfl
  have htimer : first.timerDebt.toNat = 0 := rfl
  obtain ⟨hlast, hk, ht⟩ := afterCalls_accounts calls hfirst
  have hsteps := hk.steps
  have hcpuDebt := hk.cpuDebt
  have htimerDebt := hk.timerDebt
  have hdelay := ht.delay
  have hsound := ht.sound
  rw [hcpu, hrate, Nat.zero_add, Nat.mul_comm] at hsteps hcpuDebt
  rw [htimer, Nat.zero_add, Nat.mul_comm] at htimerDebt hdelay hsound
  refine ⟨hsteps, ?_, hcpuDebt, htimerDebt, hdelay, hsound, advance_of_lastReading hlast, ?_⟩
  · rw [hk.rate, hrate]
  · intro now
    exact advance_of_lastReading (attach_sound hlast now)

end ChipEight.Clock
