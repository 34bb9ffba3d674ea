/-
# The system timer

The model of `drv/timer.h` as the application uses it. The timer interrupt
counts `_clock` up once a millisecond from power-up; `ticks_t` has 32 bits
and is signed, so after 24.8 days the count is negative, and after 49.7 days
it is zero again. `timer_clock_seconds` (`utils.h`) divides it by 1000.
-/
import TinyAprs.Lib.Ticks

namespace TinyAprs

/-- `TIMER_TICKS_PER_SEC` -/
abbrev timerTicksPerSec : ℕ := 1000

/-- `timer_clock`, `ms` milliseconds after power-up. -/
def timerClock (ms : ℕ) : Int32 := Int32.ofNat ms

/-- `ms_to_ticks` -/
def msToTicks (ms : Int32) : Int32 := ms * Int32.ofNat (timerTicksPerSec / 1000)

/-- `ticks_to_ms` -/
def ticksToMs (ticks : Int32) : Int32 := ticks / Int32.ofNat (timerTicksPerSec / 1000)

/-- `timer_clock_seconds` -/
def timerClockSeconds (ms : ℕ) : Int32 := ticksToMs (timerClock ms) / 1000

abbrev halfPeriod : ℕ := 2 ^ 31

/-- The seconds the timer says, as a number. -/
def clockSeconds (ms : ℕ) : ℤ := Ticks.units halfPeriod 1000 ms

theorem toInt_timerClockSeconds (ms : ℕ) : (timerClockSeconds ms).toInt = clockSeconds ms := by
  have h1 : (timerClock ms).toInt = Ticks.reading halfPeriod ms := Int32.toInt_ofNat'
  have h2 : ticksToMs (timerClock ms) = timerClock ms := by
    refine Int32.toInt_inj.mp ?_
    rw [ticksToMs, Int32.toInt_div_of_ne_right _ _ (by decide)]
    exact Int.tdiv_one _
  rw [timerClockSeconds, h2, Int32.toInt_div_of_ne_right _ _ (by decide), h1]
  rfl

theorem clockSeconds_bounds (ms : ℕ) : -2147483 ≤ clockSeconds ms ∧ clockSeconds ms ≤ 2147483 := by
  have hr := Ticks.reading_bounds (m := halfPeriod) (by decide) ms
  have hb := Ticks.tdiv_bounds (d := 1000) (by decide) (Ticks.reading halfPeriod ms)
  unfold clockSeconds Ticks.units
  rcases Int.lt_or_le (Ticks.reading halfPeriod ms) 0 with h0 | h0
  · have := hb.2 h0
    push_cast at hr this ⊢
    omega
  · have := hb.1 h0
    push_cast at hr this ⊢
    omega

/-- The difference of two readings in seconds does not overflow. -/
theorem toInt_seconds_sub (ms ms' : ℕ) :
    (timerClockSeconds ms' - timerClockSeconds ms).toInt = clockSeconds ms' - clockSeconds ms := by
  have h := clockSeconds_bounds ms
  have h' := clockSeconds_bounds ms'
  rw [Int32.toInt_sub, toInt_timerClockSeconds, toInt_timerClockSeconds]
  exact Int.bmod_eq_of_le (by omega) (by omega)

/-- The clock says the second 0 within a second of a wrap-around to 0. -/
theorem timerClockSeconds_eq_zero_iff (ms : ℕ) : timerClockSeconds ms = 0 ↔ clockSeconds ms = 0 := by
  rw [← toInt_timerClockSeconds]
  exact ⟨fun h => by rw [h]; rfl, fun h => Int32.toInt_inj.mp h⟩

end TinyAprs
