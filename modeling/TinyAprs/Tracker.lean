/-
# The tracker

The model of `tracker.c` and of the time in `gps_get_location` (`gps.c`). A
fix sends a beacon by the smart beacon check, which uses two clocks: the UTC
time of day of the fixes for turns and for the order of fixes, and the timer
for the rate. `int` has 16 bits, so the hours go into the timestamp modulo
2^16, with their sign; and the difference of two timestamps is an `int16_t`.

The floating-point parts are inputs of the model: whether the speed is 0, the
turn threshold, and the speed since the last beacon. So is the clock, which a
fix reads for the check (`now`) and, if it sends, for `lastSendTimeSeconds`
(`later`). The payload is left out: a fix sends when it calls `beacon_send`.
-/
import TinyAprs.Lib.Mealy
import TinyAprs.Timer

namespace TinyAprs

open Mealy

/-! ### The fix -/

/-- `TO_NUM`, of a `char`, which is signed; `int` has 16 bits. -/
def toNum (c : UInt8) : Int16 := c.toInt8.toInt16 - 0x30

/-- An `int` converted to `uint32_t`. -/
def intToU32 (x : Int16) : UInt32 := x.toInt32.toUInt32

/-- The timestamp of `gps_get_location`, for the characters of the UTC field. -/
def utcTimestamp (utc : List UInt8) : UInt32 :=
  if 6 ≤ utc.length then
    let num i := toNum (utc.getD i 0)
    intToU32 ((num 0 * 10 + num 1) * 3600) + intToU32 ((num 2 * 10 + num 3) * 60) +
      intToU32 (num 4 * 10 + num 5)
  else 0

/-- A call of `tracker_update_location`: what it reads of the GPS, and of the
clock. -/
structure Fix where
  valid : Bool
  utc : List UInt8
  heading : UInt16
  /-- `location->speedInKMH == 0` -/
  stopped : Bool
  /-- `turn_threshold` -/
  turnThreshold : UInt16
  /-- `calculated_speed_kmh` -/
  speed : UInt16
  now : ℕ
  later : ℕ
deriving DecidableEq, Repr

/-- `lastSendTimeSeconds`, and `lastLocation` as far as it is read. -/
structure Tracker where
  lastSendTimeSeconds : Int32
  heading : UInt16
  timestamp : UInt32
deriving DecidableEq, Repr

def trackerInit : Tracker := ⟨0, 0, 0⟩

def sbFastRate : UInt16 := 45
def sbSlowRate : UInt16 := 120
def sbLowSpeed : UInt16 := 5
def sbHiSpeed : UInt16 := 70
def sbTurnTime : UInt16 := 15

/-! ### The check -/

/-- `abs` -/
def absInt (x : Int16) : Int16 := if x < 0 then -x else x

/-- `_calc_heading` -/
def calcHeading (h₁ h₂ : UInt16) : UInt16 :=
  let d := (absInt (h₁ - h₂).toInt16 % 360).toUInt16
  if d ≤ 180 then d else 360 - d

/-- `_smart_beacon_turn_angle_check` -/
def smartBeaconTurnAngleCheck (t : Tracker) (f : Fix) (secsSinceBeacon : UInt16) : Bool :=
  if f.heading = 0 ∨ f.stopped then false
  -- we're just started from last stop point
  else if t.heading = 0 then secsSinceBeacon ≥ sbTurnTime
  else secsSinceBeacon ≥ sbTurnTime ∧ calcHeading f.heading t.heading > f.turnThreshold

/-- `lroundf(beaconRate)`; the rate is computed in 16-bit integers. -/
def smartBeaconRate (speed : UInt16) : UInt16 :=
  if speed < sbLowSpeed then sbSlowRate
  else if speed > sbHiSpeed then sbFastRate
  else sbFastRate + (sbSlowRate - sbFastRate) * (sbHiSpeed - speed) / (sbHiSpeed - sbLowSpeed)

/-- `secs_since_beacon` -/
def secsSinceBeacon (t : Tracker) (f : Fix) : Int16 := (utcTimestamp f.utc - t.timestamp).toUInt16.toInt16

/-- `_smart_beacon_check` -/
def smartBeaconCheck (t : Tracker) (f : Fix) : Bool :=
  if t.lastSendTimeSeconds = 0 ∨ t.timestamp = 0 then true
  else if secsSinceBeacon t f ≤ 0 then false
  else if smartBeaconTurnAngleCheck t f (secsSinceBeacon t f).toUInt16 then true
  else timerClockSeconds f.now - t.lastSendTimeSeconds > Int32.ofNat (smartBeaconRate f.speed).toNat

/-- What a beacon at `f` leaves: `lastLocation` and `lastSendTimeSeconds`. -/
def Fix.left (f : Fix) : Tracker := ⟨timerClockSeconds f.later, f.heading, utcTimestamp f.utc⟩

/-- `tracker_update_location`: the state after it, and whether it sends. -/
def trackerUpdateLocation (t : Tracker) (f : Fix) : Tracker × Bool :=
  if ¬ f.valid then (t, false)
  else if smartBeaconCheck t f then (f.left, true)
  else (t, false)

/-! ### A run -/

/-- A fix of a run: the one that the beacon before it was sent at, if any, and
whether it sends. -/
structure Fixed where
  prev : Option Fix
  fix : Fix
  sent : Bool
deriving DecidableEq, Repr

/-- A fix, with that of the last beacon kept beside the state. -/
def trackerStep (s : Tracker × Option Fix) (f : Fix) : (Tracker × Option Fix) × List Fixed :=
  let r := trackerUpdateLocation s.1 f
  ((r.1, if r.2 then some f else s.2), [⟨s.2, f, r.2⟩])

def trackerLog (fs : List Fix) : List Fixed := outs trackerStep (trackerInit, none) fs

/-- The state is the one that the last beacon left. -/
def LeftBy (s : Tracker × Option Fix) : Prop :=
  ∀ f, s.2 = some f → s.1 = f.left

theorem update_cases (t : Tracker) (f : Fix) :
    ((f.valid = true ∧ smartBeaconCheck t f = true) ∧
      trackerUpdateLocation t f = (f.left, true)) ∨
    (¬ (f.valid = true ∧ smartBeaconCheck t f = true) ∧ trackerUpdateLocation t f = (t, false)) := by
  unfold trackerUpdateLocation
  split_ifs with h1 h2
  · exact Or.inl ⟨⟨h1, h2⟩, rfl⟩
  · exact Or.inr ⟨fun h => h2 h.2, rfl⟩
  · exact Or.inr ⟨fun h => h1 h.1, rfl⟩

theorem LeftBy.step {s : Tracker × Option Fix} (hs : LeftBy s) (f : Fix) : LeftBy (trackerStep s f).1 := by
  intro f' hf'
  unfold trackerStep at hf' ⊢
  rcases update_cases s.1 f with ⟨-, h⟩ | ⟨-, h⟩
  · rw [h] at hf' ⊢
    obtain rfl := Option.some.inj hf'
    rfl
  · rw [h] at hf' ⊢
    exact hs f' hf'

/-- Every fix of a run finds the state that the last beacon left. -/
theorem log_left (fs : List Fix) : ∀ r ∈ trackerLog fs, ∀ f, r.prev = some f →
    (r.sent = true ↔ r.fix.valid = true ∧ smartBeaconCheck f.left r.fix = true) := by
  refine outs_forall trackerStep LeftBy (fun s f hs => ⟨hs.step f, fun r hr f' hf' => ?_⟩) _ fs
    (fun _ h => nomatch h)
  obtain rfl := List.mem_singleton.mp hr
  have hleft : s.1 = f'.left := hs f' hf'
  show (trackerUpdateLocation s.1 f).2 = true ↔ f.valid = true ∧ smartBeaconCheck f'.left f = true
  rw [← hleft]
  rcases update_cases s.1 f with ⟨h1, h2⟩ | ⟨h1, h2⟩
  · rw [h2]
    exact ⟨fun _ => h1, fun _ => rfl⟩
  · rw [h2]
    exact ⟨fun h => absurd h Bool.false_ne_true, fun h => absurd h h1⟩

/-! ### The two clocks -/

/-- The digits of the UTC field, as a number. -/
def utcSeconds (utc : List UInt8) : ℤ :=
  if 6 ≤ utc.length then
    let num i := (utc.getD i 0).toInt8.toInt - 48
    (num 0 * 10 + num 1) * 3600 + (num 2 * 10 + num 3) * 60 + (num 4 * 10 + num 5)
  else 0

theorem toNum_eq (c : UInt8) : toNum c = Int16.ofInt (c.toInt8.toInt - 48) := by
  rw [Int16.ofInt_sub]
  rfl

theorem intToU32_toUInt16 (x : Int16) : (intToU32 x).toUInt16.toInt16 = x := by
  have h : (intToU32 x).toUInt16.toInt16 = x.toInt32.toInt16 := by
    refine Int16.toBitVec_inj.mp ?_
    exact (BitVec.signExtend_eq_setWidth_of_le (BitVec.signExtend 32 x.toBitVec) (by decide)).symm
  rw [h, Int16.toInt16_toInt32]

theorem utcTimestamp_ofInt (utc : List UInt8) :
    (utcTimestamp utc).toUInt16.toInt16 = Int16.ofInt (utcSeconds utc) := by
  unfold utcTimestamp utcSeconds
  split_ifs
  · dsimp only
    simp only [UInt32.toUInt16_add, UInt16.toInt16_add, intToU32_toUInt16, toNum_eq, Int16.ofInt_add,
      Int16.ofInt_mul]
    rfl
  · rfl

/-- The seconds between two fixes, as the check computes them. -/
theorem toInt_secsSinceBeacon (f₀ f : Fix) :
    (secsSinceBeacon f₀.left f).toInt = (utcSeconds f.utc - utcSeconds f₀.utc).bmod (2 ^ 16) := by
  have h : secsSinceBeacon f₀.left f = Int16.ofInt (utcSeconds f.utc - utcSeconds f₀.utc) := by
    unfold secsSinceBeacon Fix.left
    rw [UInt32.toUInt16_sub, UInt16.toInt16_sub, utcTimestamp_ofInt, utcTimestamp_ofInt, Int16.ofInt_sub]
  rw [h, Int16.toInt_ofInt]
  rfl

theorem turn_secs {t : Tracker} {f : Fix} {secs : UInt16} (h : smartBeaconTurnAngleCheck t f secs = true) :
    15 ≤ secs.toNat := by
  have hge : secs ≥ sbTurnTime := by
    unfold smartBeaconTurnAngleCheck at h
    split_ifs at h
    · simpa using h
    · simp only [decide_eq_true_eq] at h
      exact h.1
  exact UInt16.le_iff_toNat_le.mp hge

theorem smartBeaconRate_bounds (speed : UInt16) :
    45 ≤ (smartBeaconRate speed).toNat ∧ (smartBeaconRate speed).toNat ≤ 120 := by
  unfold smartBeaconRate
  split_ifs with h1 h2
  · exact ⟨by decide, by decide⟩
  · exact ⟨by decide, by decide⟩
  · have hlo : 5 ≤ speed.toNat := UInt16.le_iff_toNat_le.mp (UInt16.not_lt.mp h1)
    have hhi : speed.toNat ≤ 70 := UInt16.le_iff_toNat_le.mp (UInt16.not_lt.mp h2)
    have hall : ∀ k ≤ 70, 5 ≤ k → ∀ r, r = (sbFastRate + (sbSlowRate - sbFastRate) *
        (sbHiSpeed - UInt16.ofNat k) / (sbHiSpeed - sbLowSpeed)).toNat → 45 ≤ r ∧ r ≤ 120 := by
      simp only [forall_eq]
      decide +kernel
    refine hall speed.toNat hhi hlo _ ?_
    rw [UInt16.ofNat_toNat]

/-- A fix after a beacon, outside the second 0 and the timestamp 0, sends when
its time is later and it turns, or the rate is up. -/
theorem check_iff {f₀ f : Fix} (hsec : clockSeconds f₀.later ≠ 0) (hts : utcTimestamp f₀.utc ≠ 0) :
    smartBeaconCheck f₀.left f = true ↔
      0 < (utcSeconds f.utc - utcSeconds f₀.utc).bmod (2 ^ 16) ∧
        (smartBeaconTurnAngleCheck f₀.left f (secsSinceBeacon f₀.left f).toUInt16 = true ∨
          ((smartBeaconRate f.speed).toNat : ℤ) < clockSeconds f.now - clockSeconds f₀.later) := by
  have hmark : ¬ (f₀.left.lastSendTimeSeconds = 0 ∨ f₀.left.timestamp = 0) := by
    rintro (h | h)
    · exact hsec ((timerClockSeconds_eq_zero_iff _).mp h)
    · exact hts h
  have hpos : ¬ secsSinceBeacon f₀.left f ≤ 0 ↔
      0 < (utcSeconds f.utc - utcSeconds f₀.utc).bmod (2 ^ 16) := by
    rw [Int16.not_le, Int16.lt_iff_toInt_lt, toInt_secsSinceBeacon]
    rfl
  have hrate : timerClockSeconds f.now - f₀.left.lastSendTimeSeconds >
      Int32.ofNat (smartBeaconRate f.speed).toNat ↔
      ((smartBeaconRate f.speed).toNat : ℤ) < clockSeconds f.now - clockSeconds f₀.later := by
    have hlt := (smartBeaconRate_bounds f.speed).2
    rw [gt_iff_lt, Int32.lt_iff_toInt_lt, Int32.toInt_ofNat_of_lt (by omega)]
    unfold Fix.left
    rw [toInt_seconds_sub]
  rw [smartBeaconCheck, if_neg hmark, ← hpos, ← hrate]
  split_ifs with h1 h2
  · simp [h1]
  · simp [h1, h2]
  · simp [h1, h2]

/-! ### Never flooding -/

/-- The seconds from one fix to another by their UTC times of day. -/
def utcElapsed (f₀ f : Fix) : ℤ := (utcSeconds f.utc - utcSeconds f₀.utc) % 86400

/-- A beacon comes at least `SB_TURN_TIME` seconds of UTC after the one before
it, or more than `SB_FAST_RATE` seconds of the timer. -/
def Fixed.Spaced (r : Fixed) : Prop :=
  ∀ f, r.prev = some f → r.sent = true →
    15 ≤ utcElapsed f r.fix ∨ 45 < clockSeconds r.fix.now - clockSeconds f.later

/-- The beacon before was not sent in the second 0 of the timer nor with the
timestamp 0, and the two UTC fields differ by less than a day. -/
def Fixed.Unmarked (r : Fixed) : Prop :=
  ∀ f, r.prev = some f → clockSeconds f.later ≠ 0 ∧ utcTimestamp f.utc ≠ 0 ∧
    -86400 < utcSeconds r.fix.utc - utcSeconds f.utc ∧ utcSeconds r.fix.utc - utcSeconds f.utc < 86400

/-- A difference of less than a day that is at least 15 in 16 bits is so on the
clock. -/
theorem elapsed_of_bmod {d : ℤ} (h1 : -86400 < d) (h2 : d < 86400) (h : 15 ≤ d.bmod (2 ^ 16)) :
    15 ≤ d % 86400 := by
  have hlt : d.bmod (2 ^ 16) < ((2 ^ 16 : ℕ) + 1) / 2 := Int.bmod_lt (by decide)
  obtain ⟨k, hk⟩ : ((2 ^ 16 : ℕ) : ℤ) ∣ d.bmod (2 ^ 16) - d := Int.dvd_bmod_sub_self
  generalize d.bmod (2 ^ 16) = e at h hlt hk
  push_cast at hlt hk
  obtain rfl | rfl | rfl : k = -1 ∨ k = 0 ∨ k = 1 := by omega
  · omega
  · omega
  · omega

/-- **The tracker does not flood, but for its two markers.** In every run of
fixes, with any UTC field, heading and speed: if the state that each beacon
leaves is no marker (its second of the timer and its timestamp are not 0) and
the UTC fields are less than a day apart, then each beacon after the first one
is sent at least 15 seconds of UTC after the one before it, or more than 45
seconds of the timer. -/
theorem tracker_spaced_of_unmarked (fs : List Fix) (h : ∀ r ∈ trackerLog fs, Fixed.Unmarked r) :
    ∀ r ∈ trackerLog fs, Fixed.Spaced r := by
  intro r hr f hf hsent
  obtain ⟨hsec, hts, hlo, hhi⟩ := h r hr f hf
  have hcheck := ((log_left fs r hr f hf).mp hsent).2
  obtain ⟨hpos, hturn | hrate⟩ := (check_iff hsec hts).mp hcheck
  · left
    have hsecs := turn_secs hturn
    have hint := toInt_secsSinceBeacon f r.fix
    have hnat : ((secsSinceBeacon f.left r.fix).toUInt16.toNat : ℤ) = (secsSinceBeacon f.left r.fix).toInt := by
      have hnonneg : 0 ≤ (secsSinceBeacon f.left r.fix).toInt := by omega
      rw [Int16.toNat_toUInt16_of_le (Int16.le_iff_toInt_le.mpr hnonneg)]
      exact Int.toNat_of_nonneg hnonneg
    exact elapsed_of_bmod hlo hhi (by omega)
  · right
    have := (smartBeaconRate_bounds r.fix.speed).1
    omega

/-- A valid fix at rest, at a UTC time of day and a time of the timer. -/
def fixAt (utc : List UInt8) (ms : ℕ) : Fix := ⟨true, utc, 0, true, 0, 0, ms, ms⟩

/-- 12:00:00, and three minutes later. -/
def threeMinutes : List Fix :=
  [fixAt [0x31, 0x32, 0x30, 0x30, 0x30, 0x30] 100000, fixAt [0x31, 0x32, 0x30, 0x33, 0x30, 0x30] 280000]

theorem tracker_spaced_of_unmarked_noon :
    (trackerLog threeMinutes).map Fixed.sent = [true, true] ∧ ∀ r ∈ trackerLog threeMinutes, Fixed.Spaced r := by
  refine ⟨by decide, tracker_spaced_of_unmarked threeMinutes fun r hr f hf => ?_⟩
  have hlog : trackerLog threeMinutes = [⟨none, threeMinutes[0], true⟩, ⟨some threeMinutes[0], threeMinutes[1], true⟩] := by
    decide
  rw [hlog, List.mem_cons, List.mem_singleton] at hr
  rcases hr with rfl | rfl
  · exact nomatch hf
  · obtain rfl := Option.some.inj hf
    decide

/-- 00:00:00, and the two seconds after it. -/
def midnightFixes : List Fix :=
  [fixAt [0x30, 0x30, 0x30, 0x30, 0x30, 0x30] 100000, fixAt [0x30, 0x30, 0x30, 0x30, 0x30, 0x31] 101000]

/-- A beacon at midnight leaves the timestamp 0, and the next fix sends again
after one second. -/
theorem tracker_floods_at_midnight :
    ⟨some (fixAt [0x30, 0x30, 0x30, 0x30, 0x30, 0x30] 100000),
        fixAt [0x30, 0x30, 0x30, 0x30, 0x30, 0x31] 101000, true⟩ ∈ trackerLog midnightFixes ∧
      ¬ Fixed.Spaced ⟨some (fixAt [0x30, 0x30, 0x30, 0x30, 0x30, 0x30] 100000),
        fixAt [0x30, 0x30, 0x30, 0x30, 0x30, 0x31] 101000, true⟩ := by
  refine ⟨by decide, fun h => ?_⟩
  have := h _ rfl rfl
  exact absurd this (by decide)

/-! ### Never silent -/

/-- The digits of a time of day. -/
def timeField (tod : ℕ) : List UInt8 :=
  [tod / 3600 / 10, tod / 3600 % 10, tod / 60 % 60 / 10, tod / 60 % 60 % 10, tod % 60 / 10,
    tod % 60 % 10].map fun d => UInt8.ofNat (0x30 + d)

/-- The fix has the UTC time `u`, in seconds, in its field; a fraction of a
second may follow. -/
def Fix.AtUtc (f : Fix) (u : ℕ) : Prop := ∃ rest, f.utc = timeField (u % 86400) ++ rest

theorem toInt_digit {d : ℕ} (h : d < 10) : (UInt8.ofNat (0x30 + d)).toInt8.toInt - 48 = d := by
  have hall : ∀ d < 10, (UInt8.ofNat (0x30 + d)).toInt8.toInt - 48 = d := by decide
  exact hall d h

theorem utcSeconds_field {tod : ℕ} (h : tod < 86400) (rest : List UInt8) :
    utcSeconds (timeField tod ++ rest) = tod := by
  have hlen : 6 ≤ (timeField tod ++ rest).length := by
    rw [List.length_append]
    exact Nat.le_add_right 6 _
  have h0 := toInt_digit (d := tod / 3600 / 10) (by omega)
  have h1 := toInt_digit (d := tod / 3600 % 10) (by omega)
  have h2 := toInt_digit (d := tod / 60 % 60 / 10) (by omega)
  have h3 := toInt_digit (d := tod / 60 % 60 % 10) (by omega)
  have h4 := toInt_digit (d := tod % 60 / 10) (by omega)
  have h5 := toInt_digit (d := tod % 60 % 10) (by omega)
  rw [utcSeconds, if_pos hlen]
  simp only [timeField, List.map_cons, List.cons_append, List.getD_cons_zero, List.getD_cons_succ, h0, h1, h2,
    h3, h4, h5]
  omega

/-- The timer overflows between the beacon and the fix, after 24.8 days. -/
def Fix.Overflow (f₀ f : Fix) : Prop :=
  f₀.later / halfPeriod % 2 = 0 ∧ f.now / halfPeriod = f₀.later / halfPeriod + 1

/-- The timer shows that the fix is due: it has neither overflowed nor passed
zero since the beacon, and 121 seconds have passed or the speed asks for less
than 120; or the seconds it says are above the rate all the same. -/
def Fix.TimerShows (f₀ f : Fix) : Prop :=
  (f₀.later / halfPeriod = f.now / halfPeriod ∧
      (f₀.later + 121 * 1000 ≤ f.now ∨ (smartBeaconRate f.speed).toNat < 120)) ∨
    ((smartBeaconRate f.speed).toNat : ℤ) < clockSeconds f.now - clockSeconds f₀.later

/-- The fix is a turn since the beacon. -/
def Fix.Turns (f₀ f : Fix) : Prop :=
  smartBeaconTurnAngleCheck f₀.left f (secsSinceBeacon f₀.left f).toUInt16 = true

/-- In one half of its period the timer counts the seconds. -/
theorem Fix.TimerShows.rate {f₀ f : Fix} (hslow : f₀.later + 120 * 1000 < f.now) (h : f₀.TimerShows f) :
    ((smartBeaconRate f.speed).toNat : ℤ) < clockSeconds f.now - clockSeconds f₀.later := by
  rcases h with ⟨hhalf, hlate | hfast⟩ | h
  · have hseconds : ((120 : ℕ) : ℤ) < clockSeconds f.now - clockSeconds f₀.later :=
      Ticks.late (by decide) (by decide) hhalf hlate
    have hrate := (smartBeaconRate_bounds f.speed).2
    omega
  · have hseconds : ((119 : ℕ) : ℤ) < clockSeconds f.now - clockSeconds f₀.later :=
      Ticks.late (by decide) (by decide) hhalf (Nat.le_of_lt hslow)
    omega
  · exact h

theorem Fix.Overflow.not_timerShows {f₀ f : Fix} (h : f₀.Overflow f) : ¬ f₀.TimerShows f := by
  obtain ⟨heven, hnext⟩ := h
  rintro (⟨hhalf, -⟩ | hrate)
  · omega
  · have hlost := Ticks.units_overflow (m := halfPeriod) (d := 1000) (by decide) heven hnext
    have hpos := (smartBeaconRate_bounds f.speed).1
    unfold clockSeconds at hrate
    omega

/-- **When the tracker sends after two minutes.** In every run of fixes with a
correct UTC time of day: a valid fix more than `SB_SLOW_RATE` seconds after the
last beacon sends the next one, whatever its speed and heading and however much
UTC time has passed, if and only if the last beacon left a marker (its
timestamp, or its second of the timer, is 0), or the difference of the two times
of day is positive in 16 bits and the fix turns or the timer shows that it is
due. After an overflow the timer does not show it. -/
theorem tracker_sends_iff (fs : List Fix) (r : Fixed) (hr : r ∈ trackerLog fs) (f : Fix)
    (hf : r.prev = some f) (u₀ u : ℕ) (hu₀ : f.AtUtc u₀) (hu : r.fix.AtUtc u) (hvalid : r.fix.valid = true)
    (hslow : f.later + 120 * 1000 < r.fix.now) :
    (r.sent = true ↔
      utcTimestamp f.utc = 0 ∨ clockSeconds f.later = 0 ∨
        (0 < (((u % 86400 : ℕ) : ℤ) - (u₀ % 86400 : ℕ)).bmod (2 ^ 16) ∧ (f.Turns r.fix ∨ f.TimerShows r.fix))) ∧
      (f.Overflow r.fix → ¬ f.TimerShows r.fix) := by
  refine ⟨?_, Fix.Overflow.not_timerShows⟩
  obtain ⟨rest₀, hutc₀⟩ := hu₀
  obtain ⟨rest, hutc⟩ := hu
  have hs₀ : utcSeconds f.utc = (u₀ % 86400 : ℕ) := by
    rw [hutc₀, utcSeconds_field (Nat.mod_lt _ (by decide))]
  have hs : utcSeconds r.fix.utc = (u % 86400 : ℕ) := by
    rw [hutc, utcSeconds_field (Nat.mod_lt _ (by decide))]
  rw [log_left fs r hr f hf]
  by_cases hts : utcTimestamp f.utc = 0
  · have hcheck : smartBeaconCheck f.left r.fix = true := if_pos (Or.inr hts)
    exact ⟨fun _ => Or.inl hts, fun _ => ⟨hvalid, hcheck⟩⟩
  · by_cases hsec : clockSeconds f.later = 0
    · have hcheck : smartBeaconCheck f.left r.fix = true :=
        if_pos (Or.inl ((timerClockSeconds_eq_zero_iff _).mpr hsec))
      exact ⟨fun _ => Or.inr (Or.inl hsec), fun _ => ⟨hvalid, hcheck⟩⟩
    · rw [check_iff hsec hts, hs, hs₀]
      constructor
      · rintro ⟨-, hpos, hdue⟩
        exact Or.inr (Or.inr ⟨hpos, hdue.imp_right Or.inr⟩)
      · rintro (h | h | ⟨hpos, hdue⟩)
        · exact absurd h hts
        · exact absurd h hsec
        · exact ⟨hvalid, hpos, hdue.imp_right (Fix.TimerShows.rate hslow)⟩

/-- 10:00:00, and three minutes later. -/
def tenFixes : List Fix := [fixAt (timeField 36000) 100000, fixAt (timeField 36180) 280000]

theorem tracker_sends_iff_ten :
    ⟨some (fixAt (timeField 36000) 100000), fixAt (timeField 36180) 280000, true⟩ ∈ trackerLog tenFixes ∧
      (utcTimestamp (timeField 36000) = 0 ∨ clockSeconds 100000 = 0 ∨
        (0 < (((36180 % 86400 : ℕ) : ℤ) - (36000 % 86400 : ℕ)).bmod (2 ^ 16) ∧
          ((fixAt (timeField 36000) 100000).Turns (fixAt (timeField 36180) 280000) ∨
            (fixAt (timeField 36000) 100000).TimerShows (fixAt (timeField 36180) 280000)))) := by
  have hmem : ⟨some (fixAt (timeField 36000) 100000), fixAt (timeField 36180) 280000, true⟩ ∈
      trackerLog tenFixes := by decide
  exact ⟨hmem, (tracker_sends_iff tenFixes _ hmem _ rfl 36000 36180 ⟨[], rfl⟩ ⟨[], rfl⟩ rfl (by decide)).1.mp rfl⟩

/-- 23:59:50, and then, on the next day, 00:03:10 and 04:00:00. -/
def nightFixes : List Fix :=
  [fixAt (timeField 86390) 100000, fixAt (timeField 190) 300000, fixAt (timeField 14400) 14510000]

/-- 01:00:00 and 10:30:00 of one day. -/
def gapFixes : List Fix := [fixAt (timeField 3600) 100000, fixAt (timeField 37800) 34300000]

/-- 10:00:00 and 10:10:00 of one day; the timer overflows in between. -/
def overflowFixes : List Fix := [fixAt (timeField 36000) 2147000000, fixAt (timeField 36600) 2147600000]

/-- The beacon is sent at UTC `u₀`, the fix comes a second or more later and
more than `SB_SLOW_RATE` whole seconds of the timer later, and it is not sent. -/
def SilentAt (fs : List Fix) (f₀ f : Fix) (u₀ u : ℕ) : Prop :=
  ⟨some f₀, f, false⟩ ∈ trackerLog fs ∧ f.valid = true ∧ f₀.AtUtc u₀ ∧ f.AtUtc u ∧ u₀ + 1 ≤ u ∧
    f₀.later + 121 * 1000 ≤ f.now

/-- After a beacon just before midnight no fix is sent for hours, not only the
first one of the new day; with more than 32767 seconds between two fixes, none
is sent on the same day either; nor is one when the timer has overflowed. -/
theorem tracker_falls_silent :
    SilentAt nightFixes (fixAt (timeField 86390) 100000) (fixAt (timeField 190) 300000) 86390 86590 ∧
      SilentAt nightFixes (fixAt (timeField 86390) 100000) (fixAt (timeField 14400) 14510000) 86390 100800 ∧
      SilentAt gapFixes (fixAt (timeField 3600) 100000) (fixAt (timeField 37800) 34300000) 3600 37800 ∧
      SilentAt overflowFixes (fixAt (timeField 36000) 2147000000) (fixAt (timeField 36600) 2147600000) 36000 36600 := by
  refine ⟨⟨by decide, rfl, ⟨[], rfl⟩, ⟨[], rfl⟩, by decide, by decide⟩, ?_, ?_, ?_⟩
  · exact ⟨by decide, rfl, ⟨[], rfl⟩, ⟨[], rfl⟩, by decide, by decide⟩
  · exact ⟨by decide, rfl, ⟨[], rfl⟩, ⟨[], rfl⟩, by decide, by decide⟩
  · exact ⟨by decide, rfl, ⟨[], rfl⟩, ⟨[], rfl⟩, by decide, by decide⟩

end TinyAprs
