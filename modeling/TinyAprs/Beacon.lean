/-
# Beacons at a fixed interval

The model of `beacon_broadcast_poll` in `beacon.c`. It reads the clock in
seconds and sends the text when more than the interval has passed since
`lastSendTimeSeconds`, which is 0 before the first beacon. A poll reads the
clock when it starts (`now`) and again for `lastSendTimeSeconds` (`later`);
a beacon counts as sent at `later`. What is sent is left out: a poll sends a
beacon when it calls `_send_fixed_text`.

`timer_clock` asks its clients to tolerate overflows. The difference of two
readings in seconds does so only while the reading does not change its sign
(`Ticks.late`): when the timer overflows after 24.8 days, the seconds jump
back by 49.7 days.
-/
import TinyAprs.Lib.Mealy
import TinyAprs.Timer

namespace TinyAprs

open Mealy

/-- `lastSendTimeSeconds` of `beacon.c`. -/
structure Beacon where
  lastSendTimeSeconds : Int32
deriving DecidableEq, Repr

/-- `beacon_init` -/
def beaconInit : Beacon := ⟨0⟩

/-- When a poll reads the clock, in milliseconds since power-up. -/
structure PollTime where
  now : ℕ
  later : ℕ
deriving DecidableEq, Repr

/-- `beacon_broadcast_poll`: the state after it, and whether it sends. -/
def beaconBroadcastPoll (interval : UInt16) (b : Beacon) (t : PollTime) : Beacon × Bool :=
  if interval = 0 then (b, false)
  else
    let currentTimestamp := timerClockSeconds t.now
    if b.lastSendTimeSeconds = 0 then
      -- just started; possibly zero in less than one second
      let last := timerClockSeconds t.later
      (⟨last⟩, decide (last > 0))
    else if currentTimestamp - b.lastSendTimeSeconds > Int32.ofNat interval.toNat then
      (⟨timerClockSeconds t.later⟩, true)
    else (b, false)

/-- A poll of a run: when the beacon before it was sent, if there is one, the
poll's own times, and whether it sends. -/
structure Polled where
  prev : Option ℕ
  time : PollTime
  sent : Bool
deriving DecidableEq, Repr

/-- A poll, with the time of the last beacon kept beside the state. -/
def beaconStep (interval : UInt16) (s : Beacon × Option ℕ) (t : PollTime) : (Beacon × Option ℕ) × List Polled :=
  let r := beaconBroadcastPoll interval s.1 t
  ((r.1, if r.2 then some t.later else s.2), [⟨s.2, t, r.2⟩])

/-- The polls of a run from `beacon_init`. -/
def beaconLog (interval : UInt16) (ts : List PollTime) : List Polled :=
  outs (beaconStep interval) (beaconInit, none) ts

/-- The clock readings of a run come in order. -/
def InOrder : ℕ → List PollTime → Prop
  | _, [] => True
  | t₀, t :: ts => t₀ ≤ t.now ∧ t.now ≤ t.later ∧ InOrder t.later ts

/-- A poll sends when it comes more than `interval + 1` seconds after the last
beacon, and does not when it comes less than `interval` seconds after it. -/
def Polled.OnTime (interval : UInt16) (r : Polled) : Prop :=
  ∀ p, r.prev = some p →
    (p + (interval.toNat + 1) * 1000 < r.time.now → r.sent = true) ∧
      (r.sent = true → p + interval.toNat * 1000 ≤ r.time.now)

/-- The timer does not overflow, and does not pass zero, between a beacon and a
poll at which the next one is due; and the beacon was not sent in the second
0 of the timer. -/
def Polled.Steady (interval : UInt16) (r : Polled) : Prop :=
  ∀ p, r.prev = some p → clockSeconds p ≠ 0 ∧
    (p + (interval.toNat + 1) * 1000 < r.time.now → p / halfPeriod = r.time.now / halfPeriod)

/-! ### One poll -/

theorem toInt_interval (interval : UInt16) : (Int32.ofNat interval.toNat).toInt = interval.toNat :=
  Int32.toInt_ofNat_of_lt (Nat.lt_trans interval.toNat_lt (by decide))

/-- After a beacon at `p`, outside the second 0, a poll sends when the seconds
have gone up by more than the interval. -/
theorem poll_sends_iff {interval : UInt16} (h0 : interval ≠ 0) {b : Beacon} {p : ℕ}
    (hb : b.lastSendTimeSeconds = timerClockSeconds p) (hp : clockSeconds p ≠ 0) (t : PollTime) :
    (beaconBroadcastPoll interval b t).2 = true ↔
      (interval.toNat : ℤ) < clockSeconds t.now - clockSeconds p := by
  have hlast : b.lastSendTimeSeconds ≠ 0 := by
    rw [hb, ne_eq, timerClockSeconds_eq_zero_iff]
    exact hp
  have hcmp : timerClockSeconds t.now - b.lastSendTimeSeconds > Int32.ofNat interval.toNat ↔
      (interval.toNat : ℤ) < clockSeconds t.now - clockSeconds p := by
    rw [gt_iff_lt, Int32.lt_iff_toInt_lt, toInt_interval, hb, toInt_seconds_sub]
  rw [beaconBroadcastPoll, if_neg h0]
  dsimp only
  rw [if_neg hlast]
  split_ifs with hgt
  · exact ⟨fun _ => hcmp.mp hgt, fun _ => rfl⟩
  · exact ⟨fun h => absurd h (by decide), fun h => absurd (hcmp.mpr h) hgt⟩

theorem poll_last {interval : UInt16} {b : Beacon} {t : PollTime}
    (h : (beaconBroadcastPoll interval b t).2 = true) :
    (beaconBroadcastPoll interval b t).1.lastSendTimeSeconds = timerClockSeconds t.later := by
  unfold beaconBroadcastPoll at h ⊢
  dsimp only at h ⊢
  split_ifs at h ⊢
  · rfl
  · rfl

/-- A poll after a beacon that does not send leaves the state as it is. -/
theorem poll_keeps {interval : UInt16} {b : Beacon} {t : PollTime} (hlast : b.lastSendTimeSeconds ≠ 0)
    (h : (beaconBroadcastPoll interval b t).2 = false) : (beaconBroadcastPoll interval b t).1 = b := by
  unfold beaconBroadcastPoll at h ⊢
  dsimp only at h ⊢
  split_ifs at h ⊢
  · rfl
  · rfl

/-! ### A run -/

/-- The last beacon's time is in the state, and the next poll is not before it. -/
def Tracks (s : Beacon × Option ℕ) (t₀ : ℕ) : Prop :=
  ∀ p, s.2 = some p → s.1.lastSendTimeSeconds = timerClockSeconds p ∧ p ≤ t₀

theorem onTime_of_steady {interval : UInt16} (h0 : interval ≠ 0) {s : Beacon × Option ℕ} {t₀ : ℕ}
    (hs : Tracks s t₀) {t : PollTime} (hle : t₀ ≤ t.now)
    (h : Polled.Steady interval ⟨s.2, t, (beaconBroadcastPoll interval s.1 t).2⟩) :
    Polled.OnTime interval ⟨s.2, t, (beaconBroadcastPoll interval s.1 t).2⟩ := by
  intro p hp
  obtain ⟨hlast, hpf⟩ := hs p hp
  obtain ⟨hzero, hhalf⟩ := h p hp
  have hiff := poll_sends_iff h0 hlast hzero t
  refine ⟨fun hdue => hiff.mpr ?_, fun hsent => ?_⟩
  · exact Ticks.late (by decide) (by decide) (hhalf hdue) (Nat.le_of_lt hdue)
  · have := Ticks.early (by decide) (by decide) (Nat.le_trans hpf hle) (hiff.mp hsent)
    show p + interval.toNat * 1000 ≤ t.now
    omega

theorem Tracks.step {interval : UInt16} {s : Beacon × Option ℕ} {t₀ : ℕ} (hs : Tracks s t₀)
    {t : PollTime} (h1 : t₀ ≤ t.now) (h2 : t.now ≤ t.later)
    (hzero : ∀ p, s.2 = some p → clockSeconds p ≠ 0) :
    Tracks (beaconStep interval s t).1 t.later := by
  intro p hp
  cases hsent : (beaconBroadcastPoll interval s.1 t).2 with
  | true =>
    have hlater : some t.later = some p := by
      rw [← hp]
      exact (if_pos hsent).symm
    obtain rfl := Option.some.inj hlater
    exact ⟨poll_last hsent, Nat.le_refl _⟩
  | false =>
    have hprev : s.2 = some p := by
      rw [← hp]
      exact (if_neg (by rw [hsent]; decide)).symm
    obtain ⟨hlast, hpf⟩ := hs p hprev
    have hne : s.1.lastSendTimeSeconds ≠ 0 := by
      rw [hlast, ne_eq, timerClockSeconds_eq_zero_iff]
      exact hzero p hprev
    refine ⟨?_, by omega⟩
    show (beaconBroadcastPoll interval s.1 t).1.lastSendTimeSeconds = _
    rw [poll_keeps hne hsent, hlast]

theorem onTime_run {interval : UInt16} (h0 : interval ≠ 0) (ts : List PollTime) {s : Beacon × Option ℕ}
    {t₀ : ℕ} (hs : Tracks s t₀) (hord : InOrder t₀ ts)
    (h : ∀ r ∈ outs (beaconStep interval) s ts, Polled.Steady interval r) :
    ∀ r ∈ outs (beaconStep interval) s ts, Polled.OnTime interval r := by
  induction ts generalizing s t₀ with
  | nil => simp
  | cons t ts ih =>
    obtain ⟨h1, h2, hrest⟩ := hord
    intro r hr
    rw [outs_cons, List.forall_mem_append] at h
    have hsteady := h.1 _ (List.mem_singleton_self _)
    rw [outs_cons, List.mem_append] at hr
    rcases hr with hr | hr
    · obtain rfl := List.mem_singleton.mp hr
      exact onTime_of_steady h0 hs h1 hsteady
    · exact ih (hs.step h1 h2 fun p hp => (hsteady p hp).1) hrest h.2 r hr

/-- **Beacons keep their interval while the timer keeps its sign.** In every
run of polls from `beacon_init`, at any times since power-up: if between each
beacon and each poll at which the next one is due the timer neither overflows
nor passes zero, and no beacon is sent in the second 0, then a poll more than
`interval + 1` seconds after a beacon sends the next one, and no beacon is
sent less than `interval` seconds after the one before. -/
theorem beacon_interval_of_steady (interval : UInt16) (h0 : interval ≠ 0) (ts : List PollTime)
    (hord : InOrder 0 ts) (h : ∀ r ∈ beaconLog interval ts, Polled.Steady interval r) :
    ∀ r ∈ beaconLog interval ts, Polled.OnTime interval r :=
  onTime_run h0 ts (fun _ hp => nomatch hp) hord h

/-- Two polls a minute and a half apart, in the first hour. -/
def twoPolls : List PollTime := [⟨60000, 60100⟩, ⟨150000, 150100⟩]

theorem beacon_interval_of_steady_two :
    beaconLog 60 twoPolls = [⟨none, ⟨60000, 60100⟩, true⟩, ⟨some 60100, ⟨150000, 150100⟩, true⟩] ∧
      ∀ r ∈ beaconLog 60 twoPolls, Polled.OnTime 60 r := by
  have hlog : beaconLog 60 twoPolls =
      [⟨none, ⟨60000, 60100⟩, true⟩, ⟨some 60100, ⟨150000, 150100⟩, true⟩] := by decide
  refine ⟨hlog, beacon_interval_of_steady 60 (by decide) twoPolls (by simp [twoPolls, InOrder]) ?_⟩
  intro r hr p hp
  rw [hlog, List.mem_cons, List.mem_singleton] at hr
  rcases hr with rfl | rfl
  · exact nomatch hp
  · obtain rfl := Option.some.inj hp
    exact ⟨by decide, fun _ => by decide⟩

/-- A beacon at 2147000 seconds, and a poll ten minutes later: the timer has
overflowed in between. -/
def wrapPolls : List PollTime := [⟨2147000000, 2147000000⟩, ⟨2147600000, 2147600000⟩]

/-- Ten minutes after a beacon, with an interval of one minute, none is sent. -/
theorem beacon_silent_after_wrap :
    InOrder 0 wrapPolls ∧
      ⟨some 2147000000, ⟨2147600000, 2147600000⟩, false⟩ ∈ beaconLog 60 wrapPolls ∧
      ¬ Polled.OnTime 60 ⟨some 2147000000, ⟨2147600000, 2147600000⟩, false⟩ := by
  refine ⟨by simp [wrapPolls, InOrder], by decide, fun h => ?_⟩
  have := (h 2147000000 rfl).1 (by decide)
  exact absurd this (by decide)

end TinyAprs
