/-
# A network of digipeaters

Digipeaters that hear each other: what one of them sends is on its way to those
in its reach, and comes in there in any order, or not at all (`Net.step`). Other
stations send messages in between, and each digipeater has its own stored call,
cache and clock.

Every copy that a digipeater takes in has more hops left than the copies it
makes of it, so the network comes to rest: what the digipeaters send is bounded
by the hops of the messages that were sent to them, whatever their caches hold
and however slow they are (`flood_bounded`). Of one packet, within the interval
of the duplicate check, each of them sends one copy at most
(`flood_once`): the copies differ in their paths, and the check reads the source,
the destination and the info, which are the same in all of them.
-/
import TinyAprs.DigiClear
import TinyAprs.DigiDup
import TinyAprs.Lib.Flood

namespace TinyAprs

open Mealy Finset

/-! ### The network -/

/-- What a digipeater keeps. -/
structure Digipeater where
  digi : DigiCache
  eeprom : Eeprom

/-- The hook is called for each of the frames that came in: the digipeater
after it, and what it sends. -/
def Digipeater.hears (clock : Clock) : Digipeater → List HookCall → Digipeater × List (List UInt8)
  | d, [] => (d, [])
  | d, ⟨_, none⟩ :: calls => d.hears clock calls
  | d, ⟨ctx, some msg⟩ :: calls =>
    let r := Station.handle ⟨d.digi, d.eeprom, ctx, clock⟩ msg
    let rest := Digipeater.hears clock { d with digi := r.digi } calls
    (rest.1, (if r.air = [] then [] else [r.air]) ++ rest.2)

variable {ι : Type}

/-- The digipeaters, and the copies that are on their way to them. -/
structure Net (ι : Type) where
  stations : ι → Digipeater
  flight : List (ι × List UInt8)

/-- A copy comes in at a station: what is on its stack, its receiver, which
listens, and what it reads from its clock. -/
structure Hearing (ι : Type) where
  station : ι
  frame : List UInt8
  stk : AX25Msg
  rx : AX25Ctx
  listening : Listening rx
  clock : Clock

/-- A message whose frame fits the buffer of a station, also with a full path. -/
structure Sendable (msg : AX25Msg) : Prop where
  rptCnt : 0 < msg.rptCnt ∧ msg.rptCnt ≤ ax25MaxRpt
  len : 0 < msg.len ∧ msg.len ≤ 256

/-- A message that another station sends, and the digipeaters in its reach. -/
structure Origin (ι : Type) where
  tx : AX25Ctx
  msg : AX25Msg
  sendable : Sendable msg
  reach : List ι

/-- What happens in the network: a message is sent, a copy comes in, a copy
is lost. -/
inductive NetEvent (ι : Type)
  | sent (o : Origin ι)
  | heard (h : Hearing ι)
  | lost (station : ι) (frame : List UInt8)

/-- One event, with `reach j` for the digipeaters that hear `j`; the outputs are
the frames that digipeaters send. -/
def Net.step [DecidableEq ι] (reach : ι → List ι) (net : Net ι) : NetEvent ι → Net ι × List (ι × List UInt8)
  | .sent o => ({ net with flight := net.flight ++ o.reach.map (·, (ax25SendMsg o.tx o.msg).2) }, [])
  | .lost station frame => ({ net with flight := net.flight.erase (station, frame) }, [])
  | .heard h =>
    if (h.station, h.frame) ∈ net.flight then
      let r := (net.stations h.station).hears h.clock (heardAfterFlag h.stk h.rx h.frame)
      ({ stations := Function.update net.stations h.station r.1
         flight := net.flight.erase (h.station, h.frame) ++ r.2.flatMap fun f => (reach h.station).map (·, f) },
        r.2.map (h.station, ·))
    else (net, [])

theorem Net.step_heard [DecidableEq ι] {reach : ι → List ι} {net : Net ι} {h : Hearing ι}
    (hin : (h.station, h.frame) ∈ net.flight) : net.step reach (.heard h) =
      let r := (net.stations h.station).hears h.clock (heardAfterFlag h.stk h.rx h.frame)
      ({ stations := Function.update net.stations h.station r.1
         flight := net.flight.erase (h.station, h.frame) ++ r.2.flatMap fun f => (reach h.station).map (·, f) },
        r.2.map (h.station, ·)) :=
  if_pos hin

theorem Net.step_missed [DecidableEq ι] {reach : ι → List ι} {net : Net ι} {h : Hearing ι}
    (hin : (h.station, h.frame) ∉ net.flight) : net.step reach (.heard h) = (net, []) :=
  if_neg hin

/-! ### Copies -/

/-- A frame of a message that has `Q`. -/
def CopyOf (Q : AX25Msg → Prop) (f : List UInt8) : Prop :=
  ∃ tx msg, Sendable msg ∧ Q msg ∧ f = (ax25SendMsg tx msg).2

/-- What is left of `Q` by the air and by the rewriting of a path. -/
def Carried (Q : AX25Msg → Prop) : Prop :=
  ∀ mycall msg m m' i, Q msg → OnAir msg m → i < m.rptCnt → rewrite mycall m i = some m' → Q m'

theorem heard_copy (tx : AX25Ctx) {msg : AX25Msg} (h : Sendable msg) (stk : AX25Msg) {rx : AX25Ctx}
    (hrx : Listening rx) : ∃ ctx m, OnAir msg m ∧ heardAfterFlag stk rx (ax25SendMsg tx msg).2 = [⟨ctx, some m⟩] := by
  obtain ⟨⟨hpos, hcnt⟩, hlen, hmax⟩ := h
  change msg.rptCnt ≤ 8 at hcnt
  have hfits : (msgBytes msg).length + 2 ≤ configAx25FrameBufLen := by
    rw [length_msgBytes, show configAx25FrameBufLen = 330 from rfl]
    omega
  obtain ⟨hs, ctx, m, hon, -, hout⟩ := outs_sendMsg stk tx hpos hcnt hlen hfits hrx.hook hrx.passThrough hrx.escape
  refine ⟨ctx, m, hon, ?_⟩
  rw [hs]
  exact hout

theorem decoded_onAir {msg m : AX25Msg} (h : msg.rptCnt ≤ ax25MaxRpt) (hon : OnAir msg m) : Decoded m := by
  refine ⟨hon.rptCnt ▸ h, fun i hi => ?_⟩
  rw [(hon.entries i (hon.rptCnt ▸ hi)).1]
  exact plainCall_air _

theorem sent_copy {Q : AX25Msg → Prop} (hQ : Carried Q) {msg m : AX25Msg} (h : Sendable msg) (hq : Q msg)
    (hon : OnAir msg m) {s : Station} (hair : (s.handle m).air ≠ []) : CopyOf Q (s.handle m).air := by
  obtain ⟨i, hi, -, msg', hw, -, ha⟩ := handle_air hair
  have hdec := decoded_onAir h.rptCnt.2 hon
  have hr := rewritten hdec.rptCnt hi hw
  refine ⟨s.modem, msg', ⟨⟨?_, hr.rptCnt.2⟩, ?_⟩, hQ _ msg m msg' i hq hon hi hw, ha⟩
  · have := hr.rptCnt.1
    omega
  · rw [hr.len, hon.len]
    exact h.len

/-! ### Hops -/

/-- The hops that a message allows once it is on the air. -/
def airBudget (msg : AX25Msg) : ℕ :=
  ∑ i ∈ range msg.rptCnt, if isWide (airCall (msg.rptLst i)) ∧ ¬ airRepeated msg i then
    (airCall (msg.rptLst i)).ssid.toNat else 0

theorem hopBudget_onAir {msg m : AX25Msg} (h : OnAir msg m) : hopBudget m = airBudget msg := by
  rw [hopBudget, airBudget, h.rptCnt]
  refine sum_congr rfl fun i hi => ?_
  obtain ⟨hlst, hrep⟩ := h.entries i (mem_range.mp hi)
  rw [hops, hlst, hrep]

/-- The hops of what a station decodes from a frame. -/
def frameBudget (f : List UInt8) : ℕ :=
  ((heardAfterFlag zeroMsg (ax25Init true) f).filterMap fun call => call.msg.map hopBudget).sum

theorem listening_init : Listening (ax25Init true) := ⟨rfl, rfl, rfl⟩

theorem frameBudget_sent (tx : AX25Ctx) {msg : AX25Msg} (h : Sendable msg) :
    frameBudget (ax25SendMsg tx msg).2 = airBudget msg := by
  obtain ⟨ctx, m, hon, hout⟩ := heard_copy tx h zeroMsg listening_init
  rw [frameBudget, hout, ← hopBudget_onAir hon]
  rfl

theorem frameBudget_lt (tx : AX25Ctx) {msg m : AX25Msg} (h : Sendable msg) (hon : OnAir msg m) {s : Station}
    (hair : (s.handle m).air ≠ []) : frameBudget (s.handle m).air < frameBudget (ax25SendMsg tx msg).2 := by
  have hdec := decoded_onAir h.rptCnt.2 hon
  have hfits : (s.handle m).Fits := by
    intro msg' hsent
    obtain ⟨i, hi, -, msg₁, hw, hsent₁, -⟩ := handle_air hair
    obtain rfl : msg₁ = msg' := Option.some.inj (hsent₁.symm.trans hsent)
    have hr := rewritten hdec.rptCnt hi hw
    have hcnt : msg₁.rptCnt ≤ 8 := hr.rptCnt.2
    have hlen := h.len.2
    rw [hr.len, hon.len, show configAx25FrameBufLen = 330 from rfl]
    omega
  obtain ⟨ctx, m', hout, -, hlt⟩ := hopBudget_relayed hdec hair hfits zeroMsg listening_init
  rw [frameBudget_sent tx h, ← hopBudget_onAir hon, frameBudget, hout]
  exact hlt

/-! ### One event -/

variable {Q : AX25Msg → Prop} {net : Net ι}

/-- What a digipeater does with a copy: it decodes a message, and handles it. -/
theorem hears_copy (d : Digipeater) (h : Hearing ι) {tx : AX25Ctx} {msg : AX25Msg} (hs : Sendable msg)
    (hf : h.frame = (ax25SendMsg tx msg).2) : ∃ s : Station, ∃ m, s.digi = d.digi ∧ s.clock = h.clock ∧ OnAir msg m ∧
      d.hears h.clock (heardAfterFlag h.stk h.rx h.frame) =
        ({ d with digi := (s.handle m).digi }, if (s.handle m).air = [] then [] else [(s.handle m).air]) := by
  obtain ⟨ctx, m, hon, hout⟩ := heard_copy tx hs h.stk h.listening
  refine ⟨⟨d.digi, d.eeprom, ctx, h.clock⟩, m, rfl, rfl, hon, ?_⟩
  rw [hf, hout, Digipeater.hears]
  simp [Digipeater.hears]

theorem hears_cases (hQ : Carried Q) (d : Digipeater) (h : Hearing ι) (hcopy : CopyOf Q h.frame) :
    (d.hears h.clock (heardAfterFlag h.stk h.rx h.frame)).2 = [] ∨
    ∃ f, (d.hears h.clock (heardAfterFlag h.stk h.rx h.frame)).2 = [f] ∧ CopyOf Q f ∧
      frameBudget f < frameBudget h.frame := by
  obtain ⟨tx, msg, hs, hq, hf⟩ := hcopy
  obtain ⟨s, m, -, -, hon, hout⟩ := hears_copy d h hs hf
  rw [hout]
  by_cases hair : (s.handle m).air = []
  · exact Or.inl (if_pos hair)
  · refine Or.inr ⟨(s.handle m).air, if_neg hair, sent_copy hQ hs hq hon hair, ?_⟩
    rw [hf]
    exact frameBudget_lt tx hs hon hair

/-- All that is on its way is a copy of a message that has `Q`. -/
def Flying (Q : AX25Msg → Prop) (net : Net ι) : Prop := ∀ c ∈ net.flight, CopyOf Q c.2

/-- The messages that are sent have `Q`. -/
def NetEvent.Sends (Q : AX25Msg → Prop) : NetEvent ι → Prop
  | .sent o => Q o.msg
  | _ => True

theorem Flying.step [DecidableEq ι] (hQ : Carried Q) (reach : ι → List ι) (h : Flying Q net) {e : NetEvent ι}
    (he : e.Sends Q) : Flying Q (net.step reach e).1 := by
  cases e with
  | sent o =>
    intro c hc
    rcases List.mem_append.mp hc with hc | hc
    · exact h c hc
    · obtain ⟨j, -, rfl⟩ := List.mem_map.mp hc
      exact ⟨o.tx, o.msg, o.sendable, he, rfl⟩
  | lost j f => exact fun c hc => h c (List.mem_of_mem_erase hc)
  | heard x =>
    by_cases hin : (x.station, x.frame) ∈ net.flight
    · rw [Net.step_heard hin]
      intro c hc
      rcases List.mem_append.mp hc with hc | hc
      · exact h c (List.mem_of_mem_erase hc)
      · obtain ⟨f, hf, hc⟩ := List.mem_flatMap.mp hc
        obtain ⟨j, -, rfl⟩ := List.mem_map.mp hc
        rcases hears_cases hQ (net.stations x.station) x (h _ hin) with h0 | ⟨f', h1, hcopy, -⟩
        · rw [h0] at hf
          exact absurd hf List.not_mem_nil
        · rw [h1] at hf
          rwa [List.mem_singleton.mp hf]
    · rwa [Net.step_missed hin]

/-! ### The network comes to rest -/

/-- What a message can cause, heard by those in its reach. -/
def NetEvent.gain (g : ℕ) : NetEvent ι → ℕ
  | .sent o => o.reach.length * spread g (airBudget o.msg)
  | _ => 0

/-- What the copies on their way can cause. -/
def Net.value (g : ℕ) (net : Net ι) : ℕ := worth g (fun c => frameBudget c.2) net.flight

theorem value_sent (g : ℕ) (net : Net ι) (o : Origin ι) :
    worth g (fun c => frameBudget c.2) (net.flight ++ o.reach.map (·, (ax25SendMsg o.tx o.msg).2)) ≤
      net.value g + o.reach.length * spread g (airBudget o.msg) := by
  rw [worth_append]
  apply Nat.add_le_add_left
  have hle : ∀ c ∈ o.reach.map (·, (ax25SendMsg o.tx o.msg).2),
      spread g (frameBudget c.2) ≤ spread g (airBudget o.msg) := by
    intro c hc
    obtain ⟨j, -, rfl⟩ := List.mem_map.mp hc
    rw [frameBudget_sent o.tx o.sendable]
  simpa using worth_le hle

theorem value_step [DecidableEq ι] {g : ℕ} {reach : ι → List ι} (hreach : ∀ j, (reach j).length ≤ g) (hQ : Carried Q)
    (h : Flying Q net) (e : NetEvent ι) :
    (net.step reach e).1.value g + (net.step reach e).2.length ≤ net.value g + e.gain g := by
  cases e with
  | sent o => exact value_sent g net o
  | lost j f => exact worth_erase_le g (fun c => frameBudget c.2) net.flight (j, f)
  | heard x =>
    by_cases hin : (x.station, x.frame) ∈ net.flight
    · rw [Net.step_heard hin]
      refine worth_replace hin ?_
      rw [List.length_map]
      rcases hears_cases hQ (net.stations x.station) x (h _ hin) with h0 | ⟨f, h1, -, hlt⟩
      · rw [h0]
        exact Nat.zero_le _
      · rw [h1, List.flatMap_singleton]
        refine worth_copies (Nat.zero_lt_of_lt hlt) (by simpa using hreach x.station) fun c hc => ?_
        obtain ⟨j, -, rfl⟩ := List.mem_map.mp hc
        exact hlt
    · rw [Net.step_missed hin]
      exact Nat.le_refl _

/-- **The network comes to rest.** In a network where a station is heard by at
most `g` digipeaters, whatever their stored calls, caches and clocks are and in
whatever order copies come in or are lost, the digipeaters send for each message
no more than its hops allow. -/
theorem flood_bounded [DecidableEq ι] (reach : ι → List ι) (g : ℕ) (hreach : ∀ j, (reach j).length ≤ g)
    (stations : ι → Digipeater) (es : List (NetEvent ι)) :
    (outs (Net.step reach) ⟨stations, []⟩ es).length ≤ (es.map (NetEvent.gain g)).sum := by
  have hQ : Carried fun _ => True := fun _ _ _ _ _ _ _ _ _ => trivial
  have hstart : Flying (fun _ => True) (⟨stations, []⟩ : Net ι) := fun c hc => absurd hc List.not_mem_nil
  have hsends : ∀ e : NetEvent ι, e.Sends fun _ => True := fun e => by cases e <;> trivial
  have hrun := outs_le_worth (fun net e h => ⟨h.step hQ reach (hsends e), value_step hreach hQ h e⟩) es hstart
  simpa [Net.value] using hrun

/-- A message from NOCALL to APTB01 via WIDE2-2, sent to both of two digipeaters. -/
def sentToBoth : Origin Bool where
  tx := ax25Init true
  msg := { zeroMsg with
    src := defaultCalldata.myCall
    dst := defaultCalldata.destCall
    rptLst := fun _ => defaultCalldata.path2
    rptCnt := 1
    len := 1 }
  sendable := ⟨by decide, by decide⟩
  reach := [false, true]

/-- It comes in at one of them. -/
def heardFrom (j : Bool) (ms : ℕ) : Hearing Bool where
  station := j
  frame := (ax25SendMsg sentToBoth.tx sentToBoth.msg).2
  stk := zeroMsg
  rx := ax25Init true
  listening := listening_init
  clock := fun _ => ms

/-- Two digipeaters that hear each other send no more than four copies. -/
theorem flood_bounded_pair :
    (outs (Net.step fun j => [!j]) ⟨fun _ => ⟨digiInit, fun _ => 0xFF⟩, []⟩
      [.sent sentToBoth, .heard (heardFrom true 1000), .heard (heardFrom false 2000)]).length ≤ 4 := by
  have hgain : ([.sent sentToBoth, .heard (heardFrom true 1000), .heard (heardFrom false 2000)].map
      (NetEvent.gain 1)).sum = 4 := by decide +kernel
  rw [← hgain]
  exact flood_bounded (fun j => [!j]) 1 (fun _ => Nat.le_refl 1) _ _

/-! ### One packet -/

variable {p : AX25Msg}

theorem samePacket_onAir (hsrc : ValidCall p.src) (hdst : ValidCall p.dst) {msg m : AX25Msg} (h : SamePacket p msg)
    (hon : OnAir msg m) : SamePacket p m := by
  refine ⟨?_, ?_, hon.info.trans h.info⟩
  · rw [hon.src, h.src, airCall_of_valid hsrc]
  · rw [hon.dst, h.dst, airCall_of_valid hdst]

/-- Digipeaters carry a packet on as it is, if its calls are valid. -/
theorem carried_packet (hsrc : ValidCall p.src) (hdst : ValidCall p.dst) : Carried (SamePacket p) := by
  intro mycall msg m m' i h hon hi hw
  have hm := samePacket_onAir hsrc hdst h hon
  obtain ⟨hd, hs, hinfo, hlen⟩ := rewrite_keeps hi hw
  exact ⟨hs.trans hm.src, hd.trans hm.dst, by rw [hinfo, hlen, hm.info]⟩

theorem handle_fresh {s : Station} {m : AX25Msg} (hair : (s.handle m).air ≠ []) :
    s.digi.search s.clock (digiCalcHash m) cacheSize = false ∧
      (s.handle m).digi = s.digi.record s.clock (digiCalcHash m) := by
  have hdup : (s.handle m).dup = some false := by
    rcases digiScan_cases s.digi s.eeprom s.modem s.clock m m.rptCnt 0 with ⟨hn, -⟩ | ⟨i, -, -, -, ht⟩
    · exact absurd (congrArg Digipeated.air hn) hair
    · have ht : s.handle m = digiTake s.digi s.eeprom s.modem s.clock m i := ht
      rw [ht, digiTake] at hair ⊢
      dsimp only at hair ⊢
      split_ifs at hair ⊢
      · exact absurd rfl hair
      · split <;> rfl
  have hcases := handle_cases ⟨s.eeprom, s.modem, s.clock, m⟩ s.digi
  rcases hcases with ⟨hnone, -⟩ | ⟨htrue, -⟩ | ⟨-, hdigi, hsearch⟩
  · exact absurd (hdup.symm.trans hnone) (by simp)
  · exact absurd (hdup.symm.trans htrue) (by simp)
  · exact ⟨hsearch, hdigi⟩

/-- A station that reads its clock at `t` or later, and less than 15 seconds
later. -/
def Hearing.Within (t : ℕ) (h : Hearing ι) : Prop :=
  ∀ i ≤ cacheSize, t ≤ h.clock i ∧ h.clock i < 2 ^ 31 ∧ h.clock i / 1000 - t / 1000 < 15

theorem hears_again (hsrc : ValidCall p.src) (hdst : ValidCall p.dst) {d : Digipeater} {h : Hearing ι} {t : ℕ}
    (hkept : Kept ⟨digiCalcHash p, currentTimeSeconds t⟩ 0 d.digi) (hcopy : CopyOf (SamePacket p) h.frame)
    (ht : h.Within t) : d.hears h.clock (heardAfterFlag h.stk h.rx h.frame) = (d, []) := by
  obtain ⟨tx, msg, hs, hq, hf⟩ := hcopy
  obtain ⟨s, m, hdigi, hclock, hon, hout⟩ := hears_copy d h hs hf
  have hfound : s.digi.search s.clock (digiCalcHash m) cacheSize = true := by
    rw [hdigi, hclock, (samePacket_onAir hsrc hdst hq hon).hash]
    exact hkept.search ht
  have hair : (s.handle m).air = [] := by
    by_contra hair
    rw [(handle_fresh hair).1] at hfound
    cases hfound
  have hsame : (s.handle m).digi = d.digi := by
    have hcases := handle_cases ⟨s.eeprom, s.modem, s.clock, m⟩ s.digi
    rcases hcases with ⟨-, h1⟩ | ⟨-, h1, -⟩ | ⟨-, -, h1⟩
    · exact Eq.trans h1 hdigi
    · exact Eq.trans h1 hdigi
    · rw [hfound] at h1
      cases h1
  rw [hout, if_pos hair, hsame]

theorem hears_first (hsrc : ValidCall p.src) (hdst : ValidCall p.dst) {d : Digipeater} {h : Hearing ι}
    (hidx : d.digi.cacheIndex.toNat ≤ 8) (hcopy : CopyOf (SamePacket p) h.frame)
    (hsent : (d.hears h.clock (heardAfterFlag h.stk h.rx h.frame)).2 ≠ []) :
    Kept ⟨digiCalcHash p, currentTimeSeconds (h.clock 0)⟩ 0
      (d.hears h.clock (heardAfterFlag h.stk h.rx h.frame)).1.digi := by
  obtain ⟨tx, msg, hs, hq, hf⟩ := hcopy
  obtain ⟨s, m, hdigi, hclock, hon, hout⟩ := hears_copy d h hs hf
  rw [hout] at hsent ⊢
  have hair : (s.handle m).air ≠ [] := fun h0 => hsent (if_pos h0)
  show Kept _ 0 (s.handle m).digi
  rw [(handle_fresh hair).2, hdigi, hclock, (samePacket_onAir hsrc hdst hq hon).hash]
  exact kept_record hidx h.clock (digiCalcHash p)

theorem hears_index (d : Digipeater) (h : Hearing ι) (hidx : d.digi.cacheIndex.toNat ≤ 8)
    (hcopy : CopyOf Q h.frame) :
    (d.hears h.clock (heardAfterFlag h.stk h.rx h.frame)).1.digi.cacheIndex.toNat ≤ 8 := by
  obtain ⟨tx, msg, hs, -, hf⟩ := hcopy
  obtain ⟨s, m, hdigi, -, -, hout⟩ := hears_copy d h hs hf
  rw [hout]
  exact cacheIndex_run [⟨s.eeprom, s.modem, s.clock, m⟩] (hdigi ▸ hidx)

/-! ### Each sends it once -/

/-- Two events in their order: a station that hears both hears the second
within the interval of the first. -/
def NetEvent.Soon : NetEvent ι → NetEvent ι → Prop
  | .heard h, .heard h' => h.station = h'.station → h'.Within (h.clock 0)
  | _, _ => True

/-- The copies on their way, and those to come, are of the packet `p`, the caches
are in order, and all happens within the interval. -/
structure Flood (p : AX25Msg) (net : Net ι) (es : List (NetEvent ι)) : Prop where
  flying : Flying (SamePacket p) net
  index : ∀ j, (net.stations j).digi.cacheIndex.toNat ≤ 8
  sends : ∀ e ∈ es, e.Sends (SamePacket p)
  soon : es.Pairwise NetEvent.Soon

/-- The station `j` has the packet in its cache, and will find it there. -/
def HasSeen (p : AX25Msg) (j : ι) (net : Net ι) (es : List (NetEvent ι)) : Prop :=
  ∃ t, Kept ⟨digiCalcHash p, currentTimeSeconds t⟩ 0 (net.stations j).digi ∧
    ∀ h, .heard h ∈ es → h.station = j → h.Within t

/-- What an event does to a station: nothing, or the station hears a copy. -/
theorem stations_step [DecidableEq ι] (reach : ι → List ι) (net : Net ι) (e : NetEvent ι) (j : ι) :
    ((net.step reach e).1.stations j = net.stations j ∧ ∀ o ∈ (net.step reach e).2, o.1 ≠ j) ∨
    ∃ h, e = .heard h ∧ h.station = j ∧ (j, h.frame) ∈ net.flight ∧
      (net.step reach e).1.stations j = ((net.stations j).hears h.clock (heardAfterFlag h.stk h.rx h.frame)).1 ∧
      (net.step reach e).2 = ((net.stations j).hears h.clock (heardAfterFlag h.stk h.rx h.frame)).2.map (j, ·) := by
  cases e with
  | sent o => exact Or.inl ⟨rfl, by simp [Net.step]⟩
  | lost i f => exact Or.inl ⟨rfl, by simp [Net.step]⟩
  | heard h =>
    by_cases hin : (h.station, h.frame) ∈ net.flight
    · rw [Net.step_heard hin]
      by_cases hj : h.station = j
      · subst hj
        exact Or.inr ⟨h, rfl, rfl, hin, Function.update_self .., rfl⟩
      · refine Or.inl ⟨Function.update_of_ne (Ne.symm hj) .., fun o ho => ?_⟩
        obtain ⟨f, -, rfl⟩ := List.mem_map.mp ho
        exact hj
    · rw [Net.step_missed hin]
      exact Or.inl ⟨rfl, by simp⟩

section

variable [DecidableEq ι] {reach : ι → List ι} {e : NetEvent ι} {es : List (NetEvent ι)}

theorem Flood.step (hsrc : ValidCall p.src) (hdst : ValidCall p.dst) (h : Flood p net (e :: es)) :
    Flood p (net.step reach e).1 es := by
  have hQ := carried_packet hsrc hdst
  refine ⟨h.flying.step hQ reach (h.sends e List.mem_cons_self), fun j => ?_,
    fun e' he' => h.sends e' (List.mem_cons_of_mem e he'), h.soon.of_cons⟩
  rcases stations_step reach net e j with ⟨hsame, -⟩ | ⟨x, -, -, hin, hnew, -⟩
  · rw [hsame]
    exact h.index j
  · rw [hnew]
    exact hears_index _ x (h.index j) (h.flying _ hin)

theorem Flood.sent (hsrc : ValidCall p.src) (hdst : ValidCall p.dst) (h : Flood p net (e :: es)) :
    ((net.step reach e).2.map Prod.fst).Nodup ∧
      ∀ o ∈ (net.step reach e).2, HasSeen p o.1 (net.step reach e).1 es := by
  by_cases hnone : (net.step reach e).2 = []
  · simp [hnone]
  obtain ⟨o, ho⟩ := List.exists_mem_of_ne_nil _ hnone
  rcases stations_step reach net e o.1 with ⟨-, hne⟩ | ⟨x, rfl, hx, hin, hnew, hout⟩
  · exact absurd rfl (hne o ho)
  have hcopy : CopyOf (SamePacket p) x.frame := h.flying _ hin
  rcases hears_cases (carried_packet hsrc hdst) (net.stations o.1) x hcopy with h0 | ⟨f, h1, -⟩
  · exact absurd (by rw [hout, h0]; rfl) hnone
  have hseen : HasSeen p o.1 (net.step reach (.heard x)).1 es := by
    refine ⟨x.clock 0, ?_, fun h' hmem hj => ?_⟩
    · rw [hnew]
      exact hears_first hsrc hdst (h.index o.1) hcopy (by simp [h1])
    · exact (List.pairwise_cons.mp h.soon).1 (.heard h') hmem (hx.trans hj.symm)
  rw [hout, h1]
  refine ⟨by simp, fun o' ho' => ?_⟩
  obtain rfl : o' = (o.1, f) := by simpa using ho'
  exact hseen

theorem Flood.silent (hsrc : ValidCall p.src) (hdst : ValidCall p.dst) (h : Flood p net (e :: es)) {j : ι}
    (hj : HasSeen p j net (e :: es)) :
    HasSeen p j (net.step reach e).1 es ∧ ∀ o ∈ (net.step reach e).2, o.1 ≠ j := by
  obtain ⟨t, hkept, hwithin⟩ := hj
  have hlater : ∀ h', .heard h' ∈ es → h'.station = j → h'.Within t :=
    fun h' hmem => hwithin h' (List.mem_cons_of_mem e hmem)
  rcases stations_step reach net e j with ⟨hsame, hout⟩ | ⟨x, rfl, hxj, hin, hnew, hout⟩
  · exact ⟨⟨t, hsame ▸ hkept, hlater⟩, hout⟩
  · have hagain := hears_again hsrc hdst hkept (h.flying _ hin) (hwithin x List.mem_cons_self hxj)
    rw [hagain] at hnew hout
    exact ⟨⟨t, hnew ▸ hkept, hlater⟩, by simp [hout]⟩

end

/-- **Each digipeater sends a packet once.** A packet with valid calls is sent,
by any number of stations and via any paths, in a network of digipeaters with
nothing else on its way, each with a cache as it has it after any calls. Whatever
copies come in or are lost, in whatever order, as long as each digipeater hears
its copies within 15 seconds: no digipeater sends it twice. -/
theorem flood_once [DecidableEq ι] (reach : ι → List ι) (stations : ι → Digipeater)
    (hcache : ∀ j, ∃ calls, (stations j).digi = digiRun digiInit calls) (hsrc : ValidCall p.src)
    (hdst : ValidCall p.dst) (es : List (NetEvent ι)) (hsends : ∀ e ∈ es, e.Sends (SamePacket p))
    (hsoon : es.Pairwise NetEvent.Soon) :
    ((outs (Net.step reach) ⟨stations, []⟩ es).map Prod.fst).Nodup := by
  refine nodup_senders (Flood p) (HasSeen p) (fun net e es h => h.step hsrc hdst)
    (fun net e es h => h.sent hsrc hdst) (fun j net e es h hj => h.silent hsrc hdst hj) es ?_
  refine ⟨fun c hc => absurd hc List.not_mem_nil, fun j => ?_, hsends, hsoon⟩
  obtain ⟨calls, hcalls⟩ := hcache j
  show (stations j).digi.cacheIndex.toNat ≤ 8
  rw [hcalls]
  exact cacheIndex_run calls (Nat.zero_le 8)

theorem flood_once_pair :
    ((outs (Net.step fun j => [!j]) ⟨fun _ => ⟨digiInit, fun _ => 0xFF⟩, []⟩
      [.sent sentToBoth, .heard (heardFrom true 1000), .sent sentToBoth, .heard (heardFrom true 2000)]).map
        Prod.fst).Nodup := by
  refine flood_once (p := sentToBoth.msg) (fun j => [!j]) _ (fun _ => ⟨[], rfl⟩) ?_ ?_ _ ?_ ?_
  · exact ⟨⟨[0x4e, 0x4f, 0x43, 0x41, 0x4c, 0x4c], by decide, by decide, by decide +kernel, rfl⟩, by decide⟩
  · exact ⟨⟨[0x41, 0x50, 0x54, 0x42, 0x30, 0x31], by decide, by decide, by decide +kernel, rfl⟩, by decide⟩
  · have hsame : SamePacket sentToBoth.msg sentToBoth.msg := ⟨rfl, rfl, rfl⟩
    simp [NetEvent.Sends, hsame]
  · simp [NetEvent.Soon, Hearing.Within, heardFrom]

end TinyAprs
