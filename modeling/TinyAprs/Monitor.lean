/-
# The monitor

In the config mode the board prints each message it hears, in the TNC-2 monitor
format: `SRC>DST,PATH1*,PATH2:info` (`ax25_print`). A call with upper-case
letters and digits and an SSID has none of the format's own characters in it, so
from the line everything can be read that was sent, with the repeated flags, but
for an info with a NUL, which is cut there (`readMonitor`). The line of a
message that has come over the air is read back to what its sender sent
(`monitor_shows_sent`).

`kfile_printf_P` is modelled by what the three formats do: `%.6s` and `%.*s`
print up to a NUL or the precision, `%d` prints a number in decimal.
-/
import TinyAprs.CallText
import TinyAprs.DigiNet

namespace TinyAprs

open Decimal Mealy

/-! ### Printing -/

/-- `print_call` -/
def printCall (call : AX25Call) : List UInt8 :=
  cstr call.call ++ if call.ssid ≠ 0 then 0x2d :: decimal call.ssid.toNat else []

/-- An entry of the path, with a `*` if it is repeated. -/
def printHop (msg : AX25Msg) (i : ℕ) : List UInt8 :=
  printCall (msg.rptLst i) ++ if ax25Repeated msg i then [0x2a] else []

/-- The loop over the path, from entry `i` with `n` left. -/
def printPath (msg : AX25Msg) : ℕ → ℕ → List UInt8
  | _, 0 => []
  | i, n + 1 => 0x2c :: (printHop msg i ++ printPath msg (i + 1) n)

/-- `ax25_print` -/
def ax25Print (msg : AX25Msg) : List UInt8 :=
  printCall msg.src ++ 0x3e :: (printCall msg.dst ++ printPath msg 0 msg.rptCnt ++
    0x3a :: (cString (msg.info.bytes msg.len) ++ [0x0a, 0x0d]))

/-- `ax25_msg_callback` in the config mode, where the message is decoded. -/
def monitorCallback (call : HookCall) : Option (List UInt8) := call.msg.map ax25Print

/-! ### Reading -/

/-- What a line of the monitor says. -/
structure Monitored where
  src : AX25Call
  dst : AX25Call
  path : List (AX25Call × Bool)
  info : List UInt8

/-- An entry of the path: the call, and whether a `*` ends it. -/
def readHop (text : List UInt8) : AX25Call × Bool :=
  if text.getLast? = some 0x2a then (ax25callFromString text.dropLast, true) else (ax25callFromString text, false)

/-- A line, read: up to the first `:` the addresses, behind it the info. -/
def readMonitor (line : List UInt8) : Option Monitored :=
  let addrs := line.takeWhile (· != 0x3a)
  let src := addrs.takeWhile (· != 0x3e)
  let info := line.drop (addrs.length + 1)
  match (addrs.drop (src.length + 1)).splitOn 0x2c with
  | [] => none
  | dst :: path =>
    some ⟨ax25callFromString src, ax25callFromString dst, path.map readHop, info.take (info.length - 2)⟩

/-- What a message says on a line. -/
def AX25Msg.monitored (msg : AX25Msg) : Monitored where
  src := msg.src
  dst := msg.dst
  path := (List.range msg.rptCnt).map fun i => (msg.rptLst i, ax25Repeated msg i)
  info := cString (msg.info.bytes msg.len)

/-! ### Calls -/

/-- The characters of a printed call. -/
def isCallChar (c : UInt8) : Bool := upperAlnum c || c == 0x2d

theorem isCallChar_ne : ∀ c : UInt8, isCallChar c = true → c ≠ 0x2a ∧ c ≠ 0x2c ∧ c ≠ 0x3a ∧ c ≠ 0x3e := by
  decide +kernel

/-- An SSID is printed as `ax25call_to_string` does. -/
theorem print_ssid : ∀ ssid : UInt8, ssid ≤ 15 →
    (if ssid ≠ 0 then 0x2d :: decimal ssid.toNat else []) = ssidText ssid ∧ ∀ c ∈ ssidText ssid, isCallChar c = true := by
  decide +kernel

theorem printCall_valid {a : AX25Call} (ha : ValidCall a) : printCall a = cString (ax25callToString a) := by
  rw [cString_toString, printCall, (print_ssid a.ssid ha.2).1]

theorem fromString_printCall {a : AX25Call} (ha : ValidCall a) : ax25callFromString (printCall a) = a := by
  rw [printCall_valid ha, fromString_toString ha]

theorem isCallChar_printCall {a : AX25Call} (ha : ValidCall a) : ∀ c ∈ printCall a, isCallChar c = true := by
  intro c hc
  rw [printCall_valid ha, cString_toString] at hc
  rcases List.mem_append.mp hc with hc | hc
  · obtain ⟨⟨w, -, -, hw, hcall⟩, -⟩ := ha
    have hne := List.mem_takeWhile_imp hc
    have hmem : c ∈ w ++ List.replicate (6 - w.length) 0 := hcall ▸ (List.takeWhile_sublist _).mem hc
    rcases List.mem_append.mp hmem with hmem | hmem
    · rw [isCallChar, hw c hmem, Bool.true_or]
    · rw [List.eq_of_mem_replicate hmem] at hne
      simp at hne
  · exact (print_ssid a.ssid ha.2).2 c hc

/-! ### A line -/

theorem readHop_printHop {msg : AX25Msg} {i : ℕ} (h : ValidCall (msg.rptLst i)) :
    readHop (printHop msg i) = (msg.rptLst i, ax25Repeated msg i) := by
  unfold printHop readHop
  cases hr : ax25Repeated msg i with
  | true => simp [fromString_printCall h]
  | false =>
    have hstar : (printCall (msg.rptLst i)).getLast? ≠ some 0x2a := by
      intro hlast
      exact (isCallChar_ne _ (isCallChar_printCall h _ (List.mem_of_getLast? hlast))).1 rfl
    simp [fromString_printCall h, hstar]

theorem printHop_free {msg : AX25Msg} {i : ℕ} (h : ValidCall (msg.rptLst i)) :
    0x2c ∉ printHop msg i ∧ 0x3a ∉ printHop msg i := by
  have hcall : ∀ c ∈ printHop msg i, c = 0x2a ∨ isCallChar c = true := by
    intro c hc
    rcases List.mem_append.mp hc with hc | hc
    · exact Or.inr (isCallChar_printCall h c hc)
    · split_ifs at hc
      · exact Or.inl (List.mem_singleton.mp hc)
      · exact absurd hc List.not_mem_nil
  constructor
  · intro hc
    rcases hcall _ hc with h2 | h2
    · cases h2
    · cases h2
  · intro hc
    rcases hcall _ hc with h2 | h2
    · cases h2
    · cases h2

theorem intercalate_cons (c : UInt8) (w : List UInt8) : ∀ ws : List (List UInt8),
    [c].intercalate (w :: ws) = w ++ ws.flatMap (c :: ·)
  | [] => by simp [List.intercalate]
  | v :: ws => by
    rw [List.intercalate_cons_cons, intercalate_cons c v ws]
    simp

theorem intercalate_free {c z : UInt8} (hz : z ≠ c) {ws : List (List UInt8)} (h : ∀ w ∈ ws, z ∉ w) :
    z ∉ [c].intercalate ws := by
  cases ws with
  | nil => exact List.not_mem_nil
  | cons w ws =>
    rw [intercalate_cons, List.mem_append, List.mem_flatMap]
    rintro (hmem | ⟨v, hv, hmem⟩)
    · exact h w List.mem_cons_self hmem
    · rcases List.mem_cons.mp hmem with hmem | hmem
      · exact hz hmem
      · exact h v (List.mem_cons_of_mem w hv) hmem

theorem printPath_eq (msg : AX25Msg) : ∀ n i : ℕ,
    printPath msg i n = ((List.range' i n).map (printHop msg)).flatMap (0x2c :: ·)
  | 0, _ => rfl
  | n + 1, i => by
    rw [printPath, printPath_eq msg n (i + 1), List.range'_succ]
    simp

structure ValidCalls (msg : AX25Msg) : Prop where
  src : ValidCall msg.src
  dst : ValidCall msg.dst
  path : ∀ i < msg.rptCnt, ValidCall (msg.rptLst i)

/-- The destination and the path, as they are printed. -/
def printedVia (msg : AX25Msg) : List (List UInt8) := printCall msg.dst :: (List.range msg.rptCnt).map (printHop msg)

theorem ax25Print_eq (msg : AX25Msg) : ax25Print msg =
    (printCall msg.src ++ 0x3e :: [0x2c].intercalate (printedVia msg)) ++
      0x3a :: (cString (msg.info.bytes msg.len) ++ [0x0a, 0x0d]) := by
  rw [ax25Print, printPath_eq, printedVia, intercalate_cons, List.range_eq_range']
  simp only [List.append_assoc, List.cons_append]

theorem printedVia_free {msg : AX25Msg} (h : ValidCalls msg) : ∀ w ∈ printedVia msg, 0x2c ∉ w ∧ 0x3a ∉ w := by
  intro w hw
  rcases List.mem_cons.mp hw with rfl | hw
  · constructor
    · exact fun hc => (isCallChar_ne _ (isCallChar_printCall h.dst _ hc)).2.1 rfl
    · exact fun hc => (isCallChar_ne _ (isCallChar_printCall h.dst _ hc)).2.2.1 rfl
  · obtain ⟨i, hi, rfl⟩ := List.mem_map.mp hw
    exact printHop_free (h.path i (List.mem_range.mp hi))

theorem drop_past (w : List UInt8) (c : UInt8) (rest : List UInt8) : (w ++ c :: rest).drop (w.length + 1) = rest := by
  simp [List.drop_append]

/-- **A line says what the message says.** -/
theorem readMonitor_print {msg : AX25Msg} (h : ValidCalls msg) : readMonitor (ax25Print msg) = some msg.monitored := by
  have hfree := printedVia_free h
  have hsrc : 0x3e ∉ printCall msg.src := fun hc => (isCallChar_ne _ (isCallChar_printCall h.src _ hc)).2.2.2 rfl
  have hcolon : 0x3a ∉ printCall msg.src ++ 0x3e :: [0x2c].intercalate (printedVia msg) := by
    intro hc
    rcases List.mem_append.mp hc with hc | hc
    · exact (isCallChar_ne _ (isCallChar_printCall h.src _ hc)).2.2.1 rfl
    · rcases List.mem_cons.mp hc with hc | hc
      · cases hc
      · exact intercalate_free (by decide) (fun w hw => (hfree w hw).2) hc
  have hsplit : ([0x2c].intercalate (printedVia msg)).splitOn 0x2c = printedVia msg :=
    List.splitOn_intercalate 0x2c (fun w hw => (hfree w hw).1) (List.cons_ne_nil _ _)
  have hhops : ((List.range msg.rptCnt).map (printHop msg)).map readHop =
      (List.range msg.rptCnt).map fun i => (msg.rptLst i, ax25Repeated msg i) := by
    rw [List.map_map]
    exact List.map_congr_left fun i hi => readHop_printHop (h.path i (List.mem_range.mp hi))
  have hinfo : ∀ w : List UInt8, (w ++ [0x0a, 0x0d]).take ((w ++ [0x0a, 0x0d]).length - 2) = w := by
    intro w
    simp
  rw [ax25Print_eq, readMonitor, Terminated.takeWhile_free hcolon, Terminated.takeWhile_free hsrc,
    drop_past, drop_past, hsplit, hinfo]
  show some (Monitored.mk _ _ (((List.range msg.rptCnt).map (printHop msg)).map readHop) _) = _
  rw [fromString_printCall h.src, fromString_printCall h.dst, hhops]
  rfl

/-! ### Over the air -/

theorem airRepeated_valid {msg : AX25Msg} {i : ℕ} (h : ValidCall (msg.rptLst i)) :
    airRepeated msg i = ax25Repeated msg i := by
  have hbit : ∀ s : UInt8, s ≤ 15 → (s &&& 0x40 != 0) = false := by decide +kernel
  rw [airRepeated, hbit _ h.2, Bool.or_false]

theorem OnAir.valid {msg m : AX25Msg} (hon : OnAir msg m) (h : ValidCalls msg) :
    ValidCalls m ∧ m.monitored = msg.monitored := by
  have hsrc : m.src = msg.src := by rw [hon.src, airCall_of_valid h.src]
  have hdst : m.dst = msg.dst := by rw [hon.dst, airCall_of_valid h.dst]
  have hpath : ∀ i < msg.rptCnt, m.rptLst i = msg.rptLst i ∧ ax25Repeated m i = ax25Repeated msg i := by
    intro i hi
    obtain ⟨hlst, hrep⟩ := hon.entries i hi
    rw [hlst, hrep, airCall_of_valid (h.path i hi), airRepeated_valid (h.path i hi)]
    exact ⟨rfl, rfl⟩
  refine ⟨⟨hsrc ▸ h.src, hdst ▸ h.dst, fun i hi => ?_⟩, ?_⟩
  · rw [hon.rptCnt] at hi
    rw [(hpath i hi).1]
    exact h.path i hi
  · have hhops : (List.range msg.rptCnt).map (fun i => (m.rptLst i, ax25Repeated m i)) =
        (List.range msg.rptCnt).map fun i => (msg.rptLst i, ax25Repeated msg i) := by
      refine List.map_congr_left fun i hi => ?_
      obtain ⟨hlst, hrep⟩ := hpath i (List.mem_range.mp hi)
      rw [hlst, hrep]
    rw [AX25Msg.monitored, AX25Msg.monitored, hsrc, hdst, hon.rptCnt, hhops, hon.info]

/-- **The monitor shows what was sent.** A message with valid calls, a path and
at most 256 bytes of info is sent, and a board in the config mode hears it,
whatever its receiver did before: it prints one line, and what is read from the
line is the source, the destination, the path with its repeated flags, and the
info up to its first NUL. -/
theorem monitor_shows_sent (tx : AX25Ctx) (msg : AX25Msg) (hs : Sendable msg) (hv : ValidCalls msg) (stk : AX25Msg)
    (rx : AX25Ctx) (hrx : Listening rx) :
    ∃ line, (heardAfterFlag stk rx (ax25SendMsg tx msg).2).map monitorCallback = [some line] ∧
      readMonitor line = some msg.monitored := by
  obtain ⟨ctx, m, hon, hout⟩ := heard_copy tx hs stk hrx
  obtain ⟨hvalid, hsame⟩ := hon.valid hv
  refine ⟨ax25Print m, by rw [hout]; rfl, ?_⟩
  rw [readMonitor_print hvalid, hsame]

/-- The message for both digipeaters, heard by a third board. -/
theorem monitor_shows_sent_wide2 : ∃ line,
    (heardAfterFlag zeroMsg (ax25Init true) (ax25SendMsg sentToBoth.tx sentToBoth.msg).2).map monitorCallback =
      [some line] ∧ readMonitor line = some sentToBoth.msg.monitored := by
  refine monitor_shows_sent _ _ sentToBoth.sendable ⟨?_, ?_, fun i _ => ?_⟩ _ _ listening_init
  · exact ⟨⟨[0x4e, 0x4f, 0x43, 0x41, 0x4c, 0x4c], by decide, by decide, by decide +kernel, rfl⟩, by decide⟩
  · exact ⟨⟨[0x41, 0x50, 0x54, 0x42, 0x30, 0x31], by decide, by decide, by decide +kernel, rfl⟩, by decide⟩
  · exact ⟨⟨[0x57, 0x49, 0x44, 0x45, 0x32], by decide, by decide, by decide +kernel, rfl⟩,
      (by decide : (2 : UInt8) ≤ 15)⟩

end TinyAprs
