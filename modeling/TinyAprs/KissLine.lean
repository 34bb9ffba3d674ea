/-
# Frames on the KISS line

What the reader of the KISS line makes of frames sent by
`kiss_send_to_serial`, as long as the calls of `kiss_handle_frame` come back
(`outs_frames`). The one thing that can go wrong when no two bytes are more
than two seconds apart is the timeout itself: a FESC is serial input too, but
`rxTick` is not set for it, so the check at the byte behind it counts from the
byte before it. When that is more than two seconds ago, the frame so far is
thrown away and its rest, from an escaped byte on, is handed over as the frame
(`ReadAs`).
-/
import Mathlib.Data.FinEnum
import TinyAprs.Kiss

namespace TinyAprs

open Mealy

variable (handle : (ℕ → UInt8) → ℕ → (ℕ → UInt8)) {k : KissCtx}

/-- The byte behind each FESC comes within two seconds of the byte before
it. -/
def EscapesInTime : List Timed → Prop
  | x :: y :: z :: s => (y.2 = kissFesc → z.1 ≤ x.1 + 2000) ∧ EscapesInTime (y :: z :: s)
  | _ => True

instance decidableEscapesInTime : DecidablePred EscapesInTime
  | [] | [_] | [_, _] => inferInstanceAs (Decidable True)
  | x :: y :: z :: s =>
    have : Decidable (EscapesInTime (y :: z :: s)) := decidableEscapesInTime (y :: z :: s)
    inferInstanceAs (Decidable ((y.2 = kissFesc → z.1 ≤ x.1 + 2000) ∧ EscapesInTime (y :: z :: s)))

/-- A frame for port 0: a command and its data, 1 to 255 bytes. -/
structure KissFrame where
  cmd : UInt8
  data : List UInt8
  cmd_le : cmd ≤ 0x0F
  length_le : data.length ≤ 254

def KissFrame.bytes (f : KissFrame) : List UInt8 := f.cmd :: f.data

def KissFrame.encode (f : KissFrame) : List UInt8 := kissSendToSerial 0 f.cmd f.data

/-! ### The clock -/

/-- The timeout check, while less than half the clock's range has passed. -/
theorem timedOut_iff {t now : ℕ} (h0 : k.reader.readLen ≠ 0) (htick : k.rxTick = Int32.ofNat t)
    (hle : t ≤ now) (hlt : now < t + 2 ^ 31) : k.timedOut (Int32.ofNat now) = true ↔ t + 2000 < now := by
  have e : (Int32.ofNat now - Int32.ofNat t).toInt = (now : Int) - t := by
    rw [Int32.toInt_sub, Int32.toInt_ofNat', Int32.toInt_ofNat', Int.bmod_sub_bmod, Int.sub_bmod_bmod]
    refine Int.bmod_eq_of_le ?_ ?_
    · simp only [Int32.size]; omega
    · simp only [Int32.size]; omega
  simp only [KissCtx.timedOut, htick, Bool.and_eq_true, bne_iff_ne, ne_eq, h0, not_false_eq_true,
    true_and, decide_eq_true_eq, gt_iff_lt, Int32.lt_iff_toInt_lt, e]
  show 2000 < (now : Int) - t ↔ _
  omega

/-- A byte other than FEND sets `rxTick`, unless it is a FESC. -/
theorem rxTick_pollByte (now : Int32) {c : UInt8} (hc : c ≠ kissFend) :
    (kissPollByte handle k now c).1.rxTick = if c = kissFesc then k.rxTick else now := by
  unfold kissPollByte
  rw [if_neg hc]
  split_ifs <;> rfl

theorem rxTick_pollSerial (now : Int32) {c : UInt8} (hc : c ≠ kissFend) :
    (kissPollSerial handle k now c).1.rxTick = if c = kissFesc then k.rxTick else now := by
  unfold kissPollSerial
  rw [rxTick_pollByte handle now hc]
  split_ifs <;> rfl

/-! ### A frame of the line -/

/-- The receiver holds the bytes `g`, at least one, the last of them stored
at `t`. -/
structure HeldAt (g : List UInt8) (t : ℕ) (k : KissCtx) : Prop extends Held (g, false) k where
  nonempty : g ≠ []
  rxTick : k.rxTick = Int32.ofNat t

theorem Held.readLen_ne {g : List UInt8} {e : Bool} (h : Held (g, e) k) (hg : g ≠ []) : k.reader.readLen ≠ 0 := by
  intro h0
  have h1 := h.readLen
  rw [h0] at h1
  exact hg (List.length_eq_zero_iff.mp h1.symm)

theorem HeldAt.kept_eq {g : List UInt8} {t t' : ℕ} (h : HeldAt g t k) (e : Bool) (hle : t ≤ t')
    (hin : t' ≤ t + 2000) : kept k (Int32.ofNat t') (g, e) = (g, e) := by
  have ht : ¬ k.timedOut (Int32.ofNat t') = true := by
    rw [timedOut_iff (h.toHeld.readLen_ne h.nonempty) h.rxTick hle (by omega)]; omega
  rw [kept, if_neg ht]

/-- A byte that is neither FEND nor FESC, on a frame that is kept. -/
theorem Held.plain {g : List UInt8} (h : Held (g, false) k) {t : ℕ} {c : UInt8}
    (hc : kissStuffing.special c = false) (hroom : g.length < 255)
    (hk : kept k (Int32.ofNat t) (g, false) = (g, false)) :
    HeldAt (g ++ [c]) t (kissStep handle k (t, c)).1 ∧ (kissStep handle k (t, c)).2 = [] := by
  obtain ⟨hfend, hfesc⟩ := (kissPlain_iff c).mp hc
  obtain ⟨h1, h2⟩ := h.step handle (Int32.ofNat t) hfend (Or.inr (by rw [hk]; exact hroom))
  have htick := rxTick_pollSerial handle (k := k) (Int32.ofNat t) hfend
  rw [if_neg hfesc] at htick
  rw [hk, unescStep_plain hc] at h1
  exact ⟨⟨h1, by simp, htick⟩, h2⟩

theorem HeldAt.plain {g : List UInt8} {t t' : ℕ} {c : UInt8} (h : HeldAt g t k)
    (hc : kissStuffing.special c = false) (hroom : g.length < 255) (hle : t ≤ t') (hin : t' ≤ t + 2000) :
    HeldAt (g ++ [c]) t' (kissStep handle k (t', c)).1 ∧ (kissStep handle k (t', c)).2 = [] := by
  exact h.toHeld.plain handle hc hroom (h.kept_eq false hle hin)

/-- What an escape pair leaves: the frame with one byte more or, when the
second byte is late, that byte alone. -/
theorem HeldAt.pair {g : List UInt8} {t t₁ t₂ : ℕ} {c : UInt8} (h : HeldAt g t k)
    (hc : kissStuffing.special c = true) (hroom : g.length < 255) (h1 : t ≤ t₁ ∧ t₁ ≤ t + 2000)
    (h2 : t₁ ≤ t₂ ∧ t₂ ≤ t₁ + 2000) :
    HeldAt ((if t₂ ≤ t + 2000 then g else []) ++ [c]) t₂
        (final (kissStep handle) k [(t₁, kissFesc), (t₂, kissStuffing.sub c)]) ∧
      outs (kissStep handle) k [(t₁, kissFesc), (t₂, kissStuffing.sub c)] = [] := by
  -- the FESC: the frame is kept, and so is `rxTick`
  have hk := h.kept_eq false h1.1 h1.2
  obtain ⟨hm, hmo⟩ := h.toHeld.step handle (Int32.ofNat t₁) (c := kissFesc) (by decide) (Or.inl rfl)
  have hmt := rxTick_pollSerial handle (k := k) (Int32.ofNat t₁) (c := kissFesc) (by decide)
  rw [hk] at hm
  rw [if_pos rfl, h.rxTick] at hmt
  set k₁ := (kissPollSerial handle k (Int32.ofNat t₁) kissFesc).1 with hk₁
  have hm : Held (g, true) k₁ := hm
  -- the byte behind it: the timeout counts from `t`
  have hout := timedOut_iff (hm.readLen_ne h.nonempty) hmt (by omega : t ≤ t₂) (by omega)
  have hsub := kissSub_ne c
  have hk₂ : kept k₁ (Int32.ofNat t₂) (g, true) = (if t₂ ≤ t + 2000 then g else [], true) := by
    by_cases hin : t₂ ≤ t + 2000
    · rw [kept, if_neg (by rw [hout]; omega), if_pos hin]
    · rw [kept, if_pos (by rw [hout]; omega), if_neg hin]
  obtain ⟨hf, hfo⟩ := hm.step handle (Int32.ofNat t₂) hsub.1 (Or.inr (by
    rw [hk₂]; dsimp only; split_ifs
    · exact hroom
    · simp))
  have hft := rxTick_pollSerial handle (k := k₁) (Int32.ofNat t₂) hsub.1
  rw [if_neg hsub.2] at hft
  rw [hk₂, unescStep_sub hc] at hf
  refine ⟨⟨hf, by simp, hft⟩, ?_⟩
  simp only [outs_cons, outs_nil, kissStep, hmo, ← hk₁, hfo, List.append_nil]

/-- A timed line that begins with the byte `c`. -/
theorem timed_cons {s : List Timed} {c : UInt8} {l : List UInt8} (h : s.map Prod.snd = c :: l) :
    ∃ t s', s = (t, c) :: s' ∧ s'.map Prod.snd = l := by
  obtain ⟨⟨t, c'⟩, s', rfl, rfl, hs⟩ := List.map_eq_cons_iff.mp h
  exact ⟨t, s', rfl, hs⟩

theorem escapesInTime_cons {x y : Timed} {s : List Timed} (hy : y.2 ≠ kissFesc) :
    EscapesInTime (x :: y :: s) ↔ EscapesInTime (y :: s) := by
  cases s with
  | nil => simp [EscapesInTime]
  | cons z s => simp [EscapesInTime, hy]

theorem escapesInTime_pair {t t₁ t₂ : ℕ} {b c : UInt8} {s : List Timed} (hc : c ≠ kissFesc) :
    EscapesInTime ((t, b) :: (t₁, kissFesc) :: (t₂, c) :: s) ↔ t₂ ≤ t + 2000 ∧ EscapesInTime ((t₂, c) :: s) := by
  rw [EscapesInTime, escapesInTime_cons hc]
  simp

/-- The line `s` is read as one frame: as `f` if its escapes are in time, and
else as one that begins with an escaped byte. -/
def ReadAs (k : KissCtx) (s : List Timed) (inTime : Prop) (f : List UInt8) : Prop :=
  Held ([], false) (final (kissStep handle) k s) ∧
    ∃ g, framesHanded handle k s = [g] ∧ (inTime → g = f) ∧
      (¬ inTime → ∃ c ∈ g.head?, kissStuffing.special c = true)

theorem HeldAt.fend {g : List UInt8} {t t' : ℕ} (h : HeldAt g t k) (hle : t ≤ t') (hin : t' ≤ t + 2000) :
    ReadAs handle k [(t', kissFend)] True g := by
  obtain ⟨h1, h2⟩ := h.toHeld.stepFend handle (Int32.ofNat t')
  rw [h.kept_eq false hle hin, if_pos ⟨rfl, h.nonempty⟩] at h2
  refine ⟨h1, g, ?_, fun _ => rfl, fun hn => absurd trivial hn⟩
  rw [framesHanded_cons, kissStep, h2]
  rfl

theorem ReadAs.append {k : KissCtx} {s₁ s₂ : List Timed} {inTime : Prop} {f : List UInt8}
    (h : ReadAs handle (final (kissStep handle) k s₁) s₂ inTime f) (hout : outs (kissStep handle) k s₁ = []) :
    ReadAs handle k (s₁ ++ s₂) inTime f := by
  obtain ⟨hf, g, ho, hg⟩ := h
  refine ⟨by rw [final_append]; exact hf, g, ?_, hg⟩
  rw [framesHanded_append, ho, framesHanded, hout]
  rfl

/-- A late escape pair leaves its byte alone, at the head of what is read. -/
theorem ReadAs.pair {k : KissCtx} {s : List Timed} {inTime early : Prop} [Decidable early] {g data : List UInt8}
    {c : UInt8} (h : ReadAs handle k s inTime ((if early then g else []) ++ [c] ++ data))
    (hc : kissStuffing.special c = true) : ReadAs handle k s (early ∧ inTime) (g ++ c :: data) := by
  obtain ⟨hf, g', ho, hyes, hno⟩ := h
  refine ⟨hf, g', ho, fun he => ?_, fun he => ?_⟩
  · rw [hyes he.2, if_pos he.1, List.append_assoc, List.singleton_append]
  · by_cases hrest : inTime
    · rw [hyes hrest, if_neg fun hin => he ⟨hin, hrest⟩]
      exact ⟨c, rfl, hc⟩
    · exact hno hrest

/-- The rest of a frame and its FEND, on a frame read so far. -/
theorem HeldAt.frame : ∀ (data : List UInt8) {g : List UInt8} {t : ℕ} {b : UInt8} {k : KissCtx}
    {s : List Timed}, HeldAt g t k → g.length + data.length ≤ 255 →
    s.map Prod.snd = kissStuffing.encode data ++ [kissFend] → NoGap ((t, b) :: s) →
    ReadAs handle k s (EscapesInTime ((t, b) :: s)) (g ++ data)
  | [], g, t, b, k, s, h, _, hs, hgap => by
    obtain ⟨t', s', rfl, hs'⟩ := timed_cons hs
    obtain rfl : s' = [] := List.map_eq_nil_iff.mp hs'
    obtain ⟨hle, hin⟩ := (List.isChain_cons_cons.mp hgap).1
    rw [List.append_nil]
    exact h.fend handle hle hin
  | c :: data, g, t, b, k, s, h, hlen, hs, hgap => by
    rw [List.length_cons] at hlen
    cases hc : kissStuffing.special c with
    | false =>
      rw [Stuffing.encode_cons, Stuffing.word_of_plain _ hc] at hs
      obtain ⟨t₁, s₁, rfl, hs₁⟩ := timed_cons hs
      obtain ⟨⟨hle, hin⟩, hgap₁⟩ := List.isChain_cons_cons.mp hgap
      obtain ⟨h1, h2⟩ := h.plain handle hc (by omega) hle hin
      have ih := HeldAt.frame data h1
        (by rw [List.length_append, List.length_singleton]; omega) hs₁ hgap₁
      rw [List.append_assoc, List.singleton_append] at ih
      rw [escapesInTime_cons ((kissPlain_iff c).mp hc).2]
      exact @ReadAs.append handle k [(t₁, c)] s₁ _ _ ih (by rw [outs_cons, h2]; rfl)
    | true =>
      rw [Stuffing.encode_cons, Stuffing.word_of_special _ hc] at hs
      obtain ⟨t₁, s₁, rfl, hs₁⟩ := timed_cons hs
      obtain ⟨t₂, s₂, rfl, hs₂⟩ := timed_cons hs₁
      obtain ⟨hgap1, hgap₁⟩ := List.isChain_cons_cons.mp hgap
      obtain ⟨hgap2, hgap₂⟩ := List.isChain_cons_cons.mp hgap₁
      obtain ⟨h1, h2⟩ := h.pair handle hc (by omega) hgap1 hgap2
      have hkeep : ((if t₂ ≤ t + 2000 then g else []) ++ [c]).length + data.length ≤ 255 := by
        rw [List.length_append, List.length_singleton]
        split_ifs
        · omega
        · simp only [List.length_nil]; omega
      have ih := HeldAt.frame data h1 hkeep hs₂ hgap₂
      show ReadAs handle k _ (EscapesInTime ((t, b) :: (t₁, kissFesc) :: (t₂, kissStuffing.sub c) :: s₂)) _
      rw [escapesInTime_pair (kissSub_ne c).2]
      exact (ih.append handle h2).pair handle hc

theorem fend_ne_fesc : kissFend ≠ kissFesc := by decide

theorem cmdByte_eq : ∀ cmd : UInt8, cmd ≤ 0x0F →
    ((0 : UInt8) <<< 4 &&& 0xf0) ||| (cmd &&& 0x0f) = cmd ∧ kissStuffing.special cmd = false := by
  decide +kernel

theorem KissFrame.encode_eq (f : KissFrame) :
    f.encode = kissFend :: f.cmd :: (kissStuffing.encode f.data ++ [kissFend]) := by
  rw [KissFrame.encode, kissSendToSerial, sendToSerialBegin, sendToSerialEnd, sendToSerial_eq,
    (cmdByte_eq f.cmd f.cmd_le).1]
  rfl

theorem Held.first {k : KissCtx} (h : Held ([], false) k) (t : ℕ) {c : UInt8}
    (hc : kissStuffing.special c = false) :
    HeldAt [c] t (kissStep handle k (t, c)).1 ∧ (kissStep handle k (t, c)).2 = [] := by
  have hk : kept k (Int32.ofNat t) ([], false) = ([], false) := by unfold kept; split_ifs <;> rfl
  exact h.plain handle hc (by simp) hk

theorem Held.empty {k : KissCtx} (h : Held ([], false) k) (t : ℕ) :
    Held ([], false) (kissStep handle k (t, kissFend)).1 ∧ (kissStep handle k (t, kissFend)).2 = [] := by
  obtain ⟨h1, h2⟩ := h.stepFend handle (Int32.ofNat t)
  have hk : (kept k (Int32.ofNat t) ([], false)).1 = [] := by unfold kept; split_ifs <;> rfl
  rw [if_neg fun hx => hx.2 hk] at h2
  exact ⟨h1, List.map_eq_nil_iff.mp h2⟩

/-- A whole frame of the line, from between two frames to between two
frames. -/
theorem Held.kissFrame {k : KissCtx} (h : Held ([], false) k) (f : KissFrame) {s : List Timed}
    (hs : s.map Prod.snd = f.encode) (hgap : NoGap s) :
    ReadAs handle k s (EscapesInTime s) f.bytes := by
  rw [f.encode_eq] at hs
  have hcmd := (cmdByte_eq f.cmd f.cmd_le).2
  have hne : f.cmd ≠ kissFesc := by
    intro he
    rw [he] at hcmd
    exact absurd hcmd (by decide)
  obtain ⟨t₀, s₀, rfl, hs₀⟩ := timed_cons hs
  obtain ⟨t₁, s₁, rfl, hs₁⟩ := timed_cons hs₀
  obtain ⟨h0, ho0⟩ := h.empty handle t₀
  obtain ⟨h1, ho1⟩ := h0.first handle t₁ hcmd
  have hgap₁ := (List.isChain_cons_cons.mp hgap).2
  have hlen : [f.cmd].length + f.data.length ≤ 255 := by
    have := f.length_le
    rw [List.length_singleton]; omega
  have hrest := h1.frame handle f.data hlen hs₁ hgap₁
  rw [escapesInTime_cons hne]
  refine @ReadAs.append handle k [(t₀, kissFend), (t₁, f.cmd)] s₁ _ _ hrest ?_
  rw [outs_cons, outs_cons, ho0, ho1]
  rfl

/-- A frame is read as it is exactly when its escapes are in time: its first
byte is no escaped one. -/
theorem ReadAs.eq_iff {handle : (ℕ → UInt8) → ℕ → (ℕ → UInt8)} {k : KissCtx} {s : List Timed} {inTime : Prop}
    {f : KissFrame} (h : ReadAs handle k s inTime f.bytes) :
    Held ([], false) (final (kissStep handle) k s) ∧
      ∃ g, framesHanded handle k s = [g] ∧ (g = f.bytes ↔ inTime) := by
  obtain ⟨h1, g, ho, hyes, hno⟩ := h
  refine ⟨h1, g, ho, fun he => ?_, hyes⟩
  by_contra hn
  obtain ⟨c, hc, hsp⟩ := hno hn
  obtain rfl : f.cmd = c := by simpa [he, KissFrame.bytes] using hc
  rw [(cmdByte_eq f.cmd f.cmd_le).2] at hsp
  exact absurd hsp (by decide)

/-! ### Between two FENDs -/

/-- Bytes between two FENDs. -/
def FendFree (bytes : List UInt8) : Prop := kissFend ∉ bytes

theorem fendFree_encode (data : List UInt8) : FendFree (kissStuffing.encode data) := by
  intro h
  obtain ⟨c, -, hc⟩ := List.mem_flatMap.mp h
  unfold Stuffing.word at hc
  split_ifs at hc with hs
  · simp only [List.mem_cons, List.not_mem_nil, or_false] at hc
    rcases hc with hc | hc
    · exact fend_ne_fesc hc
    · exact (kissSub_ne c).1 hc.symm
  · simp only [List.mem_singleton] at hc
    subst hc
    exact hs rfl

theorem outs_fendFree : ∀ {s : List Timed} {k : KissCtx}, FendFree (s.map Prod.snd) →
    outs (kissStep handle) k s = []
  | [], _, _ => rfl
  | x :: s, k, hfree => by
    obtain ⟨hx, hs⟩ := not_or.mp (mt List.mem_cons.mpr hfree)
    have hquiet : (kissStep handle k x).2 = [] := by
      unfold kissStep kissPollSerial kissPollByte
      rw [if_neg (Ne.symm hx)]
      split_ifs <;> rfl
    rw [outs_cons, hquiet, outs_fendFree hs]
    rfl

/-! ### A line of frames -/

theorem escapesInTime_append : ∀ (s₁ : List Timed) {x : Timed} {s₂ : List Timed}, x.2 ≠ kissFesc →
    (∀ y ∈ s₂.head?, y.2 ≠ kissFesc) →
    (EscapesInTime (s₁ ++ x :: s₂) ↔ EscapesInTime (s₁ ++ [x]) ∧ EscapesInTime s₂)
  | [], x, s₂, _, hy => by
    cases s₂ with
    | nil => simp [EscapesInTime]
    | cons y s₂ =>
      rw [List.nil_append, escapesInTime_cons (hy y rfl)]
      simp [EscapesInTime]
  | [a], x, s₂, hx, hy => by
    have ih := escapesInTime_append [] hx hy
    simp only [List.cons_append, List.nil_append] at ih ⊢
    rw [escapesInTime_cons hx, escapesInTime_cons hx, ih]
  | [a, b], x, s₂, hx, hy => by
    have ih := escapesInTime_append [b] hx hy
    simp only [List.cons_append, List.nil_append] at ih ⊢
    rw [EscapesInTime, EscapesInTime, ih, and_assoc]
  | a :: b :: c :: s₁, x, s₂, hx, hy => by
    have ih := escapesInTime_append (b :: c :: s₁) hx hy
    simp only [List.cons_append] at ih ⊢
    rw [EscapesInTime, EscapesInTime, ih, and_assoc]

theorem encode_last {f : KissFrame} {s : List Timed} (hs : s.map Prod.snd = f.encode) :
    ∃ r x, s = r ++ [x] ∧ x.2 ≠ kissFesc := by
  rw [f.encode_eq, ← List.cons_append, ← List.cons_append] at hs
  obtain ⟨r, l, rfl, -, hl⟩ := List.map_eq_append_iff.mp hs
  obtain ⟨t, l', rfl, hl'⟩ := timed_cons hl
  obtain rfl : l' = [] := List.map_eq_nil_iff.mp hl'
  exact ⟨r, _, rfl, fend_ne_fesc⟩

theorem encode_head {frames : List KissFrame} {s : List Timed}
    (hs : s.map Prod.snd = frames.flatMap KissFrame.encode) : ∀ y ∈ s.head?, y.2 ≠ kissFesc := by
  intro y hy
  cases frames with
  | nil =>
    obtain rfl : s = [] := List.map_eq_nil_iff.mp hs
    simp at hy
  | cons f frames =>
    rw [List.flatMap_cons, f.encode_eq] at hs
    obtain ⟨t, l', rfl, -⟩ := timed_cons hs
    obtain rfl : (t, kissFend) = y := by simpa using hy
    exact fend_ne_fesc

theorem outs_frames : ∀ (frames : List KissFrame) {k : KissCtx} {s : List Timed},
    Held ([], false) k → s.map Prod.snd = frames.flatMap KissFrame.encode → NoGap s →
    (framesHanded handle k s = frames.map KissFrame.bytes ↔ EscapesInTime s)
  | [], k, s, _, hs, _ => by
    obtain rfl : s = [] := List.map_eq_nil_iff.mp hs
    simp [EscapesInTime, framesHanded]
  | f :: frames, k, s, h, hs, hgap => by
    rw [List.flatMap_cons] at hs
    obtain ⟨s₁, s₂, rfl, hs₁, hs₂⟩ := List.map_eq_append_iff.mp hs
    obtain ⟨h1, g, ho, hg⟩ := (h.kissFrame handle f hs₁ hgap.left_of_append).eq_iff
    have ih := outs_frames frames h1 hs₂ hgap.right_of_append
    obtain ⟨r, x, rfl, hx⟩ := encode_last hs₁
    rw [framesHanded_append, ho, List.map_cons, List.singleton_append, List.cons.injEq, hg, ih,
      List.append_assoc, List.singleton_append, escapesInTime_append r hx (encode_head hs₂)]

theorem bufLen_step (k : KissCtx) (x : Timed) :
    (kissStep handle k x).1.reader.bufLen = k.reader.bufLen := by
  unfold kissStep kissPollSerial kissPollByte
  dsimp only
  split_ifs <;> rfl

/-- A data frame of one byte, which is sent escaped. -/
def fendFrame : KissFrame := ⟨0x00, [0xc0], by decide, by decide⟩

/-- A data frame of one byte, which is sent as it is. -/
def letterFrame : KissFrame := ⟨0x00, [0x41], by decide, by decide⟩

/-- A line with its bytes `d` milliseconds apart. -/
def paced (d : ℕ) (line : List UInt8) : List Timed := line.mapIdx fun i c => (i * d, c)

end TinyAprs
