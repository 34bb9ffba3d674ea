/-
# The KISS line with its handler

The TNC in KISS mode: the reader of the serial line and `kiss_handle_frame`,
which is called from it and need not come back. The reboot command ends in
`soft_reset`, and a data frame waits for a free channel as long as there is a
carrier; then no further byte is polled (`tncStep`).

A list of frames, each sent by `kiss_send_to_serial`, is read back frame by
frame from any state of the receiver, once one FEND is in, exactly when every
call but the last comes back and no escaped byte is late (`kiss_stream_iff`).

Key definitions: `KissTnc`, `tncStep`, `Tnc.Returns`, `ComesBack`.
-/
import TinyAprs.KissLine
import TinyAprs.KissStore

namespace TinyAprs

open Mealy

/-- The TNC and its receiver. -/
structure KissTnc where
  tnc : Tnc
  kiss : KissCtx

/-- A byte of the serial line, with the clock when it is polled and what the
CSMA loop finds if the poll comes to it. -/
structure KissByte where
  time : ℕ
  byte : UInt8
  turns : List Turn

def KissByte.timed (x : KissByte) : Timed := (x.time, x.byte)

/-- The TNC when `kiss_handle_frame` is back; `none` if it waits for the
channel or has ended in `soft_reset`. -/
def Tnc.handles (t : Tnc) (turns : List Turn) (h : Handed) : Option Tnc := do
  let e ← kissHandleFrame t turns h
  if e.reset then none else some e.tnc

/-- `kiss_poll_serial`, with the call of `kiss_handle_frame` it makes. -/
def tncStep : Option KissTnc → KissByte → Option KissTnc × List Handed
  | none, _ => (none, [])
  | some s, x =>
    let r := kissStep (s.tnc.leaves x.turns) s.kiss x.timed
    match r.2 with
    | [] => (some { s with kiss := r.1 }, [])
    | h :: hs => ((s.tnc.handles x.turns h).map fun t => ⟨t, r.1⟩, h :: hs)

/-- The frames handed over while the TNC reads the line. -/
def framesHandled (s : Option KissTnc) (line : List KissByte) : List (List UInt8) :=
  (outs tncStep s line).map Handed.bytes

/-! ### Which calls come back -/

/-- The reboot command, with its checksum. -/
def rebootFrame : List UInt8 := [0x0F, 0x0B, 0x00, 0x00, 0x07, 0xED]

/-- `kiss_handle_frame` comes back: the frame is not the reboot command, and if
it is a data frame, the wait for the channel ends. -/
def Tnc.Returns (t : Tnc) (turns : List Turn) (f : List UInt8) : Prop :=
  f ≠ rebootFrame ∧ (f.head? = some kissCmdData ∧ 2 ≤ f.length → (kissChannel t turns).isSome)

instance (t : Tnc) (turns : List Turn) (f : List UInt8) : Decidable (t.Returns turns f) :=
  inferInstanceAs (Decidable (_ ∧ _))

theorem configRequest_magic {c sum : UInt8} {data d : List UInt8} (h : configRequest c data sum = .magic d) :
    c = kissCmdConfigMagic ∧ data = d ∧ sum = checksum data := by
  unfold configRequest at h
  split_ifs at h with h1 h2 h3 h4 h5
  exact ⟨h5, Request.magic.inj h, not_not.mp h1⟩

theorem request_data_iff {f payload : List UInt8} : request f = .data payload ↔
    f = kissCmdData :: payload ∧ payload ≠ [] := by
  match f with
  | [] => simp [request]
  | [c] =>
    simp only [request, List.cons.injEq, reduceCtorEq, false_iff, not_and, not_not]
    rintro ⟨-, rfl⟩
    rfl
  | c :: x :: rest =>
    rw [request]
    split_ifs with hc
    · subst hc
      simp only [Request.data.injEq, List.cons.injEq, true_and]
      refine ⟨fun h => ⟨h, ?_⟩, fun h => h.1⟩
      rw [← h]
      exact List.cons_ne_nil x rest
    · refine ⟨fun h => ?_, fun h => absurd (List.cons.inj h.1).1 hc⟩
      unfold configRequest at h
      split_ifs at h

theorem request_reboot_iff {f : List UInt8} : request f = .magic [0x0B, 0x00, 0x00, 0x07] ↔ f = rebootFrame := by
  refine ⟨fun h => ?_, fun h => ?_⟩
  swap
  · rw [h]
    exact request_concat (by decide) [0x0B, 0x00, 0x00, 0x07] 0xED
  match f with
  | [] => exact absurd h nofun
  | [c] => exact absurd h nofun
  | c :: x :: rest =>
    rw [request] at h
    split_ifs at h with hc
    obtain ⟨rfl, hdata, hsum⟩ := configRequest_magic h
    rw [rebootFrame, ← List.dropLast_concat_getLast (List.cons_ne_nil x rest), hsum, hdata]
    rfl

section Calls

variable {t : Tnc} {turns : List Turn} {buf : ℕ → UInt8} {h h' : Handed}

/-- What comes of a request but for the buffer. -/
def Effect.back (e : Effect) : Tnc × Bool := (e.tnc, e.reset)

theorem sendToModem_back (payload : List UInt8) :
    (kissSendToModem t turns buf payload).map Effect.back =
      (kissChannel t turns).map fun r =>
        ({ t with modem := if r.2.2 then (ax25SendRaw r.1 payload).1 else r.1 }, false) := by
  rw [kissSendToModem]
  cases kissChannel t turns with
  | none => rfl
  | some r =>
    obtain ⟨modem, serial, send⟩ := r
    cases send <;> rfl

/-- A config command always comes back, but for the reboot. -/
theorem config_back (t : Tnc) (turns : List Turn) {r : Request} (hr : ∀ payload, r ≠ .data payload) :
    ∃ t' reset, (∀ buf, (handleRequest t turns buf r).map Effect.back = some (t', reset)) ∧
      (reset = true ↔ r = .magic [0x0B, 0x00, 0x00, 0x07]) := by
  cases r with
  | data payload => exact absurd rfl (hr payload)
  | params d =>
    by_cases h0 : d.length = 0
    · obtain rfl := List.length_eq_zero_iff.mp h0
      exact ⟨t, false, fun buf => by rw [handleRequest, paramsCmd_read]; rfl, by simp⟩
    · by_cases hlen : d.length = sizeofSettingsData
      · -- the EEPROM that is written does not depend on the buffer
        obtain ⟨ee, hsave, -⟩ := settingsSave_spec (.ofBytes d) t.eeprom
        refine ⟨{ t with settings := .ofBytes d, eeprom := ee }, false, fun buf => ?_, by simp⟩
        have hset : (settingsSetParamsBytes t.settings d).2 = .ofBytes d := by
          rw [settingsSetParamsBytes, if_neg (not_not.mpr hlen)]
        rw [handleRequest, kissHandleConfigParamsCmd, if_neg h0, if_pos hlen, hset]
        dsimp only
        rw [hsave, kissSerialRespondOk_eq]
        rfl
      · exact ⟨t, false, fun buf => by rw [handleRequest, paramsCmd_other t buf h0 hlen]; rfl, by simp⟩
  | text d =>
    by_cases h0 : d.length = 0
    · obtain rfl := List.length_eq_zero_iff.mp h0
      refine ⟨t, false, fun buf => ?_, by simp⟩
      obtain ⟨buf', serial, hcmd⟩ := textCmd_read t buf
      rw [handleRequest, hcmd]
      rfl
    · exact ⟨_, false, fun buf => by rw [handleRequest, textCmd_write t buf h0]; rfl, by simp⟩
  | call d =>
    by_cases h0 : d.length = 0
    · obtain rfl := List.length_eq_zero_iff.mp h0
      exact ⟨t, false, fun buf => by rw [handleRequest, callCmd_read]; rfl, by simp⟩
    · by_cases hlen : d.length = sizeofCallData
      · exact ⟨_, false, fun buf => by rw [handleRequest, callCmd_write t buf hlen]; rfl, by simp⟩
      · exact ⟨t, false, fun buf => by rw [handleRequest, callCmd_other t buf h0 hlen]; rfl, by simp⟩
  | magic d =>
    by_cases hd : d = [0x0B, 0x00, 0x00, 0x07]
    · refine ⟨t, true, fun buf => ?_, by simp [hd]⟩
      rw [handleRequest, kissHandleConfigMagicCmd, if_pos hd, kissSerialRespondOk_eq]
      rfl
    · refine ⟨t, false, fun buf => ?_, by simp [hd]⟩
      rw [handleRequest, kissHandleConfigMagicCmd, if_neg hd, kissRespond_eq _ (by decide)]
      split_ifs <;> rfl
  | nothing => exact ⟨t, false, fun buf => rfl, by simp⟩

theorem handles_eq (hsize : h.size ≤ 255) : t.handles turns h =
    ((handleRequest t turns h.frame (request h.bytes)).map Effect.back).bind fun r =>
      if r.2 then none else some r.1 := by
  rw [Tnc.handles, kissHandleFrame_eq t turns h hsize]
  cases handleRequest t turns h.frame (request h.bytes) <;> rfl

/-- What comes of a call is a matter of the frame's bytes. -/
theorem handles_congr (hsize : h.size ≤ 255) (hbytes : h'.bytes = h.bytes) :
    t.handles turns h' = t.handles turns h := by
  have hsize' : h'.size ≤ 255 := by rwa [size_of_bytes hbytes, ← size_of_bytes rfl]
  rw [handles_eq hsize', handles_eq hsize, hbytes]
  congr 1
  by_cases hd : ∃ payload, request h.bytes = .data payload
  · obtain ⟨payload, hr⟩ := hd
    rw [hr, handleRequest, handleRequest, sendToModem_back, sendToModem_back]
  · obtain ⟨t', reset, hback, -⟩ := config_back t turns (not_exists.mp hd)
    rw [hback, hback]

/-- A call comes back exactly as `Tnc.Returns` says. -/
theorem handles_isSome_iff (hsize : h.size ≤ 255) : (t.handles turns h).isSome ↔ t.Returns turns h.bytes := by
  rw [handles_eq hsize, Tnc.Returns]
  by_cases hd : ∃ payload, request h.bytes = .data payload
  · obtain ⟨payload, hr⟩ := hd
    obtain ⟨hf, hne⟩ := request_data_iff.mp hr
    have hreboot : h.bytes ≠ rebootFrame := by
      intro he
      rw [hf] at he
      exact absurd (List.cons.inj he).1 (by decide)
    have hlen : 2 ≤ h.bytes.length := by
      rw [hf, List.length_cons]
      have := List.length_pos_iff.mpr hne
      omega
    have hhead : h.bytes.head? = some kissCmdData := by rw [hf]; rfl
    simp only [hreboot, hlen, hhead, ne_eq, not_false_eq_true, true_and, and_self, forall_const, hr, handleRequest,
      sendToModem_back]
    cases kissChannel t turns <;> simp
  · obtain ⟨t', reset, hback, hreset⟩ := config_back t turns (not_exists.mp hd)
    have hdata : ¬ (h.bytes.head? = some kissCmdData ∧ 2 ≤ h.bytes.length) := by
      rintro ⟨hhead, hlen⟩
      obtain ⟨rest, hf⟩ : ∃ rest, h.bytes = kissCmdData :: rest := List.head?_eq_some_iff.mp hhead
      refine hd ⟨rest, request_data_iff.mpr ⟨hf, ?_⟩⟩
      rintro rfl
      rw [hf] at hlen
      exact absurd hlen (by decide)
    rw [hback]
    simp only [Option.bind_some, hdata, false_implies, and_true, ne_eq, ← request_reboot_iff, ← hreset]
    cases reset <;> simp

end Calls

/-! ### A line and its frames -/

/-- A frame on the line, with the times of its bytes. -/
structure Sent where
  frame : KissFrame
  line : List KissByte
  line_eq : line.map KissByte.byte = frame.encode

/-- The turns at the frame's closing FEND. -/
def Sent.turns (x : Sent) : List Turn := (x.line.getLast?.map KissByte.turns).getD []

def sentLine (sent : List Sent) : List KissByte := sent.flatMap Sent.line

/-- Every call but the last comes back, each with what the ones before it left
of the settings. -/
def ComesBack : Tnc → List Sent → Prop
  | t, x :: y :: sent => t.Returns x.turns x.frame.bytes ∧
      ∀ t', t.handles x.turns (.ofList x.frame.bytes) = some t' → ComesBack t' (y :: sent)
  | _, _ => True

/-! ### The machine reads as its reader does -/

section Reads

variable {t : Tnc} {k : KissCtx} {x : KissByte}

/-- The handler is asked for the buffer only when a frame is handed over. -/
theorem pollByte_handle (handle handle' : (ℕ → UInt8) → ℕ → (ℕ → UInt8)) (k : KissCtx) (now : Int32) (c : UInt8) :
    (kissPollByte handle' k now c).2 = (kissPollByte handle k now c).2 ∧
      ((kissPollByte handle k now c).2 = [] → kissPollByte handle' k now c = kissPollByte handle k now c) := by
  unfold kissPollByte
  split_ifs <;> simp

variable {handle : (ℕ → UInt8) → ℕ → (ℕ → UInt8)}

theorem tncStep_quiet (h : (kissStep handle k x.timed).2 = []) :
    tncStep (some ⟨t, k⟩) x = (some ⟨t, (kissStep handle k x.timed).1⟩, []) := by
  have hsame : kissStep (t.leaves x.turns) k x.timed = kissStep handle k x.timed :=
    (pollByte_handle handle (t.leaves x.turns) _ _ _).2 h
  simp only [tncStep, hsame, h]

theorem tncStep_hands {f : Handed} (h : (kissStep (t.leaves x.turns) k x.timed).2 = [f]) :
    tncStep (some ⟨t, k⟩) x =
      ((t.handles x.turns f).map fun t' => ⟨t', (kissStep (t.leaves x.turns) k x.timed).1⟩, [f]) := by
  simp only [tncStep, h]

theorem tncStep_out : (tncStep (some ⟨t, k⟩) x).2 = (kissStep handle k x.timed).2 := by
  have hsame : (kissStep (t.leaves x.turns) k x.timed).2 = (kissStep handle k x.timed).2 :=
    (pollByte_handle handle (t.leaves x.turns) _ _ _).1
  rw [← hsame]
  simp only [tncStep]
  split
  · rename_i hout
    rw [hout]
  · rename_i f fs hout
    rw [hout]

theorem tncStep_kiss {s s' : KissTnc} (h : (tncStep (some s) x).1 = some s') :
    s'.kiss = (kissStep (s.tnc.leaves x.turns) s.kiss x.timed).1 := by
  simp only [tncStep] at h
  split at h
  · obtain rfl := Option.some.inj h
    rfl
  · obtain ⟨t', -, rfl⟩ := Option.map_eq_some_iff.mp h
    rfl

theorem tnc_quiet : ∀ (line : List KissByte) {k : KissCtx},
    outs (kissStep handle) k (line.map KissByte.timed) = [] →
    final tncStep (some ⟨t, k⟩) line = some ⟨t, final (kissStep handle) k (line.map KissByte.timed)⟩ ∧
      outs tncStep (some ⟨t, k⟩) line = []
  | [], _, _ => ⟨rfl, rfl⟩
  | x :: line, k, h => by
    rw [List.map_cons, outs_cons, List.append_eq_nil_iff] at h
    obtain ⟨hfinal, houts⟩ := tnc_quiet line h.2
    rw [final_cons, outs_cons, List.map_cons, final_cons, tncStep_quiet h.1]
    exact ⟨hfinal, houts⟩

theorem tnc_stopped (line : List KissByte) : final tncStep none line = none ∧ outs tncStep none line = [] :=
  outs_stopped tncStep (fun _ => rfl) line

theorem framesHandled_append (s : Option KissTnc) (l₁ l₂ : List KissByte) :
    framesHandled s (l₁ ++ l₂) = framesHandled s l₁ ++ framesHandled (final tncStep s l₁) l₂ := by
  rw [framesHandled, outs_append, List.map_append, framesHandled, framesHandled]

theorem framesHandled_snoc (s : Option KissTnc) (l : List KissByte) (x : KissByte) :
    framesHandled s (l ++ [x]) = framesHandled s l ++ (tncStep (final tncStep s l) x).2.map Handed.bytes := by
  rw [framesHandled, outs_append, List.map_append, outs_cons, outs_nil, List.append_nil, framesHandled]

variable (handle) in
theorem pollByte_one (k : KissCtx) (now : Int32) (c : UInt8) :
    (kissPollByte handle k now c).2 = [] ∨ ∃ f, (kissPollByte handle k now c).2 = [f] ∧ f.size ≤ 255 := by
  have hone : (kissPollByte handle k now c).2 = [] ∨ ∃ f, (kissPollByte handle k now c).2 = [f] := by
    unfold kissPollByte
    split_ifs <;> simp
  refine hone.imp_right fun ⟨f, hf⟩ => ⟨f, hf, ?_⟩
  exact size_pollByte handle k now c f (by rw [hf]; exact List.mem_singleton_self f)

variable (handle) in
theorem kissStep_one (k : KissCtx) (y : Timed) :
    (kissStep handle k y).2 = [] ∨ ∃ f, (kissStep handle k y).2 = [f] ∧ f.size ≤ 255 :=
  pollByte_one handle _ _ _

/-- The TNC stops at a frame whose handling does not come back, and there
only. -/
theorem tncStep_none_iff :
    (tncStep (some ⟨t, k⟩) x).1 = none ↔ ∃ f ∈ (tncStep (some ⟨t, k⟩) x).2, ¬ t.Returns x.turns f.bytes := by
  rcases kissStep_one (t.leaves x.turns) k x.timed with hquiet | ⟨f, hf, hsize⟩
  · rw [tncStep_quiet hquiet]
    simp
  · rw [tncStep_hands hf]
    simp [← handles_isSome_iff hsize]

end Reads

/-! ### The frames of a line -/

section Frames

variable {t : Tnc} {k : KissCtx}

/-- A frame's line is a FEND, bytes without one, and a FEND. -/
theorem Sent.split (x : Sent) : ∃ x₀ r y, x.line = x₀ :: r ++ [y] ∧ x₀.byte = kissFend ∧
    FendFree (r.map KissByte.byte) ∧ x.turns = y.turns := by
  have hline := x.line_eq
  rw [x.frame.encode_eq, ← List.cons_append] at hline
  obtain ⟨x₀, l, hl, hx₀, hrest⟩ := List.map_eq_cons_iff.mp hline
  obtain ⟨r, last, rfl, hr, hlast⟩ := List.map_eq_append_iff.mp hrest
  obtain ⟨y, tail, rfl, -, htail⟩ := List.map_eq_cons_iff.mp hlast
  obtain rfl : tail = [] := List.map_eq_nil_iff.mp htail
  refine ⟨x₀, r, y, hl, hx₀, ?_, ?_⟩
  · have hplain := (cmdByte_eq x.frame.cmd x.frame.cmd_le).2
    rw [hr]
    intro hmem
    rcases List.mem_cons.mp hmem with he | hmem
    · exact ((kissPlain_iff _).mp hplain).1 he.symm
    · exact fendFree_encode x.frame.data hmem
  · rw [Sent.turns, hl, ← List.cons_append, List.getLast?_concat]
    rfl

theorem Sent.line_timed (x : Sent) : (x.line.map KissByte.timed).map Prod.snd = x.frame.encode := by
  rw [List.map_map]
  exact x.line_eq

theorem sentLine_timed (sent : List Sent) :
    ((sentLine sent).map KissByte.timed).map Prod.snd = (sent.map Sent.frame).flatMap KissFrame.encode := by
  induction sent with
  | nil => rfl
  | cons x sent ih =>
    rw [sentLine, List.flatMap_cons, List.map_append, List.map_append, x.line_timed, List.map_cons,
      List.flatMap_cons, ← ih, sentLine]

theorem escapesInTime_sentLine (x : Sent) (sent : List Sent) :
    EscapesInTime ((sentLine (x :: sent)).map KissByte.timed) ↔
      EscapesInTime (x.line.map KissByte.timed) ∧ EscapesInTime ((sentLine sent).map KissByte.timed) := by
  obtain ⟨r, z, hz, hne⟩ := encode_last x.line_timed
  rw [sentLine, List.flatMap_cons, List.map_append, ← sentLine, hz, List.append_assoc, List.singleton_append]
  exact escapesInTime_append r hne (encode_head (sentLine_timed sent))

/-- A frame on the line, from between two frames: one call, at its last byte. -/
theorem tnc_frame (hk : Held ([], false) k) (x : Sent) (hgap : NoGap (x.line.map KissByte.timed)) :
    ∃ k' h, Held ([], false) k' ∧ h.size ≤ 255 ∧ outs tncStep (some ⟨t, k⟩) x.line = [h] ∧
      (h.bytes = x.frame.bytes ↔ EscapesInTime (x.line.map KissByte.timed)) ∧
      final tncStep (some ⟨t, k⟩) x.line = (t.handles x.turns h).map fun t' => ⟨t', k'⟩ := by
  obtain ⟨x₀, r, y, hline, hfend, hfree, hturns⟩ := x.split
  -- the reader, with what the call at the last byte leaves
  obtain ⟨hheld, g, hg, hiff⟩ := (hk.kissFrame (t.leaves y.turns) x.frame x.line_timed hgap).eq_iff
  have hquiet : outs (kissStep (t.leaves y.turns)) k ((x₀ :: r).map KissByte.timed) = [] := by
    have hfirst := (hk.empty (t.leaves y.turns) x₀.time).2
    rw [← hfend] at hfirst
    rw [List.map_cons, outs_cons, outs_fendFree _ (by rw [List.map_map]; exact hfree), List.append_nil]
    exact hfirst
  obtain ⟨hfinal, houts⟩ := tnc_quiet (t := t) (x₀ :: r) hquiet
  rw [hline, List.map_append, List.map_singleton] at hheld hg
  rw [final_append] at hheld
  rw [framesHanded_snoc, framesHanded, hquiet] at hg
  set k₁ := final (kissStep (t.leaves y.turns)) k ((x₀ :: r).map KissByte.timed)
  obtain ⟨h, hlast, hh⟩ : ∃ h, (kissStep (t.leaves y.turns) k₁ y.timed).2 = [h] ∧ h.bytes = g := by
    simpa [List.map_eq_cons_iff] using hg
  refine ⟨_, h, hheld, ?_, ?_, hh ▸ hiff, ?_⟩
  · have hmem : h ∈ (kissStep (t.leaves y.turns) k₁ y.timed).2 := by
      rw [hlast]
      exact List.mem_singleton_self h
    exact size_pollByte _ _ _ _ h hmem
  · rw [hline, outs_append, houts, hfinal, outs_cons, outs_nil, tncStep_hands hlast]
    rfl
  · rw [hline, final_append, hfinal, final_cons, final_nil, tncStep_hands hlast, hturns]
    rfl

/-- What the frames behind a call that may not come back are read as. -/
theorem framesHandled_sent : ∀ (sent : List Sent) {t : Tnc} {k : KissCtx}, Held ([], false) k →
    NoGap ((sentLine sent).map KissByte.timed) →
    (framesHandled (some ⟨t, k⟩) (sentLine sent) = sent.map (fun x => x.frame.bytes) ↔
      EscapesInTime ((sentLine sent).map KissByte.timed) ∧ ComesBack t sent)
  | [], _, _, _, _ => by simp [sentLine, framesHandled, EscapesInTime, ComesBack]
  | x :: sent, t, k, hk, hgap => by
    have hline : sentLine (x :: sent) = x.line ++ sentLine sent := List.flatMap_cons
    rw [hline, List.map_append] at hgap
    obtain ⟨k', h, hk', hsize, houts, hread, hfinal⟩ := tnc_frame (t := t) hk x hgap.left_of_append
    rw [escapesInTime_sentLine, and_assoc, hline, framesHandled_append, framesHandled, houts, List.map_singleton,
      List.singleton_append, List.map_cons, List.cons.injEq, hread, hfinal]
    refine and_congr_right fun hin => ?_
    cases sent with
    | nil => simp [sentLine, framesHandled, EscapesInTime, ComesBack]
    | cons y sent =>
      have hof : t.handles x.turns (.ofList x.frame.bytes) = t.handles x.turns h :=
        handles_congr hsize ((bytes_ofList _).trans (hread.mpr hin).symm)
      have hret : t.Returns x.turns x.frame.bytes ↔ (t.handles x.turns h).isSome := by
        rw [handles_isSome_iff hsize, hread.mpr hin]
      rw [ComesBack, hret, hof]
      cases ht : t.handles x.turns h with
      | none =>
        simp [framesHandled, (tnc_stopped _).2]
      | some t' =>
        have ih := framesHandled_sent (y :: sent) (t := t') hk' hgap.right_of_append
        simpa using ih

theorem bufLen_run {s : KissTnc} (hbuf : k.reader.bufLen = readerBufLen) (line : List KissByte)
    (hs : final tncStep (some ⟨t, k⟩) line = some s) : s.kiss.reader.bufLen = readerBufLen := by
  refine final_inv tncStep (fun s => ∀ s', s = some s' → s'.kiss.reader.bufLen = readerBufLen) ?_ _ line ?_ s hs
  · intro s x h s' hs'
    cases s with
    | none => exact absurd hs' nofun
    | some s =>
      rw [tncStep_kiss hs', bufLen_step]
      exact h s rfl
  · intro s' hs'
    obtain rfl := Option.some.inj hs'
    exact hbuf

theorem held_run {s : KissTnc} (hbuf : k.reader.bufLen = readerBufLen) (garbage : List KissByte) {x : KissByte}
    (hx : x.byte = kissFend) (hs : final tncStep (some ⟨t, k⟩) (garbage ++ [x]) = some s) :
    Held ([], false) s.kiss := by
  rw [final_append, final_cons, final_nil] at hs
  cases hmid : final tncStep (some ⟨t, k⟩) garbage with
  | none =>
    rw [hmid] at hs
    exact absurd hs nofun
  | some m =>
    rw [hmid] at hs
    have hheld := held_fend (m.tnc.leaves x.turns) (bufLen_run hbuf garbage hmid) (Int32.ofNat x.time)
    rw [← hx] at hheld
    rw [tncStep_kiss hs]
    exact hheld

end Frames

/-- **Frames on the KISS line are read back from any state.** With no two
bytes more than two seconds apart, the frames behind the first FEND are
handed over once each, in order and byte for byte, exactly when the TNC is
still there at that FEND, every call but the last comes back, and the byte
behind each FESC comes within two seconds of the byte before it. -/
theorem kiss_stream_iff (t : Tnc) (k : KissCtx) (hbuf : k.reader.bufLen = readerBufLen) (garbage : List KissByte)
    (t₀ : ℕ) (turns₀ : List Turn) (sent : List Sent) (hgap : NoGap ((sentLine sent).map KissByte.timed)) :
    framesHandled (final tncStep (some ⟨t, k⟩) (garbage ++ [⟨t₀, kissFend, turns₀⟩])) (sentLine sent) =
        sent.map (fun x => x.frame.bytes) ↔
      sent = [] ∨ ∃ s, final tncStep (some ⟨t, k⟩) (garbage ++ [⟨t₀, kissFend, turns₀⟩]) = some s ∧
        EscapesInTime ((sentLine sent).map KissByte.timed) ∧ ComesBack s.tnc sent := by
  cases hs : final tncStep (some ⟨t, k⟩) (garbage ++ [⟨t₀, kissFend, turns₀⟩]) with
  | none => cases sent <;> simp [framesHandled, (tnc_stopped _).2, sentLine]
  | some s =>
    rw [framesHandled_sent sent (held_run hbuf garbage rfl hs) hgap]
    constructor
    · exact fun h => Or.inr ⟨s, rfl, h⟩
    · rintro (rfl | ⟨s', hs', h⟩)
      · exact ⟨trivial, trivial⟩
      · obtain rfl := Option.some.inj hs'
        exact h

/-- A frame sent from `start` on with `d` milliseconds from byte to byte, to a
TNC that finds the channel as the turns say. -/
def KissFrame.sentAt (f : KissFrame) (start d : ℕ) (turns : List Turn) : Sent where
  frame := f
  line := f.encode.mapIdx fun i c => ⟨start + i * d, c, turns⟩
  line_eq := by
    refine List.ext_getElem (by simp) fun i _ _ => ?_
    simp

/-- A data frame on a free channel, and one whose byte is sent escaped. -/
def twoSent : List Sent :=
  [letterFrame.sentAt 0 1000 [.idle 0], fendFrame.sentAt 5000 1000 []]

theorem kiss_stream_iff_paced : framesHandled (final tncStep (some ⟨factoryTnc, ⟨⟨fun _ => 7, 330, 255⟩, 0, true⟩⟩)
    ([⟨0, 0x41, []⟩, ⟨0, 0xdb, []⟩] ++ [⟨0, kissFend, []⟩])) (sentLine twoSent) = [[0x00, 0x41], [0x00, 0xc0]] := by
  have hrun : (final tncStep (some ⟨factoryTnc, ⟨⟨fun _ => 7, 330, 255⟩, 0, true⟩⟩)
      ([⟨0, 0x41, []⟩, ⟨0, 0xdb, []⟩] ++ [⟨0, kissFend, []⟩])).any
        (fun s => decide (s.tnc.Returns [.idle 0] [0x00, 0x41])) = true := by decide +kernel
  obtain ⟨s, hs, hret⟩ := (Option.any_eq_true _ _).mp hrun
  refine (kiss_stream_iff factoryTnc ⟨⟨fun _ => 7, 330, 255⟩, 0, true⟩ rfl [⟨0, 0x41, []⟩, ⟨0, 0xdb, []⟩] 0 []
    twoSent (by unfold NoGap; decide +kernel)).mpr (Or.inr ⟨s, hs, by decide +kernel, ?_⟩)
  exact ⟨of_decide_eq_true hret, fun _ _ => trivial⟩

/-- A second and a half between the bytes is too slow for an escaped byte. -/
theorem kiss_stream_late : NoGap ((sentLine [fendFrame.sentAt 0 1500 []]).map KissByte.timed) ∧
    framesHandled (final tncStep (some ⟨factoryTnc, kissInit serialreaderInit⟩) [⟨0, kissFend, []⟩])
      (sentLine [fendFrame.sentAt 0 1500 []]) = [[0xc0]] ∧
    [[0xc0]] ≠ [fendFrame.sentAt 0 1500 []].map (fun x => x.frame.bytes) := by
  refine ⟨?_, by decide +kernel, by decide⟩
  unfold NoGap
  decide +kernel

end TinyAprs
