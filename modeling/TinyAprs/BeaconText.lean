/-
# The beacon text, read back

`settings_set_beacon_text` stores up to 127 bytes and a NUL behind them.
`settings_get_beacon_text` reads at most `bytesToRead` of them, which is
the buffer's length less one, and that length has 8 bits: `_send_fixed_text`
passes 127, and the KISS command the length of the reader's buffer, 330,
which is 74 as a `uint8_t`.
-/
import TinyAprs.BeaconPath
import TinyAprs.KissFraming
import TinyAprs.Lib.Terminated

namespace TinyAprs

open Terminated

/-! ### Storing and reading -/

theorem str_setBeaconText (ee : Eeprom) {text : List UInt8} (hfree : 0 ∉ text) (hlen : text.length ≤ 127) :
    settingsSetBeaconText ee text (UInt8.ofNat text.length) nvBeaconTextHeadByte = nvBeaconTextHeadByteValue ∧
      Str 0 (settingsSetBeaconText ee text (UInt8.ofNat text.length)) nvBeaconText text := by
  have hwrite : min (UInt8.ofNat text.length).toNat (settingsBeaconTextMaxLen - 1) = text.length := by
    rw [UInt8.toNat_ofNat_of_lt' (show text.length < 256 by omega)]
    exact Nat.min_eq_left hlen
  refine ⟨by rw [settingsSetBeaconText]; exact Function.update_self .., ?_, hfree⟩
  rw [settingsSetBeaconText, hwrite, List.take_length]
  have hcells : Cells.At (eepromUpdateByte (eepromUpdateBlock ee text nvBeaconText) (nvBeaconText + text.length) 0)
      nvBeaconText (text ++ [0]) := by
    refine (Cells.at_append ..).mpr ⟨?_, ?_⟩
    · rw [Cells.At, slice_updateByte _ _ (Or.inr (Nat.le_refl _))]
      exact Cells.at_write text ee nvBeaconText
    · exact congrArg (· :: []) (Function.update_self ..)
  -- the head byte lies before the text
  rw [Cells.At, slice_updateByte _ _ (Or.inl (by decide))]
  exact hcells

/-- A stored text is read up to `bytesToRead`. -/
theorem getBeaconText_eq {ee : Eeprom} {text : List UInt8} (hhead : ee nvBeaconTextHeadByte = nvBeaconTextHeadByteValue)
    (hstr : Str 0 ee nvBeaconText text) (hlen : text.length ≤ 255) (buf : ℕ → UInt8) (bufLen : UInt8) :
    (settingsGetBeaconText ee buf bufLen).1.toNat = (text.take (bytesToRead bufLen)).length ∧
      Cells.slice (settingsGetBeaconText ee buf bufLen).2 0 (text.take (bytesToRead bufLen)).length =
        text.take (bytesToRead bufLen) := by
  set n := bytesToRead bufLen with hn
  set buf' := Cells.write (Function.update buf 0 0) 0 (eepromReadBlock ee nvBeaconText n) with hbuf'
  have hblock : Cells.slice buf' 0 n = Cells.slice ee nvBeaconText n := by
    have hat := Cells.at_write (eepromReadBlock ee nvBeaconText n) (Function.update buf 0 0) 0
    rw [Cells.At, eepromReadBlock, Cells.length_slice] at hat
    exact hat
  have hread : (Cells.slice buf' 0 n).takeWhile (· != 0) = text.take n := by
    rw [hblock]
    exact hstr.read n
  have hget : settingsGetBeaconText ee buf bufLen =
      (UInt8.ofNat (text.take n).length, Function.update buf' (text.take n).length 0) := by
    rw [settingsGetBeaconText, if_neg (not_not.mpr hhead)]
    dsimp only
    rw [← hn, ← hbuf', hread]
  have hle : (text.take n).length ≤ text.length := List.length_take_le' ..
  rw [hget]
  refine ⟨UInt8.toNat_ofNat_of_lt' (show (text.take n).length < 256 by omega), ?_⟩
  rw [Cells.slice_update_of_le _ _ (by rw [Nat.zero_add])]
  -- what was read lies at the front of the block
  have hpre : (text.take n) <+: Cells.slice buf' 0 n := hread ▸ List.takeWhile_prefix _
  obtain ⟨rest, hrest⟩ := hpre
  have hsplit : n = (text.take n).length + rest.length := by
    rw [← List.length_append, hrest, Cells.length_slice]
  have hfront : Cells.slice buf' 0 n = Cells.slice buf' 0 (text.take n).length ++
      Cells.slice buf' (text.take n).length rest.length := by
    have hadd := Cells.slice_add buf' 0 (text.take n).length rest.length
    rwa [← hsplit, Nat.zero_add] at hadd
  rw [hfront] at hrest
  exact (List.append_inj_left hrest (Cells.length_slice ..).symm).symm

/-! ### What the host and the air get -/

theorem kissReply_inj {cmd : UInt8} {a b : List UInt8} (h : kissReply cmd a = kissReply cmd b) : a = b := by
  rw [kissReply, kissReply, kissSendToSerial, kissSendToSerial, sendToSerial_eq, sendToSerial_eq,
    List.append_left_inj, List.append_right_inj] at h
  have hunesc := congrArg (List.foldl unescStep ([], false)) h
  rw [foldl_unesc_encode, foldl_unesc_encode] at hunesc
  have hdata := (Prod.ext_iff.mp hunesc).1
  rw [List.nil_append, List.nil_append] at hdata
  exact (List.append_inj' hdata rfl).1

theorem textCmd_stored {t : Tnc} {text : List UInt8} (hhead : t.eeprom nvBeaconTextHeadByte = nvBeaconTextHeadByteValue)
    (hstr : Str 0 t.eeprom nvBeaconText text) (h1 : 1 ≤ text.length) (hlen : text.length ≤ 255)
    (buf : ℕ → UInt8) : ∃ buf', kissHandleConfigTextCmd t buf [] =
      some (.reply t buf' (kissReply kissCmdConfigText (text.take 73))) := by
  obtain ⟨hget, hslice⟩ := getBeaconText_eq hhead hstr hlen buf readerBufLen.toUInt8
  rw [show bytesToRead readerBufLen.toUInt8 = 73 by decide] at hget hslice
  have hpos : (settingsGetBeaconText t.eeprom buf readerBufLen.toUInt8).1 > 0 := by
    rw [gt_iff_lt, UInt8.lt_iff_toNat_lt, hget, List.length_take]
    exact Nat.lt_min.mpr ⟨by decide, h1⟩
  have hle : (text.take 73).length ≤ 255 := (List.length_take_le ..).trans (by decide)
  refine ⟨(settingsGetBeaconText t.eeprom buf readerBufLen.toUInt8).2, ?_⟩
  rw [kissHandleConfigTextCmd, if_pos List.length_nil]
  dsimp only
  rw [if_pos hpos, hget, hslice, kissRespond_eq _ hle]
  rfl

theorem readText_stored {t : Tnc} {text : List UInt8} (hhead : t.eeprom nvBeaconTextHeadByte = nvBeaconTextHeadByteValue)
    (hstr : Str 0 t.eeprom nvBeaconText text) (h1 : 1 ≤ text.length) (hlen : text.length ≤ 255)
    (turns : List Turn) {x : Handed} (hx : x.bytes = configFrame kissCmdConfigText []) : ∃ buf',
      kissHandleFrame t turns x = some (.reply t buf' (kissReply kissCmdConfigText (text.take 73))) := by
  rw [kissHandleFrame_eq t turns x (by rw [size_of_bytes hx]; decide), hx, request_text]
  exact textCmd_stored hhead hstr h1 hlen x.frame

theorem sendFixedText_stored {t : Tnc} {text : List UInt8}
    (hhead : t.eeprom nvBeaconTextHeadByte = nvBeaconTextHeadByteValue) (hstr : Str 0 t.eeprom nvBeaconText text)
    (h1 : 1 ≤ text.length) (hlen : text.length ≤ 255) : sendFixedText t = beaconSend t (text.take 126) := by
  obtain ⟨hget, hslice⟩ := getBeaconText_eq hhead hstr hlen (fun _ => 0) 127
  rw [show bytesToRead 127 = 126 by decide] at hget hslice
  have hpos : (settingsGetBeaconText t.eeprom (fun _ => 0) 127).1 > 0 := by
    rw [gt_iff_lt, UInt8.lt_iff_toNat_lt, hget, List.length_take]
    exact Nat.lt_min.mpr ⟨by decide, h1⟩
  rw [sendFixedText, if_pos hpos, hget, hslice]

/-- The operation stores the text, from the console or the KISS line. -/
inductive Stores (text : List UInt8) : StoreOp → Prop
  | console : Stores text (.text text)
  | kiss (buf : ℕ → UInt8) : Stores text (.kissText buf text)

theorem Stores.apply {text : List UInt8} {op : StoreOp} (h : Stores text op) (hfree : 0 ∉ text)
    (h1 : 1 ≤ text.length) (h127 : text.length ≤ 127) (t : Tnc) : ∃ t', op.apply t = some t' ∧
      t'.eeprom nvBeaconTextHeadByte = nvBeaconTextHeadByteValue ∧ Str 0 t'.eeprom nvBeaconText text := by
  have hstr := str_setBeaconText t.eeprom hfree h127
  cases h with
  | console =>
    have hset : cmdSettingsBeaconText t.store text =
        { t.store with eeprom := settingsSetBeaconText t.eeprom text (UInt8.ofNat text.length) } := by
      have hlen : valueLen text = text.length := by rw [valueLen]; omega
      rw [cmdSettingsBeaconText, hlen, if_pos (Nat.lt_of_lt_of_le Nat.zero_lt_one h1)]
      rfl
    exact ⟨_, rfl, by rw [hset]; exact hstr⟩
  | kiss buf =>
    refine ⟨_, by rw [StoreOp.apply, textCmd_write t buf (by omega)]; rfl, hstr⟩

/-- **A stored text is read back whole exactly when it has at most 73 bytes.**
For every NUL-free text of 1 to 127 bytes that the console or a KISS frame
stores on any TNC: a KISS read answers with that text and its checksum, and
the next beacon has it as its info field, if and only if it has at most 73
bytes. -/
theorem beacon_text_whole_iff (t : Tnc) (text : List UInt8) (hfree : 0 ∉ text) (h1 : 1 ≤ text.length)
    (h127 : text.length ≤ 127) (op : StoreOp) (hop : Stores text op) (turns : List Turn) (x : Handed)
    (hx : x.bytes = configFrame kissCmdConfigText []) : ∃ t', op.apply t = some t' ∧
      (((∃ e, kissHandleFrame t' turns x = some e ∧ e.serial = kissReply kissCmdConfigText text) ∧
          (sendFixedText t').2 = airFrame (beaconFrame t'.eeprom text)) ↔
        text.length ≤ 73) := by
  obtain ⟨t', happly, hhead, hstr⟩ := hop.apply hfree h1 h127 t
  obtain ⟨buf', hframe⟩ := readText_stored hhead hstr h1 (by omega) turns hx
  have hair : (sendFixedText t').2 = airFrame (beaconFrame t'.eeprom (text.take 126)) := by
    rw [sendFixedText_stored hhead hstr h1 (by omega), beaconSend_frame]
  refine ⟨t', happly, ?_, fun h73 => ⟨?_, ?_⟩⟩
  · rintro ⟨⟨e, he, hserial⟩, -⟩
    rw [hframe, Option.some.injEq] at he
    rw [← he] at hserial
    have htake : text.take 73 = text := kissReply_inj hserial
    rw [← htake]
    exact List.length_take_le ..
  · refine ⟨_, hframe, ?_⟩
    show kissReply kissCmdConfigText (text.take 73) = _
    rw [List.take_of_length_le h73]
  · rw [hair, List.take_of_length_le (by omega)]

theorem beacon_text_whole_iff_default : ∃ t', (StoreOp.text defaultBeaconText).apply factoryTnc = some t' ∧
    (∃ e, kissHandleFrame t' [] (.ofList (configFrame kissCmdConfigText [])) = some e ∧
      e.serial = kissReply kissCmdConfigText defaultBeaconText) ∧
    (sendFixedText t').2 = airFrame (beaconFrame t'.eeprom defaultBeaconText) := by
  obtain ⟨t', happly, hiff⟩ := beacon_text_whole_iff factoryTnc defaultBeaconText (by decide) (by decide) (by decide)
    _ .console [] (.ofList (configFrame kissCmdConfigText [])) (by decide)
  exact ⟨t', happly, hiff.mpr (by decide)⟩

def longText : List UInt8 := .replicate 74 0x41

/-- Of 74 letters a read answers with 73. -/
theorem long_text_cut : ∃ t', (StoreOp.text longText).apply factoryTnc = some t' ∧
    (∃ e, kissHandleFrame t' [] (.ofList (configFrame kissCmdConfigText [])) = some e ∧
      e.serial = kissReply kissCmdConfigText (.replicate 73 0x41)) ∧
    ¬ ∃ e, kissHandleFrame t' [] (.ofList (configFrame kissCmdConfigText [])) = some e ∧
      e.serial = kissReply kissCmdConfigText longText := by
  have hfree : (0 : UInt8) ∉ longText := by decide
  obtain ⟨t', happly, hhead, hstr⟩ := Stores.console.apply hfree (by decide) (by decide) factoryTnc
  obtain ⟨buf', hframe⟩ := readText_stored hhead hstr (by decide) (by decide) []
    (show (Handed.ofList (configFrame kissCmdConfigText [])).bytes = _ by decide)
  refine ⟨t', happly, ⟨_, hframe, rfl⟩, ?_⟩
  rintro ⟨e, he, hserial⟩
  rw [hframe, Option.some.injEq] at he
  rw [← he] at hserial
  have htake : longText.take 73 = longText := kissReply_inj hserial
  exact absurd htake (by decide)

end TinyAprs
