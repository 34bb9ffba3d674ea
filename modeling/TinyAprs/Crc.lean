/-
# CRC-CCITT

`crc_ccitt.c` keeps the 256 remainders of a byte in a table; `updcrcCcitt`
is its one-byte update and `crcCcitt` the loop over a buffer. A frame is
sent with the complement of its CRC, low byte first, and the receiver's CRC
over the frame and these two bytes is then always the constant `0xF0B8`
(`crcCcitt_trailer`): the first byte reads entry `0xFF` whatever the CRC
was, which leaves `0x0F` above the old high byte, and the second reads
entry `0x87`.
-/
import Mathlib.Data.FinEnum

namespace TinyAprs

/-- `crc_ccitt_tab`. -/
def crcCcittTab : Array UInt16 :=
  #[0x0000, 0x1189, 0x2312, 0x329b, 0x4624, 0x57ad, 0x6536, 0x74bf,
  0x8c48, 0x9dc1, 0xaf5a, 0xbed3, 0xca6c, 0xdbe5, 0xe97e, 0xf8f7,
  0x1081, 0x0108, 0x3393, 0x221a, 0x56a5, 0x472c, 0x75b7, 0x643e,
  0x9cc9, 0x8d40, 0xbfdb, 0xae52, 0xdaed, 0xcb64, 0xf9ff, 0xe876,
  0x2102, 0x308b, 0x0210, 0x1399, 0x6726, 0x76af, 0x4434, 0x55bd,
  0xad4a, 0xbcc3, 0x8e58, 0x9fd1, 0xeb6e, 0xfae7, 0xc87c, 0xd9f5,
  0x3183, 0x200a, 0x1291, 0x0318, 0x77a7, 0x662e, 0x54b5, 0x453c,
  0xbdcb, 0xac42, 0x9ed9, 0x8f50, 0xfbef, 0xea66, 0xd8fd, 0xc974,
  0x4204, 0x538d, 0x6116, 0x709f, 0x0420, 0x15a9, 0x2732, 0x36bb,
  0xce4c, 0xdfc5, 0xed5e, 0xfcd7, 0x8868, 0x99e1, 0xab7a, 0xbaf3,
  0x5285, 0x430c, 0x7197, 0x601e, 0x14a1, 0x0528, 0x37b3, 0x263a,
  0xdecd, 0xcf44, 0xfddf, 0xec56, 0x98e9, 0x8960, 0xbbfb, 0xaa72,
  0x6306, 0x728f, 0x4014, 0x519d, 0x2522, 0x34ab, 0x0630, 0x17b9,
  0xef4e, 0xfec7, 0xcc5c, 0xddd5, 0xa96a, 0xb8e3, 0x8a78, 0x9bf1,
  0x7387, 0x620e, 0x5095, 0x411c, 0x35a3, 0x242a, 0x16b1, 0x0738,
  0xffcf, 0xee46, 0xdcdd, 0xcd54, 0xb9eb, 0xa862, 0x9af9, 0x8b70,
  0x8408, 0x9581, 0xa71a, 0xb693, 0xc22c, 0xd3a5, 0xe13e, 0xf0b7,
  0x0840, 0x19c9, 0x2b52, 0x3adb, 0x4e64, 0x5fed, 0x6d76, 0x7cff,
  0x9489, 0x8500, 0xb79b, 0xa612, 0xd2ad, 0xc324, 0xf1bf, 0xe036,
  0x18c1, 0x0948, 0x3bd3, 0x2a5a, 0x5ee5, 0x4f6c, 0x7df7, 0x6c7e,
  0xa50a, 0xb483, 0x8618, 0x9791, 0xe32e, 0xf2a7, 0xc03c, 0xd1b5,
  0x2942, 0x38cb, 0x0a50, 0x1bd9, 0x6f66, 0x7eef, 0x4c74, 0x5dfd,
  0xb58b, 0xa402, 0x9699, 0x8710, 0xf3af, 0xe226, 0xd0bd, 0xc134,
  0x39c3, 0x284a, 0x1ad1, 0x0b58, 0x7fe7, 0x6e6e, 0x5cf5, 0x4d7c,
  0xc60c, 0xd785, 0xe51e, 0xf497, 0x8028, 0x91a1, 0xa33a, 0xb2b3,
  0x4a44, 0x5bcd, 0x6956, 0x78df, 0x0c60, 0x1de9, 0x2f72, 0x3efb,
  0xd68d, 0xc704, 0xf59f, 0xe416, 0x90a9, 0x8120, 0xb3bb, 0xa232,
  0x5ac5, 0x4b4c, 0x79d7, 0x685e, 0x1ce1, 0x0d68, 0x3ff3, 0x2e7a,
  0xe70e, 0xf687, 0xc41c, 0xd595, 0xa12a, 0xb0a3, 0x8238, 0x93b1,
  0x6b46, 0x7acf, 0x4854, 0x59dd, 0x2d62, 0x3ceb, 0x0e70, 0x1ff9,
  0xf78f, 0xe606, 0xd49d, 0xc514, 0xb1ab, 0xa022, 0x92b9, 0x8330,
  0x7bc7, 0x6a4e, 0x58d5, 0x495c, 0x3de3, 0x2c6a, 0x1ef1, 0x0f78]

/-- `CRC_CCITT_INIT_VAL` -/
def crcCcittInitVal : UInt16 := 0xFFFF

/-- `updcrc_ccitt` -/
def updcrcCcitt (c : UInt8) (oldcrc : UInt16) : UInt16 :=
  (oldcrc >>> 8) ^^^ crcCcittTab.getD ((oldcrc ^^^ c.toUInt16) &&& 0xff).toNat 0

/-- `crc_ccitt` -/
def crcCcitt (crc : UInt16) (buf : List UInt8) : UInt16 := buf.foldl (fun crc c => updcrcCcitt c crc) crc

@[simp] theorem crcCcitt_nil (crc : UInt16) : crcCcitt crc [] = crc := rfl

@[simp] theorem crcCcitt_cons (crc : UInt16) (c : UInt8) (cs : List UInt8) :
    crcCcitt crc (c :: cs) = crcCcitt (updcrcCcitt c crc) cs := rfl

theorem crcCcitt_append (crc : UInt16) (a b : List UInt8) :
    crcCcitt crc (a ++ b) = crcCcitt (crcCcitt crc a) b := by
  simp [crcCcitt]

/-- The low trailer byte, `(crc_out & 0xff) ^ 0xff`. -/
def crcLow (crc : UInt16) : UInt8 := ((crc &&& 0xff) ^^^ 0xff).toUInt8

/-- The high trailer byte, `(crc_out >> 8) ^ 0xff`. -/
def crcHigh (crc : UInt16) : UInt8 := ((crc >>> 8) ^^^ 0xff).toUInt8

/-- The trailer of a frame: the complement of its CRC, low byte first. -/
def crcTrailer (crc : UInt16) : List UInt8 := [crcLow crc, crcHigh crc]

/-! ### The residue -/

theorem tabIndex_eq (c : UInt8) (crc : UInt16) :
    ((crc ^^^ c.toUInt16) &&& 0xff).toNat = (crc.toUInt8 ^^^ c).toNat := by
  have h : ∀ n : ℕ, n &&& 255 = n % 2 ^ 8 := fun n => Nat.and_two_pow_sub_one_eq_mod n 8
  simp only [UInt16.toNat_and, UInt16.toNat_xor, UInt8.toNat_toUInt16, UInt8.toNat_xor,
    UInt16.toNat_toUInt8]
  rw [show (255 : UInt16).toNat = 255 from rfl, h, Nat.xor_mod_two_pow, Nat.mod_eq_of_lt c.toNat_lt]

theorem crcLow_eq (crc : UInt16) : crcLow crc = crc.toUInt8 ^^^ 0xff := by
  simp only [crcLow, UInt16.toUInt8_xor, UInt16.toUInt8_and]
  generalize crc.toUInt8 = lo
  revert lo
  decide +kernel

theorem crcHigh_eq (crc : UInt16) : crcHigh crc = (crc >>> 8).toUInt8 ^^^ 0xff := by
  simp only [crcHigh, UInt16.toUInt8_xor]
  rfl

theorem shiftRight_eight (crc : UInt16) : crc >>> 8 = (crc >>> 8).toUInt8.toUInt16 := by
  apply UInt16.toNat_inj.mp
  have h := crc.toNat_lt
  have h8 : crc.toNat / 2 ^ 8 < 2 ^ 8 := by omega
  simp only [UInt8.toNat_toUInt16, UInt16.toNat_toUInt8, UInt16.toNat_shiftRight]
  rw [show (8 : UInt16).toNat % 16 = 8 from rfl, Nat.shiftRight_eq_div_pow, Nat.mod_eq_of_lt h8]

/-- The low trailer byte reads entry `0xFF`, whatever the CRC. -/
theorem updcrcCcitt_low (crc : UInt16) :
    updcrcCcitt (crcLow crc) crc = (crc >>> 8).toUInt8.toUInt16 ^^^ 0x0f78 := by
  have hx : ∀ lo : UInt8, lo ^^^ (lo ^^^ 0xff) = 0xff := by decide +kernel
  have htab : crcCcittTab.getD (0xff : UInt8).toNat 0 = 0x0f78 := by decide +kernel
  rw [updcrcCcitt, tabIndex_eq, crcLow_eq, hx, htab, ← shiftRight_eight]

theorem updcrcCcitt_high (hi : UInt8) :
    updcrcCcitt (hi ^^^ 0xff) (hi.toUInt16 ^^^ 0x0f78) = 0xF0B8 := by
  revert hi
  decide +kernel

/-- **The residue.** A CRC run over its own trailer ends at `0xF0B8`. -/
theorem crcCcitt_trailer (crc : UInt16) : crcCcitt crc (crcTrailer crc) = 0xF0B8 := by
  rw [crcTrailer, crcCcitt_cons, crcCcitt_cons, crcCcitt_nil, updcrcCcitt_low, crcHigh_eq,
    updcrcCcitt_high]

end TinyAprs
