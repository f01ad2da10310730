/-
The checksum of the images, `Crc16CCITCalculate`.

Three files have the routine, each with a table of its own: `head_info.c` and `read_head.c` start at
0, and `stm8_upgrade.c` takes the value to start from. Here the routine is compared with its
definition, the check with the polynomial 0x1021 that takes one bit of the message at a time. What
is known of such checks then holds for it: it can be taken in parts, and no burst of 16 bits gets
past it.

The length is counted with an `int`, so a message has fewer than 2^31 bytes.
-/
import TestCore.HeadInfo.Header
import TestCore.Lib.Crc

set_option autoImplicit false

open TestCore.Lib

/-! ## The routine -/

namespace TestCore.HeadInfo

/-- One round of the loop, with some table. -/
def crcStep (table : List UInt16) (crc : UInt16) (c : UInt8) : UInt16 :=
  let ushort := (crc <<< 8) &&& 0xff00
  ushort ^^^ table.getD ((crc >>> 8) ^^^ c.toUInt16).toNat 0

end TestCore.HeadInfo

namespace TestCore.ReadHead

/-- The table of `read_head.c`. -/
def Crc16CCITtable : List UInt16 :=
  [0x0000, 0x1021, 0x2042, 0x3063, 0x4084, 0x50a5, 0x60c6, 0x70e7, 0x8108, 0x9129, 0xa14a, 0xb16b,
    0xc18c, 0xd1ad, 0xe1ce, 0xf1ef, 0x1231, 0x0210, 0x3273, 0x2252, 0x52b5, 0x4294, 0x72f7, 0x62d6,
    0x9339, 0x8318, 0xb37b, 0xa35a, 0xd3bd, 0xc39c, 0xf3ff, 0xe3de, 0x2462, 0x3443, 0x0420, 0x1401,
    0x64e6, 0x74c7, 0x44a4, 0x5485, 0xa56a, 0xb54b, 0x8528, 0x9509, 0xe5ee, 0xf5cf, 0xc5ac, 0xd58d,
    0x3653, 0x2672, 0x1611, 0x0630, 0x76d7, 0x66f6, 0x5695, 0x46b4, 0xb75b, 0xa77a, 0x9719, 0x8738,
    0xf7df, 0xe7fe, 0xd79d, 0xc7bc, 0x48c4, 0x58e5, 0x6886, 0x78a7, 0x0840, 0x1861, 0x2802, 0x3823,
    0xc9cc, 0xd9ed, 0xe98e, 0xf9af, 0x8948, 0x9969, 0xa90a, 0xb92b, 0x5af5, 0x4ad4, 0x7ab7, 0x6a96,
    0x1a71, 0x0a50, 0x3a33, 0x2a12, 0xdbfd, 0xcbdc, 0xfbbf, 0xeb9e, 0x9b79, 0x8b58, 0xbb3b, 0xab1a,
    0x6ca6, 0x7c87, 0x4ce4, 0x5cc5, 0x2c22, 0x3c03, 0x0c60, 0x1c41, 0xedae, 0xfd8f, 0xcdec, 0xddcd,
    0xad2a, 0xbd0b, 0x8d68, 0x9d49, 0x7e97, 0x6eb6, 0x5ed5, 0x4ef4, 0x3e13, 0x2e32, 0x1e51, 0x0e70,
    0xff9f, 0xefbe, 0xdfdd, 0xcffc, 0xbf1b, 0xaf3a, 0x9f59, 0x8f78, 0x9188, 0x81a9, 0xb1ca, 0xa1eb,
    0xd10c, 0xc12d, 0xf14e, 0xe16f, 0x1080, 0x00a1, 0x30c2, 0x20e3, 0x5004, 0x4025, 0x7046, 0x6067,
    0x83b9, 0x9398, 0xa3fb, 0xb3da, 0xc33d, 0xd31c, 0xe37f, 0xf35e, 0x02b1, 0x1290, 0x22f3, 0x32d2,
    0x4235, 0x5214, 0x6277, 0x7256, 0xb5ea, 0xa5cb, 0x95a8, 0x8589, 0xf56e, 0xe54f, 0xd52c, 0xc50d,
    0x34e2, 0x24c3, 0x14a0, 0x0481, 0x7466, 0x6447, 0x5424, 0x4405, 0xa7db, 0xb7fa, 0x8799, 0x97b8,
    0xe75f, 0xf77e, 0xc71d, 0xd73c, 0x26d3, 0x36f2, 0x0691, 0x16b0, 0x6657, 0x7676, 0x4615, 0x5634,
    0xd94c, 0xc96d, 0xf90e, 0xe92f, 0x99c8, 0x89e9, 0xb98a, 0xa9ab, 0x5844, 0x4865, 0x7806, 0x6827,
    0x18c0, 0x08e1, 0x3882, 0x28a3, 0xcb7d, 0xdb5c, 0xeb3f, 0xfb1e, 0x8bf9, 0x9bd8, 0xabbb, 0xbb9a,
    0x4a75, 0x5a54, 0x6a37, 0x7a16, 0x0af1, 0x1ad0, 0x2ab3, 0x3a92, 0xfd2e, 0xed0f, 0xdd6c, 0xcd4d,
    0xbdaa, 0xad8b, 0x9de8, 0x8dc9, 0x7c26, 0x6c07, 0x5c64, 0x4c45, 0x3ca2, 0x2c83, 0x1ce0, 0x0cc1,
    0xef1f, 0xff3e, 0xcf5d, 0xdf7c, 0xaf9b, 0xbfba, 0x8fd9, 0x9ff8, 0x6e17, 0x7e36, 0x4e55, 0x5e74,
    0x2e93, 0x3eb2, 0x0ed1, 0x1ef0]

/-- `Crc16CCITCalculate` of `read_head.c`. -/
def Crc16CCITCalculate (pData : Bytes) : UInt16 := pData.foldl (HeadInfo.crcStep Crc16CCITtable) 0

end TestCore.ReadHead

namespace TestCore.Stm8Upgrade

/-- The table of `stm8_upgrade.c`. -/
def Crc16CCITtable : List UInt16 :=
  [0x0000, 0x1021, 0x2042, 0x3063, 0x4084, 0x50a5, 0x60c6, 0x70e7, 0x8108, 0x9129, 0xa14a, 0xb16b,
    0xc18c, 0xd1ad, 0xe1ce, 0xf1ef, 0x1231, 0x0210, 0x3273, 0x2252, 0x52b5, 0x4294, 0x72f7, 0x62d6,
    0x9339, 0x8318, 0xb37b, 0xa35a, 0xd3bd, 0xc39c, 0xf3ff, 0xe3de, 0x2462, 0x3443, 0x0420, 0x1401,
    0x64e6, 0x74c7, 0x44a4, 0x5485, 0xa56a, 0xb54b, 0x8528, 0x9509, 0xe5ee, 0xf5cf, 0xc5ac, 0xd58d,
    0x3653, 0x2672, 0x1611, 0x0630, 0x76d7, 0x66f6, 0x5695, 0x46b4, 0xb75b, 0xa77a, 0x9719, 0x8738,
    0xf7df, 0xe7fe, 0xd79d, 0xc7bc, 0x48c4, 0x58e5, 0x6886, 0x78a7, 0x0840, 0x1861, 0x2802, 0x3823,
    0xc9cc, 0xd9ed, 0xe98e, 0xf9af, 0x8948, 0x9969, 0xa90a, 0xb92b, 0x5af5, 0x4ad4, 0x7ab7, 0x6a96,
    0x1a71, 0x0a50, 0x3a33, 0x2a12, 0xdbfd, 0xcbdc, 0xfbbf, 0xeb9e, 0x9b79, 0x8b58, 0xbb3b, 0xab1a,
    0x6ca6, 0x7c87, 0x4ce4, 0x5cc5, 0x2c22, 0x3c03, 0x0c60, 0x1c41, 0xedae, 0xfd8f, 0xcdec, 0xddcd,
    0xad2a, 0xbd0b, 0x8d68, 0x9d49, 0x7e97, 0x6eb6, 0x5ed5, 0x4ef4, 0x3e13, 0x2e32, 0x1e51, 0x0e70,
    0xff9f, 0xefbe, 0xdfdd, 0xcffc, 0xbf1b, 0xaf3a, 0x9f59, 0x8f78, 0x9188, 0x81a9, 0xb1ca, 0xa1eb,
    0xd10c, 0xc12d, 0xf14e, 0xe16f, 0x1080, 0x00a1, 0x30c2, 0x20e3, 0x5004, 0x4025, 0x7046, 0x6067,
    0x83b9, 0x9398, 0xa3fb, 0xb3da, 0xc33d, 0xd31c, 0xe37f, 0xf35e, 0x02b1, 0x1290, 0x22f3, 0x32d2,
    0x4235, 0x5214, 0x6277, 0x7256, 0xb5ea, 0xa5cb, 0x95a8, 0x8589, 0xf56e, 0xe54f, 0xd52c, 0xc50d,
    0x34e2, 0x24c3, 0x14a0, 0x0481, 0x7466, 0x6447, 0x5424, 0x4405, 0xa7db, 0xb7fa, 0x8799, 0x97b8,
    0xe75f, 0xf77e, 0xc71d, 0xd73c, 0x26d3, 0x36f2, 0x0691, 0x16b0, 0x6657, 0x7676, 0x4615, 0x5634,
    0xd94c, 0xc96d, 0xf90e, 0xe92f, 0x99c8, 0x89e9, 0xb98a, 0xa9ab, 0x5844, 0x4865, 0x7806, 0x6827,
    0x18c0, 0x08e1, 0x3882, 0x28a3, 0xcb7d, 0xdb5c, 0xeb3f, 0xfb1e, 0x8bf9, 0x9bd8, 0xabbb, 0xbb9a,
    0x4a75, 0x5a54, 0x6a37, 0x7a16, 0x0af1, 0x1ad0, 0x2ab3, 0x3a92, 0xfd2e, 0xed0f, 0xdd6c, 0xcd4d,
    0xbdaa, 0xad8b, 0x9de8, 0x8dc9, 0x7c26, 0x6c07, 0x5c64, 0x4c45, 0x3ca2, 0x2c83, 0x1ce0, 0x0cc1,
    0xef1f, 0xff3e, 0xcf5d, 0xdf7c, 0xaf9b, 0xbfba, 0x8fd9, 0x9ff8, 0x6e17, 0x7e36, 0x4e55, 0x5e74,
    0x2e93, 0x3eb2, 0x0ed1, 0x1ef0]

/-- `Crc16CCITCalculate` of `stm8_upgrade.c`. -/
def Crc16CCITCalculate (pData : Bytes) (crc : UInt16) : UInt16 :=
  pData.foldl (HeadInfo.crcStep Crc16CCITtable) crc

end TestCore.Stm8Upgrade

namespace TestCore.HeadInfo

/-! ## The definition -/

/-- The polynomial, x^16 + x^12 + x^5 + 1, without its highest term. -/
def crcPoly : BitVec 16 := 0x1021

/-- The bits of a message, the most significant one of each byte first. -/
def messageBits (pData : Bytes) : List Bool := pData.flatMap fun c => topBits 8 c.toBitVec

/-- The bit-by-bit CRC, from an initial value. -/
def bitwiseCrc (pData : Bytes) (crc : UInt16) : UInt16 :=
  ⟨crcBits crcPoly crc.toBitVec (messageBits pData)⟩

/-! ## The table -/

theorem crc16CCITtable_eq :
    ReadHead.Crc16CCITtable = Crc16CCITtable ∧ Stm8Upgrade.Crc16CCITtable = Crc16CCITtable := by
  decide +kernel

/-- **The constants**: an entry is the check of its index. -/
theorem crc16CCITtable_getD (x : BitVec 8) :
    (Crc16CCITtable.getD x.toNat 0).toBitVec = crcBits crcPoly 0#16 (topBits 8 x) := by
  have hall : ∀ i < 256, (Crc16CCITtable.getD i 0).toBitVec =
      crcBits crcPoly 0#16 (topBits 8 (BitVec.ofNat 8 i)) := by decide +kernel
  have hx := hall x.toNat x.isLt
  rwa [BitVec.ofNat_toNat, BitVec.setWidth_eq] at hx

/-- The high byte of the register goes into the index. -/
theorem crcStep_index (crc : UInt16) (c : UInt8) :
    ((crc >>> 8) ^^^ c.toUInt16).toNat = (c.toBitVec ^^^ (crc.toBitVec >>> 8).setWidth 8).toNat := by
  have hword : ((crc >>> 8) ^^^ c.toUInt16).toBitVec =
      (c.toBitVec ^^^ (crc.toBitVec >>> 8).setWidth 8).setWidth 16 := by
    rw [UInt16.toBitVec_xor, UInt16.toBitVec_shiftRight, UInt8.toBitVec_toUInt16]
    refine BitVec.eq_of_getLsbD_eq fun i hi => ?_
    by_cases hlow : i < 8
    · simp [hi, hlow, Bool.xor_comm]
    · have hout : crc.toBitVec.getLsbD (8 + i) = false := BitVec.getLsbD_of_ge _ _ (by omega)
      simp [hi, hlow, hout]
  have hlt := (c.toBitVec ^^^ (crc.toBitVec >>> 8).setWidth 8).isLt
  rw [← UInt16.toNat_toBitVec, hword, BitVec.toNat_setWidth, Nat.mod_eq_of_lt (by omega)]

/-- The low byte moves up. -/
theorem crcStep_shift (crc : UInt16) : ((crc <<< 8) &&& 0xff00).toBitVec = crc.toBitVec <<< 8 := by
  have hmask : ∀ i < 16, (0xff00 : UInt16).toBitVec.getLsbD i = decide (8 ≤ i) := by decide
  rw [UInt16.toBitVec_and, UInt16.toBitVec_shiftLeft]
  refine BitVec.eq_of_getLsbD_eq fun i hi => ?_
  rw [BitVec.getLsbD_and, hmask i hi]
  by_cases hlow : 8 ≤ i <;> simp [hlow]

/-- A round of the loop is eight bits of the message. -/
theorem crcStep_toBitVec (crc : UInt16) (c : UInt8) :
    (crcStep Crc16CCITtable crc c).toBitVec = crcBits crcPoly crc.toBitVec (topBits 8 c.toBitVec) := by
  unfold crcStep
  rw [crcBits_chunk crcPoly (by decide) crc.toBitVec c.toBitVec, crcStep_index, UInt16.toBitVec_xor,
    crcStep_shift, crc16CCITtable_getD, BitVec.xor_comm]

theorem foldl_crcStep (pData : Bytes) (crc : UInt16) :
    pData.foldl (crcStep Crc16CCITtable) crc = bitwiseCrc pData crc := by
  induction pData generalizing crc with
  | nil => rfl
  | cons c pData ih =>
    rw [List.foldl_cons, ih]
    unfold bitwiseCrc messageBits
    rw [List.flatMap_cons, crcBits_append, crcStep_toBitVec]

theorem crc16_eq_bitwise (pData : Bytes) : Crc16CCITCalculate pData = bitwiseCrc pData 0 :=
  foldl_crcStep pData 0

theorem readHead_crc16_eq_bitwise (pData : Bytes) :
    ReadHead.Crc16CCITCalculate pData = bitwiseCrc pData 0 := by
  rw [ReadHead.Crc16CCITCalculate, crc16CCITtable_eq.1, foldl_crcStep]

theorem stm8_crc16_eq_bitwise (pData : Bytes) (crc : UInt16) :
    Stm8Upgrade.Crc16CCITCalculate pData crc = bitwiseCrc pData crc := by
  rw [Stm8Upgrade.Crc16CCITCalculate, crc16CCITtable_eq.2, foldl_crcStep]

/-- **The routine is the bit-by-bit CRC with the polynomial 0x1021**, whatever it starts from, and it
can be taken in parts. The three copies of it, and of its table, are the same. -/
theorem Crc16CCITCalculate_eq_bitwise :
    (∀ pData crc, Stm8Upgrade.Crc16CCITCalculate pData crc = bitwiseCrc pData crc) ∧
    (∀ a b crc, Stm8Upgrade.Crc16CCITCalculate (a ++ b) crc =
      Stm8Upgrade.Crc16CCITCalculate b (Stm8Upgrade.Crc16CCITCalculate a crc)) ∧
    (∀ pData, Crc16CCITCalculate pData = Stm8Upgrade.Crc16CCITCalculate pData 0 ∧
      ReadHead.Crc16CCITCalculate pData = Stm8Upgrade.Crc16CCITCalculate pData 0) ∧
    ReadHead.Crc16CCITtable = Crc16CCITtable ∧ Stm8Upgrade.Crc16CCITtable = Crc16CCITtable := by
  refine ⟨stm8_crc16_eq_bitwise, fun a b crc => List.foldl_append, fun pData => ?_, crc16CCITtable_eq⟩
  rw [stm8_crc16_eq_bitwise, crc16_eq_bitwise, readHead_crc16_eq_bitwise]
  exact ⟨rfl, rfl⟩

/-! ## Damage -/

/-- `b` is `a` with a burst of errors: the same length, other bytes, and the bits that differ are
among 16 consecutive ones. -/
structure Damaged (a b : Bytes) : Prop where
  length_eq : a.length = b.length
  ne : a ≠ b
  window : ∃ s, ∀ i, (messageBits a)[i]? ≠ (messageBits b)[i]? → s ≤ i ∧ i < s + 16

theorem messageBits_cons (c : UInt8) (pData : Bytes) :
    messageBits (c :: pData) = topBits 8 c.toBitVec ++ messageBits pData := List.flatMap_cons

theorem messageBits_length (pData : Bytes) : (messageBits pData).length = 8 * pData.length := by
  induction pData with
  | nil => rfl
  | cons c pData ih =>
    rw [messageBits_cons, List.length_append, topBits_length, ih, List.length_cons]
    omega

/-- A message is its bits. -/
theorem messageBits_inj {a b : Bytes} (hlen : a.length = b.length)
    (h : messageBits a = messageBits b) : a = b := by
  induction a generalizing b with
  | nil => exact (List.length_eq_zero_iff.mp hlen.symm).symm
  | cons x a ih =>
    match b with
    | y :: b =>
      rw [messageBits_cons, messageBits_cons] at h
      obtain ⟨hbyte, hrest⟩ := List.append_inj h (by simp)
      rw [UInt8.toBitVec_inj.mp (topBits_inj hbyte), ih (by simpa using hlen) hrest]

theorem Damaged.burst {a b : Bytes} (h : Damaged a b) : Burst 16 (messageBits a) (messageBits b) where
  length_eq := by rw [messageBits_length, messageBits_length, h.length_eq]
  ne := fun heq => h.ne (messageBits_inj h.length_eq heq)
  window := h.window

/-- A burst is found, from any initial value. -/
theorem Damaged.bitwiseCrc_ne {a b : Bytes} (h : Damaged a b) (crc : UInt16) :
    bitwiseCrc a crc ≠ bitwiseCrc b crc := by
  have hne : crcBits crcPoly crc.toBitVec (messageBits a) ≠
      crcBits crcPoly crc.toBitVec (messageBits b) := h.burst.crcBits_ne (by decide) crc.toBitVec
  exact fun heq => hne (congrArg UInt16.toBitVec heq)

theorem Damaged.crc16_ne {a b : Bytes} (h : Damaged a b) :
    Crc16CCITCalculate a ≠ Crc16CCITCalculate b := by
  rw [crc16_eq_bitwise, crc16_eq_bitwise]
  exact h.bitwiseCrc_ne 0

/-- What `read_head` prints is the record and the checksum of the data that it points to. -/
theorem read_head_eq_some_iff {arch : Arch} {after file : Bytes} {head : Head} {crc : UInt16} :
    read_head arch after file = some (head, crc) ↔
      Head.load arch (readDecl arch) (record arch after file) = head ∧
        ∃ data_buf, dataFrom arch file head.uboot_pos = some data_buf ∧ Crc16CCITCalculate data_buf = crc := by
  unfold read_head readHead
  rw [Option.map_eq_some_iff]
  constructor
  · rintro ⟨data_buf, hdata, heq⟩
    obtain ⟨rfl, rfl⟩ := Prod.mk.inj heq
    exact ⟨rfl, data_buf, hdata, rfl⟩
  · rintro ⟨rfl, data_buf, hdata, rfl⟩
    exact ⟨data_buf, hdata, rfl⟩

/-- **A burst of 16 bits is found.** The checksum of the damaged data is another one, so it is not the
one that `head_info` stores for the data, and not the one in a record that was right for them. With
the record as it was, `read_head` prints two checksums that differ. -/
theorem damage_detected {a b : Bytes} (h : Damaged a b) :
    (ReadHead.Crc16CCITCalculate a ≠ ReadHead.Crc16CCITCalculate b ∧
      Crc16CCITCalculate a ≠ Crc16CCITCalculate b ∧
      ∀ crc, Stm8Upgrade.Crc16CCITCalculate a crc ≠ Stm8Upgrade.Crc16CCITCalculate b crc) ∧
    (∀ arch argv cur_tm left file head image,
      head_info arch argv cur_tm left file = some (head, image) →
      dataFrom arch file (kib arch argv.uboot_pos) = some a →
      ReadHead.Crc16CCITCalculate b ≠ head.checksum) ∧
    (∀ arch after file head, read_head arch after file = some (head, head.checksum) →
      dataFrom arch file head.uboot_pos = some a →
      (∀ file' head' crc, read_head arch after file' = some (head', crc) →
        dataFrom arch file' head'.uboot_pos = some b → crc ≠ head.checksum) ∧
      (∀ file', record arch after file' = record arch after file →
        dataFrom arch file' head.uboot_pos = some b →
        ∃ crc, read_head arch after file' = some (head, crc) ∧ crc ≠ head.checksum)) := by
  have hcopy : ∀ pData, ReadHead.Crc16CCITCalculate pData = Crc16CCITCalculate pData := fun pData => by
    rw [readHead_crc16_eq_bitwise, crc16_eq_bitwise]
  refine ⟨⟨?_, h.crc16_ne, fun crc => ?_⟩, ?_, ?_⟩
  · rw [hcopy, hcopy]
    exact h.crc16_ne
  · rw [stm8_crc16_eq_bitwise, stm8_crc16_eq_bitwise]
    exact h.bitwiseCrc_ne crc
  · intro arch argv cur_tm left file head image hwrite hdata
    obtain ⟨data_buf, hbuf, rfl, -⟩ := head_info_eq hwrite
    obtain rfl : a = data_buf := Option.some.inj (hdata.symm.trans hbuf)
    rw [hcopy]
    exact h.crc16_ne.symm
  · intro arch after file head hread hdata
    obtain ⟨hload, data_buf, hbuf, hstored⟩ := read_head_eq_some_iff.mp hread
    obtain rfl : a = data_buf := Option.some.inj (hdata.symm.trans hbuf)
    rw [← hstored]
    refine ⟨fun file' head' crc hread' hdata' => ?_, fun file' hrecord hdata' => ?_⟩
    · obtain ⟨-, data_buf, hbuf', rfl⟩ := read_head_eq_some_iff.mp hread'
      obtain rfl : b = data_buf := Option.some.inj (hdata'.symm.trans hbuf')
      exact h.crc16_ne.symm
    · have hload' : Head.load arch (readDecl arch) (record arch after file') = head := by
        rw [hrecord]
        exact hload
      exact ⟨Crc16CCITCalculate b, read_head_eq_some_iff.mpr ⟨hload', b, hdata', rfl⟩,
        h.crc16_ne.symm⟩

/-- A record for a program with a `long` of 8 bytes, with the data behind it. -/
def smallRecord : Bytes :=
  List.replicate 72 0 ++ [0x80, 0x40] ++ List.replicate 46 0 ++ [0x21, 0x10] ++ List.replicate 6 0

/-- An image with this record and some data. -/
def recordImage (data : Bytes) : Bytes := List.replicate head_pos 0 ++ (smallRecord ++ data)

/-- The record, as it is read. -/
def smallHead : Head := Head.load ⟨true, false⟩ (readDecl ⟨true, false⟩) smallRecord

theorem record_recordImage (data : Bytes) : record ⟨true, false⟩ [] (recordImage data) = smallRecord := by
  have hsize : structSize (readDecl ⟨true, false⟩) = smallRecord.length := by decide +kernel
  have hdrop : (recordImage data).drop head_pos = smallRecord ++ data :=
    List.drop_left' List.length_replicate
  rw [record, readAt, hdrop, hsize, List.take_left, List.append_nil]

theorem dataFrom_recordImage {data : Bytes} (hpos : 0 < data.length) (hlen : data.length < 2 ^ 30) :
    dataFrom ⟨true, false⟩ (recordImage data) smallHead.uboot_pos = some data := by
  have hstart : smallHead.uboot_pos = head_pos + smallRecord.length := by decide +kernel
  have hwhole : (recordImage data).length = head_pos + smallRecord.length + data.length := by
    rw [recordImage, List.length_append, List.length_append, List.length_replicate, Nat.add_assoc]
  have hrecord : head_pos + smallRecord.length = 16512 := by decide +kernel
  rw [hstart, dataFrom_eq _ (by omega) (by omega), recordImage, ← List.append_assoc,
    List.drop_left' (by rw [List.length_append, List.length_replicate])]

theorem read_head_recordImage {data : Bytes} (hpos : 0 < data.length) (hlen : data.length < 2 ^ 30) :
    read_head ⟨true, false⟩ [] (recordImage data) = some (smallHead, Crc16CCITCalculate data) :=
  read_head_eq_some_iff.mpr ⟨by rw [record_recordImage]; rfl, data, dataFrom_recordImage hpos hlen, rfl⟩

theorem damaged_small : Damaged [1] [3] where
  length_eq := rfl
  ne := by decide
  window := by
    refine ⟨0, fun i hi => ⟨Nat.zero_le i, ?_⟩⟩
    by_contra hfar
    rw [List.getElem?_eq_none (by rw [messageBits_length]; simp; omega),
      List.getElem?_eq_none (by rw [messageBits_length]; simp; omega)] at hi
    exact hi rfl

/-- The byte 1 becomes 3. -/
theorem damage_detected_small :
    read_head ⟨true, false⟩ [] (recordImage [1]) = some (smallHead, smallHead.checksum) ∧
      ∃ crc, read_head ⟨true, false⟩ [] (recordImage [3]) = some (smallHead, crc) ∧
        crc ≠ smallHead.checksum := by
  have hread : read_head ⟨true, false⟩ [] (recordImage [1]) = some (smallHead, smallHead.checksum) :=
    (read_head_recordImage (by decide) (by decide)).trans (by decide +kernel)
  obtain ⟨-, -, hrest⟩ := damage_detected damaged_small
  exact ⟨hread, (hrest _ _ _ _ hread (dataFrom_recordImage (by decide) (by decide))).2 _
    ((record_recordImage _).trans (record_recordImage _).symm)
    (dataFrom_recordImage (by decide) (by decide))⟩

end TestCore.HeadInfo
