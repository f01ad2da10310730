/-
The header of an upgrade image: `head_info.c` writes it, `read_head.c` reads it.

An image has a record at 16 KiB: versions, positions and sizes of its three parts, a checksum of
everything from the first part on, and whether the upgrade is forced. The writer fills in a
struct, copies it to a buffer of 2 KiB and writes the buffer; the reader reads it into a
struct of its own. Each file declares the struct for itself. The declarations have the same fields,
but not in the same order: `total_version` is the last one in the writer, and the fourth in the
reader.

What was in the memory before (behind the strings, between the fields, behind the struct) is
written with the rest. It is a parameter, and so is the machine: the size of a `long` and the order
of its bytes.
-/
import TestCore.Lib.Inet
import TestCore.Lib.Struct

set_option autoImplicit false

namespace TestCore.HeadInfo

open TestCore.Lib

/-! ## The checksum -/

/-- The table, which is the same in both files. -/
def Crc16CCITtable : List UInt16 :=
  [0x0000, 0x1021, 0x2042, 0x3063, 0x4084, 0x50a5, 0x60c6, 0x70e7, 0x8108, 0x9129, 0xa14a, 0xb16b,
    0xc18c, 0xd1ad, 0xe1ce, 0xf1ef, 0x1231, 0x0210, 0x3273, 0x2252, 0x52b5, 0x4294, 0x72f7, 0x62d6,
    0x9339, 0x8318, 0xb37b, 0xa35a, 0xd3bd, 0xc39c, 0xf3ff, 0xe3de, 0x2462, 0x3443, 0x0420, 0x1401,
    0x64e6, 0x74c7, 0x44a4, 0x5485, 0xa56a, 0xb54b, 0x8528, 0x9509, 0xe5ee, 0xf5cf, 0xc5ac, 0xd58d,
    0x3653, 0x2672, 0x1611, 0x0630, 0x76d7, 0x66f6, 0x5695, 0x46b4, 0xb75b, 0xa77a, 0x9719, 0x8738,
    0xf7df, 0xe7fe, 0xd79d, 0xc7bc, 0x48c4, 0x58e5, 0x6886, 0x78a7, 0x0840, 0x1861, 0x2802, 0x3823,
    0xc9cc, 0xd9ed, 0xe98e, 0xf9af, 0x8948, 0x9969, 0xa90a, 0xb92b, 0x5af5, 0x4ad4, 0x7ab7, 0x6a96,
    0x1a71, 0x0a50, 0x3a33, 0x2a12, 0xdbfd, 0xcbdc, 0xfbbf, 0xeb9e, 0x9b79, 0x8b58, 0xbb3b, 0xab1a,
    0x6ca6, 0x7c87, 0x4ce4, 0x5cc5, 0x2c22, 0x3c03, 0x0c60, 0x1c41, 0xedae, 0xfd8f, 0xcdec, 0xddcd,
    0xad2a, 0xbd0b, 0x8d68, 0x9d49, 0x7e97, 0x6eb6, 0x5ed5, 0x4ef4, 0x3e13, 0x2e32, 0x1e51, 0x0e70,
    0xff9f, 0xefbe, 0xdfdd, 0xcffc, 0xbf1b, 0xaf3a, 0x9f59, 0x8f78, 0x9188, 0x81a9, 0xb1ca, 0xa1eb,
    0xd10c, 0xc12d, 0xf14e, 0xe16f, 0x1080, 0x00a1, 0x30c2, 0x20e3, 0x5004, 0x4025, 0x7046, 0x6067,
    0x83b9, 0x9398, 0xa3fb, 0xb3da, 0xc33d, 0xd31c, 0xe37f, 0xf35e, 0x02b1, 0x1290, 0x22f3, 0x32d2,
    0x4235, 0x5214, 0x6277, 0x7256, 0xb5ea, 0xa5cb, 0x95a8, 0x8589, 0xf56e, 0xe54f, 0xd52c, 0xc50d,
    0x34e2, 0x24c3, 0x14a0, 0x0481, 0x7466, 0x6447, 0x5424, 0x4405, 0xa7db, 0xb7fa, 0x8799, 0x97b8,
    0xe75f, 0xf77e, 0xc71d, 0xd73c, 0x26d3, 0x36f2, 0x0691, 0x16b0, 0x6657, 0x7676, 0x4615, 0x5634,
    0xd94c, 0xc96d, 0xf90e, 0xe92f, 0x99c8, 0x89e9, 0xb98a, 0xa9ab, 0x5844, 0x4865, 0x7806, 0x6827,
    0x18c0, 0x08e1, 0x3882, 0x28a3, 0xcb7d, 0xdb5c, 0xeb3f, 0xfb1e, 0x8bf9, 0x9bd8, 0xabbb, 0xbb9a,
    0x4a75, 0x5a54, 0x6a37, 0x7a16, 0x0af1, 0x1ad0, 0x2ab3, 0x3a92, 0xfd2e, 0xed0f, 0xdd6c, 0xcd4d,
    0xbdaa, 0xad8b, 0x9de8, 0x8dc9, 0x7c26, 0x6c07, 0x5c64, 0x4c45, 0x3ca2, 0x2c83, 0x1ce0, 0x0cc1,
    0xef1f, 0xff3e, 0xcf5d, 0xdf7c, 0xaf9b, 0xbfba, 0x8fd9, 0x9ff8, 0x6e17, 0x7e36, 0x4e55, 0x5e74,
    0x2e93, 0x3eb2, 0x0ed1, 0x1ef0]

/-- One round of the loop of `Crc16CCITCalculate`. -/
def crcByte (crc : UInt16) (c : UInt8) : UInt16 :=
  -- The high byte of the old value goes into the index, the low byte moves up.
  let ushort := (crc <<< 8) &&& 0xff00
  ushort ^^^ Crc16CCITtable.getD ((crc >>> 8) ^^^ c.toUInt16).toNat 0

/-- `Crc16CCITCalculate`, of fewer than 2^31 bytes: it counts them with an `int`. -/
def Crc16CCITCalculate (pData : Bytes) : UInt16 := pData.foldl crcByte 0

/-! ## Arguments -/

/-- `strtoul` of an argument, with the base 0. -/
def strtoul (arch : Arch) (s : Bytes) : ℕ :=
  let s := s.dropWhile isspace
  let (minus, s) := match s with
    | 45 :: s => (true, s)
    | 43 :: s => (false, s)
    | s => (false, s)
  let val := if s.head?.any isdigit then (Lib.strtoul s).1 else 0
  let range := 256 ^ arch.long
  -- Too great is `ULONG_MAX`, also behind a minus sign.
  if range ≤ val then range - 1 else if minus then (range - val) % range else val

/-! ## The record -/

def unit : ℕ := 1024
def head_size : ℕ := 2 * unit
def head_pos : ℕ := 16 * unit

inductive Field where
  | uboot_version
  | kernel_version
  | system_version
  | total_version
  | uboot_pos
  | kernel_pos
  | system_pos
  | uboot_size
  | kernel_size
  | system_size
  | checksum
  | force_upgrade
  deriving DecidableEq, Repr

/-- `_head_info` of `head_info.c`. -/
def writeDecl (arch : Arch) : Decl Field where
  fields :=
    [(.uboot_version, 16, 1), (.kernel_version, 16, 1), (.system_version, 16, 1),
      (.uboot_pos, arch.long, arch.long), (.kernel_pos, arch.long, arch.long),
      (.system_pos, arch.long, arch.long), (.uboot_size, arch.long, arch.long),
      (.kernel_size, arch.long, arch.long), (.system_size, arch.long, arch.long),
      (.checksum, 2, 2), (.force_upgrade, 1, 1), (.total_version, 20, 1)]
  align_pos := by simp [arch.long_pos]

/-- `_head_info` of `read_head.c`, and of `upgrade_head.c`. -/
def readDecl (arch : Arch) : Decl Field where
  fields :=
    [(.uboot_version, 16, 1), (.kernel_version, 16, 1), (.system_version, 16, 1),
      (.total_version, 20, 1),
      (.uboot_pos, arch.long, arch.long), (.kernel_pos, arch.long, arch.long),
      (.system_pos, arch.long, arch.long), (.uboot_size, arch.long, arch.long),
      (.kernel_size, arch.long, arch.long), (.system_size, arch.long, arch.long),
      (.checksum, 2, 2), (.force_upgrade, 1, 1)]
  align_pos := by simp [arch.long_pos]

/-- The values of a record. -/
structure Head where
  uboot_version : Bytes
  kernel_version : Bytes
  system_version : Bytes
  total_version : Bytes
  uboot_pos : ℕ
  kernel_pos : ℕ
  system_pos : ℕ
  uboot_size : ℕ
  kernel_size : ℕ
  system_size : ℕ
  checksum : UInt16
  force_upgrade : Bool
  deriving DecidableEq, Repr

/-- What is stored to a field. A string comes with its terminator. -/
def Head.bytes (arch : Arch) (head : Head) : Field → Bytes
  | .uboot_version => head.uboot_version ++ [0]
  | .kernel_version => head.kernel_version ++ [0]
  | .system_version => head.system_version ++ [0]
  | .total_version => head.total_version ++ [0]
  | .uboot_pos => arch.bytes arch.long head.uboot_pos
  | .kernel_pos => arch.bytes arch.long head.kernel_pos
  | .system_pos => arch.bytes arch.long head.system_pos
  | .uboot_size => arch.bytes arch.long head.uboot_size
  | .kernel_size => arch.bytes arch.long head.kernel_size
  | .system_size => arch.bytes arch.long head.system_size
  | .checksum => arch.bytes 2 head.checksum.toNat
  | .force_upgrade => [if head.force_upgrade then 1 else 0]

/-- The order of the stores in `main` of `head_info.c`. -/
def storeOrder : List Field :=
  [.total_version, .uboot_version, .uboot_pos, .uboot_size, .kernel_version, .kernel_pos, .kernel_size,
    .system_version, .system_pos, .system_size, .force_upgrade, .checksum]

/-- A record that is declared in some way, in a memory. -/
def Head.load (arch : Arch) (decl : Decl Field) (mem : Bytes) : Head where
  uboot_version := cstr (mem.drop (offset decl .uboot_version))
  kernel_version := cstr (mem.drop (offset decl .kernel_version))
  system_version := cstr (mem.drop (offset decl .system_version))
  total_version := cstr (mem.drop (offset decl .total_version))
  uboot_pos := arch.val (readAt mem (offset decl .uboot_pos) arch.long)
  kernel_pos := arch.val (readAt mem (offset decl .kernel_pos) arch.long)
  system_pos := arch.val (readAt mem (offset decl .system_pos) arch.long)
  uboot_size := arch.val (readAt mem (offset decl .uboot_size) arch.long)
  kernel_size := arch.val (readAt mem (offset decl .kernel_size) arch.long)
  system_size := arch.val (readAt mem (offset decl .system_size) arch.long)
  checksum := UInt16.ofNat (arch.val (readAt mem (offset decl .checksum) 2))
  force_upgrade := readAt mem (offset decl .force_upgrade) 1 ≠ [0]

/-! ## The two programs -/

/-- `struct tm`. -/
structure Tm where
  tm_year : ℤ
  tm_mon : Fin 12
  tm_mday : Fin 32
  tm_hour : Fin 24

/-- `get_system_time`: `"%d-%02d-%02d %02d:00"`, cut by `snprintf`. -/
def get_system_time (cur_tm : Tm) : Bytes :=
  (decInt (cur_tm.tm_year + 1900) ++ (45 :: digitText (two (cur_tm.tm_mon.val + 1)) ++
    (45 :: digitText (two cur_tm.tm_mday.val) ++ (32 :: digitText (two cur_tm.tm_hour.val) ++
      [58, 48, 48])))).take 19

/-- The arguments 1 to 10. -/
structure Args where
  uboot_version : Bytes
  uboot_pos : Bytes
  uboot_size : Bytes
  kernel_version : Bytes
  kernel_pos : Bytes
  kernel_size : Bytes
  system_version : Bytes
  system_pos : Bytes
  system_size : Bytes
  force_upgrade : Bytes

/-- A position or a size: `strtoul(argv[i],NULL,0)*unit`. -/
def kib (arch : Arch) (s : Bytes) : ℕ := strtoul arch s * unit % 256 ^ arch.long

/-- The part of the file that is summed up. `file_size` is an `int` and `data_size` an `unsigned
long`: there is no result when these do not give a part of the file. -/
def dataFrom (arch : Arch) (file : Bytes) (data_start_pos : ℕ) : Option Bytes :=
  -- `st_size`, stored in an `int`.
  let file_size := Int.bmod file.length (2 ^ 32)
  let data_size := ((file_size - data_start_pos) % 256 ^ arch.long).toNat
  if data_size ≤ (file.drop data_start_pos).length ∧ data_size < 2 ^ 31 then
    some ((file.drop data_start_pos).take data_size)
  else none

/-- The record that `main` of `head_info.c` fills in. -/
def headOf (arch : Arch) (argv : Args) (cur_tm : Tm) (data_buf : Bytes) : Head where
  uboot_version := argv.uboot_version
  kernel_version := argv.kernel_version
  system_version := argv.system_version
  total_version := get_system_time cur_tm
  uboot_pos := kib arch argv.uboot_pos
  kernel_pos := kib arch argv.kernel_pos
  system_pos := kib arch argv.system_pos
  uboot_size := kib arch argv.uboot_size
  kernel_size := kib arch argv.kernel_size
  system_size := kib arch argv.system_size
  checksum := Crc16CCITCalculate data_buf
  force_upgrade := strtoul arch argv.force_upgrade ≠ 0

/-- `info_buf`, with the record. `left` is what was in its memory, and in that of the struct. -/
def infoBuf (arch : Arch) (head : Head) (left : Fin head_size → UInt8) : Bytes :=
  storeAll (writeDecl arch) (head.bytes arch) storeOrder (List.ofFn left)

/-- `main` of `head_info.c`: the record, and the file with it. -/
def head_info (arch : Arch) (argv : Args) (cur_tm : Tm) (left : Fin head_size → UInt8) (file : Bytes) :
    Option (Head × Bytes) :=
  (dataFrom arch file (kib arch argv.uboot_pos)).map fun data_buf =>
    let head := headOf arch argv cur_tm data_buf
    (head, writeAt file head_pos (infoBuf arch head left))

/-- `main` of `read_head.c`, with some declaration of the record: what is read, and the checksum of
the file. `after` is the memory behind the record. -/
def readHead (decl : Decl Field) (arch : Arch) (after : Bytes) (file : Bytes) : Option (Head × UInt16) :=
  let head := Head.load arch decl (readAt file head_pos (structSize decl) ++ after)
  (dataFrom arch file head.uboot_pos).map fun data_buf => (head, Crc16CCITCalculate data_buf)

def read_head (arch : Arch) : Bytes → Bytes → Option (Head × UInt16) := readHead (readDecl arch) arch

/-- What the tool asks of its arguments. -/
structure Accepted (arch : Arch) (argv : Args) (file : Bytes) : Prop where
  uboot_version : NulFree argv.uboot_version ∧ argv.uboot_version.length ≤ 15
  kernel_version : NulFree argv.kernel_version ∧ argv.kernel_version.length ≤ 15
  system_version : NulFree argv.system_version ∧ argv.system_version.length ≤ 15
  uboot_pos_ge : 18 * unit ≤ kib arch argv.uboot_pos
  uboot_pos_lt : kib arch argv.uboot_pos < file.length

/-- A reader gets the record that the writer wrote, and the checksum in it. -/
def RoundTrip (arch : Arch) (reader : Bytes → Bytes → Option (Head × UInt16)) (argv : Args) (cur_tm : Tm)
    (left : Fin head_size → UInt8) (after file : Bytes) : Prop :=
  ∃ head file', head_info arch argv cur_tm left file = some (head, file') ∧
    reader after file' = some (head, head.checksum)

/-! ## The layout -/

theorem mem_writeDecl (arch : Arch) (f : Field) : f ∈ (writeDecl arch).fields.map Prod.fst := by
  cases f <;> simp [writeDecl]

theorem writeDecl_room (arch : Arch) (f : Field) :
    offset (writeDecl arch) f + fieldSize (writeDecl arch) f ≤ structSize (writeDecl arch) := by
  obtain ⟨long64, bigEndian⟩ := arch
  cases long64 <;> cases bigEndian <;> cases f <;> decide

theorem structSize_writeDecl (arch : Arch) : structSize (writeDecl arch) ≤ head_size := by
  obtain ⟨long64, bigEndian⟩ := arch
  cases long64 <;> cases bigEndian <;> decide

/-- Where the reader looks for the version of the image, the writer has put a position. -/
theorem offset_total_version (arch : Arch) :
    offset (readDecl arch) .total_version = offset (writeDecl arch) .uboot_pos ∧
      offset (writeDecl arch) .uboot_pos + arch.long ≤ structSize (readDecl arch) ∧
        structSize (readDecl arch) ≤ head_size := by
  obtain ⟨long64, bigEndian⟩ := arch
  cases long64 <;> cases bigEndian <;> decide

theorem get_system_time_length (cur_tm : Tm) :
    8 < (get_system_time cur_tm).length ∧ (get_system_time cur_tm).length ≤ 19 := by
  have hyear := decInt_length_pos (cur_tm.tm_year + 1900)
  unfold get_system_time
  simp only [List.length_take, List.length_append, List.length_cons, digitText_length, two, List.length_nil]
  omega

/-! ## What is in the file -/

/-- Strings and numbers that the fields of the record have room for. -/
structure Head.Fits (arch : Arch) (head : Head) : Prop where
  uboot_version : head.uboot_version.length ≤ 15
  kernel_version : head.kernel_version.length ≤ 15
  system_version : head.system_version.length ≤ 15
  total_version : head.total_version.length ≤ 19

theorem fits_writeDecl {arch : Arch} {head : Head} (h : head.Fits arch) {mem : Bytes}
    (hmem : head_size ≤ mem.length) : Lib.Fits (writeDecl arch) (head.bytes arch) mem := by
  refine ⟨mem_writeDecl arch, ?_, ?_⟩
  · obtain ⟨h1, h2, h3, h4⟩ := h
    intro f
    have hstring : ∀ {v : Bytes} {n : ℕ}, v.length ≤ n → (v ++ [0]).length ≤ n + 1 := by
      intro v n hv
      rw [List.length_append]
      exact Nat.succ_le_succ hv
    cases f with
    | uboot_version => exact hstring h1
    | kernel_version => exact hstring h2
    | system_version => exact hstring h3
    | total_version => exact hstring h4
    | checksum => exact (arch.bytes_length 2 _).le
    | force_upgrade => exact le_rfl
    | _ => exact (arch.bytes_length arch.long _).le
  · intro f
    have hroom := writeDecl_room arch f
    have hsize := structSize_writeDecl arch
    omega

theorem mem_storeOrder (f : Field) : f ∈ storeOrder := by
  cases f <;> decide

theorem infoBuf_length {arch : Arch} {head : Head} (h : head.Fits arch) (left : Fin head_size → UInt8) :
    (infoBuf arch head left).length = head_size := by
  unfold infoBuf
  rw [storeAll_length (fits_writeDecl h (by rw [List.length_ofFn])), List.length_ofFn]

theorem readAt_infoBuf {arch : Arch} {head : Head} (h : head.Fits arch) (left : Fin head_size → UInt8)
    (f : Field) :
    readAt (infoBuf arch head left) (offset (writeDecl arch) f) (head.bytes arch f).length
      = head.bytes arch f :=
  readAt_storeAll (fits_writeDecl h (by rw [List.length_ofFn])) (mem_storeOrder f)

/-- A part of the record in the file is the part of the buffer. -/
theorem readAt_record {file buf : Bytes} (after : Bytes) (hbuf : buf.length = head_size)
    (hfile : head_pos + head_size ≤ file.length) {size i n : ℕ} (hsize : size ≤ head_size)
    (hin : i + n ≤ size) :
    readAt (readAt (writeAt file head_pos buf) head_pos size ++ after) i n = readAt buf i n := by
  have hwhole : readAt (writeAt file head_pos buf) head_pos head_size = buf := by
    rw [← hbuf]
    exact readAt_writeAt (by omega)
  have hpart : readAt (writeAt file head_pos buf) head_pos size = buf.take size := by
    conv_rhs => rw [← hwhole]
    unfold readAt
    rw [List.take_take, min_eq_left hsize]
  have htake : (buf.take size).length = size := List.length_take_of_le (by omega)
  rw [hpart]
  unfold readAt
  rw [List.drop_append_of_le_length (by omega), List.take_append_of_le_length (by rw [List.length_drop]; omega),
    List.drop_take, List.take_take, min_eq_left (by omega)]

theorem kib_mod (arch : Arch) (s : Bytes) : kib arch s % 256 = 0 := by
  have hunit : 256 ∣ strtoul arch s * unit := ⟨strtoul arch s * 4, by unfold unit; ring⟩
  have hlong : 256 ∣ 256 ^ arch.long := dvd_pow_self 256 arch.long_pos.ne'
  unfold kib
  exact Nat.mod_eq_zero_of_dvd ((Nat.dvd_mod_iff hlong).mpr hunit)

theorem head_info_eq {arch : Arch} {argv : Args} {cur_tm : Tm} {left : Fin head_size → UInt8}
    {file file' : Bytes} {head : Head} (h : head_info arch argv cur_tm left file = some (head, file')) :
    ∃ data_buf, dataFrom arch file (kib arch argv.uboot_pos) = some data_buf ∧
      head = headOf arch argv cur_tm data_buf ∧ file' = writeAt file head_pos (infoBuf arch head left) := by
  unfold head_info at h
  obtain ⟨data_buf, hdata, hhead⟩ := Option.map_eq_some_iff.mp h
  obtain ⟨rfl, rfl⟩ := Prod.mk.inj hhead
  exact ⟨data_buf, hdata, rfl, rfl⟩

theorem Accepted.fits {arch : Arch} {argv : Args} {file : Bytes} (h : Accepted arch argv file) (cur_tm : Tm)
    (data_buf : Bytes) : (headOf arch argv cur_tm data_buf).Fits arch :=
  ⟨h.uboot_version.2, h.kernel_version.2, h.system_version.2, (get_system_time_length cur_tm).2⟩

/-! ## The version of the image -/

/-- The memory of the reader's struct. -/
def record (arch : Arch) (after file : Bytes) : Bytes :=
  readAt file head_pos (structSize (readDecl arch)) ++ after

theorem Accepted.length_le {arch : Arch} {argv : Args} {file : Bytes} (h : Accepted arch argv file) :
    head_pos + head_size ≤ file.length := by
  have hge : 18 * 1024 ≤ kib arch argv.uboot_pos := h.uboot_pos_ge
  have hlt := h.uboot_pos_lt
  show 16 * 1024 + 2 * 1024 ≤ file.length
  omega

/-- The reader has the position of the first part where it looks for the version of the image. -/
theorem record_total_version {arch : Arch} {head : Head} (hfits : head.Fits arch) {file : Bytes}
    (hfile : head_pos + head_size ≤ file.length) (left : Fin head_size → UInt8) (after : Bytes) :
    readAt (record arch after (writeAt file head_pos (infoBuf arch head left)))
      (offset (readDecl arch) .total_version) arch.long = arch.bytes arch.long head.uboot_pos := by
  obtain ⟨hoff, hend, hsize⟩ := offset_total_version arch
  have hbuf := infoBuf_length hfits left
  have hrecord := readAt_record after hbuf hfile hsize hend
  have hfield := readAt_infoBuf hfits left .uboot_pos
  have hlen : (head.bytes arch .uboot_pos).length = arch.long := arch.bytes_length _ _
  rw [hlen] at hfield
  rw [hoff]
  exact hrecord.trans hfield

/-- **The reader takes the position of the first part for the version of the image**, and so never
gets the version that was written. -/
theorem total_version_lost {arch : Arch} {argv : Args} {file : Bytes} (hacc : Accepted arch argv file)
    (cur_tm : Tm) (data_buf : Bytes) (left : Fin head_size → UInt8) (after : Bytes) :
    cstr ((record arch after (writeAt file head_pos
      (infoBuf arch (headOf arch argv cur_tm data_buf) left))).drop (offset (readDecl arch) .total_version))
        ≠ get_system_time cur_tm := by
  intro hload
  -- One of the bytes of the position is a zero, so the string is shorter than a time.
  have hzero : 0 ∈ arch.bytes arch.long (headOf arch argv cur_tm data_buf).uboot_pos :=
    arch.zero_mem_bytes arch.long_pos (kib_mod arch argv.uboot_pos)
  rw [← record_total_version (hacc.fits cur_tm data_buf) hacc.length_le left after] at hzero
  have hshort := cstr_length_lt hzero
  have hlong : arch.long ≤ 8 := by
    unfold Arch.long
    split <;> decide
  have htimelen := (get_system_time_length cur_tm).1
  rw [hload] at hshort
  exact absurd (hshort.trans_le hlong) (Nat.not_lt_of_gt htimelen)

theorem readHead_load {decl : Decl Field} {arch : Arch} {after file : Bytes} {head : Head} {crc : UInt16}
    (h : readHead decl arch after file = some (head, crc)) :
    Head.load arch decl (readAt file head_pos (structSize decl) ++ after) = head := by
  unfold readHead at h
  obtain ⟨data, -, hhead⟩ := Option.map_eq_some_iff.mp h
  exact (Prod.mk.inj hhead).1

theorem load_total_version (arch : Arch) (decl : Decl Field) (mem : Bytes) :
    (Head.load arch decl mem).total_version = cstr (mem.drop (offset decl .total_version)) := rfl

/-- **No record is read back as it was written.** -/
theorem no_round_trip {arch : Arch} {argv : Args} {file : Bytes} (hacc : Accepted arch argv file)
    (cur_tm : Tm) (left : Fin head_size → UInt8) (after : Bytes) :
    ¬ RoundTrip arch (read_head arch) argv cur_tm left after file := by
  rintro ⟨head, file', hwrite, hread⟩
  obtain ⟨data_buf, -, rfl, rfl⟩ := head_info_eq hwrite
  have hload := congrArg Head.total_version (readHead_load hread)
  rw [load_total_version] at hload
  exact total_version_lost hacc cur_tm data_buf left after hload

/-- An image of zeros, and the arguments for it. -/
def smallArgs : Args where
  uboot_version := bytes "2019.04"
  uboot_pos := bytes "18"
  uboot_size := bytes "1"
  kernel_version := bytes "4.14.98"
  kernel_pos := bytes "19"
  kernel_size := bytes "0x1"
  system_version := bytes "1.0.3"
  system_pos := bytes "19"
  system_size := bytes "0"
  force_upgrade := bytes "0"

def smallImage : Bytes := List.replicate 20000 0

theorem accepted_small : Accepted ⟨true, false⟩ smallArgs smallImage where
  uboot_version := by decide
  kernel_version := by decide
  system_version := by decide
  uboot_pos_ge := by decide
  uboot_pos_lt := by
    unfold smallImage
    rw [List.length_replicate]
    decide

/-- 2021-01-04 10:00. -/
def newYear : Tm where
  tm_year := 121
  tm_mon := 0
  tm_mday := 4
  tm_hour := 10

theorem no_round_trip_small :
    Accepted ⟨true, false⟩ smallArgs smallImage ∧
      ¬ RoundTrip ⟨true, false⟩ (read_head ⟨true, false⟩) smallArgs newYear (fun _ => 0) [] smallImage :=
  ⟨accepted_small, no_round_trip accepted_small newYear (fun _ => 0) []⟩

/-- The version that was written is the time, and what the reader has is no time. -/
theorem small_image_version_lost :
    Accepted ⟨true, false⟩ smallArgs smallImage ∧
      get_system_time newYear = bytes "2021-01-04 10:00" ∧
        ¬ RoundTrip ⟨true, false⟩ (read_head ⟨true, false⟩) smallArgs newYear (fun _ => 0) [] smallImage := by
  refine ⟨accepted_small, by decide, ?_⟩
  rintro ⟨head, file', hwrite, hread⟩
  obtain ⟨data_buf, -, rfl, rfl⟩ := head_info_eq hwrite
  have hload := congrArg Head.total_version (readHead_load hread)
  rw [load_total_version] at hload
  exact total_version_lost accepted_small newYear data_buf (fun _ => 0) [] hload

/-! ## With one declaration

The order of the fields is all that is in the way. A reader that declares the record as the writer
does gets everything back. -/

theorem kib_lt (arch : Arch) (s : Bytes) : kib arch s < 256 ^ arch.long :=
  Nat.mod_lt _ (by positivity)

theorem cstr_of_readAt {mem v : Bytes} (hv : NulFree v) {i : ℕ}
    (h : readAt mem i (v ++ [0]).length = v ++ [0]) : cstr (mem.drop i) = v := by
  unfold readAt at h
  have hsplit : mem.drop i = v ++ [0] ++ (mem.drop i).drop (v ++ [0]).length := by
    conv_lhs => rw [← List.take_append_drop (v ++ [0]).length (mem.drop i), h]
  rw [hsplit, List.append_assoc, cstr_append hv]
  simp

/-- The part of the file that is summed up is the rest of it. -/
theorem dataFrom_eq (arch : Arch) {file : Bytes} {pos : ℕ} (hpos : pos < file.length)
    (hlen : file.length < 2 ^ 31) : dataFrom arch file pos = some (file.drop pos) := by
  have hrange : 2 ^ 32 ≤ 256 ^ arch.long := by
    unfold Arch.long
    split <;> norm_num
  have hsize : Int.bmod file.length (2 ^ 32) = file.length := by
    rw [Int.bmod_def]
    split_ifs
    · omega
    · omega
  have hdata : (((file.length : ℤ) - pos) % 256 ^ arch.long).toNat = file.length - pos := by
    have hcast : ((file.length : ℤ) - pos) = ((file.length - pos : ℕ) : ℤ) := by omega
    have hmod : (((file.length - pos : ℕ) : ℤ) % 256 ^ arch.long)
        = ((file.length - pos) % 256 ^ arch.long : ℕ) := by push_cast; rfl
    rw [hcast, hmod, Int.toNat_natCast, Nat.mod_eq_of_lt (by omega)]
  unfold dataFrom
  rw [hsize]
  dsimp only
  rw [hdata, if_pos ⟨by rw [List.length_drop], by omega⟩, ← List.length_drop, List.take_length]

theorem nulFree_get_system_time (cur_tm : Tm) : NulFree (get_system_time cur_tm) := by
  have hdec : ∀ n, NulFree (dec n) := by
    rintro n c hc rfl
    exact absurd (mem_dec hc) (by decide)
  have hint : ∀ z, NulFree (decInt z) := by
    intro z
    unfold decInt
    split_ifs
    · rintro c hc rfl
      rcases List.mem_cons.mp hc with h | h
      · exact absurd h (by decide)
      · exact hdec _ 0 h rfl
    · exact hdec _
  have hmark : ∀ {c : UInt8} {ds : List ℕ}, c ≠ 0 → Digits ds → NulFree (c :: digitText ds) := by
    rintro c ds hc hds e he rfl
    rcases List.mem_cons.mp he with h | h
    · exact hc h.symm
    · exact absurd (mem_digitText hds h) (by decide)
  have hmon := cur_tm.tm_mon.isLt
  have hmday := cur_tm.tm_mday.isLt
  have hhour := cur_tm.tm_hour.isLt
  refine NulFree.take ?_ 19
  refine (hint _).append ((hmark (by decide) (digits_two (by omega))).append
    ((hmark (by decide) (digits_two (by omega))).append ((hmark (by decide) (digits_two (by omega))).append ?_)))
  simp [NulFree]

/-- A memory that has the values of a record at their places is read as this record. -/
theorem load_of_readAt {arch : Arch} {argv : Args} {file : Bytes} (hacc : Accepted arch argv file)
    (cur_tm : Tm) (data_buf : Bytes) {decl : Decl Field} {mem : Bytes}
    (h : ∀ f, readAt mem (offset decl f) ((headOf arch argv cur_tm data_buf).bytes arch f).length
      = (headOf arch argv cur_tm data_buf).bytes arch f) :
    Head.load arch decl mem = headOf arch argv cur_tm data_buf := by
  -- A number is read back from its bytes.
  have hnum : ∀ {i n : ℕ}, n < 256 ^ arch.long →
      readAt mem i (arch.bytes arch.long n).length = arch.bytes arch.long n →
      arch.val (readAt mem i arch.long) = n := by
    intro i n hn hread
    rw [arch.bytes_length] at hread
    rw [hread, arch.val_bytes hn]
  unfold Head.load headOf
  congr 1
  · exact cstr_of_readAt hacc.uboot_version.1 (h .uboot_version)
  · exact cstr_of_readAt hacc.kernel_version.1 (h .kernel_version)
  · exact cstr_of_readAt hacc.system_version.1 (h .system_version)
  · exact cstr_of_readAt (nulFree_get_system_time cur_tm) (h .total_version)
  · exact hnum (kib_lt _ _) (h .uboot_pos)
  · exact hnum (kib_lt _ _) (h .kernel_pos)
  · exact hnum (kib_lt _ _) (h .system_pos)
  · exact hnum (kib_lt _ _) (h .uboot_size)
  · exact hnum (kib_lt _ _) (h .kernel_size)
  · exact hnum (kib_lt _ _) (h .system_size)
  · have hcrc := h .checksum
    change readAt mem _ (arch.bytes 2 (Crc16CCITCalculate data_buf).toNat).length
      = arch.bytes 2 (Crc16CCITCalculate data_buf).toNat at hcrc
    have hlt : (Crc16CCITCalculate data_buf).toNat < 256 ^ 2 := UInt16.toNat_lt _
    rw [arch.bytes_length] at hcrc
    rw [hcrc, arch.val_bytes hlt, UInt16.ofNat_toNat]
  · have hforce := h .force_upgrade
    change readAt mem _ 1 = [if decide (strtoul arch argv.force_upgrade ≠ 0) = true then 1 else 0] at hforce
    rw [hforce]
    by_cases hzero : strtoul arch argv.force_upgrade = 0
    · simp [hzero]
    · simp [hzero]

/-- The record lies before the part of the file that is summed up. -/
theorem drop_writeAt {file buf : Bytes} {i pos : ℕ} (hin : i + buf.length ≤ file.length)
    (hpos : i + buf.length ≤ pos) : (writeAt file i buf).drop pos = file.drop pos := by
  have hpart := readAt_writeAt_of_disjoint (n := file.length) hin (Or.inr hpos)
  unfold readAt at hpart
  rw [List.take_of_length_le, List.take_of_length_le] at hpart
  · exact hpart
  · rw [List.length_drop]
    omega
  · rw [List.length_drop, writeAt_length hin]
    omega

/-- **With one declaration for both, every record is read back as it was written.** -/
theorem round_trip_same_decl {arch : Arch} {argv : Args} {file : Bytes} (hacc : Accepted arch argv file)
    (hlen : file.length < 2 ^ 31) (cur_tm : Tm) (left : Fin head_size → UInt8) (after : Bytes) :
    RoundTrip arch (readHead (writeDecl arch) arch) argv cur_tm left after file := by
  have hdata := dataFrom_eq arch hacc.uboot_pos_lt hlen
  set head := headOf arch argv cur_tm (file.drop (kib arch argv.uboot_pos)) with hhead
  have hfits : head.Fits arch := hacc.fits cur_tm _
  have hbuf := infoBuf_length hfits left
  refine ⟨head, writeAt file head_pos (infoBuf arch head left), ?_, ?_⟩
  · unfold head_info
    rw [hdata]
    rfl
  · have hload : Head.load arch (writeDecl arch)
        (readAt (writeAt file head_pos (infoBuf arch head left)) head_pos (structSize (writeDecl arch)) ++ after)
          = head := by
      refine load_of_readAt hacc cur_tm _ ?_
      intro f
      have hmem : head_size ≤ (List.ofFn left).length := by rw [List.length_ofFn]
      have hsize := (fits_writeDecl hfits hmem).size f
      have hroom := writeDecl_room arch f
      have hrecord := readAt_record after hbuf hacc.length_le (structSize_writeDecl arch)
        ((Nat.add_le_add_left hsize _).trans hroom)
      exact hrecord.trans (readAt_infoBuf hfits left f)
    have hfile : dataFrom arch (writeAt file head_pos (infoBuf arch head left)) (kib arch argv.uboot_pos)
        = some (file.drop (kib arch argv.uboot_pos)) := by
      have hin : head_pos + (infoBuf arch head left).length ≤ file.length := by
        rw [hbuf]
        exact hacc.length_le
      have hpos : head_pos + (infoBuf arch head left).length ≤ kib arch argv.uboot_pos := by
        rw [hbuf]
        exact hacc.uboot_pos_ge
      rw [dataFrom_eq arch (by rw [writeAt_length hin]; exact hacc.uboot_pos_lt) (by rw [writeAt_length hin]; exact hlen),
        drop_writeAt hin hpos]
    unfold readHead
    dsimp only
    rw [hload]
    change (dataFrom arch _ (kib arch argv.uboot_pos)).map _ = _
    rw [hfile]
    rfl

end TestCore.HeadInfo
