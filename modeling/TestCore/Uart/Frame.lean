/-
The serial protocol of `uart_io_test.c`: `uart_tx` builds a frame, `uart_rx` takes one apart.

A frame is a head of three bytes, the device id, the command and the length, both lowest byte
first, the payload, and a checksum over everything after the head. The two functions count
through their buffers each for itself, the sender with one index over the frame as it grows,
the receiver with another one over what `read` put into its buffer.

Two things the source leaves to the compiler are fixed here. The two `index++` in
`rx_buf[index++]|(rx_buf[index++]<<8)` are taken from left to right. And a frame whose length
field sends the receiver out of its buffers has no result (`none`).
-/
import TestCore.Lib.Wire

set_option autoImplicit false

namespace TestCore.Uart

open TestCore.Lib

/-! ## The protocol -/

def UART_DATA_BUFF_LEN : ℕ := 128
def UART_PROTOCOL_LEN : ℕ := 9
def UART_PAYLOAD_OFFSET : ℕ := 8

def HEAD_1 : UInt8 := 0x21
def HEAD_2 : UInt8 := 0x50
def HEAD_3 : UInt8 := 0x53

def AD_DATE_PRE_LEN : ℕ := 3
def MAX_AD_CHANNEL_ID : ℕ := 8
def AD_DETECT_ACK : UInt16 := 0x8001
def AD_OUTPUT_LEV_CONF_UART1_ACK : UInt16 := 0x8002

/-- `ImxPackageInfo_t`. -/
structure ImxPackageInfo where
  id : UInt8
  command : UInt16
  Length : UInt16
  deriving DecidableEq, Repr

/-- An entry of `ad_data`. -/
structure AdDate where
  ad_channel_id : UInt8
  channel_val : UInt16
  deriving DecidableEq, Repr

/-- `UART_RX_STATUS_EM`. -/
inductive RxStatus where
  | init
  | date_invail
  | date_empty
  | done
  deriving DecidableEq, Repr

/-- `ad_data` at the start: the eight channels, and the entry that ends the table. -/
def ad_data : List AdDate :=
  [⟨0, 0⟩, ⟨1, 0⟩, ⟨2, 0⟩, ⟨3, 0⟩, ⟨4, 0⟩, ⟨5, 0⟩, ⟨6, 0⟩, ⟨7, 0⟩, ⟨0xff, 0xffff⟩]

/-- `cal_imx_package_checksum`: the two's complement of the sum. -/
def cal_imx_package_checksum (pData : Bytes) (nDataLen : ℕ) : UInt8 :=
  ~~~ ((pData.take nDataLen).foldl (· + ·) 0) + 1

/-! ## Sending -/

/-- The eight bytes before the payload. -/
def frameHead (stPackageInfo : ImxPackageInfo) : Bytes :=
  [HEAD_1, HEAD_2, HEAD_3, stPackageInfo.id,
    (stPackageInfo.command &&& 0xFF).toUInt8, ((stPackageInfo.command >>> 8) &&& 0xFF).toUInt8,
    (stPackageInfo.Length &&& 0xFF).toUInt8, ((stPackageInfo.Length >>> 8) &&& 0xFF).toUInt8]

/-- `uart_tx`: what it hands to `write`. A length of more than 128 is cut for the copy, not for
`write`, which then reads on into the memory `behind` the buffer. -/
def uart_tx (behind : Bytes) (stPackageInfo : ImxPackageInfo) (pData : Bytes) : Bytes :=
  let u8Uart1TxBuf := List.replicate (UART_DATA_BUFF_LEN + UART_PROTOCOL_LEN) 0
  let u8Uart1TxBuf := writeAt u8Uart1TxBuf 0 (frameHead stPackageInfo)
  let u8Index := 8
  -- The copy is cut to the buffer, the length in the frame is not.
  let copied := if 128 < stPackageInfo.Length.toNat then 128 else stPackageInfo.Length.toNat
  let u8Uart1TxBuf := writeAt u8Uart1TxBuf u8Index (pData.take copied)
  let u8Index := u8Index + copied
  let u8Data := cal_imx_package_checksum (u8Uart1TxBuf.drop 3) (u8Index - 3)
  let u8Uart1TxBuf := writeAt u8Uart1TxBuf u8Index [u8Data]
  (u8Uart1TxBuf ++ behind).take (UART_PAYLOAD_OFFSET + stPackageInfo.Length.toNat + 1)

/-! ## Receiving -/

/-- One record of three bytes of `ad_data_handle`: the inner loop over the channels. -/
def adStore (ad_data : List AdDate) (id lo hi : UInt8) : List AdDate :=
  ad_data.mapIdx fun j a =>
    if j < MAX_AD_CHANNEL_ID ∧ a.ad_channel_id = id then
      { a with channel_val := hi.toUInt16 <<< 8 ||| lo.toUInt16 }
    else a

/-- `ad_data_handle`, with `i` records left. -/
def ad_data_handle (ad_data : List AdDate) (rx_data : Bytes) : ℕ → List AdDate × RxStatus
  | 0 => (ad_data, .done)
  | i + 1 =>
      let id := rx_data.getD 0 0
      -- The channel 8 passes this test and is in no row that is looked at.
      if MAX_AD_CHANNEL_ID < id.toNat then (ad_data, .date_invail)
      else
        ad_data_handle (adStore ad_data id (rx_data.getD 1 0) (rx_data.getD 2 0))
          (rx_data.drop AD_DATE_PRE_LEN) i

def uart_rx_protocol_process (ad_data : List AdDate) (rx_date : Bytes)
    (rx_packinfo : ImxPackageInfo) : List AdDate × RxStatus :=
  if rx_packinfo.command = AD_DETECT_ACK then
    ad_data_handle ad_data rx_date (rx_packinfo.Length.toNat / AD_DATE_PRE_LEN)
  else if rx_packinfo.command = AD_OUTPUT_LEV_CONF_UART1_ACK then (ad_data, .done)
  else (ad_data, .date_invail)

/-- What `uart_rx` makes of the bytes of one `read`. -/
inductive Received where
  /-- `read` failed: the one that is made, since the timeout is reached with it. -/
  | empty
  /-- The head is not there. -/
  | head
  | checksum
  /-- A package is handed to `uart_rx_protocol_process`. -/
  | package (rx_packinfo : ImxPackageInfo) (rx_date_buf : Bytes)
  deriving DecidableEq, Repr

/-- `rx_packinfo`, from the five bytes after the head. -/
def rx_packinfo (rx_buf : Bytes) : ImxPackageInfo where
  id := rx_buf.getD 3 0
  command := (rx_buf.getD 4 0).toUInt16 ||| ((rx_buf.getD 5 0).toUInt16 <<< 8)
  Length := (rx_buf.getD 6 0).toUInt16 ||| ((rx_buf.getD 7 0).toUInt16 <<< 8)

/-- The head, the fields and the checksum of what is in `rx_buf`. -/
def uart_rx_parse (rx_buf : Bytes) : Option Received :=
  if rx_buf.getD 0 0 = HEAD_1 ∧ rx_buf.getD 1 0 = HEAD_2 ∧ rx_buf.getD 2 0 = HEAD_3 then
    let rx_packinfo := rx_packinfo rx_buf
    let index := 8 + rx_packinfo.Length.toNat
    -- From here on the source would read and write behind its buffers.
    if UART_DATA_BUFF_LEN ≤ index then none
    else
      let rx_date_buf := writeAt (List.replicate UART_DATA_BUFF_LEN 0) 0
        ((rx_buf.drop 8).take rx_packinfo.Length.toNat)
      let check_sum := cal_imx_package_checksum (rx_buf.drop 3) (index - 3)
      if check_sum = rx_buf.getD index 0 then some (.package rx_packinfo rx_date_buf)
      else some .checksum
  else some .head

/-- `uart_rx` up to the call of `uart_rx_protocol_process`; `got` is what `read` returns. -/
def uart_rx_package (got : Bytes) : Option Received :=
  if got = [] then some .empty
  else
    uart_rx_parse (writeAt (List.replicate UART_DATA_BUFF_LEN 0) 0 (got.take UART_DATA_BUFF_LEN))

/-- `uart_rx`. A wrong checksum leaves the status as it was initialised. -/
def uart_rx (ad_data : List AdDate) (got : Bytes) : Option (List AdDate × RxStatus) :=
  (uart_rx_package got).map fun
    | .empty => (ad_data, .date_empty)
    | .head => (ad_data, .date_invail)
    | .checksum => (ad_data, .init)
    | .package rx_packinfo rx_date_buf => uart_rx_protocol_process ad_data rx_date_buf rx_packinfo

/-! ## What is in the buffer of the receiver -/

/-- `rx_buf`, when `read` has put its bytes over the zeros. -/
def filled (got : Bytes) : Bytes :=
  writeAt (List.replicate UART_DATA_BUFF_LEN 0) 0 (got.take UART_DATA_BUFF_LEN)

theorem filled_eq {got : Bytes} (hlen : got.length ≤ UART_DATA_BUFF_LEN) :
    filled got = got ++ List.replicate (UART_DATA_BUFF_LEN - got.length) 0 := by
  unfold filled
  rw [List.take_of_length_le hlen, writeAt_zero, List.drop_replicate]

theorem uart_rx_package_eq {got : Bytes} (hne : got ≠ []) :
    uart_rx_package got = uart_rx_parse (filled got) := by
  unfold uart_rx_package
  rw [if_neg hne]
  rfl

/-! ## What is on the wire -/

/-- The checksum over the id, the command, the length and the payload. -/
def frameSum (stPackageInfo : ImxPackageInfo) (payload : Bytes) : UInt8 :=
  cal_imx_package_checksum ((frameHead stPackageInfo).drop 3 ++ payload) (5 + payload.length)

/-- A frame: head, payload, checksum. -/
def frame (stPackageInfo : ImxPackageInfo) (payload : Bytes) : Bytes :=
  frameHead stPackageInfo ++ payload ++ [frameSum stPackageInfo payload]

theorem frameHead_length (stPackageInfo : ImxPackageInfo) : (frameHead stPackageInfo).length = 8 :=
  rfl

/-- The checksum of the bytes after the head, whatever lies behind the payload. -/
theorem checksum_frame (stPackageInfo : ImxPackageInfo) (payload rest : Bytes) :
    cal_imx_package_checksum ((frameHead stPackageInfo ++ payload ++ rest).drop 3)
        (8 + payload.length - 3) = frameSum stPackageInfo payload := by
  have hdrop : (frameHead stPackageInfo ++ payload ++ rest).drop 3
      = (frameHead stPackageInfo).drop 3 ++ payload ++ rest := by
    rw [List.append_assoc, List.append_assoc]
    rfl
  have hlen : ((frameHead stPackageInfo).drop 3 ++ payload).length = 5 + payload.length := by
    rw [List.length_append]
    rfl
  have hcount : 8 + payload.length - 3 = 5 + payload.length := by omega
  unfold frameSum cal_imx_package_checksum
  rw [hdrop, hcount, ← hlen, List.take_left, List.take_length]

/-- The sender puts a frame on the wire. -/
theorem uart_tx_frame (behind : Bytes) (stPackageInfo : ImxPackageInfo) (payload more : Bytes)
    (hlength : stPackageInfo.Length.toNat = payload.length) (hfits : payload.length ≤ 128) :
    uart_tx behind stPackageInfo (payload ++ more) = frame stPackageInfo payload := by
  have hcopied : (if 128 < stPackageInfo.Length.toNat then 128 else stPackageInfo.Length.toNat)
      = payload.length := by
    rw [if_neg (by omega), hlength]
  have hhead : writeAt (List.replicate (UART_DATA_BUFF_LEN + UART_PROTOCOL_LEN) 0) 0
      (frameHead stPackageInfo) = frameHead stPackageInfo ++ List.replicate 129 0 := by
    rw [writeAt_zero]
    rfl
  have hlen : (frameHead stPackageInfo ++ payload).length = 8 + payload.length := by
    rw [List.length_append, frameHead_length]
  have hsent : UART_PAYLOAD_OFFSET + stPackageInfo.Length.toNat + 1
      = (frame stPackageInfo payload).length := by
    rw [frame, List.length_append, hlen, hlength]
    rfl
  unfold uart_tx
  dsimp only
  rw [hcopied, hhead, List.take_left, ← frameHead_length stPackageInfo, writeAt_append,
    frameHead_length, checksum_frame, ← hlen, writeAt_append, hsent, List.append_assoc]
  exact List.take_left

/-- The fields, as the receiver reads them from the first eight bytes. -/
theorem rx_packinfo_frame (stPackageInfo : ImxPackageInfo) (payload rest : Bytes) :
    rx_packinfo (frame stPackageInfo payload ++ rest) = stPackageInfo := by
  show ImxPackageInfo.mk stPackageInfo.id
    ((stPackageInfo.command &&& 0xFF).toUInt8.toUInt16 |||
      (((stPackageInfo.command >>> 8) &&& 0xFF).toUInt8.toUInt16 <<< 8))
    ((stPackageInfo.Length &&& 0xFF).toUInt8.toUInt16 |||
      (((stPackageInfo.Length >>> 8) &&& 0xFF).toUInt8.toUInt16 <<< 8)) = stPackageInfo
  rw [word_of_bytes, word_of_bytes]

theorem frame_length (stPackageInfo : ImxPackageInfo) (payload : Bytes) :
    (frame stPackageInfo payload).length = 9 + payload.length := by
  rw [frame, List.length_append, List.length_append, frameHead_length]
  show 8 + payload.length + 1 = _
  omega

/-- The receiver takes a frame apart, whatever lies behind it in the buffer. -/
theorem uart_rx_parse_frame (stPackageInfo : ImxPackageInfo) (payload rest : Bytes)
    (hlength : stPackageInfo.Length.toNat = payload.length) (hfits : payload.length ≤ 119) :
    uart_rx_parse (frame stPackageInfo payload ++ rest)
      = some (.package stPackageInfo
          (payload ++ List.replicate (UART_DATA_BUFF_LEN - payload.length) 0)) := by
  have hlen : (frameHead stPackageInfo ++ payload).length = 8 + payload.length := by
    rw [List.length_append, frameHead_length]
  have hsplit : frame stPackageInfo payload ++ rest
      = frameHead stPackageInfo ++ payload ++ ([frameSum stPackageInfo payload] ++ rest) := by
    rw [frame, List.append_assoc]
  have hdate : ((frame stPackageInfo payload ++ rest).drop 8).take payload.length = payload := by
    rw [hsplit, List.append_assoc, ← frameHead_length stPackageInfo, List.drop_left, List.take_left]
  have hstored : (frame stPackageInfo payload ++ rest).getD (8 + payload.length) 0
      = frameSum stPackageInfo payload := by
    rw [hsplit, ← hlen, List.getD_append_right _ _ _ _ le_rfl, Nat.sub_self]
    rfl
  have hsum : cal_imx_package_checksum ((frame stPackageInfo payload ++ rest).drop 3)
      (8 + payload.length - 3) = frameSum stPackageInfo payload := by
    rw [hsplit]
    exact checksum_frame stPackageInfo payload _
  unfold uart_rx_parse
  rw [if_pos ⟨rfl, rfl, rfl⟩]
  dsimp only
  rw [rx_packinfo_frame, hlength, if_neg (by unfold UART_DATA_BUFF_LEN; omega), hdate, hstored, hsum,
    if_pos rfl, writeAt_zero, List.drop_replicate]

/-- **A frame comes through.** Every id, command and payload that `uart_tx` sends is what
`uart_rx` hands on, the payload with zeros behind it. -/
theorem uart_round_trip (behind : Bytes) (id : UInt8) (command : UInt16) (payload more : Bytes)
    (hfits : payload.length ≤ 119) :
    uart_rx_package (uart_tx behind ⟨id, command, UInt16.ofNat payload.length⟩ (payload ++ more))
      = some (.package ⟨id, command, UInt16.ofNat payload.length⟩
          (payload ++ List.replicate (UART_DATA_BUFF_LEN - payload.length) 0)) := by
  have hlength : (UInt16.ofNat payload.length).toNat = payload.length := by
    rw [UInt16.toNat_ofNat']
    omega
  have hframe := frame_length ⟨id, command, UInt16.ofNat payload.length⟩ payload
  have hne : frame ⟨id, command, UInt16.ofNat payload.length⟩ payload ≠ [] := by
    apply List.ne_nil_of_length_pos
    omega
  rw [uart_tx_frame behind _ payload more hlength (by omega), uart_rx_package_eq hne,
    filled_eq (by rw [hframe]; unfold UART_DATA_BUFF_LEN; omega)]
  exact uart_rx_parse_frame _ payload _ hlength hfits

/-- The answer to a detection request: channel 2 has the value 0x0123. -/
theorem uart_round_trip_ad_detect :
    uart_rx_package (uart_tx [] ⟨0, AD_DETECT_ACK, 3⟩ [2, 0x23, 0x01])
      = some (.package ⟨0, AD_DETECT_ACK, 3⟩ ([2, 0x23, 0x01] ++ List.replicate 125 0)) :=
  uart_round_trip [] 0 AD_DETECT_ACK [2, 0x23, 0x01] [] (by decide)

end TestCore.Uart
