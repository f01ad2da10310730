/-
The buffers of the serial protocol: what `uart_tx` and `uart_rx` touch of them.

The sender counts through a buffer of 137 bytes with an index of eight bits. It cuts the payload to
128 bytes, and its index never leaves the buffer; but what it hands to `write` goes by the length
it was given (`uart_tx_bounded_iff`).

The receiver goes by the length that it finds in what it received. It does not compare it with its
two buffers of 128 bytes, and neither with what `read` returned: behind that the buffer is filled
with zeros, which count as a payload, and as a checksum (`uart_rx_bounded_iff`).
-/
import TestCore.Uart.Detect

set_option autoImplicit false

namespace TestCore.Uart

open TestCore.Lib

/-! ## Sending -/

/-- `u8Uart1TxBuf`, with `u8Index` and the places that have been written so far. -/
structure TxBuf where
  u8Uart1TxBuf : Bytes
  u8Index : UInt8
  written : List ℕ

/-- Bytes are written at `u8Index` and on, and it is moved behind them. -/
def TxBuf.store (t : TxBuf) (src : Bytes) : TxBuf where
  u8Uart1TxBuf := writeAt t.u8Uart1TxBuf t.u8Index.toNat src
  u8Index := t.u8Index + UInt8.ofNat src.length
  written := t.written ++ List.range' t.u8Index.toNat src.length

/-- `u8Uart1TxBuf[u8Index++]=c`. -/
def TxBuf.put (t : TxBuf) (c : UInt8) : TxBuf := t.store [c]

def TxBuf.start : TxBuf where
  u8Uart1TxBuf := List.replicate (UART_DATA_BUFF_LEN + UART_PROTOCOL_LEN) 0
  u8Index := 0
  written := []

/-- `uart_tx`, up to the call of `write`. -/
def uart_tx_buf (stPackageInfo : ImxPackageInfo) (pData : Bytes) : TxBuf :=
  let t := (frameHead stPackageInfo).foldl TxBuf.put TxBuf.start
  let t :=
    if 128 < stPackageInfo.Length.toNat then t.store (pData.take 128)
    else t.store (pData.take stPackageInfo.Length.toNat)
  t.put (cal_imx_package_checksum (t.u8Uart1TxBuf.drop 3) (t.u8Index.toNat - 3))

/-- The sender keeps to its buffer, and what it sends is a frame. -/
structure TxBounded (stPackageInfo : ImxPackageInfo) (pData : Bytes) : Prop where
  written : ∀ i ∈ (uart_tx_buf stPackageInfo pData).written, i < UART_DATA_BUFF_LEN + UART_PROTOCOL_LEN
  /-- What `write` reads. -/
  sent : UART_PAYLOAD_OFFSET + stPackageInfo.Length.toNat + 1 ≤ UART_DATA_BUFF_LEN + UART_PROTOCOL_LEN
  /-- The length that is sent is the number of bytes between the head and the checksum. -/
  length : (rx_packinfo (uart_tx_buf stPackageInfo pData).u8Uart1TxBuf).Length.toNat
    = (uart_tx_buf stPackageInfo pData).u8Index.toNat - UART_PROTOCOL_LEN
  /-- With the checksum, the bytes behind the head add up to zero. -/
  checksum : (((uart_tx_buf stPackageInfo pData).u8Uart1TxBuf.take
    (uart_tx_buf stPackageInfo pData).u8Index.toNat).drop 3).foldl (· + ·) 0 = 0

/-- The buffer is filled with `b`, in order, and the index is behind it. -/
structure TxBuf.Filled (t : TxBuf) (b : Bytes) : Prop where
  u8Uart1TxBuf : t.u8Uart1TxBuf
    = b ++ List.replicate (UART_DATA_BUFF_LEN + UART_PROTOCOL_LEN - b.length) 0
  u8Index : t.u8Index.toNat = b.length
  written : t.written = List.range b.length

theorem TxBuf.filled_start : TxBuf.start.Filled [] := ⟨rfl, rfl, rfl⟩

theorem TxBuf.Filled.store {t : TxBuf} {b : Bytes} (h : t.Filled b) (src : Bytes)
    (hfits : b.length + src.length ≤ UART_DATA_BUFF_LEN + UART_PROTOCOL_LEN) :
    (t.store src).Filled (b ++ src) := by
  obtain ⟨hbuf, hindex, hwritten⟩ := h
  have hsmall : UART_DATA_BUFF_LEN + UART_PROTOCOL_LEN = 137 := rfl
  constructor
  case u8Uart1TxBuf =>
    show writeAt t.u8Uart1TxBuf t.u8Index.toNat src = _
    rw [hbuf, hindex, writeAt_append, List.drop_replicate, List.length_append, Nat.sub_sub]
  case u8Index =>
    show (t.u8Index + UInt8.ofNat src.length).toNat = _
    rw [UInt8.toNat_add, UInt8.toNat_ofNat', hindex, List.length_append]
    omega
  case written =>
    show t.written ++ List.range' t.u8Index.toNat src.length = _
    have hrange := @List.range'_append_1 0 b.length src.length
    rw [Nat.zero_add] at hrange
    rw [hwritten, hindex, List.length_append, List.range_eq_range', List.range_eq_range', hrange]

theorem TxBuf.Filled.foldl_put {t : TxBuf} {b : Bytes} (h : t.Filled b) (src : Bytes)
    (hfits : b.length + src.length ≤ UART_DATA_BUFF_LEN + UART_PROTOCOL_LEN) :
    (src.foldl TxBuf.put t).Filled (b ++ src) := by
  induction src generalizing t b with
  | nil => rwa [List.append_nil]
  | cons c src ih =>
      rw [List.length_cons] at hfits
      rw [List.foldl_cons, List.append_cons]
      apply ih (h.store [c] (by rw [List.length_singleton]; omega))
      rw [List.length_append, List.length_singleton]
      omega

/-- **The buffer holds a frame**, with as much of the payload as is copied. -/
theorem uart_tx_buf_filled (stPackageInfo : ImxPackageInfo) {pData : Bytes}
    (hsize : stPackageInfo.Length.toNat ≤ pData.length) :
    (uart_tx_buf stPackageInfo pData).Filled
      (frame stPackageInfo (pData.take (min stPackageInfo.Length.toNat 128))) := by
  set payload := pData.take (min stPackageInfo.Length.toNat 128) with hpayload
  have hlen : payload.length ≤ 128 := by
    rw [hpayload, List.length_take]
    omega
  have hroom : UART_DATA_BUFF_LEN + UART_PROTOCOL_LEN = 137 := rfl
  have hcopied : ∀ t : TxBuf, (if 128 < stPackageInfo.Length.toNat then t.store (pData.take 128)
      else t.store (pData.take stPackageInfo.Length.toNat)) = t.store payload := by
    intro t
    rw [hpayload]
    split_ifs with hcut
    · rw [min_eq_right hcut.le]
    · rw [min_eq_left (not_lt.mp hcut)]
  have hhead := TxBuf.filled_start.foldl_put (frameHead stPackageInfo) (by
    rw [frameHead_length, hroom]
    decide)
  have hbody := hhead.store payload (by
    rw [List.nil_append, frameHead_length, hroom]
    omega)
  rw [List.nil_append] at hbody
  have hbodylen : (frameHead stPackageInfo ++ payload).length = 8 + payload.length := by
    rw [List.length_append, frameHead_length]
  unfold uart_tx_buf
  dsimp only
  rw [hcopied, hbody.u8Uart1TxBuf, hbody.u8Index, hbodylen, checksum_frame]
  exact hbody.store [_] (by rw [hbodylen, List.length_singleton, hroom]; omega)

/-- What `uart_tx` hands to `write` is this buffer, and what lies behind it. -/
theorem uart_tx_eq_buf (behind : Bytes) (stPackageInfo : ImxPackageInfo) {pData : Bytes}
    (hsize : stPackageInfo.Length.toNat ≤ pData.length) :
    uart_tx behind stPackageInfo pData
      = ((uart_tx_buf stPackageInfo pData).u8Uart1TxBuf ++ behind).take
          (UART_PAYLOAD_OFFSET + stPackageInfo.Length.toNat + 1) := by
  have hfilled := uart_tx_buf_filled stPackageInfo hsize
  set copied := min stPackageInfo.Length.toNat 128 with hcopied
  set payload := pData.take copied with hpayload
  have hlen : payload.length = copied := by
    rw [hpayload, List.length_take]
    omega
  have hcut : (if 128 < stPackageInfo.Length.toNat then 128 else stPackageInfo.Length.toNat) = copied := by
    split_ifs
    · omega
    · omega
  have hhead : writeAt (List.replicate (UART_DATA_BUFF_LEN + UART_PROTOCOL_LEN) 0) 0
      (frameHead stPackageInfo) = frameHead stPackageInfo ++ List.replicate 129 0 := by
    rw [writeAt_zero]
    rfl
  have hbody : (frameHead stPackageInfo ++ payload).length = 8 + copied := by
    rw [List.length_append, frameHead_length, hlen]
  have hsum : cal_imx_package_checksum ((frameHead stPackageInfo ++ payload ++
      (List.replicate 129 0).drop payload.length).drop 3) (8 + copied - 3)
        = frameSum stPackageInfo payload := by
    rw [← hlen]
    exact checksum_frame stPackageInfo payload _
  have hrest : 129 - copied - 1 = 137 - (9 + copied) := by omega
  unfold uart_tx
  dsimp only
  rw [hcut, hhead, ← hpayload, ← frameHead_length stPackageInfo, writeAt_append, frameHead_length,
    hsum, ← hbody, writeAt_append, hfilled.u8Uart1TxBuf, frame_length, hlen, List.drop_replicate,
    List.drop_replicate, List.length_singleton, hrest]
  rfl

/-- With its checksum, a frame adds up to zero behind the head. -/
theorem frame_sum_zero (stPackageInfo : ImxPackageInfo) (payload : Bytes) :
    ((frame stPackageInfo payload).drop 3).foldl (· + ·) 0 = 0 := by
  have hdrop : (frame stPackageInfo payload).drop 3
      = (frameHead stPackageInfo).drop 3 ++ payload ++ [frameSum stPackageInfo payload] := rfl
  have hlen : ((frameHead stPackageInfo).drop 3 ++ payload).length = 5 + payload.length := by
    rw [List.length_append]
    rfl
  rw [hdrop, List.foldl_append, List.foldl_cons, List.foldl_nil]
  unfold frameSum cal_imx_package_checksum
  rw [← hlen, List.take_length, ← UInt8.neg_eq_not_add, UInt8.add_right_neg]

/-- **What the sender touches.** It keeps to its buffer, and sends a frame with the length that is
in it, exactly for the lengths up to 128. -/
theorem uart_tx_bounded_iff (stPackageInfo : ImxPackageInfo) (pData : Bytes)
    (hsize : stPackageInfo.Length.toNat ≤ pData.length) :
    TxBounded stPackageInfo pData ↔ stPackageInfo.Length.toNat ≤ 128 := by
  have hroom : UART_DATA_BUFF_LEN + UART_PROTOCOL_LEN = 137 := rfl
  constructor
  · intro h
    have hsent := h.sent
    unfold UART_PAYLOAD_OFFSET at hsent
    omega
  · intro hlength
    have hfilled := uart_tx_buf_filled stPackageInfo hsize
    rw [min_eq_left hlength] at hfilled
    set payload := pData.take stPackageInfo.Length.toNat with hpayload
    have hlen : payload.length = stPackageInfo.Length.toNat := by
      rw [hpayload, List.length_take_of_le hsize]
    constructor
    case written =>
      intro i hi
      rw [hfilled.written, List.mem_range, frame_length, hlen] at hi
      omega
    case sent =>
      unfold UART_PAYLOAD_OFFSET
      omega
    case length =>
      rw [hfilled.u8Uart1TxBuf, rx_packinfo_frame, hfilled.u8Index, frame_length, hlen]
      unfold UART_PROTOCOL_LEN
      omega
    case checksum =>
      rw [hfilled.u8Uart1TxBuf, hfilled.u8Index, List.take_left]
      exact frame_sum_zero stPackageInfo payload

/-- A payload of 129 bytes: 138 bytes are sent from a buffer of 137. -/
theorem long_payload_sends_behind :
    ¬ ∀ (stPackageInfo : ImxPackageInfo) (pData : Bytes),
      pData.length = stPackageInfo.Length.toNat → TxBounded stPackageInfo pData := by
  intro hall
  have hsent := (hall ⟨0, 1, 129⟩ (List.replicate 129 0) (by rw [List.length_replicate]; rfl)).sent
  exact absurd hsent (by decide)

/-- The longest payload that is sent whole. -/
theorem uart_tx_bounded_iff_longest :
    TxBounded ⟨0, 1, 128⟩ (List.replicate 128 0) ↔ (128 : UInt16).toNat ≤ 128 :=
  uart_tx_bounded_iff ⟨0, 1, 128⟩ (List.replicate 128 0) (by rw [List.length_replicate]; decide)

/-! ## Receiving -/

/-- A byte of one of the two buffers of `uart_rx`. -/
inductive RxByte where
  | rx_buf (i : ℕ)
  | rx_date_buf (i : ℕ)

def RxByte.index : RxByte → ℕ
  | .rx_buf i => i
  | .rx_date_buf i => i

/-- The test of the head ends at the first wrong byte. -/
def headTouched (rx_buf : Bytes) : List RxByte :=
  .rx_buf 0 ::
    if rx_buf.getD 0 0 = HEAD_1 then
      .rx_buf 1 :: if rx_buf.getD 1 0 = HEAD_2 then [.rx_buf 2] else []
    else []

/-- `ad_data_handle`, from its record `i` on. -/
def adTouched (rx_data : Bytes) : (i left : ℕ) → List RxByte
  | _, 0 => []
  | i, left + 1 =>
      .rx_date_buf (i * AD_DATE_PRE_LEN) :: .rx_date_buf (i * AD_DATE_PRE_LEN + 1) ::
        .rx_date_buf (i * AD_DATE_PRE_LEN + 2) ::
          if MAX_AD_CHANNEL_ID < (rx_data.getD (i * AD_DATE_PRE_LEN) 0).toNat then []
          else adTouched rx_data (i + 1) left

/-- `uart_rx_protocol_process`, and the log of a frame that is not done with it. -/
def processTouched (log : List RxByte) (rx_packinfo : ImxPackageInfo) (rx_date_buf : Bytes) :
    List RxByte :=
  (if rx_packinfo.command = AD_DETECT_ACK then
    adTouched rx_date_buf 0 (rx_packinfo.Length.toNat / AD_DATE_PRE_LEN) else []) ++
  if (uart_rx_protocol_process ad_data rx_date_buf rx_packinfo).2 = .done then [] else log

/-- The bytes that `uart_rx` reads and writes in its buffers, after `read` has returned `got`. -/
def uart_rx_touched (got : Bytes) : List RxByte :=
  let log := (List.range got.length).map .rx_buf
  let rx_buf := filled got
  log ++ headTouched rx_buf ++
    (if rx_buf.getD 0 0 = HEAD_1 ∧ rx_buf.getD 1 0 = HEAD_2 ∧ rx_buf.getD 2 0 = HEAD_3 then
      let Length := (rx_packinfo rx_buf).Length.toNat
      let index := 8 + Length
      (List.range' 3 5).map .rx_buf ++
        -- The two sides of `memcpy`.
        (List.range' 8 Length).map .rx_buf ++ (List.range Length).map .rx_date_buf ++
        -- The length is a `u16` in `cal_imx_package_checksum`.
        (List.range' 3 ((index - 3) % 65536)).map .rx_buf ++ [.rx_buf index] ++
        match uart_rx_parse rx_buf with
        | some (.package rx_packinfo rx_date_buf) => processTouched log rx_packinfo rx_date_buf
        | _ => []
    else log) ++ [.rx_buf 4]

/-- The receiver keeps to its buffers, and hands on what was received. -/
structure RxBounded (got : Bytes) : Prop where
  touched : ∀ b ∈ uart_rx_touched got, b.index < UART_DATA_BUFF_LEN
  whole : ∀ rx_packinfo rx_date_buf,
    uart_rx_package got = some (.package rx_packinfo rx_date_buf) →
      UART_PROTOCOL_LEN + rx_packinfo.Length.toNat ≤ got.length

/-- The length that the receiver reads. -/
def declared (got : Bytes) : ℕ := (rx_packinfo (filled got)).Length.toNat

section Receive

variable {got : Bytes}

theorem getD_filled (hlen : got.length ≤ UART_DATA_BUFF_LEN) (i : ℕ) :
    (filled got).getD i 0 = got.getD i 0 := by
  rw [filled_eq hlen]
  by_cases hi : i < got.length
  · exact List.getD_append _ _ _ _ hi
  · rw [List.getD_append_right _ _ _ _ (not_lt.mp hi), List.getD_eq_default _ _ (not_lt.mp hi)]
    simp [List.getD_eq_getElem?_getD, List.getElem?_replicate]
    split_ifs <;> rfl

/-- The head is there if it was received. -/
theorem filled_head (hlen : got.length ≤ UART_DATA_BUFF_LEN) :
    ((filled got).getD 0 0 = HEAD_1 ∧ (filled got).getD 1 0 = HEAD_2 ∧ (filled got).getD 2 0 = HEAD_3) ↔
      [HEAD_1, HEAD_2, HEAD_3] <+: got := by
  rw [getD_filled hlen, getD_filled hlen, getD_filled hlen]
  rcases got with _ | ⟨a, _ | ⟨b, _ | ⟨c, got⟩⟩⟩
  · simp [HEAD_1]
  · simp [HEAD_2]
  · simp [HEAD_3]
  · simp [List.cons_prefix_cons, eq_comm]

/-- A frame that was cut: the sum is that of what was received, and the checksum is a zero. -/
theorem cut_checksum_iff (hlen : got.length ≤ UART_DATA_BUFF_LEN) {n : ℕ} (hthree : 3 ≤ got.length)
    (hcut : got.length < 9 + n) :
    cal_imx_package_checksum ((filled got).drop 3) (5 + n) = (filled got).getD (8 + n) 0 ↔
      (got.drop 3).foldl (· + ·) 0 = 0 := by
  have hzeros : ∀ (k : ℕ) (s : UInt8), (List.replicate k 0).foldl (· + ·) s = s := by
    intro k s
    induction k with
    | zero => rfl
    | succ k ih =>
        rw [List.replicate_succ, List.foldl_cons, UInt8.add_zero]
        exact ih
  have hdrop : (filled got).drop 3 = got.drop 3 ++ List.replicate (UART_DATA_BUFF_LEN - got.length) 0 := by
    rw [filled_eq hlen, List.drop_append_of_le_length hthree]
  have htake : (got.drop 3).take (5 + n) = got.drop 3 := by
    apply List.take_of_length_le
    rw [List.length_drop]
    omega
  have hzero : (filled got).getD (8 + n) 0 = 0 := by
    rw [getD_filled hlen, List.getD_eq_default _ _ (by omega)]
  unfold cal_imx_package_checksum
  rw [hdrop, hzero, List.take_append, htake, List.take_replicate, List.foldl_append, hzeros,
    ← UInt8.neg_eq_not_add]
  constructor
  · intro hneg
    exact UInt8.neg_inj.mp (hneg.trans (by decide))
  · intro hsum
    rw [hsum]
    rfl

theorem adTouched_lt (rx_data : Bytes) (i left : ℕ) :
    ∀ b ∈ adTouched rx_data i left, b.index < (i + left) * AD_DATE_PRE_LEN := by
  unfold AD_DATE_PRE_LEN
  induction left generalizing i with
  | zero => exact fun b hb => absurd hb List.not_mem_nil
  | succ left ih =>
      intro b hb
      unfold adTouched AD_DATE_PRE_LEN at hb
      rw [List.mem_cons, List.mem_cons, List.mem_cons] at hb
      rcases hb with rfl | rfl | rfl | hb
      · show i * 3 < _
        omega
      · show i * 3 + 1 < _
        omega
      · show i * 3 + 2 < _
        omega
      · split_ifs at hb
        · exact absurd hb List.not_mem_nil
        · have hlt := ih (i + 1) b hb
          omega

theorem headTouched_lt (rx_buf : Bytes) : ∀ b ∈ headTouched rx_buf, b.index < 3 := by
  intro b hb
  unfold headTouched at hb
  split_ifs at hb
  · simp only [List.mem_cons, List.not_mem_nil, or_false] at hb
    rcases hb with rfl | rfl | rfl <;> decide
  · simp only [List.mem_cons, List.not_mem_nil, or_false] at hb
    rcases hb with rfl | rfl <;> decide
  · rw [List.mem_singleton.mp hb]
    decide

theorem log_lt {n : ℕ} (hn : n ≤ UART_DATA_BUFF_LEN) :
    ∀ b ∈ (List.range n).map RxByte.rx_buf, b.index < UART_DATA_BUFF_LEN := by
  intro b hb
  obtain ⟨i, hi, rfl⟩ := List.mem_map.mp hb
  rw [List.mem_range] at hi
  exact hi.trans_le hn

theorem processTouched_lt {log : List RxByte} (hlog : ∀ b ∈ log, b.index < UART_DATA_BUFF_LEN)
    {rx_packinfo : ImxPackageInfo} (hfits : rx_packinfo.Length.toNat ≤ 119) (rx_date_buf : Bytes) :
    ∀ b ∈ processTouched log rx_packinfo rx_date_buf, b.index < UART_DATA_BUFF_LEN := by
  intro b hb
  unfold processTouched at hb
  rcases List.mem_append.mp hb with hb | hb
  · split_ifs at hb
    · have hlt := adTouched_lt rx_date_buf 0 (rx_packinfo.Length.toNat / AD_DATE_PRE_LEN) b hb
      have hdiv := Nat.div_mul_le_self rx_packinfo.Length.toNat AD_DATE_PRE_LEN
      rw [Nat.zero_add] at hlt
      unfold UART_DATA_BUFF_LEN
      omega
    · exact absurd hb List.not_mem_nil
  · split_ifs at hb
    · exact absurd hb List.not_mem_nil
    · exact hlog b hb

/-- Nothing behind the buffers is touched exactly if the length that was received fits. -/
theorem touched_iff (hlen : got.length ≤ UART_DATA_BUFF_LEN) :
    (∀ b ∈ uart_rx_touched got, b.index < UART_DATA_BUFF_LEN) ↔
      ([HEAD_1, HEAD_2, HEAD_3] <+: got → declared got ≤ 119) := by
  rw [← filled_head hlen]
  have hbuf : UART_DATA_BUFF_LEN = 128 := rfl
  have hlog := log_lt hlen
  constructor
  · intro h hhead
    have hindex := h (.rx_buf (8 + declared got)) (by
      unfold uart_rx_touched declared
      dsimp only
      rw [if_pos hhead]
      simp)
    change 8 + declared got < UART_DATA_BUFF_LEN at hindex
    omega
  · intro h b hb
    unfold uart_rx_touched at hb
    dsimp only at hb
    rcases List.mem_append.mp hb with hb | hb
    · rcases List.mem_append.mp hb with hb | hb
      · rcases List.mem_append.mp hb with hb | hb
        · exact hlog b hb
        · have hlt := headTouched_lt _ b hb
          omega
      · split_ifs at hb with hhead
        · have hfits : (rx_packinfo (filled got)).Length.toNat ≤ 119 := h hhead
          have hsum : (8 + (rx_packinfo (filled got)).Length.toNat - 3) % 65536
              = 5 + (rx_packinfo (filled got)).Length.toNat := by omega
          rw [hsum] at hb
          simp only [List.mem_append, List.mem_map, List.mem_range'_1, List.mem_range,
            List.mem_singleton] at hb
          rcases hb with ((((⟨i, hi, rfl⟩ | ⟨i, hi, rfl⟩) | ⟨i, hi, rfl⟩) | ⟨i, hi, rfl⟩) | rfl) | hb
          · show i < UART_DATA_BUFF_LEN
            omega
          · show i < UART_DATA_BUFF_LEN
            omega
          · show i < UART_DATA_BUFF_LEN
            omega
          · show i < UART_DATA_BUFF_LEN
            omega
          · show 8 + (rx_packinfo (filled got)).Length.toNat < UART_DATA_BUFF_LEN
            omega
          · split at hb
            · rename_i info rx_date_buf hpackage
              have hinfo := (parse_package hpackage).2.1
              rw [hinfo] at hfits
              exact processTouched_lt hlog hfits rx_date_buf b hb
            · exact absurd hb List.not_mem_nil
        · exact hlog b hb
    · rw [List.mem_singleton.mp hb]
      decide

/-- What is handed on was received, if its length is not more than that, or the bytes that were
received do not add up to zero. -/
theorem whole_iff (hne : got ≠ []) (hlen : got.length ≤ UART_DATA_BUFF_LEN) (hfits : declared got ≤ 119)
    (hhead : [HEAD_1, HEAD_2, HEAD_3] <+: got) :
    (∀ rx_packinfo rx_date_buf, uart_rx_package got = some (.package rx_packinfo rx_date_buf) →
      UART_PROTOCOL_LEN + rx_packinfo.Length.toNat ≤ got.length) ↔
      UART_PROTOCOL_LEN + declared got ≤ got.length ∨ (got.drop 3).foldl (· + ·) 0 ≠ 0 := by
  have hthree : 3 ≤ got.length := hhead.length_le
  have hnine : UART_PROTOCOL_LEN = 9 := rfl
  rw [uart_rx_package_eq hne]
  constructor
  · intro hwhole
    by_cases hcut : got.length < UART_PROTOCOL_LEN + declared got
    · right
      intro hsum
      obtain ⟨rx_date_buf, hpackage⟩ := parse_right_checksum ((filled_head hlen).mpr hhead) rfl hfits
        ((cut_checksum_iff (n := declared got) hlen hthree (by omega)).mpr hsum)
      exact absurd (hwhole _ _ hpackage) (not_le.mpr hcut)
    · exact Or.inl (not_lt.mp hcut)
  · intro hor info rx_date_buf hpackage
    obtain ⟨-, rfl, -, hsum⟩ := parse_package hpackage
    show UART_PROTOCOL_LEN + declared got ≤ got.length
    rcases hor with hle | hne
    · exact hle
    · by_contra hcut
      exact hne ((cut_checksum_iff (n := declared got) hlen hthree (by omega)).mp hsum)

end Receive

/-- **What the receiver touches.** It keeps to its buffers and hands on only what was received,
exactly if there is no head, or the length behind it fits the buffers, and either all of the frame
was received or the bytes that were do not add up to zero. -/
theorem uart_rx_bounded_iff (got : Bytes) (hne : got ≠ []) (hlen : got.length ≤ UART_DATA_BUFF_LEN) :
    RxBounded got ↔
      ([HEAD_1, HEAD_2, HEAD_3] <+: got →
        declared got ≤ 119 ∧
          (UART_PROTOCOL_LEN + declared got ≤ got.length ∨ (got.drop 3).foldl (· + ·) 0 ≠ 0)) := by
  constructor
  · intro h hhead
    have hfits := (touched_iff hlen).mp h.touched hhead
    exact ⟨hfits, (whole_iff hne hlen hfits hhead).mp h.whole⟩
  · intro h
    refine ⟨(touched_iff hlen).mpr fun hhead => (h hhead).1, ?_⟩
    by_cases hhead : [HEAD_1, HEAD_2, HEAD_3] <+: got
    · exact (whole_iff hne hlen (h hhead).1 hhead).mpr (h hhead).2
    · -- Without a head nothing is handed on.
      intro info rx_date_buf hpackage
      rw [uart_rx_package_eq hne] at hpackage
      exact absurd ((filled_head hlen).mp (parse_package hpackage).1) hhead

/-- An answer that declares a length of 65535. -/
theorem long_frame_leaves_buffers :
    ¬ ∀ got : Bytes, got ≠ [] → got.length ≤ UART_DATA_BUFF_LEN → RxBounded got := by
  intro hall
  have hlong := hall [0x21, 0x50, 0x53, 0, 1, 0x80, 0xff, 0xff] (by decide) (by decide)
  exact absurd ((touched_iff (by decide)).mp hlong.touched (by decide)) (by decide)

/-- The first eight bytes of a frame with a payload of 6: they add up to zero, and are handed on. -/
example : uart_rx_package [0x21, 0x50, 0x53, 0x79, 1, 0x80, 6, 0]
    = some (.package ⟨0x79, AD_DETECT_ACK, 6⟩ (List.replicate 128 0)) := by decide

/-- A whole frame, which fits. -/
theorem uart_rx_bounded_whole :
    RxBounded [0x21, 0x50, 0x53, 0, 2, 0x80, 0, 0, 0x7e] :=
  (uart_rx_bounded_iff _ (by decide) (by decide)).mpr fun _ => by decide

end TestCore.Uart
