/-
A frame with one wrong byte.

The checksum is the sum of the bytes after the head, negated. In a sum of bytes, one that is
changed changes the sum, whatever stands before and behind it (`checksum_set_ne`); and a checksum
that is changed is not the one of the bytes. The length is the one field that this does not
cover, since it says where the checksum is.

`ad_data` is stored to behind the test of the checksum only, and so it stays as it was.
-/
import TestCore.Uart.Frame

set_option autoImplicit false

namespace TestCore.Uart

open TestCore.Lib

/-! ## The checksum of changed bytes -/

theorem foldl_add_inj (b : Bytes) {s t : UInt8} : b.foldl (· + ·) s = b.foldl (· + ·) t ↔ s = t := by
  induction b generalizing s t with
  | nil => exact Iff.rfl
  | cons c b ih =>
      rw [List.foldl_cons, List.foldl_cons, ih]
      exact UInt8.add_left_inj c

theorem checksum_inj (a b : Bytes) (n m : ℕ) :
    cal_imx_package_checksum a n = cal_imx_package_checksum b m ↔
      (a.take n).foldl (· + ·) 0 = (b.take m).foldl (· + ·) 0 := by
  unfold cal_imx_package_checksum
  rw [UInt8.add_left_inj, UInt8.not_inj]

/-- One byte that is changed changes the checksum. -/
theorem checksum_set_ne {b : Bytes} {n i : ℕ} (hi : i < n) (hb : i < b.length) {c : UInt8}
    (hc : c ≠ b[i]) : cal_imx_package_checksum (b.set i c) n ≠ cal_imx_package_checksum b n := by
  have hlen : i < (b.take n).length := by
    rw [List.length_take]
    omega
  have hsplit : b.take n = (b.take n).take i ++ b[i] :: (b.take n).drop (i + 1) := by
    conv_lhs => rw [← List.take_append_drop i (b.take n)]
    rw [List.drop_eq_getElem_cons hlen, List.getElem_take]
  have hset : (b.set i c).take n = (b.take n).take i ++ c :: (b.take n).drop (i + 1) := by
    rw [List.take_set, List.set_eq_take_append_cons_drop, if_pos hlen]
  have hfold : ∀ (a : Bytes) (x : UInt8) (t : Bytes),
      (a ++ x :: t).foldl (· + ·) 0 = t.foldl (· + ·) (a.foldl (· + ·) 0 + x) := by
    intro a x t
    rw [List.foldl_append, List.foldl_cons]
  rw [Ne, checksum_inj, hset, hfold, hsplit, hfold, ← hsplit, foldl_add_inj, UInt8.add_right_inj]
  exact hc

/-! ## Frames with one wrong byte -/

section Parse

variable {rx_buf : Bytes}

/-- A wrong byte in the head. -/
theorem parse_wrong_head (h : ¬ (rx_buf.getD 0 0 = HEAD_1 ∧ rx_buf.getD 1 0 = HEAD_2 ∧
    rx_buf.getD 2 0 = HEAD_3)) : uart_rx_parse rx_buf = some .head := by
  unfold uart_rx_parse
  rw [if_neg h]

/-- A checksum that is not that of the bytes before it. -/
theorem parse_wrong_checksum (hhead : rx_buf.getD 0 0 = HEAD_1 ∧ rx_buf.getD 1 0 = HEAD_2 ∧
      rx_buf.getD 2 0 = HEAD_3) {n : ℕ} (hn : (rx_packinfo rx_buf).Length.toNat = n) (hfits : n ≤ 119)
    (hsum : cal_imx_package_checksum (rx_buf.drop 3) (5 + n) ≠ rx_buf.getD (8 + n) 0) :
    uart_rx_parse rx_buf = some .checksum := by
  have hindex : 8 + n - 3 = 5 + n := by omega
  unfold uart_rx_parse
  rw [if_pos hhead]
  dsimp only
  rw [hn, if_neg (by unfold UART_DATA_BUFF_LEN; omega), hindex, if_neg hsum]

/-- A checksum that is. -/
theorem parse_right_checksum (hhead : rx_buf.getD 0 0 = HEAD_1 ∧ rx_buf.getD 1 0 = HEAD_2 ∧
      rx_buf.getD 2 0 = HEAD_3) {n : ℕ} (hn : (rx_packinfo rx_buf).Length.toNat = n) (hfits : n ≤ 119)
    (hsum : cal_imx_package_checksum (rx_buf.drop 3) (5 + n) = rx_buf.getD (8 + n) 0) :
    ∃ rx_date_buf, uart_rx_parse rx_buf = some (.package (rx_packinfo rx_buf) rx_date_buf) := by
  have hindex : 8 + n - 3 = 5 + n := by omega
  unfold uart_rx_parse
  rw [if_pos hhead]
  dsimp only
  rw [hn, if_neg (by unfold UART_DATA_BUFF_LEN; omega), hindex, if_pos hsum]
  exact ⟨_, rfl⟩

/-- What a package that is handed on says about the buffer. -/
theorem parse_package {info : ImxPackageInfo} {rx_date_buf : Bytes}
    (h : uart_rx_parse rx_buf = some (.package info rx_date_buf)) :
    (rx_buf.getD 0 0 = HEAD_1 ∧ rx_buf.getD 1 0 = HEAD_2 ∧ rx_buf.getD 2 0 = HEAD_3) ∧
      rx_packinfo rx_buf = info ∧ info.Length.toNat ≤ 119 ∧
      cal_imx_package_checksum (rx_buf.drop 3) (5 + info.Length.toNat)
        = rx_buf.getD (8 + info.Length.toNat) 0 := by
  unfold uart_rx_parse at h
  split_ifs at h with hhead
  · dsimp only at h
    split_ifs at h with hindex hsum
    · obtain ⟨rfl, -⟩ := Received.package.inj (Option.some.inj h)
      have hfits : (rx_packinfo rx_buf).Length.toNat ≤ 119 := by
        unfold UART_DATA_BUFF_LEN at hindex
        omega
      have hcount : 8 + (rx_packinfo rx_buf).Length.toNat - 3 = 5 + (rx_packinfo rx_buf).Length.toNat := by
        omega
      rw [hcount] at hsum
      exact ⟨hhead, rfl, hfits, hsum⟩
    · cases h
  · cases h

end Parse

theorem getD_set_self {b : Bytes} {i : ℕ} (hi : i < b.length) (c : UInt8) : (b.set i c).getD i 0 = c := by
  rw [List.getD_eq_getElem?_getD, List.getElem?_set_self hi, Option.getD_some]

theorem getD_set_ne {b : Bytes} {i j : ℕ} (hij : i ≠ j) (c : UInt8) :
    (b.set i c).getD j 0 = b.getD j 0 := by
  rw [List.getD_eq_getElem?_getD, List.getElem?_set_ne hij, ← List.getD_eq_getElem?_getD]

/-- One byte is changed in a buffer that a package was handed on from. -/
theorem parse_set {buf : Bytes} {info : ImxPackageInfo} {rx_date_buf : Bytes}
    (h : uart_rx_parse buf = some (.package info rx_date_buf)) {i : ℕ}
    (hi : i < 9 + info.Length.toNat) (hbuf : i < buf.length) (hlength : i ≠ 6 ∧ i ≠ 7) {c : UInt8}
    (hc : c ≠ buf.getD i 0) :
    uart_rx_parse (buf.set i c) = some .head ∨ uart_rx_parse (buf.set i c) = some .checksum := by
  obtain ⟨hhead, hinfo, hfits, hsum⟩ := parse_package h
  by_cases hthree : i < 3
  · left
    apply parse_wrong_head
    rintro ⟨h0, h1, h2⟩
    have hself := getD_set_self hbuf c
    interval_cases i
    · exact hc (by rw [← hself, h0, hhead.1])
    · exact hc (by rw [← hself, h1, hhead.2.1])
    · exact hc (by rw [← hself, h2, hhead.2.2])
  · right
    have hhead' : (buf.set i c).getD 0 0 = HEAD_1 ∧ (buf.set i c).getD 1 0 = HEAD_2 ∧
        (buf.set i c).getD 2 0 = HEAD_3 := by
      rw [getD_set_ne (by omega), getD_set_ne (by omega), getD_set_ne (by omega)]
      exact hhead
    have hn : (rx_packinfo (buf.set i c)).Length.toNat = info.Length.toNat := by
      rw [← hinfo]
      unfold rx_packinfo
      dsimp only
      rw [getD_set_ne hlength.1, getD_set_ne hlength.2]
    have hdrop : (buf.set i c).drop 3 = (buf.drop 3).set (i - 3) c := by
      rw [List.drop_set, if_neg hthree]
    have hlen : i - 3 < (buf.drop 3).length := by
      rw [List.length_drop]
      omega
    refine parse_wrong_checksum hhead' hn hfits ?_
    rw [hdrop]
    by_cases hlast : i = 8 + info.Length.toNat
    · -- The checksum itself is another one, and the bytes are the same.
      have hout : ((buf.drop 3).take (5 + info.Length.toNat)).length ≤ i - 3 := by
        rw [List.length_take]
        omega
      have hsame : cal_imx_package_checksum ((buf.drop 3).set (i - 3) c) (5 + info.Length.toNat)
          = cal_imx_package_checksum (buf.drop 3) (5 + info.Length.toNat) := by
        rw [checksum_inj, List.take_set, List.set_eq_of_length_le hout]
      rw [hsame, hsum, ← hlast, getD_set_self hbuf]
      exact hc.symm
    · rw [getD_set_ne hlast, ← hsum]
      refine checksum_set_ne (by omega) hlen ?_
      rw [List.getElem_drop]
      have hget : buf.getD i 0 = buf[i] := List.getD_eq_getElem _ _ hbuf
      have hback : 3 + (i - 3) = i := by omega
      rw [hget] at hc
      simpa only [hback] using hc

/-- **One wrong byte is noticed.** A frame in which one byte is another one, outside of the length,
is not taken, and no channel gets a value. -/
theorem uart_rx_detects (ad_data : List AdDate) (behind : Bytes) (id : UInt8) (command : UInt16)
    (payload more : Bytes) (hfits : payload.length ≤ 119) (i : ℕ) (hi : i < 9 + payload.length)
    (hlength : i ≠ 6 ∧ i ≠ 7) (c : UInt8)
    (hc : c ≠ (uart_tx behind ⟨id, command, UInt16.ofNat payload.length⟩ (payload ++ more)).getD i 0) :
    ∃ status, uart_rx ad_data
        ((uart_tx behind ⟨id, command, UInt16.ofNat payload.length⟩ (payload ++ more)).set i c)
          = some (ad_data, status) ∧ status ≠ .done := by
  set info : ImxPackageInfo := ⟨id, command, UInt16.ofNat payload.length⟩ with hinfo
  have hn : info.Length.toNat = payload.length := by
    rw [hinfo, UInt16.toNat_ofNat']
    omega
  rw [uart_tx_frame behind info payload more hn (by omega)] at hc ⊢
  have hlen := frame_length info payload
  set sent := frame info payload with hsent
  have hne : sent.set i c ≠ [] := by
    intro hnil
    have hzero := congrArg List.length hnil
    rw [List.length_set, hlen, List.length_nil] at hzero
    omega
  have hparse := uart_rx_parse_frame info payload (List.replicate (UART_DATA_BUFF_LEN - sent.length) 0)
    hn hfits
  rw [← hsent] at hparse
  have hget : (sent ++ List.replicate (UART_DATA_BUFF_LEN - sent.length) 0).getD i 0 = sent.getD i 0 :=
    List.getD_append _ _ _ _ (by omega)
  have hwrong := parse_set (i := i) (c := c) hparse (by omega)
    (by rw [List.length_append]; omega) hlength (by rwa [hget])
  rw [List.set_append_left i c (by omega)] at hwrong
  have hpackage : uart_rx_package (sent.set i c)
      = uart_rx_parse (sent.set i c ++ List.replicate (UART_DATA_BUFF_LEN - sent.length) 0) := by
    rw [uart_rx_package_eq hne,
      filled_eq (by rw [List.length_set, hlen]; unfold UART_DATA_BUFF_LEN; omega), List.length_set]
  unfold uart_rx
  rw [hpackage]
  rcases hwrong with hhead | hsum
  · rw [hhead]
    exact ⟨.date_invail, rfl, by decide⟩
  · rw [hsum]
    exact ⟨.init, rfl, by decide⟩

/-- The answer to a detection request, with another channel in it. -/
theorem uart_rx_detects_channel :
    ∃ status, uart_rx ad_data ((uart_tx [] ⟨0, AD_DETECT_ACK, 3⟩ ([2, 0x23, 0x01] ++ [])).set 8 3)
      = some (ad_data, status) ∧ status ≠ .done :=
  uart_rx_detects ad_data [] 0 AD_DETECT_ACK [2, 0x23, 0x01] [] (by decide) 8 (by decide) (by decide) 3
    (by decide)

end TestCore.Uart
