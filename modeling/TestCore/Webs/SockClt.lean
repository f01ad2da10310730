/-
The byte stream from the core application: `client_send_msg`, `client_recv_msg` and
`jrd_put_data_to_web_tx_q` of `sock_clt.c`.

A message goes out as a frame: the marker `PACK_HEAD`, the length of the frame, the header
and the data. The receiver appends what `recv` gives it to `rx_buf`, behind the
`remind_buf_size` bytes that are left from earlier calls, takes out the frames that are
complete and moves the rest to the front.

The argument is about what is left. After every call it is the beginning of the next frame
(`RxInv`), because a call ends only when less than a frame is there; and from such a state
one more chunk of the stream leads to such a state again (`RxInv.recv`).

`jrd_sock_hdr_t` and `PACK_HEAD` come from a header outside the repository and are
parameters. An `int` is four bytes, lowest first. The call of `select` is left out, and so is
the thread that takes the messages out of the queue again.
-/
import TestCore.Lib.Run
import TestCore.Lib.Wire

set_option autoImplicit false

namespace TestCore.Webs

open TestCore.Lib

def JRD_SOCK_WEB_RX_BUF_SIZE : ℕ := 3072

/-- What `jrd_common_def.h` fixes. -/
structure SockDefs where
  /-- `sizeof(jrd_sock_hdr_t)`. -/
  hdrSize : ℕ
  PACK_HEAD : ℤ
  head_low : -2 ^ 31 ≤ PACK_HEAD
  head_high : PACK_HEAD < 2 ^ 31

/-- `2*sizeof(int) + sizeof(jrd_sock_hdr_t)`. -/
def SockDefs.overhead (d : SockDefs) : ℕ := 8 + d.hdrSize

/-! ## Messages and frames -/

/-- A message: the bytes of its header, and its data. -/
structure SockMsg where
  msg_hdr : Bytes
  data : Bytes
  deriving DecidableEq, Repr

/-- `jrd_sock_msg_t` as `jrd_put_data_to_web_tx_q` fills it. -/
structure RxMsg where
  msg_hdr : Bytes
  data_len : ℕ
  data_buf : Bytes
  deriving DecidableEq, Repr

/-- What the reader of the queue makes of it. -/
def RxMsg.msg (m : RxMsg) : SockMsg := ⟨m.msg_hdr, m.data_buf.take m.data_len⟩

/-- `client_send_msg`: the bytes it sends. -/
def client_send_msg (d : SockDefs) (m : SockMsg) : Bytes :=
  intBytes d.PACK_HEAD ++ intBytes (d.overhead + m.data.length : ℕ) ++ m.msg_hdr ++ m.data

/-- The message is one that the receiver has room for. -/
structure Sendable (d : SockDefs) (m : SockMsg) : Prop where
  hdr : m.msg_hdr.length = d.hdrSize
  data : m.data ≠ []
  fits : (client_send_msg d m).length ≤ JRD_SOCK_WEB_RX_BUF_SIZE

instance (d : SockDefs) (m : SockMsg) : Decidable (Sendable d m) :=
  decidable_of_iff (m.msg_hdr.length = d.hdrSize ∧ m.data ≠ [] ∧
      (client_send_msg d m).length ≤ JRD_SOCK_WEB_RX_BUF_SIZE)
    ⟨fun h => ⟨h.1, h.2.1, h.2.2⟩, fun h => ⟨h.hdr, h.data, h.fits⟩⟩

/-! ## The receiver -/

/-- The receiver: its buffer, the statics of `client_recv_msg` and what it has put on
`jrd_webs_tx_q`. -/
structure SockRx where
  /-- `sock_fd` is not `JRD_SOCK_INVALID_FD`. -/
  connected : Bool
  b_initialized : Bool
  rx_buf : Bytes
  remind_buf_size : ℕ
  jrd_webs_tx_q : List RxMsg
  /-- A `memcpy` with a negative length was made, after which nothing is certain. -/
  fault : Bool
  deriving DecidableEq, Repr

/-- How a call ends. -/
inductive RecvEnd where
  /-- "msg not end", "sock not finish" or "sock finished": wait for more. -/
  | wait
  /-- "sock head error". -/
  | headError
  /-- `jrd_put_data_to_web_tx_q` failed. -/
  | putFailed
  | fault
  deriving DecidableEq, Repr

/-- How `jrd_put_data_to_web_tx_q` ends. -/
inductive PutResult where
  | ok (m : RxMsg)
  | failed
  | fault

/-- `jrd_put_data_to_web_tx_q` with `sock_len` bytes at `rx_buff`. A negative length is a size
that `malloc` refuses. A length below that of the header is allocated, and then `data_len` is
negative and the copy of the data runs away. -/
def jrd_put_data_to_web_tx_q (d : SockDefs) (rx_buff : Bytes) (sock_len : ℤ) : PutResult :=
  if sock_len < 0 then .failed
  else if sock_len < d.hdrSize then .fault
  else
    let data_len := sock_len.toNat - d.hdrSize
    .ok
      { msg_hdr := rx_buff.take d.hdrSize
        data_len := data_len
        -- `sock_len` bytes are allocated and zeroed, and the first `data_len` are written.
        data_buf := (rx_buff.drop d.hdrSize).take data_len ++ List.replicate d.hdrSize 0 }

/-- `memcpy(rx_buf, rx_buf + offset, remind_buf_size)`, acting as `memmove`. -/
def SockRx.compact (rx : SockRx) (offset : ℕ) : SockRx :=
  { rx with rx_buf := writeAt rx.rx_buf 0 ((rx.rx_buf.drop offset).take rx.remind_buf_size) }

/-- One message is on the queue and its frame is behind us. -/
def SockRx.took (rx : SockRx) (m : RxMsg) (sock_len : ℤ) : SockRx :=
  { rx with
    jrd_webs_tx_q := rx.jrd_webs_tx_q ++ [m]
    remind_buf_size := rx.remind_buf_size - sock_len.toNat }

/-- The loop of `client_recv_msg`. A turn takes at least one byte, so that as many turns as
there are bytes are enough. -/
def client_recv_msg.loop (d : SockDefs) :
    (fuel : ℕ) → SockRx → (offset : ℕ) → (sock_len : ℤ) → SockRx × RecvEnd
  | 0, rx, _, _ => (rx, .wait)
  | fuel + 1, rx, offset, sock_len =>
      if sock_len ≤ rx.remind_buf_size then
        match jrd_put_data_to_web_tx_q d (rx.rx_buf.drop (offset + 8)) (sock_len - 8) with
        | .failed => (rx, .putFailed)
        | .fault => ({ rx with fault := true }, .fault)
        | .ok m =>
            let rx := rx.took m sock_len
            let offset := offset + sock_len.toNat
            if rx.remind_buf_size = 0 then (rx, .wait)
            else if rx.remind_buf_size < d.overhead then (rx.compact offset, .wait)
            -- Nothing is moved here, although what has been taken is in front.
            else if readInt (rx.rx_buf.drop offset) ≠ d.PACK_HEAD then (rx, .headError)
            else
              let sock_len := readInt (rx.rx_buf.drop (offset + 4))
              if rx.remind_buf_size < sock_len then (rx.compact offset, .wait)
              else client_recv_msg.loop d fuel rx offset sock_len
      else (rx, .wait)

/-- `recv` has put `chunk` behind what is left. -/
def SockRx.append (rx : SockRx) (chunk : Bytes) : SockRx :=
  { rx with
    connected := true
    b_initialized := true
    rx_buf := writeAt rx.rx_buf rx.remind_buf_size chunk
    remind_buf_size := rx.remind_buf_size + chunk.length }

/-- `client_recv_msg` when `recv` returns some bytes. It connects first if need be. -/
def client_recv_msg (d : SockDefs) (rx : SockRx) (chunk : Bytes) : SockRx × RecvEnd :=
  let rx := rx.append chunk
  if rx.remind_buf_size ≤ d.overhead then (rx, .wait)
  else if readInt rx.rx_buf ≠ d.PACK_HEAD then (rx, .headError)
  else
    let sock_len := readInt (rx.rx_buf.drop 4)
    if rx.remind_buf_size < sock_len then (rx, .wait)
    else client_recv_msg.loop d rx.remind_buf_size rx 0 sock_len

/-- `client_recv_msg` when `recv` returns 0. -/
def SockRx.peerClosed (rx : SockRx) : SockRx :=
  { rx with connected := false, b_initialized := false }

/-- The receiver after a call that got some bytes. -/
def SockRx.recv (d : SockDefs) (rx : SockRx) (chunk : Bytes) : SockRx := (client_recv_msg d rx chunk).1

/-- The receiver at the start, over whatever the buffer holds. -/
def SockRx.init (rx_buf : Bytes) : SockRx :=
  { connected := false, b_initialized := false, rx_buf := rx_buf, remind_buf_size := 0,
    jrd_webs_tx_q := [], fault := false }

/-- The sizes are right. -/
structure SockRx.WF (rx : SockRx) : Prop where
  size : rx.rx_buf.length = JRD_SOCK_WEB_RX_BUF_SIZE
  fits : rx.remind_buf_size ≤ JRD_SOCK_WEB_RX_BUF_SIZE

/-- `recv` can return this chunk: it is asked for the room that is left. -/
def Receivable (rx : SockRx) (chunk : Bytes) : Prop :=
  chunk ≠ [] ∧ chunk.length ≤ JRD_SOCK_WEB_RX_BUF_SIZE - rx.remind_buf_size

instance (rx : SockRx) (chunk : Bytes) : Decidable (Receivable rx chunk) :=
  inferInstanceAs (Decidable (_ ∧ _))

/-- What has been received and not been taken yet, when the loop is at `offset`. -/
def SockRx.unread (rx : SockRx) (offset : ℕ) : Bytes :=
  (rx.rx_buf.drop offset).take rx.remind_buf_size

/-- What is left from earlier calls. -/
def SockRx.left (rx : SockRx) : Bytes := rx.rx_buf.take rx.remind_buf_size

/-- The messages put so far. -/
def SockRx.put (rx : SockRx) : List SockMsg := rx.jrd_webs_tx_q.map RxMsg.msg

/-! ## One frame -/

theorem client_send_msg_length {d : SockDefs} {m : SockMsg} (h : Sendable d m) :
    (client_send_msg d m).length = d.overhead + m.data.length := by
  have hhdr := h.hdr
  unfold client_send_msg SockDefs.overhead
  simp only [List.length_append, intBytes_length]
  omega

theorem Sendable.overhead_lt {d : SockDefs} {m : SockMsg} (h : Sendable d m) :
    d.overhead < (client_send_msg d m).length := by
  have hpos : 0 < m.data.length := List.length_pos_iff.mpr h.data
  rw [client_send_msg_length h]
  omega

/-- Once eight bytes of a frame are there, the marker and the length can be read, whatever
stands behind them. -/
theorem readInt_frame {d : SockDefs} {m : SockMsg} (h : Sendable d m) {b future tail : Bytes}
    (hb : 8 ≤ b.length) (hstream : b ++ future = client_send_msg d m ++ tail) (more : Bytes) :
    readInt (b ++ more) = d.PACK_HEAD ∧
      readInt ((b ++ more).drop 4) = (client_send_msg d m).length := by
  have hlen : ((client_send_msg d m).length : ℤ) < 2 ^ 31 := by
    have := h.fits
    unfold JRD_SOCK_WEB_RX_BUF_SIZE at this
    omega
  have hframe : b ++ future = intBytes d.PACK_HEAD ++
      (intBytes (client_send_msg d m).length ++ (m.msg_hdr ++ m.data ++ tail)) := by
    rw [hstream, client_send_msg_length h]
    simp [client_send_msg]
  constructor
  · rw [readInt_append (by omega), ← readInt_append (c := future) (by omega), hframe]
    exact readInt_intBytes d.head_low d.head_high _
  · have hdrop : ∀ c : Bytes, (b ++ c).drop 4 = b.drop 4 ++ c :=
      fun c => List.drop_append_of_le_length (by omega)
    have hfour : 4 ≤ (b.drop 4).length := by
      rw [List.length_drop]
      omega
    rw [hdrop, readInt_append hfour, ← readInt_append hfour future, ← hdrop, hframe]
    exact readInt_intBytes (by omega) hlen _

/-- A whole frame becomes its message. -/
theorem put_frame {d : SockDefs} {m : SockMsg} (h : Sendable d m) (more : Bytes) :
    ∃ rm : RxMsg, rm.msg = m ∧
      jrd_put_data_to_web_tx_q d ((client_send_msg d m ++ more).drop 8)
        ((client_send_msg d m).length - 8) = .ok rm := by
  have hlen := client_send_msg_length h
  have hsock : ((client_send_msg d m).length : ℤ) - 8 = (d.hdrSize + m.data.length : ℕ) := by
    rw [hlen]
    unfold SockDefs.overhead
    push_cast
    ring
  have hdrop : (client_send_msg d m ++ more).drop 8 = m.msg_hdr ++ (m.data ++ more) := by
    unfold client_send_msg
    rw [List.append_assoc, List.append_assoc]
    have hwords : (intBytes d.PACK_HEAD ++ intBytes (d.overhead + m.data.length : ℕ)).length = 8 :=
      rfl
    rw [← hwords, List.drop_left]
  refine ⟨⟨m.msg_hdr, m.data.length, m.data ++ List.replicate d.hdrSize 0⟩, ?_, ?_⟩
  · unfold RxMsg.msg
    dsimp only
    rw [List.take_left]
  · unfold jrd_put_data_to_web_tx_q
    rw [hsock, hdrop, if_neg (by omega), if_neg (by push_cast; omega), Int.toNat_natCast,
      Nat.add_sub_cancel_left, ← h.hdr, List.take_left, List.drop_left]
    dsimp only
    rw [List.take_left]

/-! ## One call -/

/-- A call has turned the unread bytes `b` of the stream of `done ++ rest` into the messages
`done`, and keeps the beginning of the next frame. -/
structure TookAll (d : SockDefs) (done rest : List SockMsg) (b : Bytes) (rx : SockRx)
    (r : SockRx × RecvEnd) : Prop where
  bytes : b = stream (client_send_msg d) done ++ r.1.left
  unfinished : Unfinished (client_send_msg d) r.1.left rest
  put : r.1.put = rx.put ++ done
  fault : r.1.fault = rx.fault
  size : r.1.rx_buf.length = rx.rx_buf.length
  fits : r.1.remind_buf_size ≤ rx.rx_buf.length
  ends : r.2 = .wait

theorem unread_length {rx : SockRx} {offset : ℕ}
    (h : offset + rx.remind_buf_size ≤ rx.rx_buf.length) :
    (rx.unread offset).length = rx.remind_buf_size := by
  unfold SockRx.unread
  rw [List.length_take, List.length_drop]
  omega

theorem compact_left {rx : SockRx} {offset : ℕ}
    (h : offset + rx.remind_buf_size ≤ rx.rx_buf.length) :
    (rx.compact offset).left = rx.unread offset ∧
      (rx.compact offset).rx_buf.length = rx.rx_buf.length := by
  have hlen := unread_length h
  have htake := take_writeAt (Nat.zero_le rx.rx_buf.length) (rx.unread offset)
  rw [hlen, Nat.zero_add, List.take_zero, List.nil_append] at htake
  refine ⟨htake, writeAt_length ?_⟩
  have : (rx.unread offset).length ≤ rx.rx_buf.length := by omega
  rw [Nat.zero_add]
  exact this

/-- The rest of a turn of the loop, once a message has been taken. -/
def afterTake (d : SockDefs) (fuel : ℕ) (rx : SockRx) (offset : ℕ) : SockRx × RecvEnd :=
  if rx.remind_buf_size = 0 then (rx, .wait)
  else if rx.remind_buf_size < d.overhead then (rx.compact offset, .wait)
  else if readInt (rx.rx_buf.drop offset) ≠ d.PACK_HEAD then (rx, .headError)
  else if rx.remind_buf_size < readInt (rx.rx_buf.drop (offset + 4)) then (rx.compact offset, .wait)
  else client_recv_msg.loop d fuel rx offset (readInt (rx.rx_buf.drop (offset + 4)))

/-- A turn of the loop takes the frame that is complete. -/
theorem loop_turn {d : SockDefs} {m : SockMsg} (hm : Sendable d m) {ms : List SockMsg} (fuel : ℕ)
    {rx : SockRx} {offset : ℕ} {future : Bytes}
    (hroom : offset + rx.remind_buf_size ≤ rx.rx_buf.length)
    (hstream : rx.unread offset ++ future = stream (client_send_msg d) (m :: ms))
    (hle : (client_send_msg d m).length ≤ rx.remind_buf_size) :
    ∃ rm : RxMsg, rm.msg = m ∧
      rx.unread offset = client_send_msg d m ++
        (rx.took rm (client_send_msg d m).length).unread (offset + (client_send_msg d m).length) ∧
      client_recv_msg.loop d (fuel + 1) rx offset (client_send_msg d m).length
        = afterTake d fuel (rx.took rm (client_send_msg d m).length)
            (offset + (client_send_msg d m).length) := by
  have hlen := unread_length hroom
  -- The frame is the first part of what has not been read.
  obtain ⟨b, hunread, -⟩ := exists_append_of_append_eq hstream (by omega)
  have hb : b.length = rx.remind_buf_size - (client_send_msg d m).length := by
    rw [hunread, List.length_append] at hlen
    omega
  obtain ⟨more, hmore⟩ : ∃ more, rx.rx_buf.drop offset = client_send_msg d m ++ (b ++ more) := by
    refine ⟨(rx.rx_buf.drop offset).drop rx.remind_buf_size, ?_⟩
    rw [← List.append_assoc, ← hunread]
    exact (List.take_append_drop _ _).symm
  have hnext : rx.rx_buf.drop (offset + (client_send_msg d m).length) = b ++ more := by
    rw [← List.drop_drop, hmore, List.drop_left]
  obtain ⟨rm, hrm, hput⟩ := put_frame hm (b ++ more)
  refine ⟨rm, hrm, ?_, ?_⟩
  · unfold SockRx.unread SockRx.took
    dsimp only
    rw [hnext, Int.toNat_natCast, ← hb, List.take_left]
    exact hunread
  · rw [← hmore, List.drop_drop] at hput
    rw [client_recv_msg.loop, if_pos (by omega), hput]
    rfl

/-- What is moved to the front is the beginning of the next frame. -/
theorem compact_tookAll {d : SockDefs} {rest : List SockMsg} {rx : SockRx} {offset : ℕ}
    (hroom : offset + rx.remind_buf_size ≤ rx.rx_buf.length)
    (hshort : Unfinished (client_send_msg d) (rx.unread offset) rest) :
    TookAll d [] rest (rx.unread offset) rx (rx.compact offset, .wait) := by
  obtain ⟨hleft, hsize⟩ := compact_left hroom
  refine ⟨?_, ?_, ?_, rfl, hsize, ?_, rfl⟩
  · rw [stream_nil, List.nil_append]
    exact hleft.symm
  · dsimp only
    rw [hleft]
    exact hshort
  · exact (List.append_nil _).symm
  · have : rx.remind_buf_size ≤ rx.rx_buf.length := by omega
    exact this

/-- Nothing is left. -/
theorem empty_tookAll {d : SockDefs} {rest : List SockMsg} (hrest : ∀ m ∈ rest, Sendable d m)
    {rx : SockRx} (hzero : rx.remind_buf_size = 0) : TookAll d [] rest [] rx (rx, .wait) := by
  have hleft : rx.left = [] := by
    unfold SockRx.left
    rw [hzero, List.take_zero]
  refine ⟨?_, ?_, (List.append_nil _).symm, rfl, rfl, ?_, rfl⟩
  · exact hleft.symm
  · dsimp only
    rw [hleft]
    rcases rest with _ | ⟨m, rest⟩
    · rfl
    · have := (hrest m (by simp)).overhead_lt
      show 0 < (client_send_msg d m).length
      omega
  · dsimp only
    omega

/-- After a message, everything else that is complete is taken. -/
def TakesAll (d : SockDefs) (ms : List SockMsg) : Prop :=
  ∀ (fuel : ℕ) (rx : SockRx) (offset : ℕ) (future : Bytes),
    offset + rx.remind_buf_size ≤ rx.rx_buf.length →
    rx.unread offset ++ future = stream (client_send_msg d) ms →
    rx.remind_buf_size ≤ fuel →
    ∃ done rest, ms = done ++ rest ∧
      TookAll d done rest (rx.unread offset) rx (afterTake d fuel rx offset)

/-- The loop takes the complete frame of `m` and then goes on with the others. -/
theorem TakesAll.loop {d : SockDefs} {ms : List SockMsg} (hrest : TakesAll d ms) {m : SockMsg}
    (hm : Sendable d m) {fuel : ℕ} {rx : SockRx} {offset : ℕ} {future : Bytes}
    (hroom : offset + rx.remind_buf_size ≤ rx.rx_buf.length)
    (hstream : rx.unread offset ++ future = stream (client_send_msg d) (m :: ms))
    (hle : (client_send_msg d m).length ≤ rx.remind_buf_size)
    (hfuel : rx.remind_buf_size ≤ fuel) :
    ∃ done rest, m :: ms = done ++ rest ∧
      TookAll d done rest (rx.unread offset) rx
        (client_recv_msg.loop d fuel rx offset (client_send_msg d m).length) := by
  have hbig := hm.overhead_lt
  obtain ⟨fuel, rfl⟩ : ∃ f, fuel = f + 1 := ⟨fuel - 1, by omega⟩
  obtain ⟨rm, hrm, hunread, hloop⟩ := loop_turn hm fuel hroom hstream hle
  have hremind : (rx.took rm (client_send_msg d m).length).remind_buf_size
      = rx.remind_buf_size - (client_send_msg d m).length := rfl
  have hsame : (rx.took rm (client_send_msg d m).length).rx_buf = rx.rx_buf := rfl
  rw [hunread, stream_cons, List.append_assoc] at hstream
  obtain ⟨done, rest, hsplit, htook⟩ := hrest fuel (rx.took rm (client_send_msg d m).length)
    (offset + (client_send_msg d m).length) future (by rw [hsame]; omega)
    (List.append_cancel_left hstream) (by omega)
  refine ⟨m :: done, rest, by rw [hsplit]; rfl, ?_⟩
  rw [hloop]
  refine ⟨?_, htook.unfinished, ?_, htook.fault, htook.size, htook.fits, htook.ends⟩
  · rw [hunread, stream_cons, List.append_assoc, ← htook.bytes]
  · rw [htook.put]
    unfold SockRx.put SockRx.took
    dsimp only
    rw [List.map_append, List.map_singleton, hrm, List.append_assoc, List.singleton_append]

/-- The marker and the length of the frame at `offset`, once eight bytes of it are there. -/
theorem readInt_unread {d : SockDefs} {m : SockMsg} (hm : Sendable d m) {ms : List SockMsg}
    {rx : SockRx} {offset : ℕ} {future : Bytes}
    (hroom : offset + rx.remind_buf_size ≤ rx.rx_buf.length)
    (hstream : rx.unread offset ++ future = stream (client_send_msg d) (m :: ms))
    (hmany : d.overhead ≤ rx.remind_buf_size) :
    readInt (rx.rx_buf.drop offset) = d.PACK_HEAD ∧
      readInt (rx.rx_buf.drop (offset + 4)) = (client_send_msg d m).length := by
  have height : 8 ≤ (rx.unread offset).length := by
    rw [unread_length hroom]
    unfold SockDefs.overhead at hmany
    omega
  have h := readInt_frame hm height hstream ((rx.rx_buf.drop offset).drop rx.remind_buf_size)
  have hbuf : rx.unread offset ++ (rx.rx_buf.drop offset).drop rx.remind_buf_size
      = rx.rx_buf.drop offset := List.take_append_drop _ _
  rw [hbuf, List.drop_drop] at h
  exact h

theorem takesAll {d : SockDefs} (ms : List SockMsg) (hms : ∀ m ∈ ms, Sendable d m) :
    TakesAll d ms := by
  -- By induction on the messages: each turn of the loop takes one of them.
  induction ms with
  | nil =>
      intro fuel rx offset future hroom hstream hfuel
      have hnone : rx.unread offset = [] := (List.append_eq_nil_iff.mp hstream).1
      have hzero : rx.remind_buf_size = 0 := by
        rw [← unread_length hroom, hnone, List.length_nil]
      refine ⟨[], [], rfl, ?_⟩
      unfold afterTake
      rw [if_pos hzero, hnone]
      exact empty_tookAll hms hzero
  | cons m ms ih =>
      intro fuel rx offset future hroom hstream hfuel
      have hlen := unread_length hroom
      have hm : Sendable d m := hms m (by simp)
      have hbig := hm.overhead_lt
      -- A part that is shorter than the frame of `m` stays.
      have hstay : rx.remind_buf_size < (client_send_msg d m).length →
          TookAll d [] (m :: ms) (rx.unread offset) rx (rx.compact offset, .wait) := by
        intro hshort
        apply compact_tookAll hroom
        show (rx.unread offset).length < _
        omega
      unfold afterTake
      by_cases hzero : rx.remind_buf_size = 0
      · have hnone : rx.unread offset = [] := List.length_eq_zero_iff.mp (by omega)
        rw [if_pos hzero, hnone]
        exact ⟨[], m :: ms, rfl, empty_tookAll hms hzero⟩
      rw [if_neg hzero]
      by_cases hlittle : rx.remind_buf_size < d.overhead
      · rw [if_pos hlittle]
        exact ⟨[], m :: ms, rfl, hstay (by omega)⟩
      rw [if_neg hlittle]
      obtain ⟨hhead, hsock⟩ := readInt_unread hm hroom hstream (by omega)
      rw [if_neg (not_not.mpr hhead), hsock]
      by_cases hshort : (rx.remind_buf_size : ℤ) < (client_send_msg d m).length
      · rw [if_pos hshort]
        exact ⟨[], m :: ms, rfl, hstay (by omega)⟩
      rw [if_neg hshort]
      have hnext := ih (fun m' h => hms m' (List.mem_cons_of_mem m h))
      exact hnext.loop hm hroom hstream (by omega) hfuel

theorem append_left {rx : SockRx} (hwf : rx.WF) {chunk : Bytes} (hchunk : Receivable rx chunk) :
    (rx.append chunk).unread 0 = rx.left ++ chunk ∧
      (rx.append chunk).rx_buf.length = JRD_SOCK_WEB_RX_BUF_SIZE ∧
      (rx.append chunk).remind_buf_size ≤ JRD_SOCK_WEB_RX_BUF_SIZE := by
  have hsize := hwf.size
  have hfits := hwf.fits
  have hroom := hchunk.2
  refine ⟨?_, ?_, ?_⟩
  · exact take_writeAt (by omega) chunk
  · unfold SockRx.append
    dsimp only
    rw [writeAt_length (by omega), hsize]
  · unfold SockRx.append
    dsimp only
    omega

/-- A call with the next chunk of the stream. -/
theorem client_recv_msg_tookAll {d : SockDefs} {ms : List SockMsg} (hms : ∀ m ∈ ms, Sendable d m)
    {rx : SockRx} (hwf : rx.WF) {chunk future : Bytes} (hchunk : Receivable rx chunk)
    (hstream : rx.left ++ chunk ++ future = stream (client_send_msg d) ms) :
    ∃ done rest, ms = done ++ rest ∧
      TookAll d done rest (rx.left ++ chunk) (rx.append chunk) (client_recv_msg d rx chunk) := by
  obtain ⟨hunread, hsize, hfits⟩ := append_left hwf hchunk
  have hroom : 0 + (rx.append chunk).remind_buf_size ≤ (rx.append chunk).rx_buf.length := by omega
  have hlen := unread_length hroom
  rcases ms with _ | ⟨m, ms⟩
  · -- There is nothing to come, but something came.
    have hnone := (List.append_eq_nil_iff.mp (List.append_eq_nil_iff.mp hstream).1).2
    exact absurd hnone hchunk.1
  have hm : Sendable d m := hms m (by simp)
  have hbig := hm.overhead_lt
  rw [← hunread] at hstream ⊢
  have hstay : (rx.append chunk).remind_buf_size < (client_send_msg d m).length →
      TookAll d [] (m :: ms) ((rx.append chunk).unread 0) (rx.append chunk)
        (rx.append chunk, .wait) := by
    intro hshort
    refine ⟨rfl, ?_, (List.append_nil _).symm, rfl, rfl, by dsimp only; omega, rfl⟩
    show ((rx.append chunk).unread 0).length < _
    omega
  unfold client_recv_msg
  dsimp only
  by_cases hlittle : (rx.append chunk).remind_buf_size ≤ d.overhead
  · rw [if_pos hlittle]
    exact ⟨[], m :: ms, rfl, hstay (by omega)⟩
  rw [if_neg hlittle]
  obtain ⟨hhead, hsock⟩ := readInt_unread hm hroom hstream (by omega)
  rw [List.drop_zero] at hhead
  rw [Nat.zero_add] at hsock
  rw [if_neg (not_not.mpr hhead), hsock]
  by_cases hshort : ((rx.append chunk).remind_buf_size : ℤ) < (client_send_msg d m).length
  · rw [if_pos hshort]
    exact ⟨[], m :: ms, rfl, hstay (by omega)⟩
  rw [if_neg hshort]
  have hrest := takesAll ms (fun m' h => hms m' (List.mem_cons_of_mem m h))
  exact hrest.loop hm hroom hstream (by omega) (le_refl _)

/-! ## A whole stream -/

/-- Of the stream of `ms` the bytes `got` have been received. -/
structure RxInv (d : SockDefs) (before ms : List SockMsg) (got : Bytes) (rx : SockRx) : Prop where
  wf : rx.WF
  fault : rx.fault = false
  /-- The complete frames are on the queue and the beginning of the next one is in the
  buffer. -/
  split : ∃ done rest, ms = done ++ rest ∧ got = stream (client_send_msg d) done ++ rx.left ∧
    Unfinished (client_send_msg d) rx.left rest ∧ rx.put = before ++ done

theorem left_length {rx : SockRx} (h : rx.WF) : rx.left.length = rx.remind_buf_size := by
  have hsize := h.size
  have hfits := h.fits
  unfold SockRx.left
  rw [List.length_take]
  omega

theorem RxInv.start {d : SockDefs} {ms : List SockMsg} (hms : ∀ m ∈ ms, Sendable d m)
    {rx : SockRx} (hwf : rx.WF) (hfault : rx.fault = false) (hzero : rx.remind_buf_size = 0) :
    RxInv d rx.put ms [] rx := by
  have h := empty_tookAll hms hzero
  exact ⟨hwf, hfault, [], ms, rfl, h.bytes, h.unfinished, h.put⟩

/-- One more chunk of the stream. -/
theorem RxInv.recv {d : SockDefs} {before ms : List SockMsg} {got : Bytes} {rx : SockRx}
    (h : RxInv d before ms got rx) (hms : ∀ m ∈ ms, Sendable d m) {chunk future : Bytes}
    (hchunk : Receivable rx chunk)
    (hstream : got ++ chunk ++ future = stream (client_send_msg d) ms) :
    RxInv d before ms (got ++ chunk) (rx.recv d chunk) ∧ (client_recv_msg d rx chunk).2 = .wait := by
  obtain ⟨done, rest, hsplit, hgot, -, hput⟩ := h.split
  obtain ⟨-, hsize, -⟩ := append_left h.wf hchunk
  -- The frames that are done cancel, and the call works on the others.
  have hrest : rx.left ++ chunk ++ future = stream (client_send_msg d) rest := by
    rw [hsplit, stream_append, hgot] at hstream
    have hboth : stream (client_send_msg d) done ++ (rx.left ++ chunk ++ future)
        = stream (client_send_msg d) done ++ stream (client_send_msg d) rest := by
      rw [← hstream]
      simp only [List.append_assoc]
    exact List.append_cancel_left hboth
  obtain ⟨done', rest', hsplit', htook⟩ := client_recv_msg_tookAll
    (fun m hm => hms m (by rw [hsplit]; exact List.mem_append_right done hm)) h.wf hchunk hrest
  refine ⟨⟨⟨htook.size.trans hsize, hsize ▸ htook.fits⟩, htook.fault.trans h.fault,
    done ++ done', rest', ?_, ?_, htook.unfinished, ?_⟩, htook.ends⟩
  · rw [hsplit, hsplit', List.append_assoc]
  · rw [hgot, stream_append, List.append_assoc, List.append_assoc, htook.bytes]
    rfl
  · have happend : (rx.append chunk).put = rx.put := rfl
    rw [← List.append_assoc, ← hput, ← happend]
    exact htook.put

theorem RxInv.run {d : SockDefs} {before ms : List SockMsg} (hms : ∀ m ∈ ms, Sendable d m)
    {got : Bytes} {rx : SockRx} (h : RxInv d before ms got rx) {chunks : List Bytes}
    {future : Bytes} (hchunks : Along (SockRx.recv d) Receivable rx chunks)
    (hstream : got ++ chunks.flatten ++ future = stream (client_send_msg d) ms) :
    RxInv d before ms (got ++ chunks.flatten) (run (SockRx.recv d) rx chunks) := by
  induction chunks generalizing got rx with
  | nil => simpa using h
  | cons chunk chunks ih =>
      rw [List.flatten_cons, ← List.append_assoc, List.append_assoc (got ++ chunk)] at hstream
      have hnext := (h.recv hms hchunks.1 hstream).1
      rw [← List.append_assoc] at hstream
      have := ih hnext hchunks.2 hstream
      rw [run_cons, List.flatten_cons, ← List.append_assoc]
      exact this

theorem RxInv.put_eq {d : SockDefs} {before ms : List SockMsg} {got : Bytes} {rx : SockRx}
    (h : RxInv d before ms got rx) :
    rx.put = before ++ arrived (client_send_msg d) ms got.length := by
  obtain ⟨done, rest, hsplit, hgot, hshort, hput⟩ := h.split
  rw [hput, hsplit, hgot, arrived_of_split hshort]

/-- As long as something is to come there is room for it. -/
theorem RxInv.room {d : SockDefs} {before ms : List SockMsg} (hms : ∀ m ∈ ms, Sendable d m)
    {got future : Bytes} {rx : SockRx} (h : RxInv d before ms got rx)
    (hstream : got ++ future = stream (client_send_msg d) ms) (hmore : future ≠ []) :
    rx.remind_buf_size < JRD_SOCK_WEB_RX_BUF_SIZE := by
  obtain ⟨done, rest, hsplit, hgot, hshort, -⟩ := h.split
  rcases rest with _ | ⟨m, rest⟩
  · -- All frames are done, so that nothing is to come.
    have hleft : rx.left = [] := hshort
    rw [hgot, hleft, hsplit, List.append_nil, List.append_nil] at hstream
    exact absurd (List.append_right_eq_self.mp hstream) hmore
  · have hm : Sendable d m := hms m (by rw [hsplit]; simp)
    have hfits := hm.fits
    have hlt : rx.left.length < (client_send_msg d m).length := hshort
    rw [left_length h.wf] at hlt
    omega

/-- Whatever part of the stream of `ms` has been received, in whatever chunks, the receiver has
put exactly the messages whose frames are complete, and it can go on. -/
def KeepsUp (d : SockDefs) (rx : SockRx) (ms : List SockMsg) : Prop :=
  ∀ (chunks : List Bytes) (future : Bytes),
    chunks.flatten ++ future = stream (client_send_msg d) ms →
    Along (SockRx.recv d) Receivable rx chunks →
    (run (SockRx.recv d) rx chunks).put
        = rx.put ++ arrived (client_send_msg d) ms chunks.flatten.length ∧
      (run (SockRx.recv d) rx chunks).fault = false ∧
      (future ≠ [] →
        (run (SockRx.recv d) rx chunks).remind_buf_size < JRD_SOCK_WEB_RX_BUF_SIZE)

/-- With nothing left from before, the receiver keeps up with any stream. -/
theorem keepsUp_of_empty {d : SockDefs} {rx : SockRx} (hwf : rx.WF) (hfault : rx.fault = false)
    (hzero : rx.remind_buf_size = 0) {ms : List SockMsg} (hms : ∀ m ∈ ms, Sendable d m) :
    KeepsUp d rx ms := by
  intro chunks future hstream hchunks
  have h := (RxInv.start hms hwf hfault hzero).run hms hchunks hstream
  rw [List.nil_append] at h
  exact ⟨h.put_eq, h.fault, h.room hms hstream⟩

theorem init_wf {rx_buf : Bytes} (h : rx_buf.length = JRD_SOCK_WEB_RX_BUF_SIZE) :
    (SockRx.init rx_buf).WF := ⟨h, Nat.zero_le _⟩

/-- **Framing.** The messages of the stream are put in order, each once and as it was sent, as
soon as its last byte is there; and after the last byte of the stream they are all there. -/
theorem client_recv_msg_delivers (d : SockDefs) (rx_buf : Bytes)
    (hbuf : rx_buf.length = JRD_SOCK_WEB_RX_BUF_SIZE) (ms : List SockMsg)
    (hms : ∀ m ∈ ms, Sendable d m) :
    KeepsUp d (SockRx.init rx_buf) ms ∧
    ∀ chunks : List Bytes, chunks.flatten = stream (client_send_msg d) ms →
      Along (SockRx.recv d) Receivable (SockRx.init rx_buf) chunks →
      (run (SockRx.recv d) (SockRx.init rx_buf) chunks).put = ms := by
  have hkeeps : KeepsUp d (SockRx.init rx_buf) ms :=
    keepsUp_of_empty (init_wf hbuf) rfl rfl hms
  refine ⟨hkeeps, ?_⟩
  intro chunks hall hchunks
  have h := (hkeeps chunks [] (by rw [List.append_nil, hall]) hchunks).1
  rw [h, hall, arrived_all]
  rfl

/-- The definitions the core application is built with. -/
def coreDefs : SockDefs := ⟨24, 0x7061636B, by decide, by decide⟩

/-- A message with an empty header. -/
def textMsg (data : String) : SockMsg := ⟨List.replicate 24 0, bytes data⟩

/-- The buffer when the process starts. -/
def zeroBuf : Bytes := List.replicate JRD_SOCK_WEB_RX_BUF_SIZE 0

/-- Two messages in three chunks; the first chunk ends within the marker of the first frame,
the second one within the length of the second frame. -/
theorem client_recv_msg_delivers_three_chunks :
    (run (SockRx.recv coreDefs) (SockRx.init zeroBuf)
      [(stream (client_send_msg coreDefs) [textMsg "one", textMsg "two"]).take 3,
        ((stream (client_send_msg coreDefs) [textMsg "one", textMsg "two"]).drop 3).take 38,
        (stream (client_send_msg coreDefs) [textMsg "one", textMsg "two"]).drop 41]).put
      = [textMsg "one", textMsg "two"] := by
  refine (client_recv_msg_delivers coreDefs zeroBuf (by decide +kernel)
    [textMsg "one", textMsg "two"] (by decide +kernel)).2 _ (by decide +kernel) ?_
  decide +kernel

end TestCore.Webs
