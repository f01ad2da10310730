/-
What a closed connection leaves behind.

`remind_buf_size` is a static of `client_recv_msg` and outlives the connection: when `recv`
returns 0 the socket is closed and the count is kept, and a bad marker neither closes the
connection nor drops anything. Whatever is in the buffer then, be it the beginning of a frame
or bytes behind a bad marker, stands before the first byte of the next connection.

The probe below is a stream of a single small frame. If the receiver does keep up with it, the
message it puts has the length of the frame, but the length it reads is made of bytes that are
partly left from before. There are two probes, and these bytes cannot be right for both. So a
receiver that has anything left is never in step again (`not_resyncs`), from whatever state.
-/
import TestCore.Webs.SockClt

set_option autoImplicit false

namespace TestCore.Webs

open TestCore.Lib

/-- The receiver follows the next connection as if it had just been started. -/
def Resyncs (d : SockDefs) (rx : SockRx) : Prop :=
  ∀ ms : List SockMsg, (∀ m ∈ ms, Sendable d m) → KeepsUp d rx ms

/-- The length that a call reads in the buffer. -/
def SockRx.sockLen (rx : SockRx) (chunk : Bytes) : ℤ := readInt ((rx.append chunk).rx_buf.drop 4)

/-! ## What any call does -/

/-- `jrd_put_data_to_web_tx_q` succeeds only from the length of an empty message on. -/
theorem put_ok_le {d : SockDefs} {b : Bytes} {sock_len : ℤ} {m : RxMsg}
    (h : jrd_put_data_to_web_tx_q d b (sock_len - 8) = .ok m) : (d.overhead : ℤ) ≤ sock_len := by
  unfold jrd_put_data_to_web_tx_q at h
  split_ifs at h with hneg hhdr
  unfold SockDefs.overhead
  omega

theorem put_ok_length {d : SockDefs} {b : Bytes} {sock_len : ℤ} {m : RxMsg}
    (h : jrd_put_data_to_web_tx_q d b (sock_len - 8) = .ok m) (hb : sock_len ≤ b.length + 8) :
    sock_len = (d.overhead + m.msg.data.length : ℕ) := by
  have hle := put_ok_le h
  unfold jrd_put_data_to_web_tx_q at h
  split_ifs at h with hneg hhdr
  rw [PutResult.ok.injEq] at h
  rw [← h]
  unfold RxMsg.msg
  simp only [List.length_take, List.length_append, List.length_drop, List.length_replicate]
  unfold SockDefs.overhead at hle ⊢
  omega

/-- A turn of the loop fails, or takes a message and goes on. -/
theorem loop_turn_cases (d : SockDefs) (fuel : ℕ) (rx : SockRx) (offset : ℕ) {sock_len : ℤ}
    (hle : sock_len ≤ rx.remind_buf_size) :
    client_recv_msg.loop d (fuel + 1) rx offset sock_len = (rx, .putFailed) ∨
    client_recv_msg.loop d (fuel + 1) rx offset sock_len = ({ rx with fault := true }, .fault) ∨
    ∃ m, jrd_put_data_to_web_tx_q d (rx.rx_buf.drop (offset + 8)) (sock_len - 8) = .ok m ∧
      client_recv_msg.loop d (fuel + 1) rx offset sock_len
        = afterTake d fuel (rx.took m sock_len) (offset + sock_len.toNat) := by
  rw [client_recv_msg.loop, if_pos hle]
  rcases hput : jrd_put_data_to_web_tx_q d (rx.rx_buf.drop (offset + 8)) (sock_len - 8)
    with m | _ | _
  · exact Or.inr (Or.inr ⟨m, rfl, rfl⟩)
  · exact Or.inl rfl
  · exact Or.inr (Or.inl rfl)

/-- What holds of every call, whatever it is given. -/
structure Keeps (rx : SockRx) (r : SockRx × RecvEnd) : Prop where
  wf : r.1.WF
  put : ∃ more, r.1.put = rx.put ++ more
  /-- After a bad marker something is left. -/
  bad : r.2 = .headError → r.1.remind_buf_size ≠ 0

theorem Keeps.same {rx : SockRx} (hwf : rx.WF) {e : RecvEnd} (he : e ≠ .headError) :
    Keeps rx (rx, e) := ⟨hwf, ⟨[], (List.append_nil _).symm⟩, fun h => absurd h he⟩

theorem compact_keeps {rx : SockRx} {offset : ℕ}
    (hsize : rx.rx_buf.length = JRD_SOCK_WEB_RX_BUF_SIZE)
    (hroom : offset + rx.remind_buf_size ≤ JRD_SOCK_WEB_RX_BUF_SIZE) :
    Keeps rx (rx.compact offset, .wait) := by
  obtain ⟨-, hlen⟩ := @compact_left rx offset (by omega)
  refine ⟨⟨hlen.trans hsize, ?_⟩, ⟨[], (List.append_nil _).symm⟩, fun h => by cases h⟩
  have : rx.remind_buf_size ≤ JRD_SOCK_WEB_RX_BUF_SIZE := by omega
  exact this

/-- The rest of a turn, if the loop is known for less fuel. -/
theorem afterTake_keeps {d : SockDefs} {fuel : ℕ}
    (hloop : ∀ (rx : SockRx) (offset : ℕ) (sock_len : ℤ),
      rx.rx_buf.length = JRD_SOCK_WEB_RX_BUF_SIZE →
      offset + rx.remind_buf_size ≤ JRD_SOCK_WEB_RX_BUF_SIZE →
      Keeps rx (client_recv_msg.loop d fuel rx offset sock_len))
    {rx : SockRx} {offset : ℕ} (hsize : rx.rx_buf.length = JRD_SOCK_WEB_RX_BUF_SIZE)
    (hroom : offset + rx.remind_buf_size ≤ JRD_SOCK_WEB_RX_BUF_SIZE) :
    Keeps rx (afterTake d fuel rx offset) := by
  unfold afterTake
  split_ifs with hzero hlittle hhead hshort
  · exact Keeps.same ⟨hsize, by omega⟩ (by simp)
  · exact compact_keeps hsize hroom
  · exact ⟨⟨hsize, by dsimp only; omega⟩, ⟨[], (List.append_nil _).symm⟩, fun _ => hzero⟩
  · exact compact_keeps hsize hroom
  · exact hloop _ _ _ hsize hroom

theorem took_put (rx : SockRx) (m : RxMsg) (sock_len : ℤ) :
    (rx.took m sock_len).put = rx.put ++ [m.msg] := List.map_append

/-- Taking a message moves the place of the next one and not the end. -/
theorem took_room {rx : SockRx} {offset N : ℕ} (m : RxMsg) {sock_len : ℤ}
    (hle : sock_len ≤ rx.remind_buf_size) (hroom : offset + rx.remind_buf_size ≤ N) :
    offset + sock_len.toNat + (rx.took m sock_len).remind_buf_size ≤ N := by
  have hremind : (rx.took m sock_len).remind_buf_size
      = rx.remind_buf_size - sock_len.toNat := rfl
  omega

theorem loop_keeps (d : SockDefs) (fuel : ℕ) :
    ∀ (rx : SockRx) (offset : ℕ) (sock_len : ℤ),
      rx.rx_buf.length = JRD_SOCK_WEB_RX_BUF_SIZE →
      offset + rx.remind_buf_size ≤ JRD_SOCK_WEB_RX_BUF_SIZE →
      Keeps rx (client_recv_msg.loop d fuel rx offset sock_len) := by
  induction fuel with
  | zero =>
      intro rx offset sock_len hsize hroom
      exact Keeps.same ⟨hsize, by omega⟩ (by simp)
  | succ fuel ih =>
      intro rx offset sock_len hsize hroom
      have hwf : rx.WF := ⟨hsize, by omega⟩
      by_cases hle : sock_len ≤ rx.remind_buf_size
      · rcases loop_turn_cases d fuel rx offset hle with hfail | hfault | ⟨m, hput, hloop⟩
        · rw [hfail]
          exact Keeps.same hwf (by simp)
        · rw [hfault]
          exact ⟨⟨hsize, hwf.fits⟩, ⟨[], (List.append_nil _).symm⟩, fun h => by cases h⟩
        · have hrest : Keeps (rx.took m sock_len) _ :=
            afterTake_keeps ih hsize (took_room m hle hroom)
          obtain ⟨hwf', ⟨more, hmore⟩, hbad⟩ := hrest
          rw [hloop]
          refine ⟨hwf', ⟨m.msg :: more, ?_⟩, hbad⟩
          rw [hmore, took_put, List.append_assoc, List.singleton_append]
      · rw [client_recv_msg.loop, if_neg hle]
        exact Keeps.same hwf (by simp)

theorem client_recv_msg_keeps (d : SockDefs) {rx : SockRx} (hwf : rx.WF) {chunk : Bytes}
    (hchunk : Receivable rx chunk) : Keeps (rx.append chunk) (client_recv_msg d rx chunk) := by
  obtain ⟨-, hsize, hfits⟩ := append_left hwf hchunk
  unfold client_recv_msg
  dsimp only
  split_ifs with hlittle hhead hshort
  · exact Keeps.same ⟨hsize, hfits⟩ (by simp)
  · exact ⟨⟨hsize, hfits⟩, ⟨[], (List.append_nil _).symm⟩, fun _ => by dsimp only; omega⟩
  · exact Keeps.same ⟨hsize, hfits⟩ (by simp)
  · exact loop_keeps d _ _ _ _ hsize (by omega)

/-- A call puts nothing and keeps everything, or it puts a message of the length it read. -/
theorem client_recv_msg_effect (d : SockDefs) {rx : SockRx} (hwf : rx.WF) {chunk : Bytes}
    (hchunk : Receivable rx chunk) :
    ((rx.recv d chunk).put = rx.put ∧ ((rx.recv d chunk).fault = true ∨
      (rx.recv d chunk).remind_buf_size = rx.remind_buf_size + chunk.length)) ∨
    ∃ m more, (rx.recv d chunk).put = rx.put ++ m :: more ∧
      rx.sockLen chunk = (d.overhead + m.data.length : ℕ) := by
  obtain ⟨-, hsize, hfits⟩ := append_left hwf hchunk
  have hkept : (rx.append chunk).put = rx.put ∧ ((rx.append chunk).fault = true ∨
      (rx.append chunk).remind_buf_size = rx.remind_buf_size + chunk.length) :=
    ⟨rfl, Or.inr rfl⟩
  unfold SockRx.recv client_recv_msg
  dsimp only
  by_cases hlittle : (rx.append chunk).remind_buf_size ≤ d.overhead
  · rw [if_pos hlittle]
    exact Or.inl hkept
  rw [if_neg hlittle]
  by_cases hhead : readInt (rx.append chunk).rx_buf ≠ d.PACK_HEAD
  · rw [if_pos hhead]
    exact Or.inl hkept
  rw [if_neg hhead]
  have hlen : rx.sockLen chunk = readInt ((rx.append chunk).rx_buf.drop 4) := rfl
  rw [← hlen]
  by_cases hshort : ((rx.append chunk).remind_buf_size : ℤ) < rx.sockLen chunk
  · rw [if_pos hshort]
    exact Or.inl hkept
  rw [if_neg hshort]
  -- The loop is entered. It fails at once or puts a message.
  obtain ⟨fuel, hfuel⟩ : ∃ f, (rx.append chunk).remind_buf_size = f + 1 :=
    ⟨(rx.append chunk).remind_buf_size - 1, by omega⟩
  rw [hfuel]
  rcases loop_turn_cases d fuel (rx.append chunk) 0 (not_lt.mp hshort)
    with hfail | hfault | ⟨m, hput, hloop⟩
  · rw [hfail]
    exact Or.inl hkept
  · rw [hfault]
    exact Or.inl ⟨rfl, Or.inl rfl⟩
  · right
    have hrest : Keeps ((rx.append chunk).took m (rx.sockLen chunk)) _ :=
      afterTake_keeps (loop_keeps d fuel) hsize
        (took_room m (not_lt.mp hshort) (by rw [Nat.zero_add]; exact hfits))
    obtain ⟨-, ⟨more, hmore⟩, -⟩ := hrest
    refine ⟨m.msg, more, ?_, put_ok_length hput ?_⟩
    · rw [hloop, hmore, took_put, List.append_assoc, List.singleton_append]
      rfl
    · rw [List.length_drop, hsize]
      have hroom : (JRD_SOCK_WEB_RX_BUF_SIZE - (0 + 8) : ℕ) + 8 = JRD_SOCK_WEB_RX_BUF_SIZE := rfl
      calc rx.sockLen chunk ≤ ((rx.append chunk).remind_buf_size : ℤ) := not_lt.mp hshort
        _ ≤ (JRD_SOCK_WEB_RX_BUF_SIZE : ℤ) := Int.ofNat_le.mpr hfits
        _ = ((JRD_SOCK_WEB_RX_BUF_SIZE - (0 + 8) : ℕ) : ℤ) + 8 := by
          rw [← hroom]
          rfl

/-! ## The probes -/

/-- A message of `e` zero bytes. -/
def probe (d : SockDefs) (e : ℕ) : SockMsg := ⟨List.replicate d.hdrSize 0, List.replicate e 0⟩

theorem probe_sendable {d : SockDefs} {e : ℕ} (he : 0 < e)
    (hroom : d.overhead + e ≤ JRD_SOCK_WEB_RX_BUF_SIZE) : Sendable d (probe d e) := by
  refine ⟨List.length_replicate, ?_, ?_⟩
  · unfold probe
    apply List.length_pos_iff.mp
    rw [List.length_replicate]
    exact he
  · unfold client_send_msg probe SockDefs.overhead at *
    simp only [List.length_append, intBytes_length, List.length_replicate]
    omega

/-- The length of a frame, read one to three bytes too early, is right only if it is a multiple
of 256. -/
theorem shifted_length {n : ℕ} (hn : n ≤ JRD_SOCK_WEB_RX_BUF_SIZE) {p : Bytes} (hp : p ≠ [])
    (hshort : p.length < 4) (head : ℤ) (rest : Bytes)
    (h : readInt ((p ++ (intBytes head ++ (intBytes n ++ rest))).drop 4) = n) : n % 256 = 0 := by
  have hsmall : n ≤ 3072 := hn
  have hhigh : n / 2 ^ 16 = 0 ∧ n / 2 ^ 24 = 0 ∧ n / 2 ^ 8 % 2 ^ 8 = n / 2 ^ 8 := by omega
  have hword := readWord_of_readInt h
  rw [intBytes_natCast (by omega), hhigh.1, hhigh.2.1] at hword
  obtain ⟨h0, h1, h2, h3, hhead⟩ : ∃ h0 h1 h2 h3, intBytes head = [h0, h1, h2, h3] :=
    ⟨_, _, _, _, rfl⟩
  rw [hhead] at hword
  unfold readWord at hword
  rcases p with _ | ⟨a, _ | ⟨b, _ | ⟨c, _ | ⟨e, p⟩⟩⟩⟩
  · exact absurd rfl hp
  · simp only [List.cons_append, List.nil_append, List.drop_succ_cons, List.drop_zero,
      List.getD_cons_zero, List.getD_cons_succ, UInt8.toNat_ofNat', hhigh.2.2] at hword
    omega
  · simp only [List.cons_append, List.nil_append, List.drop_succ_cons, List.drop_zero,
      List.getD_cons_zero, List.getD_cons_succ, UInt8.toNat_ofNat', hhigh.2.2] at hword
    omega
  · simp only [List.cons_append, List.nil_append, List.drop_succ_cons, List.drop_zero,
      List.getD_cons_zero, List.getD_cons_succ, UInt8.toNat_ofNat'] at hword
    omega
  · simp only [List.length_cons] at hshort
    omega

/-- Behind something that is left, the length of one of the probes is read wrong. -/
theorem exists_probe {d : SockDefs} (hroom : d.overhead + 2 ≤ JRD_SOCK_WEB_RX_BUF_SIZE) {p : Bytes}
    (hp : p ≠ []) :
    ∃ e, 0 < e ∧ e ≤ 2 ∧ ∀ rest, readInt ((p ++ (client_send_msg d (probe d e) ++ rest)).drop 4)
      ≠ (d.overhead + e : ℕ) := by
  have hframe : ∀ (e : ℕ) (rest : Bytes), client_send_msg d (probe d e) ++ rest
      = intBytes d.PACK_HEAD ++ (intBytes (d.overhead + e : ℕ) ++
          (List.replicate d.hdrSize 0 ++ List.replicate e 0 ++ rest)) := by
    intro e rest
    simp [client_send_msg, probe]
  by_cases hshort : p.length < 4
  · -- One of two lengths that follow each other is no multiple of 256.
    have hpick : ∀ e, 0 < e → e ≤ 2 → (d.overhead + e) % 256 ≠ 0 →
        ∀ rest, readInt ((p ++ (client_send_msg d (probe d e) ++ rest)).drop 4)
          ≠ (d.overhead + e : ℕ) := by
      intro e hpos hle hmod rest h
      rw [hframe] at h
      exact hmod (shifted_length (by omega) hp hshort _ _ h)
    by_cases hone : (d.overhead + 1) % 256 = 0
    · exact ⟨2, by omega, le_refl 2, hpick 2 (by omega) (le_refl 2) (by omega)⟩
    · exact ⟨1, by omega, by omega, hpick 1 (by omega) (by omega) hone⟩
  · -- The bytes do not depend on the probe.
    have hsame : ∀ (e : ℕ) (rest : Bytes),
        readInt ((p ++ (client_send_msg d (probe d e) ++ rest)).drop 4)
          = readInt ((p ++ intBytes d.PACK_HEAD).drop 4) := by
      intro e rest
      have hlong : 4 ≤ ((p ++ intBytes d.PACK_HEAD).drop 4).length := by
        rw [List.length_drop, List.length_append, intBytes_length]
        omega
      rw [hframe, ← List.append_assoc, List.drop_append_of_le_length (by simp), readInt_append hlong]
    by_cases hone : readInt ((p ++ intBytes d.PACK_HEAD).drop 4) = (d.overhead + 1 : ℕ)
    · refine ⟨2, by omega, le_refl 2, fun rest => ?_⟩
      rw [hsame, hone]
      push_cast
      omega
    · refine ⟨1, by omega, by omega, fun rest => ?_⟩
      rw [hsame]
      exact hone

/-- A receiver that keeps up has room as long as something is to come. -/
theorem KeepsUp.room {d : SockDefs} {rx : SockRx} {ms : List SockMsg} (h : KeepsUp d rx ms)
    (hms : stream (client_send_msg d) ms ≠ []) : rx.remind_buf_size < JRD_SOCK_WEB_RX_BUF_SIZE :=
  (h [] (stream (client_send_msg d) ms) (List.nil_append _) trivial).2.2 hms

/-- **Something left from before is never overcome.** -/
theorem not_resyncs {d : SockDefs} (hroom : d.overhead + 2 ≤ JRD_SOCK_WEB_RX_BUF_SIZE)
    {rx : SockRx} (hwf : rx.WF) (hleft : rx.remind_buf_size ≠ 0) : ¬ Resyncs d rx := by
  intro h
  have hlen := left_length hwf
  have hfits := hwf.fits
  have hp : rx.left ≠ [] := by
    apply List.length_pos_iff.mp
    omega
  obtain ⟨e, hpos, hle, hwrong⟩ := exists_probe hroom hp
  have hs : Sendable d (probe d e) := probe_sendable hpos (by omega)
  have hframe := client_send_msg_length hs
  have hkeeps := h [probe d e] (by simpa using hs)
  have hstream : stream (client_send_msg d) [probe d e] = client_send_msg d (probe d e) := by
    rw [stream_cons, stream_nil, List.append_nil]
  have hsome : client_send_msg d (probe d e) ≠ [] := by
    apply List.length_pos_iff.mp
    have := hs.overhead_lt
    omega
  have hfree := hkeeps.room (by rw [hstream]; exact hsome)
  -- As much of the frame as there is room for.
  obtain ⟨chunk, hchunk⟩ : ∃ chunk, chunk = (client_send_msg d (probe d e)).take
      (JRD_SOCK_WEB_RX_BUF_SIZE - rx.remind_buf_size) := ⟨_, rfl⟩
  have hchunkLen : chunk.length = min (JRD_SOCK_WEB_RX_BUF_SIZE - rx.remind_buf_size)
      (client_send_msg d (probe d e)).length := by
    rw [hchunk, List.length_take]
  have hrecv : Receivable rx chunk := by
    refine ⟨?_, by omega⟩
    apply List.length_pos_iff.mp
    have := hs.overhead_lt
    omega
  obtain ⟨hput, hfault, hnext⟩ := hkeeps [chunk] ((client_send_msg d (probe d e)).drop
      (JRD_SOCK_WEB_RX_BUF_SIZE - rx.remind_buf_size))
    (by rw [hstream, hchunk, List.flatten_singleton, List.take_append_drop]) ⟨hrecv, trivial⟩
  rw [run_cons, run_nil] at hput hfault hnext
  rw [List.flatten_singleton] at hput
  rcases client_recv_msg_effect d hwf hrecv with ⟨hsame, hbad | hremind⟩ | ⟨m, more, hgot, hsock⟩
  · rw [hfault] at hbad
    cases hbad
  · -- Nothing was put, so that the frame is not complete, and now the buffer is full.
    rw [hsame, List.self_eq_append_right, arrived] at hput
    split_ifs at hput with hall
    have hmore : (client_send_msg d (probe d e)).drop
        (JRD_SOCK_WEB_RX_BUF_SIZE - rx.remind_buf_size) ≠ [] := by
      apply List.length_pos_iff.mp
      rw [List.length_drop]
      omega
    have := hnext hmore
    omega
  · -- A message was put: it has to be the probe.
    rw [hgot, List.append_cancel_left_eq, arrived] at hput
    split_ifs at hput with hall
    have hm : m = probe d e := (List.cons.inj hput).1
    have hwhole : chunk = client_send_msg d (probe d e) := by
      rw [hchunk]
      apply List.take_of_length_le
      omega
    rw [hm, hwhole] at hsock
    apply hwrong (rx.rx_buf.drop (rx.remind_buf_size + (client_send_msg d (probe d e)).length))
    rw [← List.append_assoc]
    have hdata : (probe d e).data.length = e := List.length_replicate
    rw [hdata] at hsock
    exact hsock

/-- Resynchronisation, from any state. -/
theorem resyncs_iff {d : SockDefs} (hroom : d.overhead + 2 ≤ JRD_SOCK_WEB_RX_BUF_SIZE)
    {rx : SockRx} (hwf : rx.WF) (hfault : rx.fault = false) :
    Resyncs d rx ↔ rx.remind_buf_size = 0 := by
  constructor
  · intro h
    by_contra hleft
    exact not_resyncs hroom hwf hleft h
  · intro hzero ms hms
    exact keepsUp_of_empty hwf hfault hzero hms

/-! ## How a connection ends -/

/-- What has been received is a part of a stream of frames. -/
def Wellformed (d : SockDefs) (chunks : List Bytes) : Prop :=
  ∃ ms future, (∀ m ∈ ms, Sendable d m) ∧
    chunks.flatten ++ future = stream (client_send_msg d) ms

/-- A connection: a part of a stream of frames, wherever it is cut, or such a part and then the
chunk with which a bad marker is seen. -/
def Connection (d : SockDefs) (rx : SockRx) (chunks : List Bytes) : Prop :=
  Wellformed d chunks ∨ ∃ before chunk, chunks = before ++ [chunk] ∧ Wellformed d before ∧
    (client_recv_msg d (run (SockRx.recv d) rx before) chunk).2 = .headError

/-- What has been received ends where a frame ends. -/
def EndsAtFrame (d : SockDefs) (chunks : List Bytes) : Prop :=
  ∃ ms, (∀ m ∈ ms, Sendable d m) ∧ chunks.flatten = stream (client_send_msg d) ms

theorem EndsAtFrame.empty {d : SockDefs} {rx : SockRx} (hwf : rx.WF) (hfault : rx.fault = false)
    (hzero : rx.remind_buf_size = 0) {chunks : List Bytes} (h : EndsAtFrame d chunks)
    (hchunks : Along (SockRx.recv d) Receivable rx chunks) :
    (run (SockRx.recv d) rx chunks).remind_buf_size = 0 := by
  obtain ⟨ms, hms, hall⟩ := h
  have hinv := (RxInv.start hms hwf hfault hzero).run hms hchunks
    (by rw [List.nil_append, List.append_nil, hall])
  obtain ⟨done, rest, hsplit, hgot, hshort, -⟩ := hinv.split
  have hrest : stream (client_send_msg d) rest = (run (SockRx.recv d) rx chunks).left := by
    rw [List.nil_append, hall, hsplit, stream_append] at hgot
    exact List.append_cancel_left hgot
  rw [← left_length hinv.wf, ← hrest]
  rcases rest with _ | ⟨m, rest⟩
  · rfl
  · -- What is left would be at least a whole frame.
    have hlt : ((run (SockRx.recv d) rx chunks).left).length < (client_send_msg d m).length := hshort
    rw [← hrest, stream_cons, List.length_append] at hlt
    omega

/-- **Reconnection.** After a connection the receiver follows the next one as from its start
exactly if the connection ended where a frame ends. -/
theorem reconnection_resyncs_iff (d : SockDefs)
    (hroom : d.overhead + 2 ≤ JRD_SOCK_WEB_RX_BUF_SIZE) (rx_buf : Bytes)
    (hbuf : rx_buf.length = JRD_SOCK_WEB_RX_BUF_SIZE) (chunks : List Bytes)
    (hchunks : Along (SockRx.recv d) Receivable (SockRx.init rx_buf) chunks)
    (hconn : Connection d (SockRx.init rx_buf) chunks) :
    Resyncs d (run (SockRx.recv d) (SockRx.init rx_buf) chunks).peerClosed ↔
      EndsAtFrame d chunks := by
  have hwf := init_wf hbuf
  rcases hconn with ⟨ms, future, hms, hstream⟩ | ⟨before, chunk, rfl, hbefore, hbad⟩
  · have hinv := (RxInv.start hms hwf rfl rfl).run hms hchunks (by rw [List.nil_append]; exact hstream)
    have hclosed : (run (SockRx.recv d) (SockRx.init rx_buf) chunks).peerClosed.WF :=
      ⟨hinv.wf.size, hinv.wf.fits⟩
    rw [resyncs_iff hroom hclosed hinv.fault]
    constructor
    · intro hzero
      obtain ⟨done, rest, hsplit, hgot, -, -⟩ := hinv.split
      have hleft : (run (SockRx.recv d) (SockRx.init rx_buf) chunks).left = [] := by
        apply List.length_eq_zero_iff.mp
        rw [left_length hinv.wf]
        exact hzero
      refine ⟨done, fun m hm => hms m (by rw [hsplit]; exact List.mem_append_left rest hm), ?_⟩
      rw [List.nil_append, hleft, List.append_nil] at hgot
      exact hgot
    · intro hend
      exact hend.empty hwf rfl rfl hchunks
  · -- A bad marker: something is left, and the chunks are no stream of frames.
    rw [along_append] at hchunks
    obtain ⟨ms, future, hms, hstream⟩ := hbefore
    have hinv := (RxInv.start hms hwf rfl rfl).run hms hchunks.1
      (by rw [List.nil_append]; exact hstream)
    have hkeeps := client_recv_msg_keeps d hinv.wf hchunks.2.1
    have hleft := hkeeps.bad hbad
    have hrun : run (SockRx.recv d) (SockRx.init rx_buf) (before ++ [chunk])
        = (client_recv_msg d (run (SockRx.recv d) (SockRx.init rx_buf) before) chunk).1 := by
      rw [run_append]
      rfl
    constructor
    · intro h
      refine absurd h (not_resyncs hroom ?_ ?_)
      · rw [hrun]
        exact ⟨hkeeps.wf.size, hkeeps.wf.fits⟩
      · rw [hrun]
        exact hleft
    · intro hend
      have hzero := hend.empty hwf rfl rfl ((along_append _ _ _ _ _).mpr hchunks)
      rw [hrun] at hzero
      exact absurd hzero hleft

/-- A connection that ends after a whole frame. -/
theorem reconnection_resyncs_after_frame :
    Resyncs coreDefs (run (SockRx.recv coreDefs) (SockRx.init zeroBuf)
      [client_send_msg coreDefs (textMsg "one")]).peerClosed := by
  have hend : EndsAtFrame coreDefs [client_send_msg coreDefs (textMsg "one")] :=
    ⟨[textMsg "one"], by decide +kernel, by decide +kernel⟩
  refine (reconnection_resyncs_iff coreDefs (by decide) zeroBuf (by decide +kernel)
    [client_send_msg coreDefs (textMsg "one")] (by decide +kernel) (Or.inl ?_)).mpr hend
  obtain ⟨ms, hms, hall⟩ := hend
  exact ⟨ms, [], hms, by rw [List.append_nil, hall]⟩

/-- The peer goes away in the middle of a frame, and comes back with another one. Nothing is
put: the length that is read is that of the first frame, and the first bytes of the second one
have become its data. -/
theorem reconnection_keeps_half_frame :
    (run (SockRx.recv coreDefs) (run (SockRx.recv coreDefs) (SockRx.init zeroBuf)
      [(client_send_msg coreDefs (textMsg "a message of some length")).take 10]).peerClosed
      [client_send_msg coreDefs (textMsg "x")]).put = [] ∧
    ¬ ∀ (d : SockDefs) (rx_buf : Bytes), d.overhead + 2 ≤ JRD_SOCK_WEB_RX_BUF_SIZE →
      rx_buf.length = JRD_SOCK_WEB_RX_BUF_SIZE → ∀ chunks : List Bytes,
      Along (SockRx.recv d) Receivable (SockRx.init rx_buf) chunks →
      Connection d (SockRx.init rx_buf) chunks →
      Resyncs d (run (SockRx.recv d) (SockRx.init rx_buf) chunks).peerClosed := by
  refine ⟨by decide +kernel, fun hall => ?_⟩
  have h := hall coreDefs zeroBuf (by decide) (by decide +kernel)
    [(client_send_msg coreDefs (textMsg "a message of some length")).take 10] (by decide +kernel)
    (Or.inl ⟨[textMsg "a message of some length"],
      (client_send_msg coreDefs (textMsg "a message of some length")).drop 10, by decide +kernel,
      by decide +kernel⟩)
    [textMsg "x"] (by decide +kernel) [client_send_msg coreDefs (textMsg "x")] []
    (by decide +kernel) (by decide +kernel)
  exact absurd h.1 (by decide +kernel)

end TestCore.Webs
