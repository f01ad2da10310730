/-
The input side of a socket (`sock.c`, `sockGen.c`): `socketRead`, and `socketGets`, which reads lines.

As on the output side, a call comes with the list of answers it gets from the system (`Recv`). Bytes that
were received and not asked for wait in `inBuf`, which is filled only when it is empty and from its start,
so that what is in it never goes around the end of the buffer: the straight copies out of it, which do
not look at the end, stay inside (`SocketT.in_line`).

`socketGets` reads byte by byte and builds its line in `lineBuf`. What lines there are is said by an
automaton on the bytes (`lineStep`), which knows nothing of calls and of how the system cuts the stream. It
leaves out carriage returns wherever they stand, and once a line is longer than `E_MAX_REQUEST` it takes the
next character, whatever it is, for the end. `socketGets_lines` says that the calls return its lines.
-/
import TestCore.Webs.SockWrite

set_option autoImplicit false

namespace TestCore.Webs

open TestCore.Lib

/-- `E_MAX_REQUEST`. -/
def E_MAX_REQUEST : ℕ := 2048

/-- What a `recv` answers: bytes, none of them at the end of the stream, or an error. -/
inductive Recv where
  | bytes (b : Bytes)
  | fail (e : SockErr)

/-- `socketGetInput`. The system hands over no more than it is asked for. A connection that was reset is
marked, and reads as one that has ended. -/
def socketGetInput (answer : Recv) (toRead : ℕ) (sp : SocketT) : SocketT × (Bytes ⊕ SockErr) :=
  if sp.eof then (sp, .inl [])
  else
    match answer with
    | .bytes b => (sp, .inl (b.take toRead))
    | .fail .econnreset => ({ sp with connreset := true }, .inl [])
    | .fail e => (sp, .inr e)

theorem inBuf_socketGetInput (answer : Recv) (toRead : ℕ) (sp : SocketT) :
    (socketGetInput answer toRead sp).1.inBuf = sp.inBuf := by
  unfold socketGetInput
  split_ifs
  · rfl
  · split
    all_goals rfl

/-- `ringqFlush` on the empty input queue. -/
def SocketT.resetInput (sp : SocketT) : SocketT :=
  { sp with
    inBuf := ringqFlush sp.inBuf
    in_line := Nat.le_refl 0 }

/-- The bytes that a `recv` has put at the start of the input queue. -/
def SocketT.receive (sp : SocketT) (b : Bytes) (hstart : sp.inBuf.servp = 0) : SocketT :=
  { sp with
    inBuf := (ringqFill sp.inBuf b).1
    in_line := by
      rw [ringqFill_eq]
      exact hstart.le.trans (Nat.zero_le _) }

theorem ringqLen_of_in_line (sp : SocketT) : sp.inBuf.servp + ringqLen sp.inBuf = sp.inBuf.endp := by
  have hline := sp.in_line
  unfold ringqLen
  split_ifs
  · omega
  · omega

/-- The input queue without the `len` bytes that were copied from `rq->servp`. -/
def SocketT.takeInput (sp : SocketT) (len : ℕ) (h : len ≤ ringqLen sp.inBuf) : SocketT :=
  { sp with
    inBuf := ringqGetBlkAdj sp.inBuf len
    in_line := by
      have hend := sp.inBuf.endp_lt
      have hlen := ringqLen_of_in_line sp
      have hplace : wrap sp.inBuf.buflen (sp.inBuf.servp + len) = sp.inBuf.servp + len :=
        wrap_of_lt (show _ < sp.inBuf.buf.length by omega)
      unfold ringqGetBlkAdj
      rw [dif_pos (by rw [hplace]; change _ < sp.inBuf.buf.length; omega)]
      change wrap sp.inBuf.buflen (sp.inBuf.servp + len) ≤ sp.inBuf.endp
      rw [hplace]
      omega }

/-- What a call has done: what it returns if it does, the bytes it has copied for the caller, those it has
received, and the answers it has not asked for. -/
structure Received where
  rc : Option ℤ
  sp : SocketT
  bytes : Bytes
  received : Bytes
  unused : List Recv

/-- The loop of `socketRead`. Bytes just received are copied in the next turn here, in the same one in the
source. -/
def readLoop (answers : List Recv) (sp : SocketT) (bufsize bytesRead : ℕ) : Received :=
  if bufsize = 0 then ⟨some bytesRead, sp, [], [], answers⟩
  else if _hlen : min (ringqLen sp.inBuf) bufsize = 0 then
    if sp.block ∧ 0 < bytesRead then ⟨some bytesRead, sp, [], [], answers⟩
    else
      match answers with
      | [] => ⟨none, sp.resetInput, [], [], []⟩
      | answer :: answers =>
          let input := socketGetInput answer (ringqPutBlkMax sp.resetInput.inBuf) sp.resetInput
          match input.2 with
          | .inr .ewouldblock =>
              if input.1.block ∧ bytesRead = 0 then readLoop answers input.1 bufsize bytesRead
              else ⟨some bytesRead, input.1, [], [], answers⟩
          | .inr _ => ⟨some (-1), input.1, [], [], answers⟩
          | .inl [] =>
              ⟨some bytesRead, if bytesRead = 0 then { input.1 with eof := true } else input.1,
                [], [], answers⟩
          | .inl (c :: b) =>
              let sp := input.1.receive (c :: b) (by rw [inBuf_socketGetInput]; rfl)
              let rest := readLoop answers sp bufsize bytesRead
              { rest with received := (c :: b) ++ rest.received }
  else
    let len := min (ringqLen sp.inBuf) bufsize
    let rest := readLoop answers (sp.takeInput len (Nat.min_le_left _ _)) (bufsize - len) (bytesRead + len)
    { rest with bytes := (sp.inBuf.buf.drop sp.inBuf.servp).take len ++ rest.bytes }
termination_by answers.length + bufsize
decreasing_by
  · rw [List.length_cons]; omega
  · rw [List.length_cons]; omega
  · omega

/-- `socketRead`. -/
def socketRead (answers : List Recv) (sp : SocketT) (bufsize : ℕ) : Received :=
  if sp.eof then ⟨some 0, sp, [], [], answers⟩ else readLoop answers sp bufsize 0

/-! ## What a read does -/

/-- The bytes in an answer. -/
def Recv.size : Recv → ℕ
  | .bytes b => b.length
  | .fail _ => 0

def totalSize (answers : List Recv) : ℕ := (answers.map Recv.size).sum

@[simp] theorem totalSize_cons (answer : Recv) (answers : List Recv) :
    totalSize (answer :: answers) = answer.size + totalSize answers := rfl

/-- What an answer hands over to a call that has room for so many bytes. -/
def Recv.handed (room : ℕ) : Recv → Bytes
  | .bytes b => b.take room
  | .fail _ => []

/-- What the answers that were asked for have handed over. -/
def handedOver (room : ℕ) (used : List Recv) : Bytes := (used.map (Recv.handed room)).flatten

theorem handedOver_cons (room : ℕ) (answer : Recv) (used : List Recv) :
    handedOver room (answer :: used) = answer.handed room ++ handedOver room used := rfl

theorem handedOver_append (room : ℕ) (a b : List Recv) :
    handedOver room (a ++ b) = handedOver room a ++ handedOver room b := by
  rw [handedOver, List.map_append, List.flatten_append]
  rfl

theorem handedOver_length_le (room : ℕ) (used unused : List Recv) :
    (handedOver room used).length + totalSize unused ≤ totalSize (used ++ unused) := by
  induction used with
  | nil => exact (Nat.zero_add _).le
  | cons answer used ih =>
      have hle : (answer.handed room).length ≤ answer.size := by
        cases answer with
        | bytes b => exact List.length_take_le' _ _
        | fail e => exact Nat.le_refl 0
      rw [handedOver_cons, List.length_append, List.cons_append, totalSize_cons]
      omega

/-- There is nothing to be had at present: a call still waits for an answer, or the last one that it asked
for has handed over nothing. -/
def RunDry (room : ℕ) (rc : Option ℤ) (used unused : List Recv) : Prop :=
  rc = none ∧ unused = [] ∨ ∃ asked answer, used = asked ++ [answer] ∧ answer.handed room = []

theorem RunDry.behind {room : ℕ} {rc : Option ℤ} {used unused : List Recv} (h : RunDry room rc used unused)
    (before : List Recv) : RunDry room rc (before ++ used) unused := by
  rcases h with hwaits | ⟨asked, last, rfl, hlast⟩
  · exact Or.inl hwaits
  · exact Or.inr ⟨before ++ asked, last, (List.append_assoc before asked [last]).symm, hlast⟩

/-- An answer that hands over nothing. -/
theorem runDry_singleton {room : ℕ} {answer : Recv} (h : answer.handed room = []) (rc : Option ℤ)
    (unused : List Recv) : RunDry room rc [answer] unused :=
  Or.inr ⟨[], answer, rfl, h⟩

theorem socketGetInput_frame (answer : Recv) (toRead : ℕ) (sp : SocketT) :
    (socketGetInput answer toRead sp).1.lineBuf = sp.lineBuf ∧
      (socketGetInput answer toRead sp).1.eof = sp.eof := by
  unfold socketGetInput
  split_ifs
  · exact ⟨rfl, rfl⟩
  · split
    all_goals exact ⟨rfl, rfl⟩

/-- Before its end, what is read from a stream is what the system hands over. -/
theorem socketGetInput_handed (answer : Recv) (toRead : ℕ) {sp : SocketT} (hopen : sp.eof = false) :
    answer.handed toRead = (socketGetInput answer toRead sp).2.elim id fun _ => [] := by
  unfold socketGetInput
  rw [if_neg (by rw [hopen]; exact Bool.false_ne_true)]
  split
  all_goals rfl

theorem Recv.handed_length_le (room : ℕ) (answer : Recv) : (answer.handed room).length ≤ room := by
  cases answer with
  | bytes b => exact List.length_take_le _ _
  | fail e => exact Nat.zero_le _

/-- The room in the empty input queue. -/
def SocketT.room (sp : SocketT) : ℕ := sp.inBuf.buflen - 1

@[simp] theorem SocketT.buflen_resetInput (sp : SocketT) : sp.resetInput.inBuf.buflen = sp.inBuf.buflen :=
  List.length_set

theorem ringqPutBlkMax_resetInput (sp : SocketT) : ringqPutBlkMax sp.resetInput.inBuf = sp.room := by
  change min (sp.resetInput.inBuf.buflen - 0) (sp.resetInput.inBuf.buflen - 0 - 1) = _
  rw [sp.buflen_resetInput, Nat.sub_zero]
  exact Nat.min_eq_right (Nat.sub_le _ _)

/-- A call with the empty queue gets what there is room for in it. -/
theorem socketGetInput_room (answer : Recv) {sp : SocketT} (hopen : sp.eof = false) :
    answer.handed sp.room =
      (socketGetInput answer (ringqPutBlkMax sp.resetInput.inBuf) sp.resetInput).2.elim id fun _ => [] := by
  rw [← ringqPutBlkMax_resetInput]
  exact socketGetInput_handed answer _ hopen

theorem SocketT.buflen_receive (sp : SocketT) (b : Bytes) (hstart : sp.inBuf.servp = 0) :
    (sp.receive b hstart).inBuf.buflen = sp.inBuf.buflen := by
  change (ringqFill sp.inBuf b).1.buflen = _
  rw [ringqFill_eq]
  exact congrArg RingView.buflen (sp.inBuf.view_putLine b)

@[simp] theorem SocketT.content_resetInput (sp : SocketT) : sp.resetInput.inBuf.content = [] :=
  content_ringqFlush sp.inBuf

theorem SocketT.content_receive (sp : SocketT) {b : Bytes} (hstart : sp.inBuf.servp = 0)
    (hempty : sp.inBuf.content = []) (hb : b.length ≤ ringqPutBlkMax sp.inBuf) :
    (sp.receive b hstart).inBuf.content = b := by
  have hview := congrArg RingView.content (sp.inBuf.view_putLine b)
  have hall : b.take (ringqPutBlkMax sp.inBuf) = b := List.take_of_length_le hb
  change (ringqFill sp.inBuf b).1.content = b
  rw [ringqFill_eq]
  change (sp.inBuf.putLine b).content = sp.inBuf.content ++ b.take (ringqPutBlkMax sp.inBuf) at hview
  rw [hview, hempty, hall, List.nil_append]

/-- All that is in the input queue can be got in one straight copy. -/
theorem ringqGetBlkMax_of_in_line (sp : SocketT) : ringqGetBlkMax sp.inBuf = ringqLen sp.inBuf := by
  have hend := sp.inBuf.endp_lt
  have hlen := ringqLen_of_in_line sp
  unfold ringqGetBlkMax Ringq.buflen
  omega

theorem SocketT.content_takeInput (sp : SocketT) {len : ℕ} (h : len ≤ ringqLen sp.inBuf) :
    (sp.inBuf.buf.drop sp.inBuf.servp).take len ++ (sp.takeInput len h).inBuf.content
      = sp.inBuf.content :=
  content_sent sp.inBuf (by rw [ringqGetBlkMax_of_in_line]; exact h)

theorem SocketT.buflen_takeInput (sp : SocketT) {len : ℕ} (h : len ≤ ringqLen sp.inBuf) :
    (sp.takeInput len h).inBuf.buflen = sp.inBuf.buflen := by
  change (ringqGetBlkAdj sp.inBuf len).buflen = _
  rw [ringqGetBlkAdj_eq sp.inBuf (by rw [ringqGetBlkMax_of_in_line]; exact h)]
  rfl

theorem SocketT.length_take_input (sp : SocketT) {len : ℕ} (h : len ≤ ringqLen sp.inBuf) :
    ((sp.inBuf.buf.drop sp.inBuf.servp).take len).length = len := by
  have hend := sp.inBuf.endp_lt
  have hlen := ringqLen_of_in_line sp
  rw [List.length_take_of_le]
  rw [List.length_drop]
  omega

/-- What a read has done. -/
structure Received.IsRead (r : Received) (answers : List Recv) (sp : SocketT) (bufsize before : ℕ) :
    Prop where
  /-- What was there and what was received is what the caller got and what is there. -/
  account : sp.inBuf.content ++ r.received = r.bytes ++ r.sp.inBuf.content
  size : r.bytes.length ≤ bufsize
  rc : ∀ n, r.rc = some n → 0 ≤ n → n = before + r.bytes.length
  /-- A read that fails, or has not returned, has not got all it wants. -/
  short : (∀ n, r.rc = some n → n < 0) → r.bytes.length < bufsize
  lineBuf : r.sp.lineBuf = sp.lineBuf
  /-- The end is seen by a read that has got nothing, with nothing left. -/
  eof : r.sp.eof = true → r.rc = some 0 ∧ r.bytes = [] ∧ r.sp.inBuf.content = []
  buflen : r.sp.inBuf.buflen = sp.inBuf.buflen
  /-- A read that has not got all it wants has left nothing in the queue. -/
  drained : r.bytes.length < bufsize → r.sp.inBuf.content = []
  /-- What was received is what the system has handed over; and a read that has got nothing has asked until
  there was nothing. -/
  used : ∃ used, answers = used ++ r.unused ∧ r.received = handedOver sp.room used ∧
    (before = 0 → bufsize ≠ 0 → r.bytes = [] → RunDry sp.room r.rc used r.unused)

/-- Each byte was in an answer. -/
theorem Received.IsRead.fewer {r : Received} {answers : List Recv} {sp : SocketT} {bufsize before : ℕ}
    (h : r.IsRead answers sp bufsize before) :
    r.received.length + totalSize r.unused ≤ totalSize answers := by
  obtain ⟨used, hused, hreceived, -⟩ := h.used
  rw [hused, hreceived]
  exact handedOver_length_le sp.room used r.unused

/-- A read that ends when there is nothing in the queue, without having received anything. -/
theorem Received.isRead_of_empty (used : List Recv) {answers unused : List Recv} {sp sp' : SocketT}
    {bufsize before : ℕ} {rc : Option ℤ} (hsize : bufsize ≠ 0) (hempty : sp.inBuf.content = [])
    (hempty' : sp'.inBuf.content = [])
    (hrc : ∀ n, rc = some n → 0 ≤ n → n = before) (hline : sp'.lineBuf = sp.lineBuf)
    (heof : sp'.eof = true → rc = some 0) (hbuflen : sp'.inBuf.buflen = sp.inBuf.buflen)
    (hused : answers = used ++ unused) (hnothing : handedOver sp.room used = [])
    (hdry : before = 0 → RunDry sp.room rc used unused) :
    Received.IsRead ⟨rc, sp', [], [], unused⟩ answers sp bufsize before where
  account := by rw [hempty, hempty']
  size := Nat.zero_le _
  rc n hn h0 := (hrc n hn h0).trans (by simp)
  short _ := Nat.pos_of_ne_zero hsize
  lineBuf := hline
  eof h := ⟨heof h, rfl, hempty'⟩
  buflen := hbuflen
  drained _ := hempty'
  used := ⟨used, hused, hnothing.symm, fun h _ _ => hdry h⟩

/-- A read that ends with an answer that hands over nothing. -/
theorem Received.isRead_of_dry {answer : Recv} {answers : List Recv} {sp sp' : SocketT}
    {bufsize before : ℕ} {rc : Option ℤ} (hsize : bufsize ≠ 0) (hempty : sp.inBuf.content = [])
    (hin : sp'.inBuf = sp.resetInput.inBuf) (hrc : ∀ n, rc = some n → 0 ≤ n → n = before)
    (hline : sp'.lineBuf = sp.lineBuf) (heof : sp'.eof = true → rc = some 0)
    (hdry : answer.handed sp.room = []) :
    Received.IsRead ⟨rc, sp', [], [], answers⟩ (answer :: answers) sp bufsize before := by
  refine Received.isRead_of_empty [answer] hsize hempty ?_ hrc hline heof ?_ rfl ?_ fun _ =>
    runDry_singleton hdry rc answers
  · rw [hin]
    exact sp.content_resetInput
  · rw [hin]
    exact sp.buflen_resetInput
  · rw [handedOver_cons, hdry]
    rfl

theorem content_eq_nil_of_min {sp : SocketT} {bufsize : ℕ} (hsize : bufsize ≠ 0)
    (h : min (ringqLen sp.inBuf) bufsize = 0) : sp.inBuf.content = [] := by
  rw [content_eq_nil_iff]
  omega

/-- A read that goes on behind an answer, with what this has handed over in the queue. -/
theorem Received.IsRead.asked {r : Received} {answer : Recv} {answers : List Recv} {sp sp' : SocketT}
    {bufsize before : ℕ} (h : r.IsRead answers sp' bufsize before) (hempty : sp.inBuf.content = [])
    (hcontent : sp'.inBuf.content = answer.handed sp.room) (hline : sp'.lineBuf = sp.lineBuf)
    (hbuflen : sp'.inBuf.buflen = sp.inBuf.buflen) :
    Received.IsRead { r with received := answer.handed sp.room ++ r.received } (answer :: answers) sp
      bufsize before where
  account := by
    rw [hempty, List.nil_append, ← h.account, hcontent]
  size := h.size
  rc := h.rc
  short := h.short
  lineBuf := h.lineBuf.trans hline
  eof := h.eof
  buflen := h.buflen.trans hbuflen
  drained := h.drained
  used := by
    have hroom : sp'.room = sp.room := congrArg (· - 1) hbuflen
    obtain ⟨used, hused, hreceived, hdry⟩ := h.used
    rw [hroom] at hreceived hdry
    refine ⟨answer :: used, congrArg (List.cons answer) hused, ?_,
      fun h0 h1 h2 => (hdry h0 h1 h2).behind [answer]⟩
    rw [handedOver_cons, ← hreceived]

/-- A read that goes on behind a copy out of the queue. -/
theorem Received.IsRead.taken {r : Received} {answers : List Recv} {sp : SocketT} {bufsize before len : ℕ}
    (hle : len ≤ ringqLen sp.inBuf) (hsize : len ≤ bufsize) (hpos : 0 < len)
    (h : r.IsRead answers (sp.takeInput len hle) (bufsize - len) (before + len)) :
    Received.IsRead { r with bytes := (sp.inBuf.buf.drop sp.inBuf.servp).take len ++ r.bytes } answers sp
      bufsize before := by
  have hbuflen := sp.buflen_takeInput hle
  have hroom : (sp.takeInput len hle).room = sp.room := congrArg (· - 1) hbuflen
  have hlength : ((sp.inBuf.buf.drop sp.inBuf.servp).take len ++ r.bytes).length
      = len + r.bytes.length := by
    rw [List.length_append, sp.length_take_input hle]
  constructor
  case account =>
    rw [List.append_assoc, ← h.account, ← List.append_assoc, sp.content_takeInput hle]
  case size =>
    have hrest := h.size
    rw [hlength]
    omega
  case rc =>
    intro n hn h0
    have hcount := h.rc n hn h0
    rw [hlength]
    push_cast at hcount ⊢
    omega
  case short =>
    intro hshort
    have hrest := h.short hshort
    rw [hlength]
    omega
  case lineBuf => exact h.lineBuf
  case eof =>
    intro heof
    -- This read has got something, and the end is seen only by one that has not.
    obtain ⟨hrc, hnil, -⟩ := h.eof heof
    have hcount := h.rc 0 hrc le_rfl
    rw [hnil, List.length_nil] at hcount
    omega
  case buflen => exact h.buflen.trans hbuflen
  case drained =>
    intro hless
    rw [hlength] at hless
    exact h.drained (by omega)
  case used =>
    obtain ⟨used, hused, hreceived, -⟩ := h.used
    rw [hroom] at hreceived
    refine ⟨used, hused, hreceived, fun _ _ hnil => ?_⟩
    rw [← List.length_eq_zero_iff, hlength] at hnil
    omega

theorem readLoop_isRead (answers : List Recv) (sp : SocketT) (bufsize before : ℕ) (hopen : sp.eof = false) :
    (readLoop answers sp bufsize before).IsRead answers sp bufsize before := by
  have hnot : ∀ sp' : SocketT, sp'.eof = sp.eof → ¬ sp'.eof = true := fun sp' h => by
    rw [h, hopen]
    exact Bool.false_ne_true
  induction answers, sp, bufsize, before using readLoop.induct with
  | case1 answers sp before =>
      rw [readLoop.eq_def, if_pos rfl]
      exact
        { account := List.append_nil _
          size := le_rfl
          rc := fun n hn _ => (Option.some.inj hn).symm
          short := fun h => absurd (h before rfl) (by omega)
          lineBuf := rfl
          eof := fun h => absurd h (hnot sp rfl)
          buflen := rfl
          drained := fun h => absurd h (lt_irrefl 0)
          used := ⟨[], rfl, rfl, fun _ h => absurd rfl h⟩ }
  | case2 answers sp bufsize before hsize hlen hblock =>
      -- A blocking read that has got something does not ask again.
      have hempty := content_eq_nil_of_min hsize hlen
      rw [readLoop.eq_def, if_neg hsize, dif_pos hlen, if_pos hblock]
      exact Received.isRead_of_empty [] hsize hempty hempty (fun n hn _ => (Option.some.inj hn).symm) rfl
        (fun h => absurd h (hnot sp rfl)) rfl rfl rfl fun h => absurd h hblock.2.ne'
  | case3 sp bufsize before hsize hlen hblock =>
      -- The system has no answer yet: the call waits.
      rw [readLoop.eq_def, if_neg hsize, dif_pos hlen, if_neg hblock]
      exact Received.isRead_of_empty [] hsize (content_eq_nil_of_min hsize hlen)
        sp.content_resetInput nofun rfl (fun h => absurd h (hnot _ rfl)) sp.buflen_resetInput rfl rfl
        fun _ => Or.inl ⟨rfl, rfl⟩
  | case4 sp bufsize before hsize hlen hblock answer answers input hinput hagain ih =>
      -- A blocking read that would block goes on.
      rw [readLoop.eq_def, if_neg hsize, dif_pos hlen, if_neg hblock]
      obtain ⟨hline, heof⟩ := socketGetInput_frame answer (ringqPutBlkMax sp.resetInput.inBuf) sp.resetInput
      have hin : input.1.inBuf = sp.resetInput.inBuf := inBuf_socketGetInput _ _ _
      have hcontent : input.1.inBuf.content = [] := by rw [hin, sp.content_resetInput]
      have hbuflen : input.1.inBuf.buflen = sp.inBuf.buflen := by rw [hin, sp.buflen_resetInput]
      have hnone : answer.handed sp.room = [] := by rw [socketGetInput_room answer hopen, hinput]; rfl
      have hrest := ih (heof.trans hopen) fun sp' h => by rw [h, heof]; exact hnot sp rfl
      have hasked := hrest.asked (content_eq_nil_of_min hsize hlen) (hcontent.trans hnone.symm) hline hbuflen
      simp only [show (socketGetInput answer (ringqPutBlkMax sp.resetInput.inBuf) sp.resetInput).2
        = .inr .ewouldblock from hinput]
      rw [if_pos hagain]
      rw [hnone] at hasked
      exact hasked
  | case5 sp bufsize before hsize hlen hblock answer answers input hinput hagain =>
      rw [readLoop.eq_def, if_neg hsize, dif_pos hlen, if_neg hblock]
      obtain ⟨hline, heof⟩ := socketGetInput_frame answer (ringqPutBlkMax sp.resetInput.inBuf) sp.resetInput
      simp only [show (socketGetInput answer (ringqPutBlkMax sp.resetInput.inBuf) sp.resetInput).2
        = .inr .ewouldblock from hinput]
      rw [if_neg hagain]
      exact Received.isRead_of_dry hsize (content_eq_nil_of_min hsize hlen) (inBuf_socketGetInput _ _ _)
        (fun n hn _ => (Option.some.inj hn).symm) hline (fun h => absurd h (hnot _ heof))
        (by rw [socketGetInput_room answer hopen, hinput]; rfl)
  | case6 sp bufsize before hsize hlen hblock answer answers input e he hinput =>
      -- Any other error makes the read fail.
      rw [readLoop.eq_def, if_neg hsize, dif_pos hlen, if_neg hblock]
      obtain ⟨hline, heof⟩ := socketGetInput_frame answer (ringqPutBlkMax sp.resetInput.inBuf) sp.resetInput
      simp only [show (socketGetInput answer (ringqPutBlkMax sp.resetInput.inBuf) sp.resetInput).2
        = .inr e from hinput]
      refine Received.isRead_of_dry hsize (content_eq_nil_of_min hsize hlen) (inBuf_socketGetInput _ _ _)
        (fun n hn h0 => ?_) hline (fun h => absurd h (hnot _ heof))
        (by rw [socketGetInput_room answer hopen, hinput]; rfl)
      rw [← Option.some.inj hn] at h0
      omega
  | case7 sp bufsize before hsize hlen hblock answer answers input hinput =>
      -- The end of the stream, which is noted only by a read that has got nothing.
      rw [readLoop.eq_def, if_neg hsize, dif_pos hlen, if_neg hblock]
      obtain ⟨hline, heof⟩ := socketGetInput_frame answer (ringqPutBlkMax sp.resetInput.inBuf) sp.resetInput
      simp only [show (socketGetInput answer (ringqPutBlkMax sp.resetInput.inBuf) sp.resetInput).2
        = .inl [] from hinput]
      have hnone : answer.handed sp.room = [] := by rw [socketGetInput_room answer hopen, hinput]; rfl
      by_cases hbefore : before = 0
      · rw [if_pos hbefore]
        exact Received.isRead_of_dry hsize (content_eq_nil_of_min hsize hlen) (inBuf_socketGetInput _ _ _)
          (fun n hn _ => (Option.some.inj hn).symm) hline (fun _ => by rw [hbefore]; rfl) hnone
      · rw [if_neg hbefore]
        exact Received.isRead_of_dry hsize (content_eq_nil_of_min hsize hlen) (inBuf_socketGetInput _ _ _)
          (fun n hn _ => (Option.some.inj hn).symm) hline (fun h => absurd h (hnot _ heof)) hnone
  | case8 sp bufsize before hsize hlen hblock answer answers input c b hinput sp' ih =>
      -- The bytes received are in the queue now, alone.
      rw [readLoop.eq_def, if_neg hsize, dif_pos hlen, if_neg hblock]
      obtain ⟨hline, heof⟩ := socketGetInput_frame answer (ringqPutBlkMax sp.resetInput.inBuf) sp.resetInput
      have hin : input.1.inBuf = sp.resetInput.inBuf := inBuf_socketGetInput _ _ _
      have hgot : answer.handed sp.room = c :: b := by rw [socketGetInput_room answer hopen, hinput]; rfl
      have hcontent : sp'.inBuf.content = c :: b := by
        refine input.1.content_receive _ (by rw [hin]; exact sp.content_resetInput) ?_
        rw [hin, ringqPutBlkMax_resetInput, ← hgot]
        exact answer.handed_length_le sp.room
      have hbuflen : sp'.inBuf.buflen = sp.inBuf.buflen :=
        (input.1.buflen_receive _ _).trans (by rw [hin, sp.buflen_resetInput])
      have hrest := ih (heof.trans hopen) fun sp'' h => by rw [h]; exact hnot _ heof
      have hasked := hrest.asked (content_eq_nil_of_min hsize hlen) (hcontent.trans hgot.symm) hline hbuflen
      simp only [show (socketGetInput answer (ringqPutBlkMax sp.resetInput.inBuf) sp.resetInput).2
        = .inl (c :: b) from hinput]
      rw [hgot] at hasked
      exact hasked
  | case9 answers sp bufsize before hsize hlen len ih =>
      rw [readLoop.eq_def, if_neg hsize, dif_neg hlen]
      exact (ih hopen hnot).taken (Nat.min_le_left _ _) (Nat.min_le_right _ _) (Nat.pos_of_ne_zero hlen)

theorem socketRead_isRead (answers : List Recv) {sp : SocketT} (bufsize : ℕ) (hopen : sp.eof = false) :
    (socketRead answers sp bufsize).IsRead answers sp bufsize 0 := by
  rw [socketRead, if_neg (by rw [hopen]; exact Bool.false_ne_true)]
  exact readLoop_isRead answers sp bufsize 0 hopen

theorem socketRead_of_eof (answers : List Recv) {sp : SocketT} (bufsize : ℕ) (h : sp.eof = true) :
    socketRead answers sp bufsize = ⟨some 0, sp, [], [], answers⟩ := if_pos h

/-- What there is still to read, as far as the answers go. -/
def toReadSize (sp : SocketT) (answers : List Recv) : ℕ := sp.inBuf.content.length + totalSize answers

/-- A read that returns something leaves less to read. -/
theorem toReadSize_socketRead {answers : List Recv} {sp : SocketT} {bufsize : ℕ} {n : ℤ}
    (hrc : (socketRead answers sp bufsize).rc = some n) (hn : 0 < n) :
    toReadSize (socketRead answers sp bufsize).sp (socketRead answers sp bufsize).unused
      < toReadSize sp answers := by
  cases heof : sp.eof with
  | true =>
      rw [socketRead_of_eof answers bufsize heof] at hrc
      rw [← Option.some.inj hrc] at hn
      exact absurd hn (lt_irrefl 0)
  | false =>
      have hread := socketRead_isRead answers bufsize heof
      have hcount := hread.rc n hrc hn.le
      have hlen := congrArg List.length hread.account
      have hfewer := hread.fewer
      rw [List.length_append, List.length_append] at hlen
      unfold toReadSize
      omega

/-! ## Lines -/

/-- The character `c` of the source is `'\n'`. -/
def newline : UInt8 := 10

/-- `'\r'`. -/
def carriageReturn : UInt8 := 13

/-- A queue that has begun at the start of its buffer does so after a put. -/
theorem servp_putLoop {turns : ℕ} {grow : Ringq → Option Ringq}
    (hgrow : ∀ rq rq', rq.servp = 0 → grow rq = some rq' → rq'.servp = 0) {rq : Ringq} (data : Bytes)
    (h : rq.servp = 0) : (putLoop grow turns rq data).1.servp = 0 := by
  induction turns generalizing rq data with
  | zero => exact h
  | succ turns ih =>
      rw [putLoop]
      split_ifs with hdata hroom
      · exact h
      · cases hg : grow rq with
        | none => exact h
        | some rq' => exact ih _ (show (rq'.putLine data).servp = 0 from hgrow rq rq' h hg)
      · exact ih _ (show (rq.putLine data).servp = 0 from h)

theorem servp_ringqGrow {mem : ℕ → Bool} {rq rq' : Ringq} (h : ringqGrow mem rq = some rq') :
    rq'.servp = 0 := by
  unfold ringqGrow at h
  split_ifs at h
  rw [← Option.some.inj h]
  exact servp_putLoop (fun _ _ _ hnone => by cases hnone) _ rfl

theorem servp_ringqPutc (mem : ℕ → Bool) {rq : Ringq} (h : rq.servp = 0) (c : UInt8) :
    (ringqPutc mem rq c).1.servp = 0 := by
  unfold ringqPutc
  cases hroom : rq.withRoom mem with
  | none => exact h
  | some rq' =>
      have hstart : rq'.servp = 0 := by
        unfold Ringq.withRoom at hroom
        split_ifs at hroom
        · exact servp_ringqGrow hroom
        · rw [← Option.some.inj hroom]
          exact h
      exact hstart

/-- A queue without a limit takes a character if there is memory. -/
theorem ringqPutc_unlimited {rq : Ringq} (h : rq.maxsize < 0) (c : UInt8) :
    (ringqPutc (fun _ => true) rq c).1.content = rq.content ++ [c] ∧
      (ringqPutc (fun _ => true) rq c).1.maxsize = rq.maxsize := by
  have hview := congrArg Prod.fst (ringqPutc_view (fun _ => true) rq c)
  have hroom : ∃ w, rq.view.withRoom (fun _ => true) = some w ∧ w.content = rq.content ∧
      w.maxsize = rq.maxsize := by
    unfold RingView.withRoom RingView.grow
    split_ifs with hfits hlimit
    · exact ⟨_, rfl, rfl, rfl⟩
    · exact absurd hlimit.1 (not_le.mpr h)
    · exact ⟨_, rfl, rfl, rfl⟩
    · exact absurd rfl ‹¬ _›
  obtain ⟨w, hw, hcontent, hmax⟩ := hroom
  unfold RingView.step at hview
  rw [hw] at hview
  constructor
  · rw [← hcontent]
    exact (congrArg RingView.content hview).symm
  · rw [← hmax]
    exact (congrArg RingView.maxsize hview).symm

/-- The line with one character more. -/
def SocketT.putLineChar (mem : ℕ → Bool) (sp : SocketT) (c : UInt8) : SocketT :=
  { sp with
    lineBuf := (ringqPutc mem sp.lineBuf c).1
    line_start := servp_ringqPutc mem sp.line_start c }

/-- `ringqFlush(lq)`. -/
def SocketT.resetLine (sp : SocketT) : SocketT :=
  { sp with
    lineBuf := ringqFlush sp.lineBuf
    line_start := rfl }

/-- What `socketGets` has done: what it returns if it does, the string it has made if it has, the bytes it
has read, those that were received, and the answers it has not asked for. -/
structure GotLine where
  rc : Option ℤ
  buf : Option Bytes
  sp : SocketT
  eaten : Bytes
  received : Bytes
  unused : List Recv

/-- The call returns the line, without the newline. The empty line has no string, and neither has one for
which there is no memory. -/
def Received.endLine (mem : ℕ → Bool) (r : Received) : GotLine :=
  let len := ringqLen r.sp.lineBuf
  let line := (r.sp.lineBuf.buf.drop r.sp.lineBuf.servp).take len
  ⟨some len, if 0 < len ∧ mem (len + 1) then some line else none, r.sp.resetLine, r.bytes, r.received,
    r.unused⟩

/-- The loop of `socketGets`. At the end of the stream a line that was begun ends as if with a newline. -/
def getsLoop (mem : ℕ → Bool) (answers : List Recv) (sp : SocketT) : GotLine :=
  let r := socketRead answers sp 1
  match hrc : r.rc with
  | none => ⟨none, none, r.sp, r.bytes, r.received, r.unused⟩
  | some rc =>
      if rc < 0 then ⟨some rc, none, r.sp, r.bytes, r.received, r.unused⟩
      else if hzero : rc = 0 then
        if 0 < ringqLen r.sp.lineBuf ∧ r.sp.eof = true then r.endLine mem
        else ⟨some (-1), none, r.sp, r.bytes, r.received, r.unused⟩
      else
        let c := if E_MAX_REQUEST < ringqLen r.sp.lineBuf then newline else r.bytes.headD 0
        if c = newline then r.endLine mem
        else
          let rest :=
            if c = carriageReturn then getsLoop mem r.unused r.sp
            else getsLoop mem r.unused (r.sp.putLineChar mem c)
          { rest with eaten := r.bytes ++ rest.eaten, received := r.received ++ rest.received }
termination_by toReadSize sp answers
decreasing_by
  · exact toReadSize_socketRead hrc (by omega)
  · exact toReadSize_socketRead hrc (by omega)

/-- `socketGets`. -/
def socketGets (mem : ℕ → Bool) (answers : List Recv) (sp : SocketT) : GotLine := getsLoop mem answers sp

/-- What a character does to a line that was begun: it may be the end of a line. A line that is too long ends
with whatever character comes next. -/
def lineStep (line : Bytes) (c : UInt8) : Bytes × Option Bytes :=
  if E_MAX_REQUEST < line.length ∨ c = newline then ([], some line)
  else if c = carriageReturn then (line, none)
  else (line ++ [c], none)

/-- The lines that end within the bytes. -/
def linesOf (line : Bytes) (bytes : Bytes) : List Bytes := (answers lineStep line bytes).reduceOption

/-- The line that was begun and has not ended. -/
def openLine (line : Bytes) (bytes : Bytes) : Bytes := finish lineStep line bytes

theorem linesOf_append (line a b : Bytes) :
    linesOf line (a ++ b) = linesOf line a ++ linesOf (openLine line a) b := by
  rw [linesOf, answers_append, List.reduceOption_append]
  rfl

theorem openLine_append (line a b : Bytes) : openLine line (a ++ b) = openLine (openLine line a) b :=
  finish_append lineStep line a b

/-- The line that a call returns, if it returns one. -/
def GotLine.line (g : GotLine) : Option Bytes :=
  match g.rc with
  | some rc => if 0 ≤ rc then some (g.buf.getD []) else none
  | none => none

/-- What a call has asked of the system. -/
structure GotLine.Asks (g : GotLine) (answers : List Recv) (sp : SocketT) : Prop where
  /-- What was received is what the system has handed over; and without a line the call has asked until
  there was nothing, if the stream was not at its end before. -/
  used : ∃ used, answers = used ++ g.unused ∧ g.received = handedOver sp.room used ∧
    (g.line = none → sp.eof = true ∨ RunDry sp.room g.rc used g.unused)
  /-- Without a line, everything that was received has been read. -/
  drained : g.line = none → g.sp.inBuf.content = []

/-- What a call has done, given memory: it has read up to the end of the next line and returns this line;
or it has read what there was, none of it the end of a line, and returns no line or, at the end of the
stream, the line that was begun. -/
structure GotLine.IsGets (g : GotLine) (answers : List Recv) (sp : SocketT) : Prop where
  account : sp.inBuf.content ++ g.received = g.eaten ++ g.sp.inBuf.content
  asks : g.Asks answers sp
  maxsize : g.sp.lineBuf.maxsize = sp.lineBuf.maxsize
  rc : ∀ n : ℕ, g.rc = some n → (g.buf.getD []).length = n
  lines : (g.line.toList = linesOf sp.lineBuf.content g.eaten ∧
      g.sp.lineBuf.content = openLine sp.lineBuf.content g.eaten) ∨
    (g.sp.eof = true ∧ linesOf sp.lineBuf.content g.eaten = [] ∧
      openLine sp.lineBuf.content g.eaten ≠ [] ∧
      g.line = some (openLine sp.lineBuf.content g.eaten) ∧ g.sp.lineBuf.content = [])
  ended : g.sp.eof = true → g.sp.inBuf.content = []

/-- What a read of one character gives: the character, or none. -/
structure Received.IsOne (r : Received) (answers : List Recv) (sp : SocketT) : Prop where
  account : sp.inBuf.content ++ r.received = r.bytes ++ r.sp.inBuf.content
  lineBuf : r.sp.lineBuf = sp.lineBuf
  buflen : r.sp.inBuf.buflen = sp.inBuf.buflen
  ended : r.sp.eof = true → r.sp.inBuf.content = []
  used : ∃ used, answers = used ++ r.unused ∧ r.received = handedOver sp.room used ∧
    (r.bytes = [] → sp.eof = true ∨ RunDry sp.room r.rc used r.unused)
  drained : r.bytes = [] → r.sp.inBuf.content = []
  char : (∃ c, r.rc = some 1 ∧ r.bytes = [c] ∧ r.sp.eof = false) ∨
    (∀ n, r.rc = some n → n ≤ 0) ∧ r.bytes = []

theorem socketRead_one (answers : List Recv) {sp : SocketT} (hend : sp.eof = true → sp.inBuf.content = []) :
    (socketRead answers sp 1).IsOne answers sp := by
  cases heof : sp.eof with
  | true =>
      rw [socketRead_of_eof answers 1 heof]
      exact
        { account := List.append_nil _
          lineBuf := rfl
          buflen := rfl
          ended := hend
          used := ⟨[], rfl, rfl, fun _ => Or.inl heof⟩
          drained := fun _ => hend heof
          char := Or.inr ⟨fun n hn => (Option.some.inj hn).symm.le, rfl⟩ }
  | false =>
      have hread := socketRead_isRead answers 1 heof
      generalize socketRead answers sp 1 = r at hread ⊢
      have hsize := hread.size
      obtain ⟨used, hused, hreceived, hdry⟩ := hread.used
      refine ⟨hread.account, hread.lineBuf, hread.buflen, fun h => (hread.eof h).2.2,
        ⟨used, hused, hreceived, fun h => Or.inr (hdry rfl one_ne_zero h)⟩,
        fun h => hread.drained (by rw [h]; exact Nat.zero_lt_one), ?_⟩
      by_cases hshort : ∀ n, r.rc = some n → n < 0
      · right
        have hlt := hread.short hshort
        exact ⟨fun n hn => (hshort n hn).le, List.length_eq_zero_iff.mp (by omega)⟩
      · push Not at hshort
        obtain ⟨n, hn, h0⟩ := hshort
        have hcount := hread.rc n hn h0
        rcases Nat.lt_or_ge 0 r.bytes.length with hpos | hnone
        · left
          obtain ⟨c, hc⟩ := List.length_eq_one_iff.mp (show r.bytes.length = 1 by omega)
          have hone : r.rc = some 1 := by
            rw [hn]
            congr 1
            omega
          refine ⟨c, hone, hc, ?_⟩
          by_contra heof
          have hzero := (hread.eof (eq_true_of_ne_false heof)).1
          rw [hone] at hzero
          cases hzero
        · right
          refine ⟨fun m hm => ?_, List.length_eq_zero_iff.mp (by omega)⟩
          rw [hn] at hm
          have hmn := Option.some.inj hm
          omega

/-- The whole line lies from the start of its buffer on. -/
theorem line_eq_content (sp : SocketT) :
    (sp.lineBuf.buf.drop sp.lineBuf.servp).take (ringqLen sp.lineBuf) = sp.lineBuf.content := by
  have hlt := ringqLen_lt sp.lineBuf
  refine (ringContents_straight ?_).symm
  rw [sp.line_start, Nat.zero_add]
  exact hlt.le

theorem endLine_line (r : Received) :
    (r.endLine fun _ => true).line = some r.sp.lineBuf.content ∧
      ∀ n : ℕ, (r.endLine fun _ => true).rc = some n →
        ((r.endLine fun _ => true).buf.getD []).length = n := by
  have hline := line_eq_content r.sp
  have hbuf : (r.endLine fun _ => true).buf.getD [] = r.sp.lineBuf.content := by
    unfold Received.endLine
    dsimp only
    rw [hline]
    split_ifs with hlen
    · rfl
    · have hempty : r.sp.lineBuf.content = [] := by
        rw [content_eq_nil_iff]
        by_contra hne
        exact hlen ⟨Nat.pos_of_ne_zero hne, rfl⟩
      rw [hempty]
      rfl
  constructor
  · change (if 0 ≤ ((ringqLen r.sp.lineBuf : ℕ) : ℤ) then some _ else none) = _
    rw [if_pos (Int.natCast_nonneg _), hbuf]
  · intro n hn
    have hlen : ((ringqLen r.sp.lineBuf : ℕ) : ℤ) = n := Option.some.inj hn
    rw [hbuf, Ringq.content_length]
    omega

/-- A call that returns a line has asked for what it has received. -/
theorem endLine_asks {answers : List Recv} {sp : SocketT} {r : Received} (hone : r.IsOne answers sp) :
    (r.endLine fun _ => true).Asks answers sp := by
  obtain ⟨used, hused, hreceived, -⟩ := hone.used
  have hline : (r.endLine fun _ => true).line ≠ none := by
    rw [(endLine_line r).1]
    exact Option.some_ne_none _
  exact ⟨⟨used, hused, hreceived, fun h => absurd h hline⟩, fun h => absurd h hline⟩

/-- A call that has read nothing and returns no line. -/
theorem GotLine.isGets_nothing {answers : List Recv} {sp : SocketT} {r : Received} {rc : Option ℤ}
    (hone : r.IsOne answers sp) (hnil : r.bytes = []) (hrc : ∀ n, rc = some n → n < 0)
    (hwaits : r.rc = none → rc = none) :
    GotLine.IsGets ⟨rc, none, r.sp, r.bytes, r.received, r.unused⟩ answers sp := by
  have hnone : GotLine.line ⟨rc, none, r.sp, r.bytes, r.received, r.unused⟩ = none := by
    unfold GotLine.line
    cases rc with
    | none => rfl
    | some n => exact if_neg (by have hneg := hrc n rfl; omega)
  obtain ⟨used, hused, hreceived, hdry⟩ := hone.used
  refine ⟨hone.account, ⟨⟨used, hused, hreceived, fun _ => ?_⟩, fun _ => hone.drained hnil⟩,
    by rw [hone.lineBuf], fun n hn => ?_, Or.inl ⟨?_, ?_⟩, hone.ended⟩
  · exact (hdry hnil).imp_right fun h => h.imp_left fun hw => ⟨hwaits hw.1, hw.2⟩
  · have hneg := hrc n hn
    omega
  · rw [hnone, hnil]
    rfl
  · dsimp only
    rw [hone.lineBuf, hnil]
    rfl

/-- The loop by its first turn. -/
theorem getsLoop_eq (mem : ℕ → Bool) (answers : List Recv) (sp : SocketT) :
    getsLoop mem answers sp =
      let r := socketRead answers sp 1
      match r.rc with
      | none => ⟨none, none, r.sp, r.bytes, r.received, r.unused⟩
      | some rc =>
          if rc < 0 then ⟨some rc, none, r.sp, r.bytes, r.received, r.unused⟩
          else if rc = 0 then
            if 0 < ringqLen r.sp.lineBuf ∧ r.sp.eof = true then r.endLine mem
            else ⟨some (-1), none, r.sp, r.bytes, r.received, r.unused⟩
          else
            let c := if E_MAX_REQUEST < ringqLen r.sp.lineBuf then newline else r.bytes.headD 0
            if c = newline then r.endLine mem
            else
              let rest :=
                if c = carriageReturn then getsLoop mem r.unused r.sp
                else getsLoop mem r.unused (r.sp.putLineChar mem c)
              { rest with eaten := r.bytes ++ rest.eaten, received := r.received ++ rest.received } := by
  rw [getsLoop.eq_def]
  dsimp only
  split
  · rename_i h
    rw [h]
  · rename_i rc h
    rw [h]
    rfl

theorem linesOf_singleton (line : Bytes) (c : UInt8) :
    linesOf line [c] = (lineStep line c).2.toList ∧ openLine line [c] = (lineStep line c).1 := by
  constructor
  · unfold linesOf
    rw [answers_cons, answers_nil]
    cases (lineStep line c).2
    all_goals rfl
  · rfl

/-- A call that has read a character and goes on from the line it has made of it. -/
theorem GotLine.IsGets.behind {g : GotLine} {answers : List Recv} {r : Received} {sp sp' : SocketT}
    {c : UInt8} (h : g.IsGets r.unused sp') (hone : r.IsOne answers sp) (hc : r.bytes = [c])
    (hin : sp'.inBuf = r.sp.inBuf) (hmore : sp'.eof = false)
    (hmax : sp'.lineBuf.maxsize = sp.lineBuf.maxsize)
    (hstep : lineStep sp.lineBuf.content c = (sp'.lineBuf.content, none)) :
    GotLine.IsGets { g with eaten := r.bytes ++ g.eaten, received := r.received ++ g.received } answers sp := by
  obtain ⟨hlines, hopen⟩ := linesOf_singleton sp.lineBuf.content c
  rw [hstep] at hlines hopen
  have hlines' : linesOf sp.lineBuf.content ([c] ++ g.eaten) = linesOf sp'.lineBuf.content g.eaten := by
    rw [linesOf_append, hlines, hopen]
    rfl
  have hopen' : openLine sp.lineBuf.content ([c] ++ g.eaten) = openLine sp'.lineBuf.content g.eaten := by
    rw [openLine_append, hopen]
  have hroom : sp'.room = sp.room := by rw [SocketT.room, hin, hone.buflen]; rfl
  obtain ⟨used, hused, hreceived, -⟩ := hone.used
  obtain ⟨used', hused', hreceived', hdry⟩ := h.asks.used
  rw [hroom] at hreceived' hdry
  refine ⟨?_, ⟨⟨used ++ used', ?_, ?_, fun hnone => Or.inr ?_⟩, h.asks.drained⟩,
    h.maxsize.trans hmax, h.rc, ?_,
    h.ended⟩
  · dsimp only
    rw [← List.append_assoc, hone.account, List.append_assoc, ← hin, h.account, List.append_assoc]
  · dsimp only
    rw [List.append_assoc, ← hused', hused]
  · dsimp only
    rw [hreceived, hreceived', handedOver_append]
  · rcases hdry hnone with heof | hdry
    · rw [hmore] at heof
      cases heof
    · exact hdry.behind used
  · dsimp only
    rw [hc, hlines', hopen']
    exact h.lines

/-- A call that ends a line because of the character that it has read. -/
theorem endLine_isGets {answers : List Recv} {sp : SocketT} {r : Received} {c : UInt8}
    (hone : r.IsOne answers sp) (hc : r.bytes = [c])
    (hstep : lineStep sp.lineBuf.content c = ([], some sp.lineBuf.content)) :
    (r.endLine fun _ => true).IsGets answers sp := by
  obtain ⟨hgot, hcount⟩ := endLine_line r
  obtain ⟨hlines, hopen⟩ := linesOf_singleton sp.lineBuf.content c
  rw [hstep] at hlines hopen
  refine ⟨hone.account, endLine_asks hone, by rw [← hone.lineBuf]; rfl, hcount, Or.inl ⟨?_, ?_⟩, hone.ended⟩
  · change (r.endLine fun _ => true).line.toList = linesOf sp.lineBuf.content r.bytes
    rw [hgot, hc, hlines, hone.lineBuf]
  · change (ringqFlush r.sp.lineBuf).content = openLine sp.lineBuf.content r.bytes
    rw [hc, hopen, content_ringqFlush]

/-- A call that returns the last line, which has no newline. -/
theorem endLine_isGets_last {answers : List Recv} {sp : SocketT} {r : Received} (hone : r.IsOne answers sp)
    (hnil : r.bytes = []) (hlast : 0 < ringqLen r.sp.lineBuf ∧ r.sp.eof = true) :
    (r.endLine fun _ => true).IsGets answers sp := by
  obtain ⟨hgot, hcount⟩ := endLine_line r
  have hopen : openLine sp.lineBuf.content r.bytes = r.sp.lineBuf.content := by
    rw [hnil, hone.lineBuf]
    rfl
  refine ⟨hone.account, endLine_asks hone, by rw [← hone.lineBuf]; rfl, hcount,
    Or.inr ⟨hlast.2, ?_, ?_, ?_, ?_⟩, hone.ended⟩
  · change linesOf sp.lineBuf.content r.bytes = []
    rw [hnil]
    rfl
  · change openLine sp.lineBuf.content r.bytes ≠ []
    rw [hopen]
    exact mt (content_eq_nil_iff _).mp hlast.1.ne'
  · change (r.endLine fun _ => true).line = some (openLine sp.lineBuf.content r.bytes)
    rw [hgot, hopen]
  · exact content_ringqFlush r.sp.lineBuf

theorem getsLoop_isGets (answers : List Recv) (sp : SocketT) (hmax : sp.lineBuf.maxsize < 0)
    (hend : sp.eof = true → sp.inBuf.content = []) :
    (getsLoop (fun _ => true) answers sp).IsGets answers sp := by
  induction answers, sp using getsLoop.induct (fun _ => true) with
  | case1 answers sp r hrc =>
      -- The read waits, and with it the call.
      have hone := socketRead_one answers hend
      obtain ⟨c, hc, -⟩ | ⟨-, hnil⟩ := hone.char
      · cases hrc.symm.trans hc
      · rw [getsLoop_eq]
        simp only [show (socketRead answers sp 1).rc = none from hrc]
        exact GotLine.isGets_nothing hone hnil nofun fun _ => rfl
  | case2 answers sp r rc hrc hneg =>
      have hone := socketRead_one answers hend
      obtain ⟨c, hc, -⟩ | ⟨-, hnil⟩ := hone.char
      · have heq := Option.some.inj (hrc.symm.trans hc)
        omega
      · rw [getsLoop_eq]
        simp only [show (socketRead answers sp 1).rc = some rc from hrc, if_pos hneg]
        refine GotLine.isGets_nothing hone hnil (fun n hn => ?_) fun hnone => ?_
        · rwa [← Option.some.inj hn]
        · cases hrc.symm.trans hnone
  | case3 answers sp r hlast hrc h0 =>
      -- The last line, without a newline.
      have hone := socketRead_one answers hend
      obtain ⟨c, hc, -⟩ | ⟨-, hnil⟩ := hone.char
      · cases hrc.symm.trans hc
      · rw [getsLoop_eq]
        simp only [show (socketRead answers sp 1).rc = some 0 from hrc, if_neg h0, if_true]
        rw [if_pos hlast]
        exact endLine_isGets_last hone hnil hlast
  | case4 answers sp r hlast hrc h0 =>
      -- Nothing was read, and there is no line to end.
      have hone := socketRead_one answers hend
      obtain ⟨c, hc, -⟩ | ⟨-, hnil⟩ := hone.char
      · cases hrc.symm.trans hc
      · rw [getsLoop_eq]
        simp only [show (socketRead answers sp 1).rc = some 0 from hrc, if_neg h0, if_true]
        rw [if_neg hlast]
        refine GotLine.isGets_nothing hone hnil (fun n hn => ?_) fun hnone => ?_
        · rw [← Option.some.inj hn]
          omega
        · cases hrc.symm.trans hnone
  | case5 answers sp r rc hrc hneg hzero c hnewline =>
      -- The line ends, at a newline or because it is too long.
      have hone := socketRead_one answers hend
      obtain ⟨c', hc, hbytes, -⟩ | ⟨hle, -⟩ := hone.char
      · have hnewline' : (if E_MAX_REQUEST < ringqLen (socketRead answers sp 1).sp.lineBuf then newline
            else (socketRead answers sp 1).bytes.headD 0) = newline := hnewline
        rw [getsLoop_eq]
        simp only [show (socketRead answers sp 1).rc = some rc from hrc, if_neg hneg, if_neg hzero]
        rw [if_pos hnewline']
        refine endLine_isGets hone hbytes (if_pos ?_)
        rw [hbytes, hone.lineBuf] at hnewline'
        rw [Ringq.content_length]
        split_ifs at hnewline' with hlong
        · exact Or.inl hlong
        · exact Or.inr hnewline'
      · have hrc0 := hle rc hrc
        omega
  | case6 answers sp r rc hrc hneg hzero c hnewline ih₁ ih₂ =>
      -- The line goes on, with the character or, for a carriage return, without it.
      have hone := socketRead_one answers hend
      obtain ⟨c', hc, hbytes, hmore⟩ | ⟨hle, -⟩ := hone.char
      · have hnewline' : ¬ (if E_MAX_REQUEST < ringqLen (socketRead answers sp 1).sp.lineBuf then newline
            else (socketRead answers sp 1).bytes.headD 0) = newline := hnewline
        rw [getsLoop_eq]
        simp only [show (socketRead answers sp 1).rc = some rc from hrc, if_neg hneg, if_neg hzero]
        rw [if_neg hnewline']
        have hlong : ¬ E_MAX_REQUEST < ringqLen (socketRead answers sp 1).sp.lineBuf := fun h =>
          hnewline' (if_pos h)
        have hline : r.sp.lineBuf = sp.lineBuf := hone.lineBuf
        have hchar : c = c' := by
          change (if E_MAX_REQUEST < ringqLen r.sp.lineBuf then newline else r.bytes.headD 0) = c'
          rw [if_neg hlong]
          exact congrArg (fun b => b.headD 0) hbytes
        rw [if_neg hlong, hbytes, List.headD_cons] at hnewline'
        rw [if_neg hlong, show (socketRead answers sp 1).bytes.headD 0 = c' by rw [hbytes]; rfl]
        have hmax' : r.sp.lineBuf.maxsize < 0 := by
          rw [hline]
          exact hmax
        have hend' : ¬ (E_MAX_REQUEST < sp.lineBuf.content.length ∨ c' = newline) := by
          rw [Ringq.content_length, ← hone.lineBuf]
          exact not_or.mpr ⟨hlong, hnewline'⟩
        rw [hchar] at ih₂
        by_cases hcr : c' = carriageReturn
        · rw [if_pos hcr]
          refine (ih₁ hmax' hone.ended).behind hone hbytes rfl hmore (by rw [hline]) ?_
          unfold lineStep
          rw [if_neg hend', if_pos hcr, hline]
        · obtain ⟨hput, hsame⟩ := ringqPutc_unlimited hmax' c'
          rw [if_neg hcr]
          refine (ih₂ (hsame.trans_lt hmax') hone.ended).behind hone hbytes rfl hmore
            (hsame.trans (by rw [hline])) ?_
          unfold lineStep
          rw [if_neg hend', if_neg hcr, ← hline]
          exact congrArg (fun b => (b, none)) hput.symm
      · have hrc0 := hle rc hrc
        omega

/-! ## A run of calls -/

/-- A call of `socketGets`, with the answers of the system that it gets. There is memory for its line: without
it `ringqPutc` leaves characters out, and the string is not made. -/
def getsStep (sp : SocketT) (answers : List Recv) : SocketT × GotLine :=
  ((socketGets (fun _ => true) answers sp).sp, socketGets (fun _ => true) answers sp)

/-- The bytes that were received in a run of calls, and those of them that the calls have read. -/
def receivedBytes (gs : List GotLine) : Bytes := (gs.map GotLine.received).flatten

def eatenBytes (gs : List GotLine) : Bytes := (gs.map GotLine.eaten).flatten

/-- At the end of the stream, and without a line that was begun, a call does nothing. -/
theorem getsStep_of_eof {sp : SocketT} (heof : sp.eof = true) (hline : sp.lineBuf.content = [])
    (unused : List Recv) : getsStep sp unused = (sp, ⟨some (-1), none, sp, [], [], unused⟩) := by
  have hlen := (content_eq_nil_iff _).mp hline
  have hcall : socketGets (fun _ => true) unused sp = ⟨some (-1), none, sp, [], [], unused⟩ := by
    rw [socketGets, getsLoop_eq, socketRead_of_eof unused 1 heof]
    dsimp only
    rw [if_neg (lt_irrefl 0), if_pos rfl, if_neg (by omega)]
  rw [getsStep, hcall]

theorem gets_run_of_eof {sp : SocketT} (heof : sp.eof = true) (hline : sp.lineBuf.content = [])
    (es : List (List Recv)) :
    finish getsStep sp es = sp ∧ receivedBytes (answers getsStep sp es) = [] ∧
      eatenBytes (answers getsStep sp es) = [] ∧ (answers getsStep sp es).filterMap GotLine.line = [] := by
  induction es with
  | nil => exact ⟨rfl, rfl, rfl, rfl⟩
  | cons e es ih =>
      rw [finish_cons, answers_cons, getsStep_of_eof heof hline]
      exact ih

/-- What a run of calls has done that began in the state `sp` and ended in `sp'`. -/
structure GetsRun (sp : SocketT) (gs : List GotLine) (sp' : SocketT) : Prop where
  /-- The bytes received are those that were read and those that wait in the queue. -/
  account : sp.inBuf.content ++ receivedBytes gs = eatenBytes gs ++ sp'.inBuf.content
  /-- The lines returned are those of the bytes that were read, one after the other, and the line that was
  begun is kept. Only at the end of the stream is this line returned, too, if there is something in it. -/
  lines : (gs.filterMap GotLine.line = linesOf sp.lineBuf.content (eatenBytes gs) ∧
      sp'.lineBuf.content = openLine sp.lineBuf.content (eatenBytes gs)) ∨
    (sp'.eof = true ∧ sp'.inBuf.content = [] ∧ sp'.lineBuf.content = [] ∧
      openLine sp.lineBuf.content (eatenBytes gs) ≠ [] ∧
      gs.filterMap GotLine.line = linesOf sp.lineBuf.content (eatenBytes gs)
        ++ [openLine sp.lineBuf.content (eatenBytes gs)])

/-- A call before the others. -/
theorem GetsRun.behind {g : GotLine} {gs : List GotLine} {unused : List Recv} {sp sp' : SocketT}
    (hgets : g.IsGets unused sp) (hrun : GetsRun g.sp gs sp')
    (hend : g.sp.eof = true → g.sp.lineBuf.content = [] →
      sp' = g.sp ∧ eatenBytes gs = [] ∧ gs.filterMap GotLine.line = []) : GetsRun sp (g :: gs) sp' := by
  have hreceived : receivedBytes (g :: gs) = g.received ++ receivedBytes gs := rfl
  have heaten : eatenBytes (g :: gs) = g.eaten ++ eatenBytes gs := rfl
  have hlines : (g :: gs).filterMap GotLine.line = g.line.toList ++ gs.filterMap GotLine.line := by
    cases hline : g.line with
    | none => rw [List.filterMap_cons_none hline]; rfl
    | some line => rw [List.filterMap_cons_some hline]; rfl
  refine ⟨?_, ?_⟩
  · rw [hreceived, heaten, ← List.append_assoc, hgets.account, List.append_assoc, hrun.account,
      List.append_assoc]
  · rw [heaten, hlines, linesOf_append, openLine_append]
    rcases hgets.lines with ⟨hline, hnext⟩ | ⟨heof, hnone, hopen, hline, hnext⟩
    · rw [hline, ← hnext]
      rcases hrun.lines with ⟨hall, hlast⟩ | ⟨hend', hin, hempty, hopen, hall⟩
      · exact Or.inl ⟨by rw [hall], hlast⟩
      · exact Or.inr ⟨hend', hin, hempty, hopen, by rw [hall, List.append_assoc]⟩
    · obtain ⟨rfl, hnil, hquiet⟩ := hend heof hnext
      right
      rw [hnone, hline, hquiet, hnil]
      exact ⟨heof, hgets.ended heof, hnext, hopen, rfl⟩

theorem gets_run {sp : SocketT} (hend : sp.eof = true → sp.inBuf.content = [])
    (hmax : sp.lineBuf.maxsize < 0) (es : List (List Recv)) :
    GetsRun sp (answers getsStep sp es) (finish getsStep sp es) := by
  induction es generalizing sp with
  | nil => exact ⟨List.append_nil _, Or.inl ⟨rfl, rfl⟩⟩
  | cons e es ih =>
      have hgets : GotLine.IsGets (getsStep sp e).2 e sp := getsLoop_isGets e sp hmax hend
      refine GetsRun.behind hgets (ih hgets.ended (hgets.maxsize.trans_lt hmax)) fun heof hline => ?_
      obtain ⟨hsame, -, hnil, hquiet⟩ := gets_run_of_eof heof hline es
      exact ⟨hsame, hnil, hquiet⟩

theorem gets_asks {sp : SocketT} (hend : sp.eof = true → sp.inBuf.content = [])
    (hmax : sp.lineBuf.maxsize < 0) (es : List (List Recv)) :
    Along (fun sp e => (getsStep sp e).1) (fun sp e => (getsStep sp e).2.Asks e sp) sp es := by
  induction es generalizing sp with
  | nil => trivial
  | cons e es ih =>
      have hgets : GotLine.IsGets (getsStep sp e).2 e sp := getsLoop_isGets e sp hmax hend
      exact ⟨hgets.asks, ih hgets.ended (hgets.maxsize.trans_lt hmax)⟩

/-- A line that is not too long, with no character in it that `socketGets` treats differently. -/
structure PlainLine (l : Bytes) : Prop where
  length_le : l.length ≤ E_MAX_REQUEST
  not_newline : newline ∉ l
  not_return : carriageReturn ∉ l

/-- A stream of lines. -/
def crlfText (ls : List Bytes) : Bytes := (ls.map (· ++ [carriageReturn, newline])).flatten

theorem lineStep_plain {l : Bytes} {c : UInt8} (hl : PlainLine (l ++ [c])) :
    lineStep l c = (l ++ [c], none) := by
  have hlen := hl.length_le
  rw [List.length_append, List.length_singleton] at hlen
  have hline : c ≠ newline := fun h => hl.not_newline (h ▸ List.mem_append_right l List.mem_cons_self)
  have hreturn : c ≠ carriageReturn := fun h =>
    hl.not_return (h ▸ List.mem_append_right l List.mem_cons_self)
  unfold lineStep
  rw [if_neg (not_or.mpr ⟨by omega, hline⟩), if_neg hreturn]

/-- The characters of a line make it longer. -/
theorem linesOf_plain {l : Bytes} (hl : PlainLine l) : linesOf [] l = [] ∧ openLine [] l = l := by
  induction l using List.reverseRecOn with
  | nil => exact ⟨rfl, rfl⟩
  | append_singleton l c ih =>
      have hbefore : PlainLine l :=
        { length_le := (List.prefix_append l [c]).length_le.trans hl.length_le
          not_newline := fun h => hl.not_newline (List.mem_append_left _ h)
          not_return := fun h => hl.not_return (List.mem_append_left _ h) }
      obtain ⟨hlines, hopen⟩ := ih hbefore
      obtain ⟨hone, hlast⟩ := linesOf_singleton l c
      rw [lineStep_plain hl] at hone hlast
      rw [linesOf_append, openLine_append, hlines, hopen, hone, hlast]
      exact ⟨rfl, rfl⟩

/-- A stream of lines is cut into these lines. -/
theorem linesOf_crlfText {ls : List Bytes} (hls : ∀ l ∈ ls, PlainLine l) :
    linesOf [] (crlfText ls) = ls ∧ openLine [] (crlfText ls) = [] := by
  induction ls with
  | nil => exact ⟨rfl, rfl⟩
  | cons l ls ih =>
      rw [List.forall_mem_cons] at hls
      obtain ⟨hrest, hend⟩ := ih hls.2
      obtain ⟨hlines, hopen⟩ := linesOf_plain hls.1
      have hlen : ¬ E_MAX_REQUEST < l.length := not_lt.mpr hls.1.length_le
      -- the return is left out, and the newline ends the line
      have hreturn : lineStep l carriageReturn = (l, none) := by
        unfold lineStep
        rw [if_neg (not_or.mpr ⟨hlen, by decide⟩), if_pos rfl]
      have hnewline : lineStep l newline = ([], some l) := if_pos (Or.inr rfl)
      have htext : crlfText (l :: ls) = l ++ ([carriageReturn] ++ ([newline] ++ crlfText ls)) := by
        unfold crlfText
        rw [List.map_cons, List.flatten_cons, List.append_assoc]
        rfl
      obtain ⟨hlines₁, hopen₁⟩ := linesOf_singleton l carriageReturn
      obtain ⟨hlines₂, hopen₂⟩ := linesOf_singleton l newline
      rw [hreturn] at hlines₁ hopen₁
      rw [hnewline] at hlines₂ hopen₂
      rw [htext]
      simp only [linesOf_append, openLine_append, hlines, hopen, hlines₁, hopen₁, hlines₂, hopen₂,
        hrest, hend]
      exact ⟨rfl, trivial⟩

/-- **The lines of a stream.** Whatever the system hands over at each call, and however it cuts the stream,
the calls of `socketGets` read what was received in order, and return its lines, which for a stream of lines
are these. Each call receives what the system hands over, and one that returns no line has read all of it and
asked for more, until there was nothing. -/
theorem socketGets_lines {sp : SocketT} (hopen : sp.eof = false) (hmax : sp.lineBuf.maxsize < 0)
    (es : List (List Recv)) :
    GetsRun sp (answers getsStep sp es) (finish getsStep sp es) ∧
      Along (fun sp e => (getsStep sp e).1) (fun sp e => (getsStep sp e).2.Asks e sp) sp es ∧
      ∀ ls, sp.lineBuf.content = [] → (∀ l ∈ ls, PlainLine l) →
        eatenBytes (answers getsStep sp es) = crlfText ls →
        (answers getsStep sp es).filterMap GotLine.line = ls := by
  have hend : sp.eof = true → sp.inBuf.content = [] := fun h =>
    absurd h (by rw [hopen]; exact Bool.false_ne_true)
  have hrun := gets_run hend hmax es
  refine ⟨hrun, gets_asks hend hmax es, ?_⟩
  intro ls hempty hls heaten
  obtain ⟨hlines, hlast⟩ := linesOf_crlfText hls
  have hall := hrun.lines
  rw [heaten, hempty, hlines, hlast] at hall
  rcases hall with ⟨heq, -⟩ | ⟨-, -, -, hne, -⟩
  · exact heq
  · exact absurd rfl hne

/-- Two lines for three calls: the first one comes without its newline, and the second one with it. -/
theorem socketGets_lines_alloc :
    ∃ sp, socketAlloc (fun _ => true) false = some sp ∧
      let es := [[.bytes [71, 13], .fail .ewouldblock], [.bytes [10, 72, 13, 10]], []]
      GetsRun sp (answers getsStep sp es) (finish getsStep sp es) ∧
        Along (fun sp e => (getsStep sp e).1) (fun sp e => (getsStep sp e).2.Asks e sp) sp es ∧
        (answers getsStep sp es).filterMap GotLine.line = [[71], [72]] := by
  have heaten : ((socketAlloc (fun _ => true) false).map fun sp => eatenBytes (answers getsStep sp
      [[.bytes [71, 13], .fail .ewouldblock], [.bytes [10, 72, 13, 10]], []])) =
      some (crlfText [[71], [72]]) := by
    decide +kernel
  obtain ⟨sp, halloc, heq⟩ := Option.map_eq_some_iff.mp heaten
  have hstart : sp.eof = false ∧ sp.lineBuf.maxsize < 0 ∧ sp.lineBuf.content = [] := by
    rw [← Option.some.inj (show some _ = some sp from halloc)]
    exact ⟨rfl, by decide, rfl⟩
  obtain ⟨hrun, hasks, hlines⟩ := socketGets_lines hstart.1 hstart.2.1
    [[.bytes [71, 13], .fail .ewouldblock], [.bytes [10, 72, 13, 10]], []]
  have hplain : ∀ l ∈ [[71], [72]], PlainLine l := by
    simp only [List.forall_mem_cons]
    exact ⟨⟨by decide, by decide, by decide⟩, ⟨by decide, by decide, by decide⟩, nofun⟩
  exact ⟨sp, halloc, hrun, hasks, hlines _ hstart.2.2 hplain heq⟩

/-! ## Reads and lines -/

/-- What is done with the input side of a socket. -/
inductive ReadCall where
  | read (bufsize : ℕ)
  | gets

/-- What a call has copied or read, and what was received. -/
structure ReadAnswer where
  rc : Option ℤ
  bytes : Bytes
  received : Bytes

/-- A call, with the answers of the system that it gets, and with memory for the line. -/
def readStep (sp : SocketT) (e : ReadCall × List Recv) : SocketT × ReadAnswer :=
  match e.1 with
  | .read bufsize =>
      let r := socketRead e.2 sp bufsize
      (r.sp, ⟨r.rc, r.bytes, r.received⟩)
  | .gets =>
      let g := socketGets (fun _ => true) e.2 sp
      (g.sp, ⟨g.rc, g.eaten, g.received⟩)

/-- A read copies no more than it was asked for, and as many bytes as it returns if it does not fail. -/
def ReadAnswer.Honest (e : ReadCall × List Recv) (a : ReadAnswer) : Prop :=
  match e.1 with
  | .read bufsize => a.bytes.length ≤ bufsize ∧ ∀ n : ℕ, a.rc = some n → a.bytes.length = n
  | .gets => True

/-- What holds of an input side between two calls: it is at its end only with nothing left in the queue, and
a line may get as long as there is memory. -/
def SocketT.Readable (sp : SocketT) : Prop :=
  (sp.eof = true → sp.inBuf.content = []) ∧ sp.lineBuf.maxsize < 0

theorem readStep_accounts (sp : SocketT) (e : ReadCall × List Recv) (h : sp.Readable) :
    sp.inBuf.content ++ (readStep sp e).2.received
        = (readStep sp e).2.bytes ++ (readStep sp e).1.inBuf.content ∧
      (readStep sp e).2.Honest e ∧ (readStep sp e).1.Readable := by
  obtain ⟨call, unused⟩ := e
  obtain ⟨hend, hmax⟩ := h
  cases call with
  | read bufsize =>
      cases heof : sp.eof with
      | true =>
          have hr := socketRead_of_eof unused bufsize heof
          unfold readStep
          dsimp only
          rw [hr]
          refine ⟨List.append_nil _, ⟨Nat.zero_le _, fun n hn => ?_⟩, hend, hmax⟩
          have h0 := Option.some.inj hn
          change 0 = n
          omega
      | false =>
          have hread := socketRead_isRead unused bufsize heof
          refine ⟨hread.account, ⟨hread.size, fun n hn => ?_⟩, fun h => (hread.eof h).2.2, ?_⟩
          · have hcount := hread.rc n hn (Int.natCast_nonneg n)
            change (socketRead unused sp bufsize).bytes.length = n
            omega
          · change (socketRead unused sp bufsize).sp.lineBuf.maxsize < 0
            rw [hread.lineBuf]
            exact hmax
  | gets =>
      have hgets := getsLoop_isGets unused sp hmax hend
      exact ⟨hgets.account, trivial, hgets.ended, hgets.maxsize.trans_lt hmax⟩

/-- **The account of what is received.** Through any run of reads and lines, and whatever the system hands
over at each call, the bytes that were received are those that the calls have read and those that wait in
the queue, in this order; a read copies no more than it is asked for, and as much as it says; and the end
of the stream is reported only when everything has been read. -/
theorem socketRead_account {sp : SocketT} (hopen : sp.eof = false) (hmax : sp.lineBuf.maxsize < 0)
    (es : List (ReadCall × List Recv)) :
    sp.inBuf.content ++ ((answers readStep sp es).map ReadAnswer.received).flatten
        = ((answers readStep sp es).map ReadAnswer.bytes).flatten ++ (finish readStep sp es).inBuf.content ∧
      List.Forall₂ (fun e a => ReadAnswer.Honest e a) es (answers readStep sp es) ∧
      ((finish readStep sp es).eof = true → (finish readStep sp es).inBuf.content = []) := by
  have hstart : sp.Readable := ⟨fun h => absurd h (by rw [hopen]; exact Bool.false_ne_true), hmax⟩
  clear hopen hmax
  induction es generalizing sp with
  | nil => exact ⟨List.append_nil _, List.Forall₂.nil, hstart.1⟩
  | cons e es ih =>
      obtain ⟨hbytes, hhonest, hnext⟩ := readStep_accounts sp e hstart
      obtain ⟨hrest, hall, hend⟩ := ih hnext
      refine ⟨?_, List.Forall₂.cons hhonest hall, hend⟩
      rw [answers_cons, List.map_cons, List.map_cons, List.flatten_cons, List.flatten_cons, finish_cons,
        ← List.append_assoc, hbytes, List.append_assoc, hrest, List.append_assoc]

theorem socketRead_account_alloc :
    ∃ sp, socketAlloc (fun _ => true) false = some sp ∧
      let es := [(.read 5, [.bytes [1, 2, 3, 4, 5, 6, 7]]), (.gets, [.bytes [8, 10, 9]]), (.read 1, [])]
      sp.inBuf.content ++ ((answers readStep sp es).map ReadAnswer.received).flatten
          = ((answers readStep sp es).map ReadAnswer.bytes).flatten
            ++ (finish readStep sp es).inBuf.content ∧
        List.Forall₂ (fun e a => ReadAnswer.Honest e a) es (answers readStep sp es) ∧
        ((finish readStep sp es).eof = true → (finish readStep sp es).inBuf.content = []) :=
  ⟨_, rfl, socketRead_account rfl (by decide) _⟩

end TestCore.Webs
