/-
The output side of a socket (`sock.c`): `socketWrite`, `socketFlush` and the flushing that
`socketDoEvent` goes on with in the background.

The bytes written go through the ring queue `outBuf`. What the system does with a `send` is not up to
the server, so a call comes with the list of answers it gets (`Sent`): it may take all the bytes or some
of them, be interrupted, have no room, or fail. A call that needs one answer more than there are has not
returned; its result has no `rc`.

The account (`socket_account`) holds at each call and for any answers: what was written and accepted is what
was sent and what is still queued, in order. The second result is about the mask of events the socket is
watched for, which a flush that does not get through changes and a later one has to set back.
-/
import TestCore.Webs.RingQ

set_option autoImplicit false

namespace TestCore.Webs

open TestCore.Lib

/-- `SOCKET_BUFSIZ`. -/
def SOCKET_BUFSIZ : ℕ := 1024

/-- `SOCKET_WRITABLE`. -/
def SOCKET_WRITABLE : ℕ := 4

/-- `SOCKET_BLOCK`, which is what `socketSetBlock` returns of the flags before. -/
def SOCKET_BLOCK : ℕ := 0x80

/-- The error numbers the socket code tells apart; `EAGAIN` is `EWOULDBLOCK`. -/
inductive SockErr where
  | eintr
  | ewouldblock
  | econnreset
  | other
  deriving DecidableEq

/-- `socket_t`, with the flags the calls here test and set one by one. `saveMask` is `-1` in the source
if there is none. The input queue does not go around the end of its buffer, and the line begins at the
start of its buffer. -/
structure SocketT where
  inBuf : Ringq
  outBuf : Ringq
  lineBuf : Ringq
  /-- `SOCKET_BLOCK`. -/
  block : Bool
  /-- `SOCKET_EOF`. -/
  eof : Bool
  /-- `SOCKET_FLUSHING`. -/
  flushing : Bool
  /-- `SOCKET_CONNRESET`. -/
  connreset : Bool
  handlerMask : ℕ
  saveMask : Option ℕ
  in_line : inBuf.servp ≤ inBuf.endp
  line_start : lineBuf.servp = 0

theorem ringqOpen_start {mem : ℕ → Bool} {initSize : ℕ} {maxsize : ℤ} {rq : Ringq}
    (h : ringqOpen mem initSize maxsize = some rq) : rq.servp = 0 ∧ rq.endp = 0 := by
  unfold ringqOpen at h
  dsimp only at h
  split_ifs at h
  rw [← Option.some.inj h]
  exact ⟨rfl, rfl⟩

/-- `socketAlloc`, for a socket with buffers of its own: the flags and masks are zero but for
`SOCKET_BLOCK`. -/
def socketAlloc (mem : ℕ → Bool) (block : Bool) : Option SocketT :=
  match hin : ringqOpen mem SOCKET_BUFSIZ SOCKET_BUFSIZ,
    ringqOpen mem (SOCKET_BUFSIZ + 1) (SOCKET_BUFSIZ + 1),
    hline : ringqOpen mem SOCKET_BUFSIZ (-1) with
  | some inBuf, some outBuf, some lineBuf =>
      some
        { inBuf := inBuf
          outBuf := outBuf
          lineBuf := lineBuf
          block := block
          eof := false
          flushing := false
          connreset := false
          handlerMask := 0
          saveMask := none
          in_line := by rw [(ringqOpen_start hin).1]; exact Nat.zero_le _
          line_start := (ringqOpen_start hline).1 }
  | _, _, _ => none

/-- What a `send` answers: how many bytes it has taken, or an error. -/
inductive Sent where
  | bytes (n : ℕ)
  | fail (e : SockErr)

/-- `socketDoOutput`. The system takes no more than it is given; if it takes nothing, it has no room. -/
def socketDoOutput (answer : Sent) (toWrite : ℕ) : ℕ ⊕ SockErr :=
  match answer with
  | .bytes n =>
      let bytes := min n toWrite
      if bytes = 0 ∧ bytes ≠ toWrite then .inr .ewouldblock else .inl bytes
  | .fail e => .inr e

/-- What a call has done: what it returns if it does, the bytes it has queued and those it has sent, and
the answers it has not asked for. -/
structure Written where
  rc : Option ℤ
  sp : SocketT
  queued : Bytes
  sent : Bytes
  unused : List Sent

/-- `socketRegisterInterest`. -/
def socketRegisterInterest (sp : SocketT) (handlerMask : ℕ) : SocketT :=
  { sp with handlerMask := handlerMask }

/-- The socket is watched for room to write; the user's mask is kept. -/
def SocketT.watchWritable (sp : SocketT) : SocketT :=
  match sp.saveMask with
  | some _ => sp
  | none =>
      let sp := { sp with saveMask := some sp.handlerMask }
      socketRegisterInterest sp (sp.handlerMask ||| SOCKET_WRITABLE)

/-- The end of `socketFlush`: the empty queue is reset, and the user's mask set back. -/
def SocketT.flushed (sp : SocketT) : SocketT :=
  let sp := { sp with outBuf := ringqFlush sp.outBuf }
  let sp :=
    match sp.saveMask with
    | some mask => { socketRegisterInterest sp mask with saveMask := none }
    | none => sp
  { sp with flushing := false }

/-- The loop of `socketFlush`. -/
def flushLoop : List Sent → SocketT → Written
  | [], sp =>
      if ringqLen sp.outBuf = 0 then ⟨some 0, sp.flushed, [], [], []⟩
      else ⟨none, sp, [], [], []⟩
  | answer :: answers, sp =>
      if ringqLen sp.outBuf = 0 then ⟨some 0, sp.flushed, [], [], answer :: answers⟩
      else
        match socketDoOutput answer (ringqGetBlkMax sp.outBuf) with
        | .inr .eintr => flushLoop answers sp
        | .inr .ewouldblock => ⟨some 0, sp.watchWritable, [], [], answers⟩
        | .inr _ => ⟨some (-1), sp, [], [], answers⟩
        | .inl bytes =>
            let rest := flushLoop answers { sp with outBuf := ringqGetBlkAdj sp.outBuf bytes }
            { rest with sent := (sp.outBuf.buf.drop sp.outBuf.servp).take bytes ++ rest.sent }

/-- `socketFlush`. -/
def socketFlush (answers : List Sent) (sp : SocketT) : Written :=
  flushLoop answers (if sp.block then sp else { sp with flushing := true })

/-- The loop of `socketWrite`. It goes round again after a flush unless that gave no room to a socket
that does not block; a flush that asked the system for nothing has changed nothing and would be made for
ever. The queue has room for the bytes it is given, so that it needs no memory for them. -/
def writeLoop (answers : List Sent) (sp : SocketT) (buf : Bytes) (bytesWritten : ℕ) : Written :=
  if _hbuf : buf = [] then ⟨some bytesWritten, sp, [], [], answers⟩
  else if _hroom : ringqPutBlkMax sp.outBuf = 0 then
    let flush := socketFlush answers sp
    match flush.rc with
    | none => flush
    | some rc =>
        if rc < 0 then { flush with rc := some (-1) }
        else if ringqPutBlkMax flush.sp.outBuf = 0 ∧ flush.sp.block = false then
          { flush with rc := some bytesWritten }
        else if _hfewer : flush.unused.length < answers.length then
          let rest := writeLoop flush.unused flush.sp buf bytesWritten
          { rest with sent := flush.sent ++ rest.sent }
        else { flush with rc := none }
  else
    let len := min (ringqPutBlkMax sp.outBuf) buf.length
    let put := ringqPutBlk (fun _ => false) sp.outBuf (buf.take len)
    let rest := writeLoop answers { sp with outBuf := put.1 } (buf.drop len) (bytesWritten + len)
    { rest with queued := buf.take len ++ rest.queued }
termination_by answers.length + buf.length
decreasing_by
  · have hfewer : (socketFlush answers sp).unused.length < answers.length := by assumption
    omega
  · have hlen : 0 < buf.length := List.length_pos_iff.mpr _hbuf
    rw [List.length_drop]
    omega

/-- `socketWrite`. -/
def socketWrite (answers : List Sent) (sp : SocketT) (buf : Bytes) : Written := writeLoop answers sp buf 0

/-- What `socketDoEvent` does for a socket with room to write, before it calls the handler. -/
def socketDoEventFlush (answers : List Sent) (sp : SocketT) : Written :=
  if sp.flushing then
    if 0 < ringqLen sp.outBuf then socketFlush answers sp
    else ⟨some 0, { sp with flushing := false }, [], [], answers⟩
  else ⟨some 0, sp, [], [], answers⟩

/-! ## A flush -/

/-- What was there and what has been queued is what has been sent and what is there; and the queue is as
large as it was. -/
structure Written.Accounts (w : Written) (sp : SocketT) : Prop where
  bytes : sp.outBuf.content ++ w.queued = w.sent ++ w.sp.outBuf.content
  size : w.sp.outBuf.buflen = sp.outBuf.buflen

/-- The bytes that `socketDoOutput` has sent are the next ones. -/
theorem socketDoOutput_le {answer : Sent} {toWrite bytes : ℕ}
    (h : socketDoOutput answer toWrite = .inl bytes) (hpos : 0 < toWrite) :
    0 < bytes ∧ bytes ≤ toWrite := by
  unfold socketDoOutput at h
  cases answer with
  | fail e => cases h
  | bytes n =>
      dsimp only at h
      split_ifs at h with hnone
      rw [Sum.inl.injEq] at h
      omega

/-- Sending from the queue. -/
theorem content_sent (rq : Ringq) {n : ℕ} (hn : n ≤ ringqGetBlkMax rq) :
    (rq.buf.drop rq.servp).take n ++ (ringqGetBlkAdj rq n).content = rq.content := by
  have hview : (rq.consume n).content = rq.content.drop n := congrArg RingView.content (rq.view_consume hn)
  rw [rq.take_content hn, ringqGetBlkAdj_eq rq hn, hview, List.take_append_drop]

theorem content_eq_nil_iff (rq : Ringq) : rq.content = [] ↔ ringqLen rq = 0 := by
  rw [← List.length_eq_zero_iff, Ringq.content_length]

theorem SocketT.outBuf_flushed (sp : SocketT) : sp.flushed.outBuf = ringqFlush sp.outBuf := by
  unfold SocketT.flushed
  cases sp.saveMask
  all_goals rfl

theorem SocketT.outBuf_watchWritable (sp : SocketT) : sp.watchWritable.outBuf = sp.outBuf := by
  unfold SocketT.watchWritable
  cases sp.saveMask
  all_goals rfl

theorem content_ringqFlush (rq : Ringq) : (ringqFlush rq).content = [] :=
  congrArg RingView.content rq.view_flush

/-- The loop, by what a turn may do. `Q` has to hold of the result if it holds of the rest. -/
theorem flushLoop_induction {Q : List Sent → SocketT → Written → Prop}
    (hdone : ∀ answers sp, ringqLen sp.outBuf = 0 → Q answers sp ⟨some 0, sp.flushed, [], [], answers⟩)
    (hwait : ∀ sp, ringqLen sp.outBuf ≠ 0 → Q [] sp ⟨none, sp, [], [], []⟩)
    (hagain : ∀ answer answers sp w, ringqLen sp.outBuf ≠ 0 → Q answers sp w → Q (answer :: answers) sp w)
    (hblock : ∀ answer answers sp, ringqLen sp.outBuf ≠ 0 →
      Q (answer :: answers) sp ⟨some 0, sp.watchWritable, [], [], answers⟩)
    (hfail : ∀ answer answers sp, ringqLen sp.outBuf ≠ 0 →
      Q (answer :: answers) sp ⟨some (-1), sp, [], [], answers⟩)
    (hsent : ∀ answer answers sp n w, ringqLen sp.outBuf ≠ 0 → 0 < n → n ≤ ringqGetBlkMax sp.outBuf →
      Q answers { sp with outBuf := ringqGetBlkAdj sp.outBuf n } w →
      Q (answer :: answers) sp { w with sent := (sp.outBuf.buf.drop sp.outBuf.servp).take n ++ w.sent })
    (answers : List Sent) (sp : SocketT) : Q answers sp (flushLoop answers sp) := by
  induction answers generalizing sp with
  | nil =>
      rw [flushLoop]
      split_ifs with hempty
      · exact hdone [] sp hempty
      · exact hwait sp hempty
  | cons answer answers ih =>
      rw [flushLoop]
      split_ifs with hempty
      · exact hdone (answer :: answers) sp hempty
      · have hpos : 0 < ringqGetBlkMax sp.outBuf :=
          Nat.pos_of_ne_zero (mt (ringqGetBlkMax_eq_zero sp.outBuf).mp hempty)
        rcases hout : socketDoOutput answer (ringqGetBlkMax sp.outBuf) with n | e
        · obtain ⟨hn, hle⟩ := socketDoOutput_le hout hpos
          exact hsent answer answers sp n _ hempty hn hle (ih _)
        · cases e with
          | eintr => exact hagain answer answers sp _ hempty (ih sp)
          | ewouldblock => exact hblock answer answers sp hempty
          | econnreset => exact hfail answer answers sp hempty
          | other => exact hfail answer answers sp hempty

theorem flushLoop_accounts (answers : List Sent) (sp : SocketT) :
    (flushLoop answers sp).Accounts sp ∧ (flushLoop answers sp).queued = [] := by
  refine flushLoop_induction (Q := fun _ sp w => w.Accounts sp ∧ w.queued = []) ?_ ?_ ?_ ?_ ?_ ?_ answers sp
  · intro answers sp hempty
    refine ⟨⟨?_, ?_⟩, rfl⟩
    · rw [SocketT.outBuf_flushed, content_ringqFlush, (content_eq_nil_iff _).mpr hempty]
    · rw [SocketT.outBuf_flushed]
      exact congrArg RingView.buflen sp.outBuf.view_flush
  · exact fun sp _ => ⟨⟨List.append_nil _, rfl⟩, rfl⟩
  · exact fun _ _ _ _ _ h => h
  · intro answer answers sp _
    refine ⟨⟨?_, ?_⟩, rfl⟩
    · rw [SocketT.outBuf_watchWritable]
      exact List.append_nil _
    · rw [SocketT.outBuf_watchWritable]
  · exact fun _ _ sp _ => ⟨⟨List.append_nil _, rfl⟩, rfl⟩
  · rintro answer answers sp n w - - hn ⟨⟨hbytes, hsize⟩, hqueued⟩
    refine ⟨⟨?_, ?_⟩, hqueued⟩
    · rw [hqueued, List.append_nil] at hbytes
      dsimp only at hbytes ⊢
      rw [hqueued, List.append_nil, List.append_assoc, ← hbytes, content_sent sp.outBuf hn]
    · rw [ringqGetBlkAdj_eq sp.outBuf hn] at hsize
      exact hsize

/-! ## A write -/

/-- The socket that a flush starts with. -/
def SocketT.flushStart (sp : SocketT) : SocketT := if sp.block then sp else { sp with flushing := true }

theorem SocketT.outBuf_flushStart (sp : SocketT) : sp.flushStart.outBuf = sp.outBuf := by
  unfold SocketT.flushStart
  split_ifs
  all_goals rfl

theorem socketFlush_accounts (answers : List Sent) (sp : SocketT) :
    (socketFlush answers sp).Accounts sp ∧ (socketFlush answers sp).queued = [] := by
  obtain ⟨⟨hbytes, hsize⟩, hqueued⟩ := flushLoop_accounts answers sp.flushStart
  rw [SocketT.outBuf_flushStart] at hbytes hsize
  exact ⟨⟨hbytes, hsize⟩, hqueued⟩

/-- Bytes for which there is room are put behind the others, without memory. -/
theorem ringqPutBlk_fits (rq : Ringq) {data : Bytes} (h : data.length ≤ ringqPutBlkMax rq) :
    (ringqPutBlk (fun _ => false) rq data).1.view = rq.view.append data := by
  have hroom := ringqPutBlkMax_lt rq
  have hfits : rq.view.content.length + data.length < rq.view.buflen := by
    change rq.content.length + data.length < rq.buflen
    rw [Ringq.content_length]
    omega
  have hput := ringqPutBlk_view (fun _ => false) rq data
  rw [RingView.put_all _ hfits] at hput
  exact congrArg Prod.fst hput

/-- The loop, by what a turn may do: it is over, it ends with a flush, it goes round again after one, or it
puts some of the bytes. -/
theorem writeLoop_induction {Q : List Sent → SocketT → Bytes → ℕ → Written → Prop}
    (hdone : ∀ answers sp before, Q answers sp [] before ⟨some before, sp, [], [], answers⟩)
    (hflush : ∀ answers sp buf (before : ℕ) (rc : Option ℤ), buf ≠ [] → ringqPutBlkMax sp.outBuf = 0 →
      (∀ n, rc = some n → 0 ≤ n → n = before) →
      Q answers sp buf before { socketFlush answers sp with rc := rc })
    (hround : ∀ answers sp buf before w, buf ≠ [] → ringqPutBlkMax sp.outBuf = 0 →
      Q (socketFlush answers sp).unused (socketFlush answers sp).sp buf before w →
      Q answers sp buf before { w with sent := (socketFlush answers sp).sent ++ w.sent })
    (hput : ∀ answers sp buf before len w, buf ≠ [] → 0 < len →
      len = min (ringqPutBlkMax sp.outBuf) buf.length →
      Q answers { sp with outBuf := (ringqPutBlk (fun _ => false) sp.outBuf (buf.take len)).1 } (buf.drop len)
        (before + len) w →
      Q answers sp buf before { w with queued := buf.take len ++ w.queued })
    (answers : List Sent) (sp : SocketT) (buf : Bytes) (before : ℕ) :
    Q answers sp buf before (writeLoop answers sp buf before) := by
  induction answers, sp, buf, before using writeLoop.induct with
  | case1 answers sp before =>
      rw [writeLoop, dif_pos rfl]
      exact hdone answers sp before
  | case2 answers sp buf before hbuf hroom flush hnone =>
      rw [writeLoop, dif_neg hbuf, dif_pos hroom]
      have hrc : (socketFlush answers sp).rc = none := hnone
      simp only [hrc]
      have hend := hflush answers sp buf before none hbuf hroom nofun
      rwa [← hrc] at hend
  | case3 answers sp buf before hbuf hroom flush rc hsome hneg =>
      rw [writeLoop, dif_neg hbuf, dif_pos hroom]
      have hrc : (socketFlush answers sp).rc = some rc := hsome
      simp only [hrc, if_pos hneg]
      refine hflush answers sp buf before (some (-1)) hbuf hroom fun n hn h0 => ?_
      rw [Option.some.injEq] at hn
      omega
  | case4 answers sp buf before hbuf hroom flush rc hsome hneg hfull =>
      rw [writeLoop, dif_neg hbuf, dif_pos hroom]
      have hrc : (socketFlush answers sp).rc = some rc := hsome
      simp only [hrc, if_neg hneg]
      rw [if_pos hfull]
      refine hflush answers sp buf before (some before) hbuf hroom fun n hn _ => ?_
      exact (Option.some.inj hn).symm
  | case5 answers sp buf before hbuf hroom flush rc hsome hneg hfull hfewer ih =>
      rw [writeLoop, dif_neg hbuf, dif_pos hroom]
      have hrc : (socketFlush answers sp).rc = some rc := hsome
      simp only [hrc, if_neg hneg]
      rw [if_neg hfull, dif_pos hfewer]
      exact hround answers sp buf before _ hbuf hroom ih
  | case6 answers sp buf before hbuf hroom flush rc hsome hneg hfull hfewer =>
      rw [writeLoop, dif_neg hbuf, dif_pos hroom]
      have hrc : (socketFlush answers sp).rc = some rc := hsome
      simp only [hrc, if_neg hneg]
      rw [if_neg hfull, dif_neg hfewer]
      exact hflush answers sp buf before none hbuf hroom nofun
  | case7 answers sp buf before hbuf hroom len put ih =>
      rw [writeLoop, dif_neg hbuf, dif_neg hroom]
      have hpos : 0 < buf.length := List.length_pos_iff.mpr hbuf
      exact hput answers sp buf before len _ hbuf (by omega) rfl ih

/-- What a write has done: the bytes it has queued are the first ones of the buffer, and it returns their
number unless it fails. -/
structure Written.IsWrite (w : Written) (sp : SocketT) (buf : Bytes) (before : ℕ) : Prop where
  accounts : w.Accounts sp
  queued : w.queued <+: buf
  rc : ∀ n, w.rc = some n → 0 ≤ n → n = before + w.queued.length

theorem writeLoop_isWrite (answers : List Sent) (sp : SocketT) (buf : Bytes) (before : ℕ) :
    (writeLoop answers sp buf before).IsWrite sp buf before := by
  refine writeLoop_induction (Q := fun _ sp buf before w => w.IsWrite sp buf before) ?_ ?_ ?_ ?_ answers sp buf
    before
  · intro answers sp before
    exact ⟨⟨List.append_nil _, rfl⟩, List.nil_prefix, fun n hn _ => (Option.some.inj hn).symm⟩
  · intro answers sp buf before rc _ _ hrc
    obtain ⟨⟨hbytes, hsize⟩, hqueued⟩ := socketFlush_accounts answers sp
    refine ⟨⟨hbytes, hsize⟩, ?_, fun n hn h0 => ?_⟩
    · change (socketFlush answers sp).queued <+: buf
      rw [hqueued]
      exact List.nil_prefix
    · change n = before + (((socketFlush answers sp).queued.length : ℕ) : ℤ)
      rw [hqueued, hrc n hn h0]
      simp
  · rintro answers sp buf before w - - ⟨⟨hbytes, hsize⟩, hqueued, hrc⟩
    obtain ⟨⟨hflush, hsame⟩, hnone⟩ := socketFlush_accounts answers sp
    refine ⟨⟨?_, hsize.trans hsame⟩, hqueued, hrc⟩
    rw [hnone, List.append_nil] at hflush
    dsimp only
    rw [hflush, List.append_assoc, hbytes, List.append_assoc]
  · rintro answers sp buf before len w - - hlen ⟨⟨hbytes, hsize⟩, hqueued, hrc⟩
    have htake : (buf.take len).length = len := List.length_take_of_le (by omega)
    have hview := ringqPutBlk_fits sp.outBuf (by omega : (buf.take len).length ≤ ringqPutBlkMax sp.outBuf)
    have hput : (ringqPutBlk (fun _ => false) sp.outBuf (buf.take len)).1.content
        = sp.outBuf.content ++ buf.take len := congrArg RingView.content hview
    refine ⟨⟨?_, hsize.trans (congrArg RingView.buflen hview)⟩, ?_, fun n hn h0 => ?_⟩
    · dsimp only at hbytes ⊢
      rw [← List.append_assoc, ← hput]
      exact hbytes
    · obtain ⟨rest, hrest⟩ := hqueued
      refine ⟨rest, ?_⟩
      dsimp only
      rw [List.append_assoc, hrest, List.take_append_drop]
    · have hone := hrc n hn h0
      dsimp only
      rw [List.length_append, htake]
      push_cast at hone ⊢
      omega

/-! ## The account of a run -/

/-- What is done with the output side of a socket. -/
inductive SockCall where
  | write (buf : Bytes)
  | flush
  | event
  | setBlock (on : Bool)

/-- What a call answers, and what it has done with the bytes. -/
structure SockAnswer where
  rc : Option ℤ
  queued : Bytes
  sent : Bytes

def Written.answer (w : Written) : SocketT × SockAnswer := (w.sp, ⟨w.rc, w.queued, w.sent⟩)

/-- A call, with the answers of the system that it gets. -/
def sockStep (sp : SocketT) (e : SockCall × List Sent) : SocketT × SockAnswer :=
  match e.1 with
  | .write buf => (socketWrite e.2 sp buf).answer
  | .flush => (socketFlush e.2 sp).answer
  | .event => (socketDoEventFlush e.2 sp).answer
  | .setBlock on => ({ sp with block := on }, ⟨some (if sp.block then SOCKET_BLOCK else 0), [], []⟩)

/-- A write has queued the first bytes of the buffer, as many as it returns if it does not fail. -/
def SockAnswer.Honest (e : SockCall × List Sent) (a : SockAnswer) : Prop :=
  match e.1 with
  | .write buf => a.queued <+: buf ∧ ∀ n : ℕ, a.rc = some n → a.queued.length = n
  | _ => a.queued = []

theorem socketDoEventFlush_accounts (answers : List Sent) (sp : SocketT) :
    (socketDoEventFlush answers sp).Accounts sp ∧ (socketDoEventFlush answers sp).queued = [] := by
  unfold socketDoEventFlush
  split_ifs
  · exact socketFlush_accounts answers sp
  · exact ⟨⟨List.append_nil _, rfl⟩, rfl⟩
  · exact ⟨⟨List.append_nil _, rfl⟩, rfl⟩

theorem sockStep_accounts (sp : SocketT) (e : SockCall × List Sent) :
    sp.outBuf.content ++ (sockStep sp e).2.queued
        = (sockStep sp e).2.sent ++ (sockStep sp e).1.outBuf.content ∧
      (sockStep sp e).1.outBuf.buflen = sp.outBuf.buflen ∧ (sockStep sp e).2.Honest e := by
  obtain ⟨call, answers⟩ := e
  cases call with
  | write buf =>
      obtain ⟨⟨hbytes, hsize⟩, hqueued, hrc⟩ := writeLoop_isWrite answers sp buf 0
      refine ⟨hbytes, hsize, hqueued, fun n hn => ?_⟩
      have hcount := hrc n hn (Int.natCast_nonneg n)
      change (writeLoop answers sp buf 0).queued.length = n
      omega
  | flush =>
      obtain ⟨⟨hbytes, hsize⟩, hqueued⟩ := socketFlush_accounts answers sp
      exact ⟨hbytes, hsize, hqueued⟩
  | event =>
      obtain ⟨⟨hbytes, hsize⟩, hqueued⟩ := socketDoEventFlush_accounts answers sp
      exact ⟨hbytes, hsize, hqueued⟩
  | setBlock on => exact ⟨List.append_nil _, rfl, rfl⟩

/-- **The account.** Whatever is called, and whatever the system answers to each `send`, the bytes that
were queued at the start and those that the writes have accepted are the bytes that were sent and those
that are queued at the end, in this order; the queue keeps its size; and each write accepts the first
bytes it is given, as many as it returns. -/
theorem socket_account (sp : SocketT) (es : List (SockCall × List Sent)) :
    sp.outBuf.content ++ ((answers sockStep sp es).map SockAnswer.queued).flatten
        = ((answers sockStep sp es).map SockAnswer.sent).flatten ++ (finish sockStep sp es).outBuf.content ∧
      (finish sockStep sp es).outBuf.buflen = sp.outBuf.buflen ∧
      List.Forall₂ (fun e a => SockAnswer.Honest e a) es (answers sockStep sp es) := by
  induction es generalizing sp with
  | nil => exact ⟨List.append_nil _, rfl, List.Forall₂.nil⟩
  | cons e es ih =>
      obtain ⟨hbytes, hsize, hhonest⟩ := sockStep_accounts sp e
      obtain ⟨hrest, hsame, hall⟩ := ih (sockStep sp e).1
      refine ⟨?_, hsame.trans hsize, List.Forall₂.cons hhonest hall⟩
      rw [answers_cons, List.map_cons, List.map_cons, List.flatten_cons, List.flatten_cons, finish_cons,
        ← List.append_assoc, hbytes, List.append_assoc, hrest, List.append_assoc]

/-! ## The mask of a socket with output to send -/

/-- The socket is watched for what the user wants to know of, and for room to write if a flush has not got
through. -/
def SocketT.Watches (u : ℕ) (sp : SocketT) : Prop :=
  (sp.saveMask = none ∧ sp.handlerMask = u) ∨
    (sp.saveMask = some u ∧ sp.handlerMask = u ||| SOCKET_WRITABLE)

/-- Nothing is left to send, and the socket is as the user left it. -/
structure SocketT.Idle (u : ℕ) (sp : SocketT) : Prop where
  content : sp.outBuf.content = []
  handlerMask : sp.handlerMask = u
  saveMask : sp.saveMask = none
  flushing : sp.flushing = false

/-- Something is left to send, and the socket is watched for room to send it; if it does not block, the next
event goes on with it. -/
structure SocketT.Pending (u : ℕ) (sp : SocketT) : Prop where
  content : sp.outBuf.content ≠ []
  handlerMask : sp.handlerMask = u ||| SOCKET_WRITABLE
  saveMask : sp.saveMask = some u
  flushing : sp.block = false → sp.flushing = true

theorem SocketT.Watches.flushed {u : ℕ} {sp : SocketT} (h : sp.Watches u) : sp.flushed.Idle u := by
  have hcontent : sp.flushed.outBuf.content = [] := by
    rw [SocketT.outBuf_flushed, content_ringqFlush]
  unfold SocketT.flushed at hcontent ⊢
  rcases h with ⟨hsave, hmask⟩ | ⟨hsave, hmask⟩
  · rw [hsave] at hcontent ⊢
    exact ⟨hcontent, hmask, rfl, rfl⟩
  · rw [hsave] at hcontent ⊢
    exact ⟨hcontent, rfl, rfl, rfl⟩

theorem SocketT.Watches.watchWritable {u : ℕ} {sp : SocketT} (h : sp.Watches u)
    (hcontent : sp.outBuf.content ≠ []) (hflushing : sp.block = false → sp.flushing = true) :
    sp.watchWritable.Pending u := by
  unfold SocketT.watchWritable
  rcases h with ⟨hsave, hmask⟩ | ⟨hsave, hmask⟩
  · rw [hsave]
    refine ⟨hcontent, ?_, ?_, hflushing⟩
    · change sp.handlerMask ||| SOCKET_WRITABLE = _
      rw [hmask]
    · change some sp.handlerMask = _
      rw [hmask]
  · rw [hsave]
    exact ⟨hcontent, hmask, hsave, hflushing⟩

/-- What a flush leaves: the mask in one of its two states, the user's one unless there is something to
send; and if it has not failed, the socket idle or pending. -/
def Written.Leaves (u : ℕ) (w : Written) : Prop :=
  (w.sp.Watches u ∧ (w.sp.saveMask ≠ none → w.sp.outBuf.content ≠ [])) ∧
    (w.rc = some 0 → w.sp.Idle u ∨ w.sp.Pending u)

theorem SocketT.Idle.leaves {u : ℕ} {sp : SocketT} (h : sp.Idle u) (unused : List Sent) :
    Written.Leaves u ⟨some 0, sp, [], [], unused⟩ :=
  ⟨⟨Or.inl ⟨h.saveMask, h.handlerMask⟩, fun hne => absurd h.saveMask hne⟩, fun _ => Or.inl h⟩

theorem SocketT.Pending.leaves {u : ℕ} {sp : SocketT} (h : sp.Pending u) (unused : List Sent) :
    Written.Leaves u ⟨some 0, sp, [], [], unused⟩ :=
  ⟨⟨Or.inr ⟨h.saveMask, h.handlerMask⟩, fun _ => h.content⟩, fun _ => Or.inr h⟩

theorem flushLoop_leaves {u : ℕ} (answers : List Sent) (sp : SocketT) (hmask : sp.Watches u)
    (hflushing : sp.block = false → sp.flushing = true) : (flushLoop answers sp).Leaves u := by
  refine flushLoop_induction
    (Q := fun _ sp w => sp.Watches u → (sp.block = false → sp.flushing = true) → w.Leaves u)
    ?_ ?_ ?_ ?_ ?_ ?_ answers sp hmask hflushing
  · exact fun answers sp _ hmask _ => hmask.flushed.leaves answers
  · exact fun sp hne hmask _ => ⟨⟨hmask, fun _ => mt (content_eq_nil_iff _).mp hne⟩, nofun⟩
  · exact fun _ _ _ _ _ h => h
  · exact fun _ answers sp hne hmask hflushing =>
      (hmask.watchWritable (mt (content_eq_nil_iff _).mp hne) hflushing).leaves answers
  · exact fun _ _ sp hne hmask _ => ⟨⟨hmask, fun _ => mt (content_eq_nil_iff _).mp hne⟩, nofun⟩
  · exact fun _ _ _ _ _ _ _ _ h => h

theorem SocketT.Watches.flushStart {u : ℕ} {sp : SocketT} (h : sp.Watches u) : sp.flushStart.Watches u := by
  unfold SocketT.flushStart
  split_ifs
  all_goals exact h

theorem socketFlush_leaves {u : ℕ} (answers : List Sent) {sp : SocketT} (hmask : sp.Watches u) :
    (socketFlush answers sp).Leaves u := by
  refine flushLoop_leaves answers sp.flushStart hmask.flushStart ?_
  unfold SocketT.flushStart
  intro hblock
  split_ifs at hblock ⊢ with h
  · exact absurd h (by rw [hblock]; exact Bool.false_ne_true)
  · rfl

/-- The mask between two calls. -/
def SocketT.Settled (u : ℕ) (sp : SocketT) : Prop :=
  sp.Watches u ∧ (sp.saveMask ≠ none → sp.outBuf.content ≠ [])

theorem writeLoop_settled {u : ℕ} (answers : List Sent) (sp : SocketT) (buf : Bytes) (before : ℕ)
    (h : sp.Settled u) : (writeLoop answers sp buf before).sp.Settled u := by
  refine writeLoop_induction (Q := fun _ sp _ _ w => sp.Settled u → w.sp.Settled u) ?_ ?_ ?_ ?_ answers sp buf
    before h
  · exact fun _ _ _ h => h
  · exact fun answers sp _ _ _ _ _ _ h => (socketFlush_leaves answers h.1).1
  · exact fun answers sp _ _ w _ _ hrest h => hrest (socketFlush_leaves answers h.1).1
  · intro answers sp buf before len w _ _ hlen hrest h
    have htake : (buf.take len).length ≤ ringqPutBlkMax sp.outBuf := by
      rw [List.length_take]
      omega
    have hview := ringqPutBlk_fits sp.outBuf htake
    have hput : (ringqPutBlk (fun _ => false) sp.outBuf (buf.take len)).1.content
        = sp.outBuf.content ++ buf.take len := congrArg RingView.content hview
    refine hrest ⟨h.1, fun hne hnil => h.2 hne ?_⟩
    rw [hput] at hnil
    exact (List.append_eq_nil_iff.mp hnil).1

theorem sockStep_settled {u : ℕ} (sp : SocketT) (e : SockCall × List Sent) (h : sp.Settled u) :
    (sockStep sp e).1.Settled u := by
  obtain ⟨call, answers⟩ := e
  cases call with
  | write buf => exact writeLoop_settled answers sp buf 0 h
  | flush => exact (socketFlush_leaves answers h.1).1
  | event =>
      change (socketDoEventFlush answers sp).sp.Settled u
      unfold socketDoEventFlush
      split_ifs
      · exact (socketFlush_leaves answers h.1).1
      · exact h
      · exact h
  | setBlock on => exact h

/-- Sends that each take something, as many as there are bytes, bring a flush to its end. -/
theorem flushLoop_completes {u : ℕ} (answers : List Sent) {sp : SocketT} (hmask : sp.Watches u)
    (hall : ∀ answer ∈ answers, ∃ n, 0 < n ∧ answer = .bytes n)
    (hmany : ringqLen sp.outBuf ≤ answers.length) :
    (flushLoop answers sp).rc = some 0 ∧ (flushLoop answers sp).sp.Idle u := by
  induction answers generalizing sp with
  | nil =>
      rw [flushLoop, if_pos (Nat.le_zero.mp hmany)]
      exact ⟨rfl, hmask.flushed⟩
  | cons answer answers ih =>
      rw [flushLoop]
      split_ifs with hempty
      · exact ⟨rfl, hmask.flushed⟩
      · obtain ⟨n, hn, rfl⟩ := hall answer List.mem_cons_self
        have hmax : 0 < ringqGetBlkMax sp.outBuf :=
          Nat.pos_of_ne_zero (mt (ringqGetBlkMax_eq_zero sp.outBuf).mp hempty)
        have hout : socketDoOutput (.bytes n) (ringqGetBlkMax sp.outBuf)
            = .inl (min n (ringqGetBlkMax sp.outBuf)) := by
          unfold socketDoOutput
          dsimp only
          rw [if_neg (by omega)]
        have hsent := content_sent sp.outBuf (Nat.min_le_right n (ringqGetBlkMax sp.outBuf))
        have hlen := congrArg List.length hsent
        have hline := ringqGetBlkMax_line sp.outBuf
        rw [List.length_append, Ringq.content_length, Ringq.content_length, List.length_take,
          List.length_drop] at hlen
        rw [hout]
        refine ih hmask (fun a ha => hall a (List.mem_cons_of_mem _ ha)) ?_
        rw [List.length_cons] at hmany
        unfold Ringq.buflen at hline
        change ringqLen (ringqGetBlkAdj sp.outBuf _) ≤ answers.length
        omega

/-- **No output is forgotten.** Through any run, the socket is watched for room to write only while there is
something to send. A flush that does not fail leaves the socket either with nothing to send and the user's
mask, or with something to send, watched for room to write, and going on with the flush at the next event
if it does not block; and with sends that each take something, as many as there are bytes, it sends all of
them and leaves nothing. -/
theorem socket_watches_pending {sp : SocketT} (hsave : sp.saveMask = none)
    (es : List (SockCall × List Sent)) (sends : List Sent) :
    let u := sp.handlerMask
    let sp' := finish sockStep sp es
    let flush := socketFlush sends sp'
    (sp'.saveMask ≠ none → sp'.outBuf.content ≠ []) ∧
      (flush.rc = some 0 → flush.sp.Idle u ∨ flush.sp.Pending u) ∧
      ((∀ answer ∈ sends, ∃ n, 0 < n ∧ answer = .bytes n) → sp'.outBuf.content.length ≤ sends.length →
        flush.rc = some 0 ∧ flush.sent = sp'.outBuf.content ∧ flush.sp.Idle u) := by
  intro u sp' flush
  have hsettled : sp'.Settled u := finish_invariant (I := SocketT.Settled u) sockStep_settled
    ⟨Or.inl ⟨hsave, rfl⟩, fun hne => absurd hsave hne⟩ es
  refine ⟨hsettled.2, (socketFlush_leaves sends hsettled.1).2, fun hall hmany => ?_⟩
  rw [Ringq.content_length, ← SocketT.outBuf_flushStart] at hmany
  obtain ⟨hrc, hidle⟩ := flushLoop_completes sends hsettled.1.flushStart hall hmany
  obtain ⟨⟨hbytes, -⟩, hqueued⟩ := socketFlush_accounts sends sp'
  have hcontent : (socketFlush sends sp').sp.outBuf.content = [] := hidle.content
  rw [hqueued, hcontent, List.append_nil, List.append_nil] at hbytes
  exact ⟨hrc, hbytes.symm, hidle⟩

/-- Three bytes for which there is no room at first, and then for one or two at a time. -/
theorem socket_watches_pending_alloc :
    ∃ sp, socketAlloc (fun _ => true) false = some sp ∧
      let sp' := finish sockStep sp [(.write [1, 2, 3], []), (.flush, [.fail .ewouldblock])]
      let flush := socketFlush [.bytes 1, .bytes 5, .bytes 1] sp'
      sp'.outBuf.content = [1, 2, 3] ∧
        (sp'.saveMask ≠ none → sp'.outBuf.content ≠ []) ∧
        (flush.rc = some 0 → flush.sp.Idle 0 ∨ flush.sp.Pending 0) ∧
        flush.rc = some 0 ∧ flush.sent = sp'.outBuf.content ∧ flush.sp.Idle 0 := by
  have hwritten : ((socketAlloc (fun _ => true) false).map fun sp =>
      (finish sockStep sp [(.write [1, 2, 3], []), (.flush, [.fail .ewouldblock])]).outBuf.content) =
      some [1, 2, 3] := by
    decide +kernel
  obtain ⟨sp, halloc, hcontent⟩ := Option.map_eq_some_iff.mp hwritten
  have hstart : sp.saveMask = none ∧ sp.handlerMask = 0 := by
    rw [← Option.some.inj (show some _ = some sp from halloc)]
    exact ⟨rfl, rfl⟩
  obtain ⟨hwatched, hleft, hsent⟩ := socket_watches_pending hstart.1
    [(.write [1, 2, 3], []), (.flush, [.fail .ewouldblock])] [.bytes 1, .bytes 5, .bytes 1]
  rw [hstart.2] at hleft hsent
  refine ⟨sp, halloc, hcontent, hwatched, hleft, hsent ?_ ?_⟩
  · simp
  · rw [hcontent]
    decide

end TestCore.Webs
