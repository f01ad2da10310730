/-
Ring queues (`ringq.c`): the byte queues under the sockets, the string builders and the script lexer.

A `Ringq` is the buffer with the two pointers into it, as offsets, and the two numbers that say how it
may grow. That both pointers lie in the buffer is part of the type, so each copy into the buffer has to
show that it stays inside. `mem` says which sizes the allocator has memory for; a call asks for larger
sizes one after the other, so a set of sizes is as much as it can find out. Fresh memory is zeros here,
which nothing reads.

The awkward point is that a block that does not fit makes the queue grow while it is being copied, up
to the limit or to the end of memory, so a block may be taken in part, and the growing itself is done by
copying a block. What is left to see of all this from outside is a list of bytes and a capacity
(`RingView`), and `ringqStep_view` says that every operation is the one on the list.

The sizes are numbers here, and `int`s in the source. That is the same as long as the allocator has no
block of `2 ^ 29` bytes, for then the increment is `2 ^ 30` at most and its sum with the size below
`2 ^ 31` (`ringq_size`). Characters are bytes, as they are without `UNICODE`.
-/
import TestCore.Lib.Ring
import TestCore.Lib.Mealy
import TestCore.Lib.CString

set_option autoImplicit false

namespace TestCore.Webs

open TestCore.Lib

/-- `ringq_t`. -/
@[ext] structure Ringq where
  buf : Bytes
  servp : ℕ
  endp : ℕ
  maxsize : ℤ
  increment : ℕ
  servp_lt : servp < buf.length
  endp_lt : endp < buf.length
  increment_pos : 0 < increment

/-- `B_SHIFT`. -/
def B_SHIFT : ℕ := 4

/-- How often `size` can be halved before it is zero. -/
def halvings (size : ℕ) : ℕ := if size = 0 then 0 else halvings (size / 2) + 1
termination_by size

/-- `getBinBlockSize`. -/
def getBinBlockSize (size : ℕ) : ℕ := 2 ^ (B_SHIFT + halvings (size / 2 ^ B_SHIFT))

theorem getBinBlockSize_pos (size : ℕ) : 0 < getBinBlockSize size := Nat.two_pow_pos _

/-- `rq->buflen`. -/
def Ringq.buflen (rq : Ringq) : ℕ := rq.buf.length

theorem Ringq.buflen_pos (rq : Ringq) : 0 < rq.buflen := Nat.zero_lt_of_lt rq.servp_lt

/-- There is a byte at `rq->endp`. -/
theorem Ringq.line_one (rq : Ringq) (c : UInt8) : rq.endp + [c].length ≤ rq.buflen := rq.endp_lt

/-- A pointer that was moved to `p` goes to the start of the buffer if it is behind the end. -/
def toStart (n p : ℕ) : ℕ := if n ≤ p then 0 else p

theorem toStart_lt {n : ℕ} (hn : 0 < n) (p : ℕ) : toStart n p < n := by
  unfold toStart
  split_ifs with h
  · exact hn
  · omega

theorem toStart_eq_wrap {n p : ℕ} (h : p ≤ n) : toStart n p = wrap n p := by
  unfold toStart wrap
  split_ifs with hp
  · omega
  · rfl

/-! ## The operations -/

/-- `ringqOpen`: nothing if there is no memory. -/
def ringqOpen (mem : ℕ → Bool) (initSize : ℕ) (maxsize : ℤ) : Option Ringq :=
  let increment := getBinBlockSize initSize
  if mem increment then
    some
      { buf := List.replicate increment 0
        servp := 0
        endp := 0
        maxsize := maxsize
        increment := increment
        servp_lt := by rw [List.length_replicate]; exact getBinBlockSize_pos _
        endp_lt := by rw [List.length_replicate]; exact getBinBlockSize_pos _
        increment_pos := getBinBlockSize_pos _ }
  else none

/-- `ringqLen`, and the macro `RINGQ_LEN`. -/
def ringqLen (rq : Ringq) : ℕ :=
  if rq.endp < rq.servp then rq.buflen + rq.endp - rq.servp else rq.endp - rq.servp

/-- `ringqPutBlkMax`: what can be put in one straight copy. -/
def ringqPutBlkMax (rq : Ringq) : ℕ := min (rq.buflen - rq.endp) (rq.buflen - ringqLen rq - 1)

/-- `ringqGetBlkMax`: what can be got in one straight copy. -/
def ringqGetBlkMax (rq : Ringq) : ℕ := min (rq.buflen - rq.servp) (ringqLen rq)

/-- `ringqFlush`: the pointers are reset, and the first byte is the end of a string. -/
def ringqFlush (rq : Ringq) : Ringq where
  buf := rq.buf.set 0 0
  servp := 0
  endp := 0
  maxsize := rq.maxsize
  increment := rq.increment
  servp_lt := by rw [List.length_set]; exact rq.buflen_pos
  endp_lt := by rw [List.length_set]; exact rq.buflen_pos
  increment_pos := rq.increment_pos

/-- `ringqAddNull`: the byte behind the last one is the end of a string. -/
def ringqAddNull (rq : Ringq) : Ringq where
  buf := rq.buf.set rq.endp 0
  servp := rq.servp
  endp := rq.endp
  maxsize := rq.maxsize
  increment := rq.increment
  servp_lt := by rw [List.length_set]; exact rq.servp_lt
  endp_lt := by rw [List.length_set]; exact rq.endp_lt
  increment_pos := rq.increment_pos

/-- `data` copied to `rq->endp`, and the pointer moved behind it. -/
def Ringq.copyIn (rq : Ringq) (data : Bytes) (h : rq.endp + data.length ≤ rq.buflen) : Ringq where
  buf := splice rq.buf rq.endp data
  servp := rq.servp
  endp := toStart rq.buflen (rq.endp + data.length)
  maxsize := rq.maxsize
  increment := rq.increment
  servp_lt := by rw [splice_length h]; exact rq.servp_lt
  endp_lt := by rw [splice_length h]; exact toStart_lt rq.buflen_pos _
  increment_pos := rq.increment_pos

/-- The pointer `rq->servp` moved on by `n`. -/
def Ringq.consume (rq : Ringq) (n : ℕ) : Ringq where
  buf := rq.buf
  servp := toStart rq.buflen (rq.servp + n)
  endp := rq.endp
  maxsize := rq.maxsize
  increment := rq.increment
  servp_lt := toStart_lt rq.buflen_pos _
  endp_lt := rq.endp_lt
  increment_pos := rq.increment_pos

/-- A straight copy of as much of `data` as fits. -/
def Ringq.putLine (rq : Ringq) (data : Bytes) : Ringq :=
  rq.copyIn (data.take (ringqPutBlkMax rq)) (by
    have hlt := rq.endp_lt
    have hmax : ringqPutBlkMax rq ≤ rq.buflen - rq.endp := Nat.min_le_left _ _
    rw [List.length_take]
    unfold Ringq.buflen at hmax ⊢
    omega)

/-- The loop of `ringqPutBlk`, with what `ringqGrow` does as a parameter. Each turn but a last one puts
a byte at least (`putLoop_view`), so that there are no more turns than bytes. -/
def putLoop (grow : Ringq → Option Ringq) : ℕ → Ringq → Bytes → Ringq × ℕ
  | 0, rq, _ => (rq, 0)
  | turns + 1, rq, data =>
      if data = [] then (rq, 0)
      else if ringqPutBlkMax rq = 0 then
        match grow rq with
        | none => (rq, 0)
        | some rq =>
            let this := min (ringqPutBlkMax rq) data.length
            let rest := putLoop grow turns (rq.putLine data) (data.drop this)
            (rest.1, this + rest.2)
      else
        let this := min (ringqPutBlkMax rq) data.length
        let rest := putLoop grow turns (rq.putLine data) (data.drop this)
        (rest.1, this + rest.2)

/-- The loop of `ringqGetBlk`. -/
def getLoop : ℕ → Ringq → ℕ → Ringq × Bytes
  | 0, rq, _ => (rq, [])
  | turns + 1, rq, size =>
      let this := min (ringqGetBlkMax rq) size
      if this = 0 then (rq, [])
      else
        let rest := getLoop turns (rq.consume this) (size - this)
        (rest.1, (rq.buf.drop rq.servp).take this ++ rest.2)

/-- `ringqGetBlk`. -/
def ringqGetBlk (rq : Ringq) (size : ℕ) : Ringq × Bytes := getLoop size rq size

/-- The queue with a new buffer that begins with the bytes `got` and has nothing put into it yet. -/
def Ringq.moved (rq : Ringq) (got : Bytes) : Ringq where
  buf := got ++ List.replicate (rq.buflen + rq.increment - got.length) 0
  servp := 0
  endp := 0
  maxsize := rq.maxsize
  increment := rq.increment
  servp_lt := by
    have hpos := rq.buflen_pos
    rw [List.length_append, List.length_replicate]
    omega
  endp_lt := by
    have hpos := rq.buflen_pos
    rw [List.length_append, List.length_replicate]
    omega
  increment_pos := rq.increment_pos

/-- The growth increment after a growth. -/
def Ringq.nextIncrement (rq : Ringq) : Ringq where
  buf := rq.buf
  servp := rq.servp
  endp := rq.endp
  maxsize := rq.maxsize
  increment := getBinBlockSize (2 * rq.increment)
  servp_lt := rq.servp_lt
  endp_lt := rq.endp_lt
  increment_pos := getBinBlockSize_pos _

/-- `ringqGrow`: nothing if the queue is as large as it may be, or there is no memory. The bytes are
read into the new buffer, and the block put from there onto itself; it fits, so that this call has no
need to grow the queue (`ringqGrow_eq`). -/
def ringqGrow (mem : ℕ → Bool) (rq : Ringq) : Option Ringq :=
  if 0 ≤ rq.maxsize ∧ rq.maxsize ≤ rq.buflen then none
  else if mem (rq.buflen + rq.increment) then
    let len := ringqLen rq
    let moved := rq.moved (ringqGetBlk rq len).2
    some (putLoop (fun _ => none) len moved (moved.buf.take len)).1.nextIncrement
  else none

/-- `ringqPutBlk`: the number of bytes put. -/
def ringqPutBlk (mem : ℕ → Bool) (rq : Ringq) (data : Bytes) : Ringq × ℕ :=
  putLoop (ringqGrow mem) data.length rq data

/-- `ringqPutStr`. -/
def ringqPutStr (mem : ℕ → Bool) (rq : Ringq) (str : Bytes) : Ringq × ℕ :=
  let put := ringqPutBlk mem rq str
  (ringqAddNull put.1, put.2)

/-- The queue with room for one byte, if it has it or can grow. -/
def Ringq.withRoom (mem : ℕ → Bool) (rq : Ringq) : Option Ringq :=
  if ringqPutBlkMax rq < 1 then ringqGrow mem rq else some rq

/-- `ringqPutc`: `-1` if there is no room. -/
def ringqPutc (mem : ℕ → Bool) (rq : Ringq) (c : UInt8) : Ringq × ℤ :=
  match rq.withRoom mem with
  | none => (rq, -1)
  | some rq => (rq.copyIn [c] (rq.line_one c), 0)

/-- `ringqInsertc`. -/
def ringqInsertc (mem : ℕ → Bool) (rq : Ringq) (c : UInt8) : Ringq × ℤ :=
  match rq.withRoom mem with
  | none => (rq, -1)
  | some rq =>
      let servp := if rq.servp = 0 then rq.buflen else rq.servp
      ({ buf := rq.buf.set (servp - 1) c
         servp := servp - 1
         endp := rq.endp
         maxsize := rq.maxsize
         increment := rq.increment
         servp_lt := by
           have hlt := rq.servp_lt
           have hpos := rq.buflen_pos
           rw [List.length_set]
           change (if rq.servp = 0 then rq.buflen else rq.servp) - 1 < rq.buflen
           change rq.servp < rq.buflen at hlt
           split_ifs
           all_goals omega
         endp_lt := by rw [List.length_set]; exact rq.endp_lt
         increment_pos := rq.increment_pos }, 0)

/-- `ringqGetc`: nothing if the queue is empty. -/
def ringqGetc (rq : Ringq) : Ringq × Option UInt8 :=
  if rq.servp = rq.endp then (rq, none) else (rq.consume 1, rq.buf[rq.servp]?)

/-- `ringqPutBlkAdj`: `size` bytes more, which the caller has copied to `rq->endp` himself. A size that
brings the pointer behind the end twice flushes the queue. -/
def ringqPutBlkAdj (rq : Ringq) (size : ℕ) : Ringq :=
  if h : wrap rq.buflen (rq.endp + size) < rq.buflen then
    { buf := rq.buf
      servp := rq.servp
      endp := wrap rq.buflen (rq.endp + size)
      maxsize := rq.maxsize
      increment := rq.increment
      servp_lt := rq.servp_lt
      endp_lt := h
      increment_pos := rq.increment_pos }
  else ringqFlush rq

/-- `ringqGetBlkAdj`: `size` bytes less, which the caller has copied himself. -/
def ringqGetBlkAdj (rq : Ringq) (size : ℕ) : Ringq :=
  if h : wrap rq.buflen (rq.servp + size) < rq.buflen then
    { buf := rq.buf
      servp := wrap rq.buflen (rq.servp + size)
      endp := rq.endp
      maxsize := rq.maxsize
      increment := rq.increment
      servp_lt := h
      endp_lt := rq.endp_lt
      increment_pos := rq.increment_pos }
  else ringqFlush rq

/-- What a caller does with `ringqPutBlkMax` and `ringqPutBlkAdj`: as much of `data` as fits in a
straight line is copied to `rq->endp`. -/
def ringqFill (rq : Ringq) (data : Bytes) : Ringq × ℕ :=
  let size := min (ringqPutBlkMax rq) data.length
  let buf := splice rq.buf rq.endp (data.take size)
  have hbuf : buf.length = rq.buf.length := splice_length (by
    have hlt := rq.endp_lt
    have hmax : ringqPutBlkMax rq ≤ rq.buflen - rq.endp := Nat.min_le_left _ _
    unfold Ringq.buflen at hmax
    rw [List.length_take]
    omega)
  (ringqPutBlkAdj
    { buf := buf
      servp := rq.servp
      endp := rq.endp
      maxsize := rq.maxsize
      increment := rq.increment
      servp_lt := by rw [hbuf]; exact rq.servp_lt
      endp_lt := by rw [hbuf]; exact rq.endp_lt
      increment_pos := rq.increment_pos } size, size)

/-- What a caller does with `ringqGetBlkMax` and `ringqGetBlkAdj`: up to `n` of the bytes that lie in a
straight line from `rq->servp` on are taken. -/
def ringqDrain (rq : Ringq) (n : ℕ) : Ringq × Bytes :=
  let size := min (ringqGetBlkMax rq) n
  (ringqGetBlkAdj rq size, (rq.buf.drop rq.servp).take size)

/-! ## The queue as a list of bytes -/

/-- What is left of a queue when the places are forgotten: the bytes in it, and how it grows. -/
structure RingView where
  content : Bytes
  buflen : ℕ
  maxsize : ℤ
  increment : ℕ

namespace RingView

/-- More bytes at the end. -/
def append (v : RingView) (data : Bytes) : RingView := { v with content := v.content ++ data }

/-- Fewer bytes at the front. -/
def drop (v : RingView) (n : ℕ) : RingView := { v with content := v.content.drop n }

/-- The queue after a growth, if it may grow and there is memory. -/
def grow (mem : ℕ → Bool) (v : RingView) : Option RingView :=
  if 0 ≤ v.maxsize ∧ v.maxsize ≤ v.buflen then none
  else if mem (v.buflen + v.increment) then
    some { v with
      buflen := v.buflen + v.increment
      increment := getBinBlockSize (2 * v.increment) }
  else none

/-- The queue with room for one more byte, if it has it or can grow. -/
def withRoom (mem : ℕ → Bool) (v : RingView) : Option RingView :=
  if v.content.length + 1 < v.buflen then some v else v.grow mem

/-- Bytes put one after the other, up to the first for which there is no room; and how many these are. -/
def put (mem : ℕ → Bool) : RingView → Bytes → RingView × ℕ
  | v, [] => (v, 0)
  | v, c :: data =>
      match v.withRoom mem with
      | none => (v, 0)
      | some v =>
          let rest := put mem (v.append [c]) data
          (rest.1, rest.2 + 1)

@[simp] theorem append_nil (v : RingView) : v.append [] = v := by
  rw [append, List.append_nil]

theorem append_append (v : RingView) (a b : Bytes) : (v.append a).append b = v.append (a ++ b) := by
  simp only [append, List.append_assoc]

@[simp] theorem put_nil (mem : ℕ → Bool) (v : RingView) : v.put mem [] = (v, 0) := rfl

theorem put_cons_of_none {mem : ℕ → Bool} {v : RingView} (h : v.withRoom mem = none) (c : UInt8)
    (data : Bytes) : v.put mem (c :: data) = (v, 0) := by
  rw [put, h]

theorem put_cons_of_some {mem : ℕ → Bool} {v w : RingView} (h : v.withRoom mem = some w) (c : UInt8)
    (data : Bytes) :
    v.put mem (c :: data) = (((w.append [c]).put mem data).1, ((w.append [c]).put mem data).2 + 1) := by
  rw [put, h]

/-- Bytes for which there is room are all put. -/
theorem put_append (mem : ℕ → Bool) {v : RingView} {a : Bytes}
    (h : v.content.length + a.length < v.buflen) (b : Bytes) :
    v.put mem (a ++ b) = (((v.append a).put mem b).1, a.length + ((v.append a).put mem b).2) := by
  induction a generalizing v with
  | nil => simp
  | cons c a ih =>
      rw [List.length_cons] at h
      have hroom : v.withRoom mem = some v := if_pos (by omega)
      have hnext : (v.append [c]).content.length + a.length < (v.append [c]).buflen := by
        change (v.content ++ [c]).length + a.length < v.buflen
        rw [List.length_append, List.length_singleton]
        omega
      rw [List.cons_append, put_cons_of_some hroom, ih hnext, append_append, List.singleton_append,
        List.length_cons, Nat.add_right_comm]

theorem put_all (mem : ℕ → Bool) {v : RingView} {data : Bytes}
    (h : v.content.length + data.length < v.buflen) : v.put mem data = (v.append data, data.length) := by
  have hput := put_append mem h []
  rwa [List.append_nil, put_nil, Nat.add_zero] at hput

/-- A queue that must not grow does not without memory either. -/
theorem grow_no_memory (v : RingView) : v.grow (fun _ => false) = none := by
  unfold grow
  split_ifs with hmax hmem
  · rfl
  · cases hmem
  · rfl

theorem room_of_grow {mem : ℕ → Bool} {v w : RingView} (hlen : v.content.length < v.buflen)
    (hinc : 0 < v.increment) (h : v.grow mem = some w) : w.content.length + 1 < w.buflen := by
  unfold grow at h
  split_ifs at h with hmax hmem
  have hcontent : w.content = v.content := (congrArg content (Option.some.inj h)).symm
  have hbuf : w.buflen = v.buflen + v.increment := (congrArg buflen (Option.some.inj h)).symm
  rw [hcontent, hbuf]
  omega

theorem room_of_withRoom {mem : ℕ → Bool} {v w : RingView} (hlen : v.content.length < v.buflen)
    (hinc : 0 < v.increment) (h : v.withRoom mem = some w) : w.content.length + 1 < w.buflen := by
  unfold withRoom at h
  split_ifs at h with hroom
  · rw [← Option.some.inj h]
    exact hroom
  · exact room_of_grow hlen hinc h

/-- A full queue grows before it takes a byte. -/
theorem put_of_grow {mem : ℕ → Bool} {v w : RingView} (hfull : v.content.length + 1 = v.buflen)
    (hgrow : v.grow mem = some w) (hw : w.content.length + 1 < w.buflen) (c : UInt8) (data : Bytes) :
    v.put mem (c :: data) = w.put mem (c :: data) := by
  have hv : v.withRoom mem = some w := by
    rw [withRoom, if_neg (by omega), hgrow]
  have hroom : w.withRoom mem = some w := if_pos hw
  rw [put_cons_of_some hv, put_cons_of_some hroom]

end RingView

/-- The bytes in the queue. -/
def Ringq.content (rq : Ringq) : Bytes := ringContents rq.buf rq.servp (ringqLen rq)

def Ringq.view (rq : Ringq) : RingView where
  content := rq.content
  buflen := rq.buflen
  maxsize := rq.maxsize
  increment := rq.increment

theorem ringqLen_eq (rq : Ringq) : ringqLen rq = ringLen rq.buflen rq.servp rq.endp := rfl

theorem ringqLen_lt (rq : Ringq) : ringqLen rq < rq.buflen := ringLen_lt rq.servp_lt rq.endp_lt

@[simp] theorem Ringq.content_length (rq : Ringq) : rq.content.length = ringqLen rq :=
  ringContents_length (ringqLen_lt rq).le

/-- There is no room in a straight line only if there is none at all. -/
theorem ringqPutBlkMax_eq_zero (rq : Ringq) : ringqPutBlkMax rq = 0 ↔ ringqLen rq + 1 = rq.buflen := by
  have hlt := rq.endp_lt
  have hlen := ringqLen_lt rq
  unfold ringqPutBlkMax Ringq.buflen at *
  omega

/-- Nothing can be got in a straight line only if there is nothing at all. -/
theorem ringqGetBlkMax_eq_zero (rq : Ringq) : ringqGetBlkMax rq = 0 ↔ ringqLen rq = 0 := by
  have hlt := rq.servp_lt
  unfold ringqGetBlkMax Ringq.buflen at *
  omega

theorem ringqPutBlkMax_lt (rq : Ringq) : ringqLen rq + ringqPutBlkMax rq < rq.buflen := by
  have hlen := ringqLen_lt rq
  unfold ringqPutBlkMax
  omega

theorem Ringq.view_length_lt (rq : Ringq) : rq.view.content.length < rq.view.buflen :=
  rq.content_length.trans_lt (ringqLen_lt rq)

theorem ringqPutBlkMax_line (rq : Ringq) : rq.endp + ringqPutBlkMax rq ≤ rq.buflen := by
  have hlt := rq.endp_lt
  unfold ringqPutBlkMax Ringq.buflen at *
  omega

theorem ringqGetBlkMax_line (rq : Ringq) : rq.servp + ringqGetBlkMax rq ≤ rq.buflen := by
  have hlt := rq.servp_lt
  unfold ringqGetBlkMax Ringq.buflen at *
  omega

theorem ringqGetBlkMax_le (rq : Ringq) : ringqGetBlkMax rq ≤ ringqLen rq := Nat.min_le_right _ _

/-! ### The small steps -/

theorem ringqLen_copyIn (rq : Ringq) {data : Bytes} (h : rq.endp + data.length ≤ rq.buflen)
    (hroom : ringqLen rq + data.length < rq.buflen) :
    ringqLen (rq.copyIn data h) = ringqLen rq + data.length := by
  rw [ringqLen_eq]
  change ringLen (splice rq.buf rq.endp data).length rq.servp (toStart rq.buflen (rq.endp + data.length))
    = _
  rw [splice_length h, toStart_eq_wrap h]
  exact ringLen_wrap_tail rq.servp_lt rq.endp_lt hroom

theorem Ringq.view_copyIn (rq : Ringq) {data : Bytes} (h : rq.endp + data.length ≤ rq.buflen)
    (hroom : ringqLen rq + data.length < rq.buflen) :
    (rq.copyIn data h).view = rq.view.append data := by
  have hcontent : (rq.copyIn data h).content = rq.content ++ data := by
    rw [Ringq.content, ringqLen_copyIn rq h hroom]
    exact ringContents_splice_tail rq.servp_lt rq.endp_lt h hroom.le
  have hlen : (rq.copyIn data h).buflen = rq.buflen := splice_length h
  rw [Ringq.view, hcontent, hlen]
  rfl

theorem Ringq.view_consume (rq : Ringq) {n : ℕ} (hn : n ≤ ringqGetBlkMax rq) :
    (rq.consume n).view = rq.view.drop n := by
  have hline : rq.servp + n ≤ rq.buflen := (Nat.add_le_add_left hn _).trans (ringqGetBlkMax_line rq)
  have hlen : n ≤ ringqLen rq := hn.trans (ringqGetBlkMax_le rq)
  have hnew : ringqLen (rq.consume n) = ringqLen rq - n := by
    rw [ringqLen_eq]
    change ringLen rq.buflen (toStart rq.buflen (rq.servp + n)) rq.endp = _
    rw [toStart_eq_wrap hline]
    exact ringLen_wrap_head rq.servp_lt rq.endp_lt hlen
  have hcontent : (rq.consume n).content = rq.content.drop n := by
    rw [Ringq.content, hnew]
    change ringContents rq.buf (toStart rq.buflen (rq.servp + n)) (ringqLen rq - n) = _
    rw [toStart_eq_wrap hline]
    exact (drop_ringContents rq.servp_lt (ringqLen_lt rq).le hlen).symm
  rw [Ringq.view, hcontent]
  rfl

/-- What lies in a straight line from `rq->servp` on. -/
theorem Ringq.take_content (rq : Ringq) {n : ℕ} (hn : n ≤ ringqGetBlkMax rq) :
    (rq.buf.drop rq.servp).take n = rq.content.take n :=
  (take_ringContents (hn.trans (ringqGetBlkMax_le rq))
    ((Nat.add_le_add_left hn _).trans (ringqGetBlkMax_line rq))).symm

theorem Ringq.view_putLine (rq : Ringq) (data : Bytes) :
    (rq.putLine data).view = rq.view.append (data.take (ringqPutBlkMax rq)) := by
  refine rq.view_copyIn _ ?_
  have hroom := ringqPutBlkMax_lt rq
  rw [List.length_take]
  omega

theorem Ringq.view_flush (rq : Ringq) : (ringqFlush rq).view = { rq.view with content := [] } := by
  have hlen : (ringqFlush rq).buflen = rq.buflen := List.length_set
  have hcontent : (ringqFlush rq).content = [] := ringContents_zero _ _
  rw [Ringq.view, hcontent, hlen]
  rfl

/-! ### Getting a block -/

theorem getLoop_view {turns size : ℕ} (hturns : size ≤ turns) (rq : Ringq) :
    (getLoop turns rq size).1.view = rq.view.drop size ∧ (getLoop turns rq size).2 = rq.content.take size := by
  induction turns generalizing rq size with
  | zero =>
      obtain rfl : size = 0 := by omega
      exact ⟨rfl, rfl⟩
  | succ turns ih =>
      rw [getLoop]
      by_cases hthis : min (ringqGetBlkMax rq) size = 0
      · rw [if_pos hthis]
        -- either no more bytes are asked for, or there are none
        have hdone : size = 0 ∨ rq.content = [] := by
          rcases Nat.min_eq_zero_iff.mp hthis with h | h
          · right
            rw [← List.length_eq_zero_iff, Ringq.content_length]
            exact (ringqGetBlkMax_eq_zero rq).mp h
          · exact Or.inl h
        rcases hdone with rfl | hnil
        · exact ⟨rfl, rfl⟩
        · rw [hnil, List.take_nil, RingView.drop]
          change _ = { rq.view with content := rq.content.drop size } ∧ _
          rw [hnil, List.drop_nil, ← hnil]
          exact ⟨rfl, rfl⟩
      · rw [if_neg hthis]
        set this := min (ringqGetBlkMax rq) size with hdef
        have hmax : this ≤ ringqGetBlkMax rq := Nat.min_le_left _ _
        have hsize : this ≤ size := Nat.min_le_right _ _
        have hrest : size - this ≤ turns := by omega
        obtain ⟨hview, hbytes⟩ := ih hrest (rq.consume this)
        have hconsume := rq.view_consume hmax
        have hcontent : (rq.consume this).content = rq.content.drop this :=
          congrArg RingView.content hconsume
        constructor
        · change (getLoop turns (rq.consume this) (size - this)).1.view = _
          rw [hview, hconsume]
          simp only [RingView.drop, List.drop_drop, Nat.add_sub_cancel' hsize]
        · change _ ++ (getLoop turns (rq.consume this) (size - this)).2 = _
          rw [hbytes, hcontent, rq.take_content hmax, ← List.take_add, Nat.add_sub_cancel' hsize]

/-! ### Putting a block, and growing -/

/-- The loop puts the bytes as if one after the other, if what it grows the queue with does to the list
what a growth does. -/
theorem putLoop_view {mem : ℕ → Bool} {grow : Ringq → Option Ringq}
    (hgrow : ∀ rq, (grow rq).map Ringq.view = rq.view.grow mem) {turns : ℕ} {data : Bytes}
    (hturns : data.length ≤ turns) (rq : Ringq) :
    ((putLoop grow turns rq data).1.view, (putLoop grow turns rq data).2) = rq.view.put mem data := by
  induction turns generalizing rq data with
  | zero =>
      obtain rfl : data = [] := List.length_eq_zero_iff.mp (by omega)
      rfl
  | succ turns ih =>
      -- a turn that copies, from a queue with room
      have hcopy : ∀ rq : Ringq, data ≠ [] → ringqPutBlkMax rq ≠ 0 →
          ((putLoop grow turns (rq.putLine data) (data.drop (min (ringqPutBlkMax rq) data.length))).1.view,
            min (ringqPutBlkMax rq) data.length
              + (putLoop grow turns (rq.putLine data)
                  (data.drop (min (ringqPutBlkMax rq) data.length))).2)
            = rq.view.put mem data := by
        intro rq hdata hroom
        have hpos : 0 < data.length := List.length_pos_iff.mpr hdata
        have hlt := ringqPutBlkMax_lt rq
        set this := min (ringqPutBlkMax rq) data.length with hthis
        have htake : data.take (ringqPutBlkMax rq) = data.take this := by
          rw [hthis, ← List.take_take, List.take_length]
        have hlen : (data.take this).length = this := List.length_take_of_le (Nat.min_le_right _ _)
        have hdrop : (data.drop this).length ≤ turns := by
          rw [List.length_drop]
          omega
        have hrest := ih hdrop (rq.putLine data)
        rw [rq.view_putLine, htake] at hrest
        have hfits : rq.view.content.length + (data.take this).length < rq.view.buflen := by
          change rq.content.length + (data.take this).length < rq.buflen
          rw [hlen, Ringq.content_length]
          omega
        have hput := RingView.put_append mem hfits (data.drop this)
        rw [List.take_append_drop, hlen, ← hrest] at hput
        exact hput.symm
      rw [putLoop]
      by_cases hdata : data = []
      · rw [if_pos hdata, hdata]
        rfl
      · rw [if_neg hdata]
        by_cases hroom : ringqPutBlkMax rq = 0
        · rw [if_pos hroom]
          have hfull : rq.view.content.length + 1 = rq.view.buflen := by
            change rq.content.length + 1 = rq.buflen
            rw [Ringq.content_length]
            exact (ringqPutBlkMax_eq_zero rq).mp hroom
          obtain ⟨c, cs, rfl⟩ := List.exists_cons_of_ne_nil hdata
          have hview := hgrow rq
          cases hg : grow rq with
          | none =>
              rw [hg, Option.map_none] at hview
              rw [RingView.put_cons_of_none]
              rw [RingView.withRoom, if_neg (by omega), ← hview]
          | some rq' =>
              rw [hg, Option.map_some] at hview
              have hroom' := RingView.room_of_grow rq.view_length_lt rq.increment_pos hview.symm
              rw [RingView.put_of_grow hfull hview.symm hroom']
              refine hcopy rq' hdata fun h => ?_
              rw [ringqPutBlkMax_eq_zero] at h
              change rq'.content.length + 1 < rq'.buflen at hroom'
              rw [Ringq.content_length] at hroom'
              omega
        · rw [if_neg hroom]
          exact hcopy rq hdata hroom

theorem Ringq.view_moved (rq : Ringq) {got : Bytes} (h : got.length ≤ rq.buflen) :
    (rq.moved got).view = { rq.view with content := [], buflen := rq.buflen + rq.increment } := by
  have hlen : (rq.moved got).buflen = rq.buflen + rq.increment := by
    change (got ++ List.replicate _ 0).length = _
    rw [List.length_append, List.length_replicate]
    omega
  have hcontent : (rq.moved got).content = [] := ringContents_zero _ _
  rw [Ringq.view, hcontent, hlen]
  rfl

/-- A block for which there is room is put without a growth. -/
theorem putLoop_of_room (grow grow' : Ringq → Option Ringq) {turns : ℕ} {rq : Ringq} {data : Bytes}
    (h : ringqLen rq + data.length < rq.buflen) :
    putLoop grow turns rq data = putLoop grow' turns rq data := by
  induction turns generalizing rq data with
  | zero => rfl
  | succ turns ih =>
      have hview := rq.view_putLine data
      have hlen : ringqLen (rq.putLine data) = ringqLen rq + (data.take (ringqPutBlkMax rq)).length := by
        rw [← Ringq.content_length, ← Ringq.content_length, ← List.length_append]
        exact congrArg (fun v => v.content.length) hview
      have hbuf : (rq.putLine data).buflen = rq.buflen := congrArg RingView.buflen hview
      have hrest : putLoop grow turns (rq.putLine data) (data.drop (min (ringqPutBlkMax rq) data.length))
          = putLoop grow' turns (rq.putLine data) (data.drop (min (ringqPutBlkMax rq) data.length)) := by
        refine ih ?_
        rw [hlen, hbuf, List.length_take, List.length_drop]
        omega
      rw [putLoop, putLoop]
      by_cases hdata : data = []
      · rw [if_pos hdata, if_pos hdata]
      · rw [if_neg hdata, if_neg hdata]
        have hpos : 0 < data.length := List.length_pos_iff.mpr hdata
        have hroom : ringqPutBlkMax rq ≠ 0 := fun h0 => by
          rw [ringqPutBlkMax_eq_zero] at h0
          omega
        rw [if_neg hroom, if_neg hroom]
        dsimp only
        rw [hrest]

theorem ringqGetBlk_all (rq : Ringq) : (ringqGetBlk rq (ringqLen rq)).2 = rq.content := by
  rw [ringqGetBlk, (getLoop_view le_rfl rq).2, ← Ringq.content_length, List.take_length]

theorem Ringq.take_moved (rq : Ringq) : (rq.moved rq.content).buf.take (ringqLen rq) = rq.content := by
  change (rq.content ++ List.replicate _ 0).take _ = _
  rw [← Ringq.content_length, List.take_left]

/-- `ringqGrow` and `ringqPutBlk` are the two functions that call each other. -/
theorem ringqGrow_eq (mem : ℕ → Bool) (rq : Ringq) :
    ringqGrow mem rq =
      if 0 ≤ rq.maxsize ∧ rq.maxsize ≤ rq.buflen then none
      else if mem (rq.buflen + rq.increment) then
        let len := ringqLen rq
        let moved := rq.moved (ringqGetBlk rq len).2
        some (ringqPutBlk mem moved (moved.buf.take len)).1.nextIncrement
      else none := by
  have hlen := ringqLen_lt rq
  have hview := rq.view_moved (rq.content_length.trans_lt hlen).le
  have hroom : ringqLen (rq.moved rq.content) + rq.content.length < (rq.moved rq.content).buflen := by
    have hcontent : (rq.moved rq.content).content = [] := congrArg RingView.content hview
    have hbuf : (rq.moved rq.content).buflen = rq.buflen + rq.increment :=
      congrArg RingView.buflen hview
    rw [← Ringq.content_length, hcontent, hbuf, List.length_nil, Ringq.content_length]
    omega
  simp only [ringqGrow, ringqPutBlk, ringqGetBlk_all, Ringq.take_moved]
  rw [putLoop_of_room (fun _ => none) (ringqGrow mem) hroom, Ringq.content_length]

/-- Growing leaves the bytes and their order alone. -/
theorem ringqGrow_view (mem : ℕ → Bool) (rq : Ringq) :
    (ringqGrow mem rq).map Ringq.view = rq.view.grow mem := by
  have hlen := ringqLen_lt rq
  have hnone : ∀ rq : Ringq, (none : Option Ringq).map Ringq.view = rq.view.grow fun _ => false :=
    fun rq => rq.view.grow_no_memory.symm
  have hput := putLoop_view hnone rq.content_length.le (rq.moved rq.content)
  rw [rq.view_moved (rq.content_length.trans_lt hlen).le, RingView.put_all] at hput
  · have hview : (putLoop (fun _ => none) (ringqLen rq) (rq.moved rq.content) rq.content).1.view
        = { rq.view with buflen := rq.buflen + rq.increment } := congrArg Prod.fst hput
    have hnext : ∀ q : Ringq, q.nextIncrement.view
        = { q.view with increment := getBinBlockSize (2 * q.view.increment) } := fun _ => rfl
    simp only [ringqGrow, ringqGetBlk_all, Ringq.take_moved]
    rw [apply_ite (Option.map Ringq.view), apply_ite (Option.map Ringq.view), Option.map_none,
      Option.map_some, hnext, hview]
    rfl
  · change ([] : Bytes).length + rq.content.length < rq.buflen + rq.increment
    rw [List.length_nil, Ringq.content_length]
    omega

theorem ringqPutBlk_view (mem : ℕ → Bool) (rq : Ringq) (data : Bytes) :
    ((ringqPutBlk mem rq data).1.view, (ringqPutBlk mem rq data).2) = rq.view.put mem data :=
  putLoop_view (ringqGrow_view mem) le_rfl rq

theorem Ringq.view_withRoom (mem : ℕ → Bool) (rq : Ringq) :
    (rq.withRoom mem).map Ringq.view = rq.view.withRoom mem := by
  have hlen := ringqLen_lt rq
  unfold Ringq.withRoom RingView.withRoom
  change _ = if rq.content.length + 1 < rq.buflen then _ else _
  rw [Ringq.content_length]
  by_cases hroom : ringqPutBlkMax rq < 1
  · have hfull := (ringqPutBlkMax_eq_zero rq).mp (by omega)
    rw [if_pos hroom, if_neg (by omega), ringqGrow_view]
  · have hfull := mt (ringqPutBlkMax_eq_zero rq).mpr (by omega)
    rw [if_neg hroom, if_pos (by omega)]
    rfl

/-! ## The queue after any operations -/

/-- The operations on a queue. -/
inductive RingOp where
  | putc (c : UInt8)
  | insertc (c : UInt8)
  | putStr (str : Bytes)
  | putBlk (data : Bytes)
  | fill (data : Bytes)
  | addNull
  | getc
  | getBlk (size : ℕ)
  | drain (n : ℕ)
  | flush

/-- What an operation answers. -/
inductive RingAnswer where
  | status (rc : ℤ)
  | count (n : ℕ)
  | char (c : Option UInt8)
  | bytes (b : Bytes)
  | done
  deriving DecidableEq

/-- One operation, with the memory there is at that time. -/
def ringqStep (rq : Ringq) (e : (ℕ → Bool) × RingOp) : Ringq × RingAnswer :=
  match e.2 with
  | .putc c => ((ringqPutc e.1 rq c).1, .status (ringqPutc e.1 rq c).2)
  | .insertc c => ((ringqInsertc e.1 rq c).1, .status (ringqInsertc e.1 rq c).2)
  | .putStr str => ((ringqPutStr e.1 rq str).1, .count (ringqPutStr e.1 rq str).2)
  | .putBlk data => ((ringqPutBlk e.1 rq data).1, .count (ringqPutBlk e.1 rq data).2)
  | .fill data => ((ringqFill rq data).1, .count (ringqFill rq data).2)
  | .addNull => (ringqAddNull rq, .done)
  | .getc => ((ringqGetc rq).1, .char (ringqGetc rq).2)
  | .getBlk size => ((ringqGetBlk rq size).1, .bytes (ringqGetBlk rq size).2)
  | .drain n => ((ringqDrain rq n).1, .bytes (ringqDrain rq n).2)
  | .flush => (ringqFlush rq, .done)

namespace RingView

/-- The operation on the list. How much is filled or drained in a straight line is not up to the list. -/
def step (v : RingView) (mem : ℕ → Bool) (line : ℕ) : RingOp → RingView × RingAnswer
  | .putc c =>
      match v.withRoom mem with
      | none => (v, .status (-1))
      | some v => (v.append [c], .status 0)
  | .insertc c =>
      match v.withRoom mem with
      | none => (v, .status (-1))
      | some v => ({ v with content := c :: v.content }, .status 0)
  | .putStr str => ((v.put mem str).1, .count (v.put mem str).2)
  | .putBlk data => ((v.put mem data).1, .count (v.put mem data).2)
  | .fill data => (v.append (data.take line), .count line)
  | .addNull => (v, .done)
  | .getc => (v.drop 1, .char v.content.head?)
  | .getBlk size => (v.drop size, .bytes (v.content.take size))
  | .drain _ => (v.drop line, .bytes (v.content.take line))
  | .flush => ({ v with content := [] }, .done)

/-- How much may be filled or drained in a straight line: something, unless there is nothing to do. -/
def Line (v : RingView) (line : ℕ) : RingOp → Prop
  | .fill data =>
      line ≤ data.length ∧ v.content.length + line < v.buflen ∧
        (line = 0 → data = [] ∨ v.content.length + 1 = v.buflen)
  | .drain n => line ≤ n ∧ line ≤ v.content.length ∧ (line = 0 → n = 0 ∨ v.content = [])
  | _ => True

/-- What an operation may do to the list, and answer. -/
def Step (v : RingView) (e : (ℕ → Bool) × RingOp) (answer : RingAnswer) (w : RingView) : Prop :=
  ∃ line, v.Line line e.2 ∧ v.step e.1 line e.2 = (w, answer)

end RingView

/-- What `Ringq.withRoom` answers, on the list. -/
theorem Ringq.withRoom_cases (mem : ℕ → Bool) (rq : Ringq) :
    (rq.withRoom mem = none ∧ rq.view.withRoom mem = none) ∨
      ∃ rq', rq.withRoom mem = some rq' ∧ rq.view.withRoom mem = some rq'.view ∧
        ringqLen rq' + 1 < rq'.buflen := by
  have hview := rq.view_withRoom mem
  cases h : rq.withRoom mem with
  | none =>
      rw [h, Option.map_none] at hview
      exact Or.inl ⟨rfl, hview.symm⟩
  | some rq' =>
      rw [h, Option.map_some] at hview
      refine Or.inr ⟨rq', rfl, hview.symm, ?_⟩
      have hroom := RingView.room_of_withRoom rq.view_length_lt rq.increment_pos hview.symm
      change rq'.content.length + 1 < rq'.buflen at hroom
      rwa [Ringq.content_length] at hroom

theorem ringqPutc_view (mem : ℕ → Bool) (rq : Ringq) (c : UInt8) :
    rq.view.step mem 0 (.putc c) = ((ringqPutc mem rq c).1.view, .status (ringqPutc mem rq c).2) := by
  unfold ringqPutc RingView.step
  rcases rq.withRoom_cases mem with ⟨hnone, hview⟩ | ⟨rq', hsome, hview, hroom⟩
  · rw [hnone, hview]
  · rw [hsome, hview]
    dsimp only
    rw [rq'.view_copyIn (rq'.line_one c) hroom]

theorem ringqInsertc_view (mem : ℕ → Bool) (rq : Ringq) (c : UInt8) :
    rq.view.step mem 0 (.insertc c)
      = ((ringqInsertc mem rq c).1.view, .status (ringqInsertc mem rq c).2) := by
  unfold ringqInsertc RingView.step
  rcases rq.withRoom_cases mem with ⟨hnone, hview⟩ | ⟨rq', hsome, hview, hroom⟩
  · rw [hnone, hview]
  · rw [hsome, hview]
    dsimp only
    have hbefore : (if rq'.servp = 0 then rq'.buflen else rq'.servp) - 1 = before rq'.buflen rq'.servp := by
      unfold before
      split_ifs
      all_goals rfl
    have hlen : ringLen rq'.buflen (before rq'.buflen rq'.servp) rq'.endp = ringqLen rq' + 1 :=
      ringLen_before rq'.servp_lt hroom
    have hcontent : ringContents (rq'.buf.set (before rq'.buflen rq'.servp) c)
        (before rq'.buflen rq'.servp) (ringqLen rq' + 1) = c :: rq'.content :=
      ringContents_before c rq'.servp_lt (ringqLen_lt rq')
    simp only [Ringq.view, Ringq.content, ringqLen_eq, Ringq.buflen, List.length_set, hbefore] at *
    rw [hlen, hcontent]

/-- A null behind the last byte is not in the queue. -/
theorem ringqAddNull_view (rq : Ringq) : (ringqAddNull rq).view = rq.view := by
  have hcontent : ringContents (rq.buf.set rq.endp 0) rq.servp (ringqLen rq) = rq.content :=
    ringContents_set_tail 0 rq.servp_lt rq.endp_lt
  have hbuf : (ringqAddNull rq).buflen = rq.buflen := List.length_set
  have hlen : ringqLen (ringqAddNull rq) = ringqLen rq := by
    rw [ringqLen_eq, hbuf]
    rfl
  rw [Ringq.view, Ringq.content, hlen, hbuf]
  exact congrArg (fun b => RingView.mk b _ _ _) hcontent

theorem ringqGetc_view (rq : Ringq) :
    ((ringqGetc rq).1.view, (ringqGetc rq).2) = (rq.view.drop 1, rq.content.head?) := by
  have hempty : ringqLen rq = 0 ↔ rq.servp = rq.endp := ringLen_eq_zero rq.servp_lt
  unfold ringqGetc
  by_cases h : rq.servp = rq.endp
  · have hnil : rq.content = [] := by
      rw [← List.length_eq_zero_iff, Ringq.content_length, hempty]
      exact h
    have hview : rq.view.drop 1 = rq.view := by
      change { rq.view with content := rq.content.drop 1 } = rq.view
      rw [hnil, List.drop_nil, ← hnil]
      rfl
    rw [if_pos h, hnil, hview]
    rfl
  · have hpos : 0 < ringqLen rq := Nat.pos_of_ne_zero (mt hempty.mp h)
    have hline : 1 ≤ ringqGetBlkMax rq := Nat.pos_of_ne_zero fun h0 => by
      rw [ringqGetBlkMax_eq_zero] at h0
      omega
    have hhead : rq.content.head? = rq.buf[rq.servp]? := by
      rw [List.head?_eq_getElem?, Ringq.content, getElem?_ringContents rq.servp_lt hpos (ringqLen_lt rq).le,
        Nat.add_zero, wrap_of_lt rq.servp_lt]
    rw [if_neg h, rq.view_consume hline, hhead]

/-- Filling is a straight copy. -/
theorem ringqFill_eq (rq : Ringq) (data : Bytes) :
    ringqFill rq data = (rq.putLine data, min (ringqPutBlkMax rq) data.length) := by
  have hline := ringqPutBlkMax_line rq
  have hpos := rq.buflen_pos
  have htake : data.take (min (ringqPutBlkMax rq) data.length) = data.take (ringqPutBlkMax rq) := by
    rw [← List.take_take, List.take_length]
  have hlen : (splice rq.buf rq.endp (data.take (ringqPutBlkMax rq))).length = rq.buflen :=
    splice_length (by rw [List.length_take]; exact le_trans (by omega) hline)
  have hplace : rq.endp + min (ringqPutBlkMax rq) data.length ≤ rq.buflen :=
    (Nat.add_le_add_left (Nat.min_le_left _ _) _).trans hline
  unfold ringqFill ringqPutBlkAdj
  simp only [htake]
  rw [dif_pos (wrap_lt (by change _ < 2 * List.length _; rw [hlen]; omega))]
  refine Prod.ext (Ringq.ext rfl rfl ?_ rfl rfl) rfl
  change wrap (splice rq.buf rq.endp _).length _ = toStart rq.buflen (rq.endp + (data.take _).length)
  rw [hlen, List.length_take, toStart_eq_wrap hplace]

/-- A straight copy out of the queue leads to no place behind the end. -/
theorem ringqGetBlkAdj_eq (rq : Ringq) {n : ℕ} (hn : n ≤ ringqGetBlkMax rq) :
    ringqGetBlkAdj rq n = rq.consume n := by
  have hline : rq.servp + n ≤ rq.buflen := (Nat.add_le_add_left hn _).trans (ringqGetBlkMax_line rq)
  have hpos := rq.buflen_pos
  rw [ringqGetBlkAdj, dif_pos (wrap_lt (by omega))]
  exact Ringq.ext rfl (toStart_eq_wrap hline).symm rfl rfl rfl

theorem ringqDrain_eq (rq : Ringq) (n : ℕ) :
    ringqDrain rq n =
      (rq.consume (min (ringqGetBlkMax rq) n), rq.content.take (min (ringqGetBlkMax rq) n)) := by
  have hmax : min (ringqGetBlkMax rq) n ≤ ringqGetBlkMax rq := Nat.min_le_left _ _
  rw [ringqDrain, ringqGetBlkAdj_eq rq hmax, rq.take_content hmax]

/-- Every operation does to the list, and answers, what it may. -/
theorem ringqStep_view (rq : Ringq) (e : (ℕ → Bool) × RingOp) :
    rq.view.Step e (ringqStep rq e).2 (ringqStep rq e).1.view := by
  obtain ⟨mem, op⟩ := e
  have hlen : rq.view.content.length = ringqLen rq := rq.content_length
  cases op with
  | putc c => exact ⟨0, trivial, ringqPutc_view mem rq c⟩
  | insertc c => exact ⟨0, trivial, ringqInsertc_view mem rq c⟩
  | putStr str =>
      refine ⟨0, trivial, ?_⟩
      have hput := ringqPutBlk_view mem rq str
      change ((rq.view.put mem str).1, RingAnswer.count (rq.view.put mem str).2)
        = ((ringqAddNull (ringqPutBlk mem rq str).1).view, .count (ringqPutBlk mem rq str).2)
      rw [← hput, ringqAddNull_view]
  | putBlk data =>
      refine ⟨0, trivial, ?_⟩
      have hput := ringqPutBlk_view mem rq data
      change ((rq.view.put mem data).1, RingAnswer.count (rq.view.put mem data).2)
        = ((ringqPutBlk mem rq data).1.view, .count (ringqPutBlk mem rq data).2)
      rw [← hput]
  | fill data =>
      have hmax := ringqPutBlkMax_lt rq
      refine ⟨min (ringqPutBlkMax rq) data.length, ⟨Nat.min_le_right _ _, ?_, fun h => ?_⟩, ?_⟩
      · rw [hlen]
        change _ < rq.buflen
        omega
      · rcases Nat.min_eq_zero_iff.mp h with h | h
        · right
          rw [hlen]
          exact (ringqPutBlkMax_eq_zero rq).mp h
        · exact Or.inl (List.length_eq_zero_iff.mp h)
      · change (rq.view.append (data.take (min (ringqPutBlkMax rq) data.length)), _)
          = ((ringqFill rq data).1.view, RingAnswer.count (ringqFill rq data).2)
        rw [ringqFill_eq, rq.view_putLine, ← List.take_take, List.take_length]
  | addNull =>
      refine ⟨0, trivial, ?_⟩
      change (rq.view, RingAnswer.done) = ((ringqAddNull rq).view, .done)
      rw [ringqAddNull_view]
  | getc =>
      refine ⟨0, trivial, ?_⟩
      have hget := ringqGetc_view rq
      change (rq.view.drop 1, RingAnswer.char rq.content.head?)
        = ((ringqGetc rq).1.view, .char (ringqGetc rq).2)
      rw [(Prod.mk.inj hget).1, (Prod.mk.inj hget).2]
  | getBlk size =>
      refine ⟨0, trivial, ?_⟩
      obtain ⟨hview, hbytes⟩ := getLoop_view (Nat.le_refl size) rq
      change (rq.view.drop size, RingAnswer.bytes (rq.content.take size))
        = ((ringqGetBlk rq size).1.view, .bytes (ringqGetBlk rq size).2)
      rw [ringqGetBlk, hview, hbytes]
  | drain n =>
      have hmax := ringqGetBlkMax_le rq
      refine ⟨min (ringqGetBlkMax rq) n, ⟨Nat.min_le_right _ _, ?_, fun h => ?_⟩, ?_⟩
      · rw [hlen]
        omega
      · rcases Nat.min_eq_zero_iff.mp h with h | h
        · right
          rw [← List.length_eq_zero_iff, hlen]
          exact (ringqGetBlkMax_eq_zero rq).mp h
        · exact Or.inl h
      · change (rq.view.drop (min (ringqGetBlkMax rq) n), _)
          = ((ringqDrain rq n).1.view, RingAnswer.bytes (ringqDrain rq n).2)
        rw [ringqDrain_eq, rq.view_consume (Nat.min_le_left _ _)]
        rfl
  | flush =>
      refine ⟨0, trivial, ?_⟩
      change ({ rq.view with content := [] }, RingAnswer.done) = ((ringqFlush rq).view, .done)
      rw [rq.view_flush]

/-- **The ring queue is a list of bytes.** Whatever operations are done, and whatever memory there is at
each of them, what they answer is what they answer on the list. -/
theorem ringq_refines_list (rq : Ringq) (es : List ((ℕ → Bool) × RingOp)) :
    Behaves RingView.Step rq.view es (answers ringqStep rq es) (finish ringqStep rq es).view :=
  behaves_run ringqStep_view rq es

/-! ## First in, first out -/

/-- The bytes an operation has put in at the end, going by its answer. -/
def RingOp.taken : RingOp → RingAnswer → Bytes
  | .putc c, .status rc => if rc = 0 then [c] else []
  | .putStr data, .count n => data.take n
  | .putBlk data, .count n => data.take n
  | .fill data, .count n => data.take n
  | _, _ => []

/-- The bytes an operation has got out. -/
def RingOp.given : RingOp → RingAnswer → Bytes
  | .getc, .char (some c) => [c]
  | .getBlk _, .bytes b => b
  | .drain _, .bytes b => b
  | _, _ => []

/-- The operation neither puts a byte in front of the others nor throws bytes away. -/
def RingOp.Queues : RingOp → Prop
  | .insertc _ => False
  | .flush => False
  | _ => True

/-- A block is put up to some byte. -/
theorem RingView.content_put (mem : ℕ → Bool) (v : RingView) (data : Bytes) :
    (v.put mem data).1.content = v.content ++ data.take (v.put mem data).2 := by
  induction data generalizing v with
  | nil => simp
  | cons c data ih =>
      cases h : v.withRoom mem with
      | none =>
          rw [put_cons_of_none h, List.take_zero, List.append_nil]
      | some w =>
          have hw : w.content = v.content := by
            unfold withRoom grow at h
            split_ifs at h
            all_goals rw [← Option.some.inj h]
          rw [put_cons_of_some h, List.take_succ_cons]
          change ((w.append [c]).put mem data).1.content = _
          rw [ih, append, hw, List.append_assoc, List.singleton_append]

/-- What an operation takes comes behind what was there, and what it gives was before the rest. -/
theorem RingView.Step.account {v w : RingView} {e : (ℕ → Bool) × RingOp} {answer : RingAnswer}
    (h : v.Step e answer w) (hop : e.2.Queues) :
    v.content ++ e.2.taken answer = e.2.given answer ++ w.content := by
  obtain ⟨mem, op⟩ := e
  obtain ⟨line, hline, hstep⟩ := h
  cases op with
  | putc c =>
      unfold step at hstep
      cases hroom : v.withRoom mem with
      | none =>
          rw [hroom] at hstep
          obtain ⟨rfl, rfl⟩ := Prod.mk.inj hstep
          exact List.append_nil _
      | some u =>
          have hu : u.content = v.content := by
            unfold withRoom grow at hroom
            split_ifs at hroom
            all_goals rw [← Option.some.inj hroom]
          rw [hroom] at hstep
          obtain ⟨rfl, rfl⟩ := Prod.mk.inj hstep
          change v.content ++ [c] = u.content ++ [c]
          rw [hu]
  | insertc c => exact hop.elim
  | putStr data =>
      obtain ⟨rfl, rfl⟩ := Prod.mk.inj hstep
      exact (v.content_put mem data).symm
  | putBlk data =>
      obtain ⟨rfl, rfl⟩ := Prod.mk.inj hstep
      exact (v.content_put mem data).symm
  | fill data =>
      obtain ⟨rfl, rfl⟩ := Prod.mk.inj hstep
      rfl
  | addNull =>
      obtain ⟨rfl, rfl⟩ := Prod.mk.inj hstep
      exact List.append_nil _
  | getc =>
      obtain ⟨rfl, rfl⟩ := Prod.mk.inj hstep
      change v.content ++ [] = _ ++ v.content.drop 1
      cases hc : v.content with
      | nil => rfl
      | cons c cs => exact List.append_nil _
  | getBlk size =>
      obtain ⟨rfl, rfl⟩ := Prod.mk.inj hstep
      exact (List.append_nil _).trans (List.take_append_drop size v.content).symm
  | drain n =>
      obtain ⟨rfl, rfl⟩ := Prod.mk.inj hstep
      exact (List.append_nil _).trans (List.take_append_drop line v.content).symm
  | flush => exact hop.elim

/-- The bytes that the operations of a run have put in, one operation after the other. -/
def bytesIn (rq : Ringq) (es : List ((ℕ → Bool) × RingOp)) : Bytes :=
  (List.zipWith (fun e answer => e.2.taken answer) es (answers ringqStep rq es)).flatten

/-- The bytes that the operations of a run have got out. -/
def bytesOut (rq : Ringq) (es : List ((ℕ → Bool) × RingOp)) : Bytes :=
  (List.zipWith (fun e answer => e.2.given answer) es (answers ringqStep rq es)).flatten

/-- **First in, first out.** Through any run, and whatever memory there is, the bytes that were in the
queue and those that were put in are the bytes that were got out and those that are left, in this order:
none is lost, none comes twice, and growing does not change it. -/
theorem ringq_fifo (rq : Ringq) (es : List ((ℕ → Bool) × RingOp)) (hes : ∀ e ∈ es, e.2.Queues) :
    rq.content ++ bytesIn rq es = bytesOut rq es ++ (finish ringqStep rq es).content :=
  account_run (P := fun e => e.2.Queues) (fun rq e he => (ringqStep_view rq e).account he) rq es hes

theorem ringq_fifo_opened :
    ∃ rq, ringqOpen (fun _ => true) 16 (-1) = some rq ∧
      let es := [(fun _ => true, .putBlk (List.replicate 100 7)), (fun _ => false, .drain 40),
        (fun _ => false, .putStr [1, 2, 3]), (fun _ => true, .getc)]
      rq.content ++ bytesIn rq es = bytesOut rq es ++ (finish ringqStep rq es).content :=
  ⟨_, rfl, ringq_fifo _ _ (by simp [RingOp.Queues])⟩

/-! ## How far a queue grows -/

theorem halvings_two_pow (j : ℕ) : halvings (2 ^ j) = j + 1 := by
  induction j with
  | zero =>
      rw [halvings, if_neg (by simp), halvings, if_pos (by simp)]
  | succ j ih =>
      rw [halvings, if_neg (Nat.two_pow_pos _).ne', pow_succ, Nat.mul_div_cancel _ (by omega), ih]

/-- The block size for a power of two is the next one. -/
theorem getBinBlockSize_two_pow (j : ℕ) : getBinBlockSize (2 ^ (B_SHIFT + j)) = 2 ^ (B_SHIFT + j + 1) := by
  have hdiv : 2 ^ (B_SHIFT + j) / 2 ^ B_SHIFT = 2 ^ j := by
    rw [pow_add, Nat.mul_div_cancel_left _ (Nat.two_pow_pos _)]
  rw [getBinBlockSize, hdiv, halvings_two_pow, Nat.add_assoc]

/-- The allocator has no memory for a block of `2 ^ 29` bytes. -/
def NoHugeBlock (mem : ℕ → Bool) : Prop := ∀ size, mem size = true → size < 2 ^ 29

/-- A queue that was opened with `n` bytes, and grew some number of times. The increment, which is meant
to double with each growth, is four times the last one. -/
def RingView.Grown (n : ℕ) (v : RingView) : Prop :=
  (∃ j, v.increment = 2 ^ (B_SHIFT + j)) ∧ v.buflen < 2 ^ 29 ∧
    ∃ k, v.increment = n * 4 ^ k ∧ 3 * v.buflen = n * (4 ^ k + 2) ∧
      (0 ≤ v.maxsize → k = 0 ∨ v.buflen < 4 * v.maxsize)

/-- The increment is a power of two below three times the size. -/
theorem RingView.Grown.increment_le {n : ℕ} {v : RingView} (hv : v.Grown n) : v.increment ≤ 2 ^ 30 := by
  obtain ⟨⟨j, hj⟩, hsmall, k, hinc, hbuf, -⟩ := hv
  have hthree : v.increment ≤ 3 * v.buflen := by
    rw [hinc, hbuf]
    exact Nat.mul_le_mul_left n (by omega)
  have hlt : (2 : ℕ) ^ (B_SHIFT + j) < 2 ^ 31 := by omega
  rw [hj]
  exact Nat.pow_le_pow_right (by omega) (Nat.lt_succ_iff.mp ((Nat.pow_lt_pow_iff_right (by omega)).mp hlt))

theorem RingView.Grown.grow {n : ℕ} {mem : ℕ → Bool} (hmem : NoHugeBlock mem) {v w : RingView}
    (hv : v.Grown n) (h : v.grow mem = some w) : w.Grown n ∧ w.maxsize = v.maxsize := by
  obtain ⟨⟨j, hj⟩, -, k, hinc, hbuf, hmax⟩ := hv
  unfold RingView.grow at h
  split_ifs at h with hlimit hblock
  obtain rfl := Option.some.inj h
  have hnext : getBinBlockSize (2 * v.increment) = 4 * v.increment := by
    rw [hj, ← pow_succ', Nat.add_assoc, getBinBlockSize_two_pow, ← Nat.add_assoc]
    ring
  refine ⟨⟨⟨j + 2, ?_⟩, hmem _ hblock, k + 1, ?_, ?_, fun h0 => Or.inr ?_⟩, rfl⟩
  · change getBinBlockSize (2 * v.increment) = _
    rw [hnext, hj]
    ring
  · change getBinBlockSize (2 * v.increment) = _
    rw [hnext, hinc]
    ring
  · change 3 * (v.buflen + v.increment) = _
    rw [Nat.mul_add, hbuf, hinc]
    ring
  · change 0 ≤ v.maxsize at h0
    change ((v.buflen + v.increment : ℕ) : ℤ) < 4 * v.maxsize
    have hbelow : (v.buflen : ℤ) < v.maxsize := by
      by_contra hge
      exact hlimit ⟨h0, by omega⟩
    have hthree : v.increment ≤ 3 * v.buflen := by
      rw [hinc, hbuf]
      exact Nat.mul_le_mul_left n (by omega)
    push_cast
    omega

theorem RingView.Grown.withRoom {n : ℕ} {mem : ℕ → Bool} (hmem : NoHugeBlock mem) {v w : RingView}
    (hv : v.Grown n) (h : v.withRoom mem = some w) : w.Grown n ∧ w.maxsize = v.maxsize := by
  unfold RingView.withRoom at h
  split_ifs at h with hroom
  · obtain rfl := Option.some.inj h
    exact ⟨hv, rfl⟩
  · exact hv.grow hmem h

theorem RingView.Grown.put {n : ℕ} {mem : ℕ → Bool} (hmem : NoHugeBlock mem) {v : RingView}
    (hv : v.Grown n) (data : Bytes) :
    (v.put mem data).1.Grown n ∧ (v.put mem data).1.maxsize = v.maxsize := by
  induction data generalizing v with
  | nil => exact ⟨hv, rfl⟩
  | cons c data ih =>
      cases h : v.withRoom mem with
      | none =>
          rw [put_cons_of_none h]
          exact ⟨hv, rfl⟩
      | some w =>
          obtain ⟨hw, hmax⟩ := hv.withRoom hmem h
          obtain ⟨hrest, hmax'⟩ := ih (v := w.append [c]) hw
          rw [put_cons_of_some h]
          exact ⟨hrest, hmax'.trans hmax⟩

theorem RingView.Step.grown {n : ℕ} {v w : RingView} {e : (ℕ → Bool) × RingOp} {answer : RingAnswer}
    (h : v.Step e answer w) (hv : v.Grown n) (hmem : NoHugeBlock e.1) :
    w.Grown n ∧ w.maxsize = v.maxsize := by
  obtain ⟨mem, op⟩ := e
  obtain ⟨line, -, hstep⟩ := h
  cases op with
  | putc c =>
      unfold step at hstep
      cases hroom : v.withRoom mem with
      | none =>
          rw [hroom] at hstep
          obtain ⟨rfl, -⟩ := Prod.mk.inj hstep
          exact ⟨hv, rfl⟩
      | some u =>
          rw [hroom] at hstep
          obtain ⟨rfl, -⟩ := Prod.mk.inj hstep
          obtain ⟨hu, hmax⟩ := hv.withRoom hmem hroom
          exact ⟨hu, hmax⟩
  | insertc c =>
      unfold step at hstep
      cases hroom : v.withRoom mem with
      | none =>
          rw [hroom] at hstep
          obtain ⟨rfl, -⟩ := Prod.mk.inj hstep
          exact ⟨hv, rfl⟩
      | some u =>
          rw [hroom] at hstep
          obtain ⟨rfl, -⟩ := Prod.mk.inj hstep
          obtain ⟨hu, hmax⟩ := hv.withRoom hmem hroom
          exact ⟨hu, hmax⟩
  | putStr data =>
      obtain ⟨rfl, -⟩ := Prod.mk.inj hstep
      exact hv.put hmem data
  | putBlk data =>
      obtain ⟨rfl, -⟩ := Prod.mk.inj hstep
      exact hv.put hmem data
  | fill _ | addNull | getc | getBlk _ | drain _ | flush =>
      obtain ⟨rfl, -⟩ := Prod.mk.inj hstep
      exact ⟨hv, rfl⟩

/-- **The limit on the size.** A queue that was opened with a limit has, through any run, the size it was
opened with or less than four times the limit; it is asked to stay within the limit, but a queue just
below it still grows by three times its size. A queue with a size holds one byte less at most. Without
huge blocks all of these are numbers that an `int` has room for. -/
theorem ringq_size {mem : ℕ → Bool} (hmem : NoHugeBlock mem) {initSize : ℕ} {maxsize : ℤ} {rq : Ringq}
    (h : ringqOpen mem initSize maxsize = some rq) {es : List ((ℕ → Bool) × RingOp)}
    (hes : ∀ e ∈ es, NoHugeBlock e.1) :
    let rq' := finish ringqStep rq es
    rq'.content.length < rq'.buflen ∧ rq'.buflen < 2 ^ 29 ∧ rq'.increment ≤ 2 ^ 30 ∧
      (∃ k, rq'.increment = getBinBlockSize initSize * 4 ^ k ∧
        3 * rq'.buflen = getBinBlockSize initSize * (4 ^ k + 2)) ∧
      (0 ≤ maxsize → rq'.buflen = getBinBlockSize initSize ∨ rq'.buflen < 4 * maxsize) := by
  unfold ringqOpen at h
  dsimp only at h
  split_ifs at h with hblock
  obtain rfl := Option.some.inj h
  intro rq'
  obtain ⟨hgrown, hmax⟩ : rq'.view.Grown (getBinBlockSize initSize) ∧ rq'.view.maxsize = maxsize := by
    refine finish_invariant_of (I := fun rq : Ringq => rq.view.Grown (getBinBlockSize initSize) ∧
      rq.view.maxsize = maxsize) ?_ ⟨?_, rfl⟩ hes
    · rintro rq e ⟨hgrown, hmax⟩ he
      obtain ⟨hnext, hsame⟩ := (ringqStep_view rq e).grown hgrown he
      exact ⟨hnext, hsame.trans hmax⟩
    · refine ⟨⟨halvings (initSize / 2 ^ B_SHIFT), rfl⟩, ?_, 0, ?_, ?_, fun _ => Or.inl rfl⟩
      · change (List.replicate (getBinBlockSize initSize) (0 : UInt8)).length < _
        rw [List.length_replicate]
        exact hmem _ hblock
      · exact (Nat.mul_one _).symm
      · change 3 * (List.replicate (getBinBlockSize initSize) (0 : UInt8)).length = _
        rw [List.length_replicate]
        ring
  have hincrement := hgrown.increment_le
  obtain ⟨-, hsmall, k, hinc, hbuf, hlimit⟩ := hgrown
  refine ⟨rq'.view_length_lt, hsmall, hincrement, ⟨k, hinc, hbuf⟩, fun h0 => ?_⟩
  rcases hlimit (hmax ▸ h0) with rfl | hlt
  · left
    change 3 * rq'.buflen = _ at hbuf
    omega
  · right
    rw [hmax] at hlt
    exact hlt

/-- A queue with a limit of 256 bytes that has grown three times, to 704. -/
theorem ringq_size_opened :
    ∃ rq, ringqOpen (fun size => size < 2 ^ 29) 16 256 = some rq ∧
      let rq' := finish ringqStep rq [(fun size => size < 2 ^ 29, .putBlk (List.replicate 192 7))]
      rq'.buflen = 704 ∧
        (rq'.content.length < rq'.buflen ∧ rq'.buflen < 2 ^ 29 ∧ rq'.increment ≤ 2 ^ 30 ∧
          (∃ k, rq'.increment = getBinBlockSize 16 * 4 ^ k ∧
            3 * rq'.buflen = getBinBlockSize 16 * (4 ^ k + 2)) ∧
          ((0 : ℤ) ≤ 256 → rq'.buflen = getBinBlockSize 16 ∨ (rq'.buflen : ℤ) < 4 * 256)) := by
  have hmem : NoHugeBlock fun size => size < 2 ^ 29 := fun size h => of_decide_eq_true h
  have hsize : ((ringqOpen (fun size => size < 2 ^ 29) 16 256).map fun rq => (finish ringqStep rq
      [(fun size => size < 2 ^ 29, .putBlk (List.replicate 192 7))]).buflen) = some 704 := by
    decide +kernel
  obtain ⟨rq, hopen, hgrown⟩ := Option.map_eq_some_iff.mp hsize
  exact ⟨rq, hopen, hgrown, ringq_size hmem hopen (List.forall_mem_singleton.mpr hmem)⟩

end TestCore.Webs
