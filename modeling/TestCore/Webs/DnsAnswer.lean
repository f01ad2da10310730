/-
The answer of the name server for redirects (`jrd_dns_build_answer` of `sockGen.c`).

The answer is made in the buffer of the query. The function walks over the name to find the end of
the question, puts a record there and changes the header. It copies the type and the class of the
record from the question, but what it puts behind them is always an address of four bytes. So the
answer is one exactly if the question was for such an address (`build_answer_right_iff`).
-/
import TestCore.Lib.DnsWire
import TestCore.Lib.Inet
import TestCore.Lib.Loop

set_option autoImplicit false

namespace TestCore.Webs

open TestCore.Lib

/-! ## The function -/

def JRD_DNS_BUF_SIZE : ℕ := 256

/-- `jrd_dns_buf` with a datagram, which was filled with zeros before, and the memory behind it. -/
def jrd_dns_buf (datagram : Bytes) (behind : Memory) : Memory :=
  ofBytes (datagram ++ List.replicate (JRD_DNS_BUF_SIZE - datagram.length) 0) behind

/-- `while(*p) { p += *p; p++; }` -/
def jrd_dns_build_answer.turn (m : Memory) (p : ℕ) : ℕ ⊕ ℕ :=
  if m p = 0 then .inl p else .inr (p + (m p).toNat + 1)

/-- A byte replaced by what is made of it. -/
def modifyByte (m : Memory) (p : ℕ) (f : UInt8 → UInt8) : Memory := store m p [f (m p)]

/-- The bit fields of the header. -/
def jrd_dns_build_answer.header (m : Memory) : Memory :=
  let m := modifyByte m 2 (· ||| 0x80)
  let m := modifyByte m 2 (· &&& ~~~0x04)
  let m := modifyByte m 3 (· ||| 0x80)
  let m := modifyByte m 2 (· &&& ~~~0x02)
  let m := modifyByte m 3 (· &&& ~~~0x0f)
  let m := store m 6 (u16 1)
  let m := store m 8 (u16 0)
  store m 10 (u16 0)

/-- What comes after the walk, which ended at `p`: the memory and the length. The header has 12
bytes. -/
def jrd_dns_build_answer.finish (m : Memory) (answer_addr : UInt32) (p : ℕ) : Memory × ℕ :=
  let nameoffset : UInt16 := 12
  let addr := if answer_addr = 0 then 0xc0a80101 else answer_addr
  let qtype := get16 m (p + 1)
  let qclass := get16 m (p + 3)
  let p := p + 5
  let m := store m p (u16 (nameoffset ||| 0xc000))
  let m := store m (p + 2) (u16 qtype)
  let m := store m (p + 4) (u16 qclass)
  let m := store m (p + 6) (u32 0)
  let m := store m (p + 10) (u16 4)
  let m := store m (p + 12) (u32 addr)
  (jrd_dns_build_answer.header m, p + 16)

/-- `jrd_dns_build_answer`, if the walk is over after so many turns. -/
def jrd_dns_build_answer (turns : ℕ) (m : Memory) (answer_addr : UInt32) : Option (Memory × ℕ) :=
  (loopFor (jrd_dns_build_answer.turn m) turns 12).map (jrd_dns_build_answer.finish m answer_addr)

/-! ## The walk -/

/-- The walk ends at the empty label of the name. -/
theorem walk_name {m : Memory} {p : ℕ} {ls : List Bytes} (hls : LabelsUpTo 255 ls)
    (h : NameAt m p ls) {turns : ℕ} (hturns : ls.length < turns) :
    loopFor (jrd_dns_build_answer.turn m) turns p = some (p + (nameBytes ls).length - 1) := by
  induction ls generalizing p turns with
  | nil =>
      obtain ⟨n, rfl⟩ := Nat.exists_eq_add_of_lt hturns
      rw [nameAt_nil] at h
      refine loopFor_inl ?_ _
      unfold jrd_dns_build_answer.turn
      rw [if_pos h]
      rfl
  | cons l ls ih =>
      have hl := hls l List.mem_cons_self
      rw [nameAt_cons m p hl.2] at h
      have hne : m p ≠ 0 := by
        intro h0
        rw [h0, UInt8.toNat_zero] at h
        omega
      have hturn : jrd_dns_build_answer.turn m p = .inr (p + l.length + 1) := by
        unfold jrd_dns_build_answer.turn
        rw [if_neg hne, h.1]
      obtain ⟨n, rfl⟩ := Nat.exists_eq_add_of_lt hturns
      rw [loopFor_inr hturn, ih (fun x hx => hls x (List.mem_cons_of_mem l hx)) h.2.2
        (by rw [List.length_cons]; omega), nameBytes_cons_length]
      congr 1
      omega

/-- What comes out does not depend on the number of turns. -/
theorem build_answer_unique {turns turns' : ℕ} {m : Memory} {answer_addr : UInt32} {r r' : Memory × ℕ}
    (h : jrd_dns_build_answer turns m answer_addr = some r)
    (h' : jrd_dns_build_answer turns' m answer_addr = some r') : r = r' := by
  obtain ⟨p, hp, rfl⟩ := Option.map_eq_some_iff.mp h
  obtain ⟨p', hp', rfl⟩ := Option.map_eq_some_iff.mp h'
  rw [EndsWith.unique ⟨turns, hp⟩ ⟨turns', hp'⟩]

/-! ## What is left in the buffer -/

/-- The first of the two bytes of bit fields. -/
def answerFlags0 (b : UInt8) : UInt8 := ((b ||| 0x80) &&& ~~~0x04) &&& ~~~0x02

def answerFlags1 (b : UInt8) : UInt8 := (b ||| 0x80) &&& ~~~0x0f

theorem header_load (m : Memory) :
    load (jrd_dns_build_answer.header m) 0 12 =
      load m 0 2 ++ ([answerFlags0 (m 2), answerFlags1 (m 3)] ++ (load m 4 2 ++ (u16 1 ++ (u16 0 ++
        u16 0)))) := rfl

/-- The header of the answer. -/
theorem header_of_load {m : Memory} {h : DnsHeader} (hload : load m 0 12 = h.bytes)
    (hqd : h.qdcount = 1) : load (jrd_dns_build_answer.header m) 0 12 =
      DnsHeader.bytes ⟨h.id, answerFlags0 h.flags0, answerFlags1 h.flags1, 1, 1, 0, 0⟩ := by
  rw [show (12 : ℕ) = 2 + (2 + (2 + 6)) from rfl, load_add, load_add, load_add] at hload
  obtain ⟨hid, hrest⟩ := List.append_inj hload rfl
  obtain ⟨hflags, hrest⟩ := List.append_inj hrest rfl
  obtain ⟨hcount, -⟩ := List.append_inj hrest rfl
  obtain ⟨h0, h1⟩ : m 2 = h.flags0 ∧ m 3 = h.flags1 := by
    rw [load_succ, load_succ] at hflags
    exact ⟨(List.cons.inj hflags).1, (List.cons.inj (List.cons.inj hflags).2).1⟩
  rw [header_load, hid, show load m 4 2 = u16 h.qdcount from hcount, hqd, h0, h1]
  rfl

/-- Behind the header, nothing changes. -/
theorem header_of_le (m : Memory) {i : ℕ} (h : 12 ≤ i) : jrd_dns_build_answer.header m i = m i := by
  have hbyte : ∀ (m : Memory) (p : ℕ) (f : UInt8 → UInt8), p < 12 → modifyByte m p f i = m i :=
    fun m p f hp => store_of_le m (Nat.lt_of_lt_of_le hp h)
  have hword : ∀ (m : Memory) (p : ℕ) (n : UInt16), p + 2 ≤ 12 → store m p (u16 n) i = m i :=
    fun m p n hp => store_of_le m (hp.trans h)
  unfold jrd_dns_build_answer.header
  rw [hword _ 10 0 (by decide), hword _ 8 0 (by decide), hword _ 6 1 (by decide),
    hbyte _ 3 _ (by decide), hbyte _ 2 _ (by decide), hbyte _ 3 _ (by decide),
    hbyte _ 2 _ (by decide), hbyte _ 2 _ (by decide)]

/-- The stores behind the question make one record. -/
theorem finish_fst (m : Memory) (answer_addr : UInt32) (p : ℕ) :
    (jrd_dns_build_answer.finish m answer_addr p).1 =
      jrd_dns_build_answer.header (store m (p + 5) (DnsRecord.bytes
        ⟨12, get16 m (p + 1), get16 m (p + 3), 0,
          u32 (if answer_addr = 0 then 0xc0a80101 else answer_addr)⟩)) := by
  unfold jrd_dns_build_answer.finish
  dsimp only
  congr 1
  unfold DnsRecord.bytes
  rw [← store_store_append, ← store_store_append, ← store_store_append, ← store_store_append,
    ← store_store_append]
  rfl

/-! ## What is asked for -/

/-- A query with one question, well formed and without pointers, and then anything. It fits in the
buffer, and up to the end of the question also with a record of 16 bytes. -/
structure DnsQuery where
  header : DnsHeader
  question : DnsQuestion
  more : Bytes
  one_question : header.qdcount = 1
  query : header.flags0 &&& 0x80 = 0
  name : WellFormedName question.labels
  datagram_fits : (header.bytes ++ (question.bytes ++ more)).length ≤ JRD_DNS_BUF_SIZE
  answer_fits : 12 + question.bytes.length + 16 ≤ JRD_DNS_BUF_SIZE

def DnsQuery.bytes (q : DnsQuery) : Bytes := q.header.bytes ++ (q.question.bytes ++ q.more)

def TYPE_A : UInt16 := 1
def CLASS_IN : UInt16 := 1

/-- The same id and question, and one record for the name of the question with the address. -/
def DnsQuery.AnsweredBy (q : DnsQuery) (addr : UInt32) (out : Bytes) : Prop :=
  ∃ flags0 flags1 ttl, flags0 &&& 0x80 = 0x80 ∧
    out = DnsHeader.bytes ⟨q.header.id, flags0, flags1, 1, 1, 0, 0⟩ ++
      (q.question.bytes ++ DnsRecord.bytes ⟨12, TYPE_A, CLASS_IN, ttl, u32 addr⟩)

/-- The address that is given. -/
def answerAddr (answer_addr : UInt32) : UInt32 :=
  if answer_addr = 0 then 0xc0a80101 else answer_addr

/-- The function returns, and leaves an answer in the first `answer_len` bytes, if the question was
for an address. -/
def AnswersRight (q : DnsQuery) (behind : Memory) (answer_addr : UInt32) : Prop :=
  ∃ turns m answer_len,
    jrd_dns_build_answer turns (jrd_dns_buf q.bytes behind) answer_addr = some (m, answer_len) ∧
      q.AnsweredBy (answerAddr answer_addr) (load m 0 answer_len) ∧ q.question.qtype = TYPE_A

/-! ## The answer -/

section Answer

variable (q : DnsQuery) (behind : Memory)

/-- What the buffer of the query holds, part by part. -/
theorem load_query :
    load (jrd_dns_buf q.bytes behind) 0 12 = q.header.bytes ∧
      load (jrd_dns_buf q.bytes behind) 12 q.question.bytes.length = q.question.bytes := by
  have hbuf : jrd_dns_buf q.bytes behind = ofBytes (q.header.bytes ++ (q.question.bytes ++ (q.more ++
      List.replicate (JRD_DNS_BUF_SIZE - q.bytes.length) 0))) behind := by
    unfold jrd_dns_buf DnsQuery.bytes
    rw [List.append_assoc, List.append_assoc]
  rw [hbuf]
  exact ⟨load_ofBytes_append [] q.header.bytes _ behind,
    load_ofBytes_append q.header.bytes q.question.bytes _ behind⟩

theorem load_question :
    NameAt (jrd_dns_buf q.bytes behind) 12 q.question.labels ∧
      get16 (jrd_dns_buf q.bytes behind) (12 + (nameBytes q.question.labels).length) =
        q.question.qtype ∧
      get16 (jrd_dns_buf q.bytes behind) (12 + (nameBytes q.question.labels).length + 2) =
        q.question.qclass := by
  obtain ⟨-, h⟩ := load_query q behind
  rw [q.question.bytes_length, load_add, load_add _ _ 2 2] at h
  obtain ⟨hname, hrest⟩ := List.append_inj h (load_length _ _ _)
  obtain ⟨htype, hclass⟩ := List.append_inj hrest (load_length _ _ _)
  exact ⟨hname, get16_of_load htype, get16_of_load hclass⟩

/-- The bytes of the answer. -/
def DnsQuery.answer (addr : UInt32) : Bytes :=
  DnsHeader.bytes ⟨q.header.id, answerFlags0 q.header.flags0, answerFlags1 q.header.flags1, 1, 1, 0, 0⟩ ++
    (q.question.bytes ++ DnsRecord.bytes ⟨12, q.question.qtype, q.question.qclass, 0, u32 addr⟩)

/-- **What the function leaves in the buffer**, after any number of turns that is enough. -/
theorem build_answer_load (answer_addr : UInt32) {turns : ℕ}
    (hturns : q.question.labels.length < turns) :
    ∃ m answer_len,
      jrd_dns_build_answer turns (jrd_dns_buf q.bytes behind) answer_addr = some (m, answer_len) ∧
        load m 0 answer_len = q.answer (answerAddr answer_addr) := by
  obtain ⟨hheader, hquestion⟩ := load_query q behind
  obtain ⟨hname, htype, hclass⟩ := load_question q behind
  have hwalk := walk_name (q.name.labels.mono (by decide)) hname hturns
  have hpos := nameBytes_length_pos q.question.labels
  have hlen := q.question.bytes_length
  generalize hm : jrd_dns_buf q.bytes behind = m at *
  generalize hp : 12 + (nameBytes q.question.labels).length - 1 = p at *
  have hfst := finish_fst m answer_addr p
  rw [show p + 1 = 12 + (nameBytes q.question.labels).length by omega,
    show p + 3 = 12 + (nameBytes q.question.labels).length + 2 by omega, htype, hclass,
    show p + 5 = 12 + q.question.bytes.length by omega] at hfst
  refine ⟨_, _, by rw [jrd_dns_build_answer, hwalk]; rfl, ?_⟩
  show load (jrd_dns_build_answer.finish m answer_addr p).1 0 (p + 5 + 16) = _
  have hrec := DnsRecord.bytes_length ⟨12, q.question.qtype, q.question.qclass, 0,
    u32 (answerAddr answer_addr)⟩
  rw [hfst, show p + 5 + 16 = 12 + (q.question.bytes.length + 16) by omega, load_add, load_add,
    Nat.zero_add, DnsQuery.answer]
  have hbehind : ∀ (m' : Memory) n k, load (jrd_dns_build_answer.header m') (12 + n) k =
      load m' (12 + n) k := fun m' n k =>
    load_congr fun i hi _ => header_of_le m' (by omega)
  congr 1
  · -- The header.
    have hstored : load (store m (12 + q.question.bytes.length) (DnsRecord.bytes
        ⟨12, q.question.qtype, q.question.qclass, 0, u32 (answerAddr answer_addr)⟩)) 0 12 =
        q.header.bytes := by
      rw [load_store_of_disjoint m (Or.inl (by omega)), hheader]
    exact header_of_load hstored q.one_question
  · rw [hbehind _ 0, hbehind, load_store_of_disjoint m (Or.inl (by omega)), hquestion]
    congr 1
    exact load_store m _ _

theorem answerFlags0_response (b : UInt8) : answerFlags0 b &&& 0x80 = 0x80 := by
  revert b
  decide +kernel

/-- **When that is an answer.** -/
theorem answeredBy_answer_iff (addr : UInt32) :
    q.AnsweredBy addr (q.answer addr) ↔ q.question.qtype = TYPE_A ∧ q.question.qclass = CLASS_IN := by
  constructor
  · rintro ⟨flags0, flags1, ttl, -, h⟩
    obtain ⟨-, h⟩ := List.append_inj h rfl
    obtain ⟨-, h⟩ := List.append_inj h rfl
    unfold DnsRecord.bytes at h
    obtain ⟨-, h⟩ := List.append_inj h rfl
    obtain ⟨htype, h⟩ := List.append_inj h rfl
    obtain ⟨hclass, -⟩ := List.append_inj h rfl
    exact ⟨u16_injective htype, u16_injective hclass⟩
  · rintro ⟨htype, hclass⟩
    refine ⟨_, answerFlags1 q.header.flags1, 0, answerFlags0_response q.header.flags0, ?_⟩
    unfold DnsQuery.answer
    rw [htype, hclass]

end Answer

theorem answersRight_iff (q : DnsQuery) (behind : Memory) (answer_addr : UInt32) :
    AnswersRight q behind answer_addr ↔
      q.AnsweredBy (answerAddr answer_addr) (q.answer (answerAddr answer_addr)) := by
  constructor
  · rintro ⟨turns, m, answer_len, hsome, hright, -⟩
    obtain ⟨m', answer_len', hsome', hload⟩ := build_answer_load q behind answer_addr
      (Nat.lt_succ_self q.question.labels.length)
    obtain ⟨rfl, rfl⟩ := Prod.mk.inj (build_answer_unique hsome hsome')
    rwa [hload] at hright
  · intro h
    obtain ⟨m, answer_len, hsome, hload⟩ := build_answer_load q behind answer_addr
      (Nat.lt_succ_self q.question.labels.length)
    refine ⟨_, m, answer_len, hsome, ?_, ((answeredBy_answer_iff q _).mp h).1⟩
    rwa [hload]

/-- **When the answer is right**: exactly for a question for an address, of type A and class IN. -/
theorem build_answer_right_iff (q : DnsQuery) (behind : Memory) (answer_addr : UInt32) :
    AnswersRight q behind answer_addr ↔ q.question.qtype = TYPE_A ∧ q.question.qclass = CLASS_IN := by
  rw [answersRight_iff, answeredBy_answer_iff]

/-- A question for the IPv6 address of the host `a`. -/
def queryAAAA : DnsQuery where
  header := ⟨1, 1, 0, 1, 0, 0, 0⟩
  question := ⟨[bytes "a"], 28, 1⟩
  more := []
  one_question := rfl
  query := by decide
  name := ⟨by decide, by decide⟩
  datagram_fits := by decide
  answer_fits := by decide

/-- It is answered with a record of its type that has four bytes. -/
theorem build_answer_wrong : ¬ ∀ q behind answer_addr, AnswersRight q behind answer_addr := by
  intro h
  have hright := h queryAAAA (fun _ => 0) 0
  rw [answersRight_iff, answeredBy_answer_iff] at hright
  exact absurd hright.1 (by decide)

end TestCore.Webs
