/-
DNS messages as bytes.

A name is a row of labels, each with its length in front, and the empty label at the end. That is all a
reader of names can go by: from the first byte of a label it gets to the first byte of the next.
`NameAt` says that a memory holds a name somewhere, and `nameAt_cons` is that step.
-/
import TestCore.Lib.Memory

set_option autoImplicit false

namespace TestCore.Lib

/-! ## Numbers -/

/-- Two bytes, highest first. -/
def u16 (n : UInt16) : Bytes := [UInt8.ofNat (n.toNat / 256), UInt8.ofNat n.toNat]

/-- Four bytes, highest first. -/
def u32 (n : UInt32) : Bytes :=
  [UInt8.ofNat (n.toNat / 256 ^ 3), UInt8.ofNat (n.toNat / 256 ^ 2), UInt8.ofNat (n.toNat / 256),
    UInt8.ofNat n.toNat]

/-- The number of two bytes, highest first. -/
def get16 (m : Memory) (p : ℕ) : UInt16 := UInt16.ofNat ((m p).toNat * 256 + (m (p + 1)).toNat)

@[simp] theorem u16_length (n : UInt16) : (u16 n).length = 2 := rfl

@[simp] theorem u32_length (n : UInt32) : (u32 n).length = 4 := rfl

/-- What was written is read. -/
theorem get16_of_load {m : Memory} {p : ℕ} {n : UInt16} (h : load m p 2 = u16 n) : get16 m p = n := by
  have hn := n.toNat_lt
  obtain ⟨h0, h1⟩ : m p = UInt8.ofNat (n.toNat / 256) ∧ m (p + 1) = UInt8.ofNat n.toNat := by
    simpa [load, u16, List.range_succ] using h
  unfold get16
  rw [h0, h1, UInt8.toNat_ofNat', UInt8.toNat_ofNat', ← UInt16.toNat_inj, UInt16.toNat_ofNat']
  omega

theorem u16_injective : Function.Injective u16 := by
  intro a b h
  have ha : load (ofBytes (u16 a) fun _ => 0) 0 2 = u16 a :=
    load_ofBytes (b := u16 a) (p := 0) (n := 2) (Nat.le_refl 2) _
  rw [← get16_of_load ha]
  refine get16_of_load ?_
  rw [ha, h]

/-! ## Names -/

def labelBytes (l : Bytes) : Bytes := UInt8.ofNat l.length :: l

def nameBytes (ls : List Bytes) : Bytes := (ls.map labelBytes).flatten ++ [0]

/-- None of the labels is empty, or longer than `most`. -/
def LabelsUpTo (most : ℕ) (ls : List Bytes) : Prop := ∀ l ∈ ls, 1 ≤ l.length ∧ l.length ≤ most

instance (most : ℕ) (ls : List Bytes) : Decidable (LabelsUpTo most ls) :=
  inferInstanceAs (Decidable (∀ l ∈ ls, _))

/-- The memory holds the name at `p`. -/
def NameAt (m : Memory) (p : ℕ) (ls : List Bytes) : Prop :=
  load m p (nameBytes ls).length = nameBytes ls

@[simp] theorem labelBytes_length (l : Bytes) : (labelBytes l).length = l.length + 1 := rfl

@[simp] theorem nameBytes_nil : nameBytes [] = [0] := rfl

theorem nameBytes_cons (l : Bytes) (ls : List Bytes) :
    nameBytes (l :: ls) = labelBytes l ++ nameBytes ls := by
  unfold nameBytes
  rw [List.map_cons, List.flatten_cons, List.append_assoc]

theorem nameBytes_cons_length (l : Bytes) (ls : List Bytes) :
    (nameBytes (l :: ls)).length = l.length + 1 + (nameBytes ls).length := by
  rw [nameBytes_cons, List.length_append, labelBytes_length]

theorem nameBytes_length_pos (ls : List Bytes) : 0 < (nameBytes ls).length := by
  unfold nameBytes
  simp

theorem nameAt_nil (m : Memory) (p : ℕ) : NameAt m p [] ↔ m p = 0 := by
  show [m (p + 0)] = [0] ↔ _
  rw [List.singleton_inj, Nat.add_zero]

/-- The first label, and the rest of the name behind it. -/
theorem nameAt_cons (m : Memory) (p : ℕ) {l : Bytes} (hl : l.length ≤ 255) (ls : List Bytes) :
    NameAt m p (l :: ls) ↔
      (m p).toNat = l.length ∧ load m (p + 1) l.length = l ∧ NameAt m (p + l.length + 1) ls := by
  have hsize : m p = UInt8.ofNat l.length ↔ (m p).toNat = l.length := by
    rw [← UInt8.toNat_inj, UInt8.toNat_ofNat', Nat.mod_eq_of_lt (by omega)]
  unfold NameAt
  rw [nameBytes_cons_length, nameBytes_cons, load_add, ← Nat.add_assoc, ← hsize]
  constructor
  · intro h
    obtain ⟨hlabel, hrest⟩ := List.append_inj h (by rw [load_length, labelBytes_length])
    rw [load_succ] at hlabel
    exact ⟨(List.cons.inj hlabel).1, (List.cons.inj hlabel).2, hrest⟩
  · rintro ⟨hlen, hlabel, hrest⟩
    rw [load_succ, hlen, hlabel, hrest]
    rfl

/-- There is one name at most. -/
theorem nameAt_unique {m : Memory} {p : ℕ} {ls ls' : List Bytes} (hls : LabelsUpTo 255 ls)
    (hls' : LabelsUpTo 255 ls') (h : NameAt m p ls) (h' : NameAt m p ls') : ls = ls' := by
  induction ls generalizing p ls' with
  | nil =>
      rcases ls' with _ | ⟨l', ls'⟩
      · rfl
      · have hl' := hls' l' List.mem_cons_self
        rw [nameAt_nil] at h
        rw [nameAt_cons m p hl'.2, h, UInt8.toNat_zero] at h'
        omega
  | cons l ls ih =>
      have hl := hls l List.mem_cons_self
      rw [nameAt_cons m p hl.2] at h
      rcases ls' with _ | ⟨l', ls'⟩
      · rw [nameAt_nil] at h'
        rw [h', UInt8.toNat_zero] at h
        omega
      · have hl' := hls' l' List.mem_cons_self
        rw [nameAt_cons m p hl'.2] at h'
        have hlen : l.length = l'.length := h.1.symm.trans h'.1
        have hlabel : l = l' := by rw [← h.2.1, ← h'.2.1, hlen]
        rw [← hlen] at h'
        rw [hlabel, ih (fun x hx => hls x (List.mem_cons_of_mem l hx))
          (fun x hx => hls' x (List.mem_cons_of_mem l' hx)) h.2.2 h'.2.2]

/-- A name as a query may have it, without pointers. -/
structure WellFormedName (ls : List Bytes) : Prop where
  labels : LabelsUpTo 63 ls
  length_le : (nameBytes ls).length ≤ 255

theorem LabelsUpTo.mono {a b : ℕ} (h : a ≤ b) {ls : List Bytes} (hls : LabelsUpTo a ls) :
    LabelsUpTo b ls :=
  fun l hl => ⟨(hls l hl).1, (hls l hl).2.trans h⟩

/-! ## Messages -/

structure DnsHeader where
  id : UInt16
  /-- QR, the opcode, AA, TC and RD, from the highest bit on. -/
  flags0 : UInt8
  /-- RA, three more bits, and the response code. -/
  flags1 : UInt8
  qdcount : UInt16
  ancount : UInt16
  nscount : UInt16
  arcount : UInt16
  deriving DecidableEq

def DnsHeader.bytes (h : DnsHeader) : Bytes :=
  u16 h.id ++ ([h.flags0, h.flags1] ++ (u16 h.qdcount ++ (u16 h.ancount ++ (u16 h.nscount ++
    u16 h.arcount))))

structure DnsQuestion where
  labels : List Bytes
  qtype : UInt16
  qclass : UInt16
  deriving DecidableEq

def DnsQuestion.bytes (q : DnsQuestion) : Bytes := nameBytes q.labels ++ (u16 q.qtype ++ u16 q.qclass)

/-- A record for a name that stands in the message already. -/
structure DnsRecord where
  nameoffset : UInt16
  type : UInt16
  cls : UInt16
  ttl : UInt32
  rdata : Bytes
  deriving DecidableEq

def DnsRecord.bytes (r : DnsRecord) : Bytes :=
  u16 (r.nameoffset ||| 0xc000) ++ (u16 r.type ++ (u16 r.cls ++ (u32 r.ttl ++
    (u16 (UInt16.ofNat r.rdata.length) ++ r.rdata))))

@[simp] theorem DnsHeader.bytes_length (h : DnsHeader) : h.bytes.length = 12 := rfl

theorem DnsQuestion.bytes_length (q : DnsQuestion) :
    q.bytes.length = (nameBytes q.labels).length + 4 := by
  unfold DnsQuestion.bytes
  rw [List.length_append]
  rfl

theorem DnsRecord.bytes_length (r : DnsRecord) : r.bytes.length = 12 + r.rdata.length := by
  unfold DnsRecord.bytes
  simp only [List.length_append, u16_length, u32_length]
  omega

end TestCore.Lib
