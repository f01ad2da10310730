/-
Structs in memory: where the fields of a C struct lie, and stores to them.

A declaration is the list of the fields, each with its size and its alignment. The compiler puts
them one after the other, each at the next offset that its alignment allows (`offset`). So two
fields never overlap, a store to one leaves the others as they are, and a memory that all fields
were stored to, in any order, has every one of them (`readAt_storeAll`).

Two declarations with the same fields in another order are two layouts. Nothing here relates them.
-/
import TestCore.Lib.Wire

set_option autoImplicit false

namespace TestCore.Lib

/-! ## Parts of a memory -/

/-- `n` bytes at offset `i`. -/
def readAt (buf : Bytes) (i n : ℕ) : Bytes := (buf.drop i).take n

theorem readAt_writeAt {buf b : Bytes} {i : ℕ} (h : i ≤ buf.length) :
    readAt (writeAt buf i b) i b.length = b := by
  have hlen : (buf.take i).length = i := List.length_take_of_le h
  have hdrop : (writeAt buf i b).drop i = b ++ buf.drop (i + b.length) := by
    unfold writeAt
    rw [List.append_assoc, List.drop_left' hlen]
  unfold readAt
  rw [hdrop, List.take_left]

/-- Two memories have the same `n` bytes at `i`. -/
theorem readAt_eq_iff {a b : Bytes} {i n : ℕ} :
    readAt a i n = readAt b i n ↔ ∀ j, i ≤ j → j < i + n → a[j]? = b[j]? := by
  have hget : ∀ (m : Bytes) (k : ℕ), (readAt m i n)[k]? = if k < n then m[i + k]? else none := by
    intro m k
    unfold readAt
    rw [List.getElem?_take, List.getElem?_drop]
  constructor
  · intro h j hij hjn
    have hk := congrArg (fun m : Bytes => m[j - i]?) h
    simp only [hget] at hk
    rwa [if_pos (by omega), if_pos (by omega), Nat.add_sub_cancel' hij] at hk
  · intro h
    apply List.ext_getElem?
    intro k
    rw [hget, hget]
    split_ifs with hk
    · exact h (i + k) (by omega) (by omega)
    · rfl

/-- A store leaves what lies before or after it. -/
theorem readAt_writeAt_of_disjoint {buf b : Bytes} {i j n : ℕ} (hin : i + b.length ≤ buf.length)
    (h : j + n ≤ i ∨ i + b.length ≤ j) : readAt (writeAt buf i b) j n = readAt buf j n := by
  have hlen : (buf.take i).length = i := List.length_take_of_le (by omega)
  unfold readAt writeAt
  rcases h with h | h
  · -- Before the store.
    rw [List.append_assoc, List.drop_append_of_le_length (by omega),
      List.take_append_of_le_length (by rw [List.length_drop]; omega), List.drop_take, List.take_take,
      min_eq_left (by omega)]
  · -- After the store.
    have hboth : (buf.take i ++ b).length = i + b.length := by rw [List.length_append, hlen]
    rw [List.drop_append, List.drop_of_length_le (by omega), List.nil_append, List.drop_drop, hboth]
    congr 2
    omega

/-! ## Numbers in memory -/

/-- How the machine stores a number. -/
structure Arch where
  /-- A `long` has 8 bytes, not 4. -/
  long64 : Bool
  bigEndian : Bool
  deriving DecidableEq, Repr

/-- `sizeof(long)`. -/
def Arch.long (arch : Arch) : ℕ := if arch.long64 then 8 else 4

/-- A number in `w` bytes, lowest first. -/
def leBytes : ℕ → ℕ → Bytes
  | 0, _ => []
  | w + 1, n => UInt8.ofNat n :: leBytes w (n / 256)

def leVal : Bytes → ℕ
  | [] => 0
  | b :: bs => b.toNat + 256 * leVal bs

/-- A number of `w` bytes in memory. -/
def Arch.bytes (arch : Arch) (w n : ℕ) : Bytes :=
  if arch.bigEndian then (leBytes w n).reverse else leBytes w n

def Arch.val (arch : Arch) (b : Bytes) : ℕ := if arch.bigEndian then leVal b.reverse else leVal b

theorem Arch.long_pos (arch : Arch) : 0 < arch.long := by
  unfold Arch.long
  split <;> decide

theorem leBytes_length (w n : ℕ) : (leBytes w n).length = w := by
  induction w generalizing n with
  | zero => rfl
  | succ w ih =>
      unfold leBytes
      rw [List.length_cons, ih]

theorem Arch.bytes_length (arch : Arch) (w n : ℕ) : (arch.bytes w n).length = w := by
  unfold Arch.bytes
  split
  · rw [List.length_reverse, leBytes_length]
  · exact leBytes_length w n

theorem leVal_leBytes (w n : ℕ) : leVal (leBytes w n) = n % 256 ^ w := by
  induction w generalizing n with
  | zero => rw [pow_zero, Nat.mod_one]; rfl
  | succ w ih =>
      have hbyte : (UInt8.ofNat n).toNat = n % 256 := UInt8.toNat_ofNat'
      unfold leBytes leVal
      rw [ih, hbyte, pow_succ', Nat.mod_mul]

theorem Arch.val_bytes (arch : Arch) {w n : ℕ} (h : n < 256 ^ w) : arch.val (arch.bytes w n) = n := by
  have hle : leVal (leBytes w n) = n := by rw [leVal_leBytes, Nat.mod_eq_of_lt h]
  unfold Arch.val Arch.bytes
  cases arch.bigEndian with
  | true =>
      simp only [if_true, List.reverse_reverse]
      exact hle
  | false => exact hle

/-- A multiple of 256 has a zero byte. -/
theorem Arch.zero_mem_bytes (arch : Arch) {w n : ℕ} (hw : 0 < w) (h : n % 256 = 0) :
    0 ∈ arch.bytes w n := by
  have hmem : 0 ∈ leBytes w n := by
    obtain ⟨w, rfl⟩ := Nat.exists_eq_succ_of_ne_zero hw.ne'
    have hzero : UInt8.ofNat n = 0 := by
      rw [← UInt8.toNat_inj, UInt8.toNat_ofNat']
      exact h
    unfold leBytes
    rw [hzero]
    exact List.mem_cons_self
  unfold Arch.bytes
  split
  · exact List.mem_reverse.mpr hmem
  · exact hmem

/-! ## Layout -/

/-- The next multiple of an alignment. -/
def alignUp (n align : ℕ) : ℕ := (n + (align - 1)) / align * align

theorem le_alignUp (n : ℕ) {align : ℕ} (h : 0 < align) : n ≤ alignUp n align := by
  unfold alignUp
  have hmod := Nat.div_add_mod (n + (align - 1)) align
  have hlt := Nat.mod_lt (n + (align - 1)) h
  rw [Nat.mul_comm] at hmod
  omega

/-- The fields of a struct in their order, with size and alignment. -/
structure Decl (φ : Type*) where
  fields : List (φ × ℕ × ℕ)
  align_pos : ∀ f ∈ fields, 0 < f.2.2

section Layout

variable {φ : Type*} [DecidableEq φ]

/-- Where a field is put, if the fields before end at `pos`. -/
def placeFrom (f : φ) : List (φ × ℕ × ℕ) → ℕ → ℕ
  | [], pos => pos
  | (g, size, align) :: fields, pos =>
      if g = f then alignUp pos align else placeFrom f fields (alignUp pos align + size)

/-- `offsetof`. -/
def offset (d : Decl φ) (f : φ) : ℕ := placeFrom f d.fields 0

/-- The size that a field is declared with. -/
def sizeFrom (f : φ) : List (φ × ℕ × ℕ) → ℕ
  | [] => 0
  | (g, size, _) :: fields => if g = f then size else sizeFrom f fields

def fieldSize (d : Decl φ) (f : φ) : ℕ := sizeFrom f d.fields

/-- Where the fields end. -/
def endFrom : List (φ × ℕ × ℕ) → ℕ → ℕ
  | [], pos => pos
  | (_, size, align) :: fields, pos => endFrom fields (alignUp pos align + size)

/-- `sizeof`: up to the greatest alignment of a field. -/
def structSize (d : Decl φ) : ℕ :=
  alignUp (endFrom d.fields 0) (d.fields.foldl (fun align f => max align f.2.2) 1)

theorem le_placeFrom (f : φ) {fields : List (φ × ℕ × ℕ)} (halign : ∀ g ∈ fields, 0 < g.2.2) (pos : ℕ) :
    pos ≤ placeFrom f fields pos := by
  induction fields generalizing pos with
  | nil => exact le_rfl
  | cons g fields ih =>
      obtain ⟨name, size, align⟩ := g
      have hle : pos ≤ alignUp pos align := le_alignUp pos (halign (name, size, align) List.mem_cons_self)
      have hrest := ih (fun e he => halign e (List.mem_cons_of_mem _ he)) (alignUp pos align + size)
      unfold placeFrom
      split_ifs
      · exact hle
      · omega

/-- **Two fields do not overlap.** -/
theorem placeFrom_disjoint {f g : φ} (hne : f ≠ g) {fields : List (φ × ℕ × ℕ)}
    (halign : ∀ e ∈ fields, 0 < e.2.2) (hf : f ∈ fields.map Prod.fst) (hg : g ∈ fields.map Prod.fst)
    (pos : ℕ) :
    placeFrom f fields pos + sizeFrom f fields ≤ placeFrom g fields pos ∨
      placeFrom g fields pos + sizeFrom g fields ≤ placeFrom f fields pos := by
  -- Whichever of the two comes first, the other one is placed behind its end.
  induction fields generalizing pos with
  | nil => exact absurd hf List.not_mem_nil
  | cons e fields ih =>
      obtain ⟨name, size, align⟩ := e
      have hrest : ∀ e ∈ fields, 0 < e.2.2 := fun e he => halign e (List.mem_cons_of_mem _ he)
      rcases eq_or_ne name f with rfl | hnf
      · left
        have hle := le_placeFrom g hrest (alignUp pos align + size)
        simp only [placeFrom, sizeFrom, if_true, if_neg hne]
        exact hle
      · rcases eq_or_ne name g with rfl | hng
        · right
          have hle := le_placeFrom f hrest (alignUp pos align + size)
          simp only [placeFrom, sizeFrom, if_true, if_neg hnf]
          exact hle
        · have hf' : f ∈ fields.map Prod.fst := (List.mem_cons.mp hf).resolve_left fun h => hnf h.symm
          have hg' : g ∈ fields.map Prod.fst := (List.mem_cons.mp hg).resolve_left fun h => hng h.symm
          simp only [placeFrom, sizeFrom, if_neg hnf, if_neg hng]
          exact ih hrest hf' hg' _

/-! ## Stores -/

/-- A store to each field of a list. -/
def storeAll (d : Decl φ) (val : φ → Bytes) (order : List φ) (mem : Bytes) : Bytes :=
  order.foldl (fun mem f => writeAt mem (offset d f) (val f)) mem

/-- The values fit their fields, and the fields the memory. -/
structure Fits (d : Decl φ) (val : φ → Bytes) (mem : Bytes) : Prop where
  mem_fields : ∀ f, f ∈ d.fields.map Prod.fst
  size : ∀ f, (val f).length ≤ fieldSize d f
  room : ∀ f, offset d f + fieldSize d f ≤ mem.length

theorem Fits.writeAt {d : Decl φ} {val : φ → Bytes} {mem : Bytes} (h : Fits d val mem) (f : φ) :
    Fits d val (writeAt mem (offset d f) (val f)) := by
  have hsize := h.size f
  have hroom := h.room f
  refine ⟨h.mem_fields, h.size, ?_⟩
  intro g
  rw [writeAt_length (by omega)]
  exact h.room g

theorem storeAll_length {d : Decl φ} {val : φ → Bytes} {order : List φ} {mem : Bytes}
    (h : Fits d val mem) : (storeAll d val order mem).length = mem.length := by
  induction order generalizing mem with
  | nil => rfl
  | cons f order ih =>
      have hsize := h.size f
      have hroom := h.room f
      unfold storeAll at ih ⊢
      rw [List.foldl_cons, ih (h.writeAt f), writeAt_length (by omega)]

/-- A field that is not stored to any more stays as it is. -/
theorem readAt_storeAll_of_not_mem {d : Decl φ} {val : φ → Bytes} {order : List φ} {mem : Bytes}
    (h : Fits d val mem) {f : φ} (hf : f ∉ order) :
    readAt (storeAll d val order mem) (offset d f) (val f).length
      = readAt mem (offset d f) (val f).length := by
  induction order generalizing mem with
  | nil => rfl
  | cons g order ih =>
      have hgf : g ≠ f := fun heq => hf (heq ▸ List.mem_cons_self)
      have hdisj := placeFrom_disjoint hgf d.align_pos (h.mem_fields g) (h.mem_fields f) 0
      change offset d g + fieldSize d g ≤ offset d f ∨ offset d f + fieldSize d f ≤ offset d g at hdisj
      have hsize := h.size g
      have hsize' := h.size f
      have hroom := h.room g
      unfold storeAll at ih ⊢
      rw [List.foldl_cons, ih (h.writeAt g) (fun hmem => hf (List.mem_cons_of_mem g hmem)),
        readAt_writeAt_of_disjoint (by omega) (by omega)]

/-- **After a store to every field, each one has its value.** -/
theorem readAt_storeAll {d : Decl φ} {val : φ → Bytes} {order : List φ} {mem : Bytes}
    (h : Fits d val mem) {f : φ} (hf : f ∈ order) :
    readAt (storeAll d val order mem) (offset d f) (val f).length = val f := by
  induction order generalizing mem with
  | nil => exact absurd hf List.not_mem_nil
  | cons g order ih =>
      have hcons : storeAll d val (g :: order) mem
          = storeAll d val order (TestCore.Lib.writeAt mem (offset d g) (val g)) := rfl
      rw [hcons]
      by_cases hmem : f ∈ order
      · exact ih (h.writeAt g) hmem
      · obtain rfl : f = g := (List.mem_cons.mp hf).resolve_right hmem
        have hroom := h.room f
        rw [readAt_storeAll_of_not_mem (h.writeAt f) hmem, readAt_writeAt (by omega)]

end Layout

end TestCore.Lib
