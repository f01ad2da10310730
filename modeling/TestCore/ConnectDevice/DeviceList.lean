/-
The list of devices on `eth0` and the array it is read into (`eth0_connect_device.c`).

`counter_eth0_device` is to say how many devices there are, and the array is made that large. It
compares every second byte of the file with a newline. `get_eth0_device` reads the file line by line
and stores an entry for each line. So the array has the right size only if the newlines are where the
first function looks (`device_array_fits_iff`). For a list of whole lines this means that it misses
exactly one of them (`entriesFit_of_lines`).
-/
import TestCore.Lib.Memory
import TestCore.Lib.Search
import Mathlib.Tactic.Linarith

set_option autoImplicit false

namespace TestCore.ConnectDevice

open TestCore.Lib

/-! ## The functions -/

/-- A number in an `int`. -/
def int (n : ℤ) : ℤ := Int.bmod n (2 ^ 32)

/-- The loop over the file. Two calls of `getc` in a turn: the end of the file may come at either. -/
def counter_eth0_device.count : Bytes → ℤ → ℤ
  | [], cap => cap
  | [_], cap => cap
  | _ :: c :: fp, cap => counter_eth0_device.count fp (if c = 10 then int (cap + 1) else cap)

def counter_eth0_device (iplist : Bytes) : ℤ :=
  if int iplist.length = 0 then -1 else int (counter_eth0_device.count iplist 0 + 1)

/-- What `fgets` reads, one text after the other, if at most `most` bytes fit. For the first of them,
`left` bytes are left. -/
def fgetsAll (most : ℕ) (left : ℕ) : Bytes → List Bytes
  | [] => []
  | c :: fp =>
      if c = 10 ∨ left ≤ 1 then [c] :: fgetsAll most most fp
      else
        match fgetsAll most (left - 1) fp with
        | [] => [[c]]
        | l :: ls => (c :: l) :: ls

/-- The texts in `buf`, which has 40 bytes, turn after turn. -/
def reads (iplist : Bytes) : List Bytes := fgetsAll 39 39 iplist

def sizeofEntry : ℕ := 104
def offsetofMac : ℕ := 20
def offsetofName : ℕ := 40

/-- The count of the second `memcpy` of a turn. It is a `size_t`. -/
def macCount (point : ℕ) : ℕ := (point + (2 ^ 64 - 2)) % 2 ^ 64

/-- What the loop of `get_eth0_device` stores in the array from the entry `i` on: offsets and counts.
A text without a space ends it. (`i` is an `int`, but before it has no more room for `i`, the array
has none.) -/
def get_eth0_device.touched : ℕ → List Bytes → List (ℕ × ℕ)
  | _, [] => []
  | i, buf :: fp =>
      (sizeofEntry * i, 20) :: (sizeofEntry * i, 20) ::
        match findSub [32] (cstr buf) with
        | none => []
        | some n =>
            (sizeofEntry * i, n) :: (sizeofEntry * i + offsetofMac, macCount ((cstr buf).length - n)) ::
              get_eth0_device.touched (i + 1) fp

/-- The number of entries that the loop fills, if it gets to the end of the file. -/
def get_eth0_device.filled : List Bytes → Option ℕ
  | [] => some 0
  | buf :: fp =>
      match findSub [32] (cstr buf) with
      | none => none
      | some _ => (get_eth0_device.filled fp).map (· + 1)

/-! ## What is asked for -/

/-- `main` goes on if the number is not negative. Then everything is stored inside the array, and if
`get_eth0_device` gets to the loop over the entries, which needs the other file, all of them are
filled. -/
def DeviceArrayFits (iplist : Bytes) (leaseOpens : Bool) : Prop :=
  ∀ cap : ℕ, counter_eth0_device iplist = cap →
    (∀ r ∈ get_eth0_device.touched 0 (reads iplist), 0 < r.2 → r.1 + r.2 ≤ sizeofEntry * cap) ∧
      (leaseOpens = true → ∀ filled, get_eth0_device.filled (reads iplist) = some filled →
        ∀ i < cap, i < filled)

/-! ## The condition -/

/-- The newlines at odd offsets, where the first byte has the offset 0. -/
def oddNewlines : Bytes → ℕ
  | [] => 0
  | [_] => 0
  | _ :: c :: s => oddNewlines s + if c = 10 then 1 else 0

def Spaced (buf : Bytes) : Prop := 32 ∈ cstr buf

instance (buf : Bytes) : Decidable (Spaced buf) := inferInstanceAs (Decidable (32 ∈ _))

/-- Nothing comes behind the first space. -/
def EndsInSpace (buf : Bytes) : Prop := ∃ ip, 32 ∉ ip ∧ cstr buf = ip ++ [32]

/-- The texts up to the first one without a space. -/
def upToUnspaced : List Bytes → List Bytes
  | [] => []
  | buf :: fp => buf :: if Spaced buf then upToUnspaced fp else []

/-- The number of devices for which there would be room. -/
def room (iplist : Bytes) : ℕ := (oddNewlines iplist + 1) % 2 ^ 32

/-- The file has no size, or no room, that is positive as an `int`. -/
def NoCount (iplist : Bytes) : Prop := iplist.length % 2 ^ 32 = 0 ∨ 2 ^ 31 ≤ room iplist

/-- There is room for each text, and if all of them have a space, for no more. -/
def EntriesFit (iplist : Bytes) (leaseOpens : Bool) : Prop :=
  (∀ buf ∈ upToUnspaced (reads iplist), ¬ EndsInSpace buf) ∧
    (upToUnspaced (reads iplist)).length ≤ room iplist ∧
    (leaseOpens = true → (∀ buf ∈ reads iplist, Spaced buf) → room iplist ≤ (reads iplist).length)

/-! ## The number -/

theorem int_eq (n : ℕ) :
    int n = if n % 2 ^ 32 < 2 ^ 31 then ((n % 2 ^ 32 : ℕ) : ℤ) else ((n % 2 ^ 32 : ℕ) : ℤ) - 2 ^ 32 := by
  unfold int
  rw [Int.bmod_def]
  push_cast
  split_ifs <;> omega

theorem int_int_add (n m : ℤ) : int (int n + m) = int (n + m) := Int.bmod_add_bmod

theorem count_eq (iplist : Bytes) (n : ℤ) :
    int (counter_eth0_device.count iplist n + 1) = int (n + oddNewlines iplist + 1) := by
  induction iplist using oddNewlines.induct generalizing n with
  | case1 => simp [counter_eth0_device.count, oddNewlines]
  | case2 c => simp [counter_eth0_device.count, oddNewlines]
  | case3 b c s ih =>
      rw [counter_eth0_device.count, oddNewlines, ih]
      by_cases hc : c = 10
      · rw [if_pos hc, if_pos hc, add_assoc, int_int_add]
        congr 1
        push_cast
        ring
      · rw [if_neg hc, if_neg hc, Nat.add_zero]

theorem counter_eq_natCast_iff (iplist : Bytes) (cap : ℕ) :
    counter_eth0_device iplist = cap ↔ ¬ NoCount iplist ∧ room iplist = cap := by
  have hroom : room iplist < 2 ^ 32 := Nat.mod_lt _ (by decide)
  have hcount : int (counter_eth0_device.count iplist 0 + 1) =
      if room iplist < 2 ^ 31 then (room iplist : ℤ) else (room iplist : ℤ) - 2 ^ 32 := by
    rw [count_eq, zero_add]
    exact int_eq (oddNewlines iplist + 1)
  have hsize : int iplist.length = 0 ↔ iplist.length % 2 ^ 32 = 0 := by
    rw [int_eq]
    split_ifs <;> omega
  unfold counter_eth0_device NoCount
  rw [hcount]
  by_cases h0 : iplist.length % 2 ^ 32 = 0
  · -- Without a size the function says -1, which is no number of devices.
    rw [if_pos (hsize.mpr h0)]
    exact iff_of_false (by omega) (fun h => h.1 (Or.inl h0))
  · rw [if_neg (mt hsize.mp h0)]
    split_ifs <;> omega

/-! ## The entries -/

/-- The first text has at most `left` bytes, and the others `most`. -/
theorem fgetsAll_eq_cons {most : ℕ} (hpos : 1 ≤ most) {left : ℕ} (hleft : 1 ≤ left) {fp : Bytes}
    {l : Bytes} {ls : List Bytes} (h : fgetsAll most left fp = l :: ls) :
    l.length ≤ left ∧ ∀ buf ∈ ls, buf.length ≤ most := by
  induction fp generalizing left l ls with
  | nil => cases h
  | cons c fp ih =>
      rw [fgetsAll] at h
      split_ifs at h with hc
      · rcases hrest : fgetsAll most most fp with _ | ⟨l', ls'⟩
        · rw [hrest] at h
          cases h
          exact ⟨hleft, nofun⟩
        · rw [hrest] at h
          cases h
          exact ⟨hleft, List.forall_mem_cons.mpr (ih hpos hrest)⟩
      · push Not at hc
        rcases hrest : fgetsAll most (left - 1) fp with _ | ⟨l', ls'⟩
        · rw [hrest] at h
          cases h
          exact ⟨hleft, nofun⟩
        · rw [hrest] at h
          cases h
          obtain ⟨hl, hls⟩ := ih (by omega) hrest
          refine ⟨?_, hls⟩
          rw [List.length_cons]
          omega

theorem reads_length_le (iplist : Bytes) : ∀ buf ∈ reads iplist, buf.length ≤ 39 := by
  intro buf hbuf
  unfold reads at hbuf
  rcases hreads : fgetsAll 39 39 iplist with _ | ⟨l, ls⟩
  · rw [hreads] at hbuf
    cases hbuf
  · obtain ⟨hl, hls⟩ := fgetsAll_eq_cons (by decide) (by decide) hreads
    rw [hreads] at hbuf
    rcases List.mem_cons.mp hbuf with rfl | hbuf
    · exact hl
    · exact hls buf hbuf

theorem macCount_one : macCount 1 = 2 ^ 64 - 1 := by decide

theorem macCount_add_two {n : ℕ} (h : n < 2 ^ 64) : macCount (n + 2) = n := by
  unfold macCount
  omega

/-- Where the space is, and what comes behind it. -/
theorem findSub_space {buf : Bytes} {n : ℕ} (h : findSub [32] (cstr buf) = some n) :
    Spaced buf ∧ n < (cstr buf).length ∧ (EndsInSpace buf ↔ (cstr buf).length - n = 1) := by
  have hspaced : Spaced buf := by
    by_contra hno
    rw [findSub_singleton_eq_none.mpr hno] at h
    cases h
  obtain ⟨hlt, hbefore⟩ := findSub_singleton_eq_some h
  obtain ⟨-, hpre, -⟩ := findSub_eq_some.mp h
  refine ⟨hspaced, hlt, ?_, ?_⟩
  · rintro ⟨ip, hip, heq⟩
    rw [heq, findSub_singleton hip] at h
    rw [heq, ← Option.some.inj h, List.length_append, List.length_singleton]
    omega
  · intro hlen
    refine ⟨(cstr buf).take n, hbefore, ?_⟩
    obtain ⟨t, ht⟩ := hpre
    have hrest : t = [] := by
      have := congrArg List.length ht
      rw [List.length_append, List.length_drop, List.length_singleton] at this
      exact List.length_eq_zero_iff.mp (by omega)
    rw [hrest, List.append_nil] at ht
    rw [ht, List.take_append_drop]

/-- What a text stores stays in its entry, unless the text ends with its first space. -/
theorem touched_iff {fp : List Bytes} (hfp : ∀ buf ∈ fp, buf.length ≤ 39) {cap : ℕ}
    (hcap : cap < 2 ^ 32) {i : ℕ} (hi : i ≤ cap) :
    (∀ r ∈ get_eth0_device.touched i fp, 0 < r.2 → r.1 + r.2 ≤ sizeofEntry * cap) ↔
      (∀ buf ∈ upToUnspaced fp, ¬ EndsInSpace buf) ∧ i + (upToUnspaced fp).length ≤ cap := by
  induction fp generalizing i with
  | nil => simpa [get_eth0_device.touched, upToUnspaced] using hi
  | cons buf fp ih =>
      have hbuf := hfp buf List.mem_cons_self
      have hshort : (cstr buf).length ≤ buf.length := (List.takeWhile_prefix _).length_le
      rw [get_eth0_device.touched, upToUnspaced, List.length_cons]
      unfold sizeofEntry offsetofMac at *
      by_cases hlt : i < cap
      · rw [List.forall_mem_cons, List.forall_mem_cons, List.forall_mem_cons]
        rcases hfind : findSub [32] (cstr buf) with _ | n
        · have hno : ¬ Spaced buf := findSub_singleton_eq_none.mp hfind
          have hends : ¬ EndsInSpace buf := by
            rintro ⟨ip, -, heq⟩
            apply hno
            unfold Spaced
            rw [heq]
            simp
          rw [if_neg hno]
          constructor
          · exact fun _ => ⟨by simpa using hends, hlt⟩
          · exact fun _ => ⟨by intro; omega, by intro; omega, nofun⟩
        · obtain ⟨hspaced, hn, hends⟩ := findSub_space hfind
          have hrest := ih (fun b hb => hfp b (List.mem_cons_of_mem buf hb)) (i := i + 1) hlt
          rw [if_pos hspaced]
          dsimp only
          rw [List.forall_mem_cons, List.forall_mem_cons, hrest, hends]
          dsimp only
          by_cases hone : (cstr buf).length - n = 1
          · -- Nothing is behind the space, not even a newline: the count is below zero, and fits nowhere.
            rw [hone, macCount_one]
            omega
          · -- A text has 39 bytes at most, so all of it stays in its entry.
            obtain ⟨k, hk⟩ : ∃ k, (cstr buf).length - n = k + 2 := ⟨(cstr buf).length - n - 2, by omega⟩
            rw [hk, macCount_add_two (by omega)]
            constructor
            · rintro ⟨-, -, -, -, hall, hroom⟩
              exact ⟨⟨by omega, hall⟩, by omega⟩
            · rintro ⟨⟨-, hall⟩, hroom⟩
              exact ⟨by intro; omega, by intro; omega, by intro; omega, by intro; omega, hall, by omega⟩
      · -- There is no entry left, and the first thing that a turn does is to clear one.
        constructor
        · intro h
          have hfirst := h (104 * i, 20) List.mem_cons_self Nat.ofNat_pos
          dsimp only at hfirst
          omega
        · rintro ⟨-, hroom⟩
          omega

/-- All texts fill an entry, or the function ends before. -/
theorem filled_eq (fp : List Bytes) :
    get_eth0_device.filled fp = if ∀ buf ∈ fp, Spaced buf then some fp.length else none := by
  induction fp with
  | nil => rfl
  | cons buf fp ih =>
      rw [get_eth0_device.filled, ih]
      rcases hfind : findSub [32] (cstr buf) with _ | n
      · have hno : ¬ Spaced buf := findSub_singleton_eq_none.mp hfind
        rw [if_neg fun h : ∀ b ∈ buf :: fp, Spaced b => hno (h buf List.mem_cons_self)]
      · have hspaced := (findSub_space hfind).1
        simp only [List.forall_mem_cons, hspaced, true_and]
        split_ifs <;> rfl

/-- **When the array is large enough and full.** -/
theorem device_array_fits_iff (iplist : Bytes) (leaseOpens : Bool) :
    DeviceArrayFits iplist leaseOpens ↔ NoCount iplist ∨ EntriesFit iplist leaseOpens := by
  have hroom : room iplist < 2 ^ 32 := Nat.mod_lt _ (by decide)
  have htouched := touched_iff (reads_length_le iplist) hroom (Nat.zero_le _)
  rw [Nat.zero_add] at htouched
  have hfilled : (∀ filled, get_eth0_device.filled (reads iplist) = some filled →
      ∀ i < room iplist, i < filled) ↔
      ((∀ buf ∈ reads iplist, Spaced buf) → room iplist ≤ (reads iplist).length) := by
    rw [filled_eq]
    constructor
    · intro h hspaced
      by_contra! hlt
      exact absurd (h _ (if_pos hspaced) _ hlt) (Nat.lt_irrefl _)
    · intro h filled hfilled i hi
      by_cases hspaced : ∀ buf ∈ reads iplist, Spaced buf
      · rw [if_pos hspaced] at hfilled
        cases hfilled
        exact hi.trans_le (h hspaced)
      · rw [if_neg hspaced] at hfilled
        cases hfilled
  unfold DeviceArrayFits EntriesFit
  simp only [counter_eq_natCast_iff]
  by_cases hno : NoCount iplist
  · exact iff_of_true (fun cap hcap => absurd hno hcap.1) (Or.inl hno)
  · rw [or_iff_right hno, ← and_assoc, ← htouched, ← hfilled]
    constructor
    · exact fun h => h _ ⟨hno, rfl⟩
    · rintro h cap ⟨-, rfl⟩
      exact h

/-- Two lines, with both newlines at even offsets. -/
def twoDevices : Bytes := bytes "192.168.1.10 a0:48:1c:95:ca:58\n192.168.1.2 a0:48:1c:95:ca:59\n"

/-- There is room for one of them. -/
theorem device_array_overflows : ¬ ∀ iplist leaseOpens, iplist ≠ [] →
    (∀ l ∈ lines iplist, l.length < 40) → DeviceArrayFits iplist leaseOpens := by
  intro h
  obtain ⟨hstores, -⟩ := h twoDevices true (by decide) (by decide) 1 (by decide)
  exact absurd (hstores (104, 20) (by decide) (by decide)) (by decide)

/-! ## Lists of whole lines -/

/-- The newlines at even offsets, which `counter_eth0_device` misses. -/
def evenNewlines : Bytes → ℕ
  | [] => 0
  | [c] => if c = 10 then 1 else 0
  | c :: _ :: s => evenNewlines s + if c = 10 then 1 else 0

/-- A line that `fgets` reads at once, with the space that is looked for. -/
structure DeviceLine (l : Bytes) : Prop where
  spaced : 32 ∈ l
  one_line : 10 ∉ l
  nulFree : NulFree l
  length_lt : l.length < 39

def listOf (ls : List Bytes) : Bytes := (ls.map (· ++ [10])).flatten

theorem oddNewlines_add_evenNewlines (s : Bytes) : oddNewlines s + evenNewlines s = s.count 10 := by
  induction s using oddNewlines.induct with
  | case1 => rfl
  | case2 c =>
      rw [oddNewlines, evenNewlines, List.count_singleton, Nat.zero_add]
      simp
  | case3 b c s ih =>
      rw [oddNewlines, evenNewlines, List.count_cons, List.count_cons, ← ih]
      simp only [beq_iff_eq]
      omega

theorem count_listOf {ls : List Bytes} (hls : ∀ l ∈ ls, DeviceLine l) :
    (listOf ls).count 10 = ls.length := by
  induction ls with
  | nil => rfl
  | cons l ls ih =>
      have hl := hls l List.mem_cons_self
      have hrest := ih fun x hx => hls x (List.mem_cons_of_mem l hx)
      unfold listOf at hrest ⊢
      rw [List.map_cons, List.flatten_cons, List.count_append, List.count_append, hrest,
        List.count_eq_zero_of_not_mem hl.one_line, List.count_singleton_self, List.length_cons]
      omega

theorem fgetsAll_line {most left : ℕ} {l : Bytes} (hl : 10 ∉ l) (hlen : l.length < left) (fp : Bytes) :
    fgetsAll most left (l ++ 10 :: fp) = (l ++ [10]) :: fgetsAll most most fp := by
  induction l generalizing left with
  | nil => rw [List.nil_append, fgetsAll, if_pos (Or.inl rfl), List.nil_append]
  | cons c l ih =>
      rw [List.mem_cons, not_or] at hl
      rw [List.length_cons] at hlen
      have hc : ¬ (c = 10 ∨ left ≤ 1) := not_or.mpr ⟨Ne.symm hl.1, by omega⟩
      rw [List.cons_append, fgetsAll, if_neg hc, ih hl.2 (by omega)]
      rfl

theorem reads_listOf {ls : List Bytes} (hls : ∀ l ∈ ls, DeviceLine l) :
    reads (listOf ls) = ls.map (· ++ [10]) := by
  induction ls with
  | nil => rfl
  | cons l ls ih =>
      have hl := hls l List.mem_cons_self
      have hrest := ih fun x hx => hls x (List.mem_cons_of_mem l hx)
      unfold reads listOf at hrest ⊢
      rw [List.map_cons, List.flatten_cons, List.append_assoc, List.singleton_append,
        fgetsAll_line hl.one_line hl.length_lt, hrest]

theorem upToUnspaced_of_spaced {fp : List Bytes} (h : ∀ buf ∈ fp, Spaced buf) : upToUnspaced fp = fp := by
  induction fp with
  | nil => rfl
  | cons buf fp ih =>
      rw [upToUnspaced, if_pos (h buf List.mem_cons_self),
        ih fun x hx => h x (List.mem_cons_of_mem buf hx)]

theorem cstr_deviceLine {l : Bytes} (hl : DeviceLine l) : cstr (l ++ [10]) = l ++ [10] :=
  cstr_of_nulFree (hl.nulFree.append (NulFree.cons (by decide) nofun))

/-- **A list of whole lines fits** exactly if one newline is at an even offset, or without the other
file, if one is at most. -/
theorem entriesFit_of_lines {ls : List Bytes} (hls : ∀ l ∈ ls, DeviceLine l)
    (hsize : (listOf ls).length < 2 ^ 31) (leaseOpens : Bool) :
    EntriesFit (listOf ls) leaseOpens ↔ evenNewlines (listOf ls) ≤ 1 ∧
      (leaseOpens = true → evenNewlines (listOf ls) = 1) := by
  have hspaced : ∀ buf ∈ reads (listOf ls), Spaced buf := by
    rw [reads_listOf hls]
    intro buf hbuf
    obtain ⟨l, hl, rfl⟩ := List.mem_map.mp hbuf
    unfold Spaced
    rw [cstr_deviceLine (hls l hl)]
    exact List.mem_append_left _ (hls l hl).spaced
  have hends : ∀ buf ∈ reads (listOf ls), ¬ EndsInSpace buf := by
    rw [reads_listOf hls]
    intro buf hbuf
    obtain ⟨l, hl, rfl⟩ := List.mem_map.mp hbuf
    rintro ⟨ip, -, heq⟩
    rw [cstr_deviceLine (hls l hl)] at heq
    exact absurd (List.append_inj_right' heq rfl) (by decide)
  have hcount := oddNewlines_add_evenNewlines (listOf ls)
  have hlen : (reads (listOf ls)).length = ls.length := by rw [reads_listOf hls, List.length_map]
  have hle := List.count_le_length (a := (10 : UInt8)) (l := listOf ls)
  rw [count_listOf hls] at hcount hle
  have hroom : room (listOf ls) = oddNewlines (listOf ls) + 1 := Nat.mod_eq_of_lt (by omega)
  unfold EntriesFit
  rw [upToUnspaced_of_spaced hspaced, hlen, hroom]
  constructor
  · rintro ⟨-, hfits, hfull⟩
    exact ⟨by omega, fun hopens => by have := hfull hopens hspaced; omega⟩
  · rintro ⟨hmost, hone⟩
    exact ⟨hends, by omega, fun hopens _ => by have := hone hopens; omega⟩

end TestCore.ConnectDevice
