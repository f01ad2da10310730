/-
Byte strings as C sees them.

A C string is a pointer, and everything the library does with it stops at the
first zero byte. Here a buffer is a list of bytes and `cstr` reads the string it
starts with, so a definition that follows a `char *` through a buffer keeps both
views apart: the bytes that were written, and the bytes a reader of the string
gets to see. `strncpy`, `strtok` and `strstr` are the three library functions
whose corner cases carry weight (no terminator when the source is too long, empty
tokens skipped, substring anywhere).

Nothing here names a program. The facts are the ones the proofs above use: how
`cstr` and `strtok` act on an append, and what a fixed-size slot reads back as.
-/
import Mathlib

set_option autoImplicit false

namespace TestCore.Lib

/-- A buffer: the bytes, without any terminator implied. -/
abbrev Bytes := List UInt8

/-- Buffers are compared byte by byte. -/
instance instLawfulBEqBytes : LawfulBEq Bytes := inferInstance

/-- What all bytes of a buffer have is decided by going through the buffer; the instance for finite types
would go through all 256 bytes. -/
instance instDecidableForallBytes (p : UInt8 → Prop) [DecidablePred p] (b : Bytes) :
    Decidable (∀ c ∈ b, p c) :=
  List.decidableBAll p b

instance instDecidableForallByte (p : UInt8 → Prop) [DecidablePred p] (o : Option UInt8) :
    Decidable (∀ c ∈ o, p c) :=
  Option.decidableForallMem o

/-- The bytes of an ASCII literal. -/
def bytes (s : String) : Bytes := s.toList.map fun c => UInt8.ofNat c.toNat

/-! ## Reading a string out of a buffer -/

/-- The C string a buffer starts with: everything before its first zero byte. -/
def cstr (b : Bytes) : Bytes := b.takeWhile (· ≠ 0)

/-- No byte of the string is the terminator. -/
def NulFree (b : Bytes) : Prop := ∀ c ∈ b, c ≠ 0

instance (b : Bytes) : Decidable (NulFree b) := inferInstanceAs (Decidable (∀ c ∈ b, c ≠ 0))

theorem nulFree_iff {b : Bytes} : NulFree b ↔ 0 ∉ b :=
  ⟨fun h hmem => h 0 hmem rfl, fun h _ hc => ne_of_mem_of_not_mem hc h⟩

theorem cstr_nulFree (b : Bytes) : NulFree (cstr b) := by
  intro c hc
  simpa using List.mem_takeWhile_imp hc

/-- A string without a zero byte is read up to wherever the bytes after it stop. -/
theorem cstr_append {a : Bytes} (ha : NulFree a) (b : Bytes) : cstr (a ++ b) = a ++ cstr b := by
  unfold cstr
  rw [List.takeWhile_append_of_pos]
  intro c hc
  simpa using ha c hc

theorem cstr_of_nulFree {a : Bytes} (ha : NulFree a) : cstr a = a := by
  have h := cstr_append ha []
  simpa [cstr] using h

@[simp] theorem cstr_zero_cons (b : Bytes) : cstr (0 :: b) = [] := by simp [cstr]

theorem cstr_cons {c : UInt8} (hc : c ≠ 0) (b : Bytes) : cstr (c :: b) = c :: cstr b := by
  simp [cstr, hc]

@[simp] theorem cstr_nil : cstr [] = [] := rfl

theorem NulFree.append {a b : Bytes} (ha : NulFree a) (hb : NulFree b) : NulFree (a ++ b) := by
  intro c hc
  rcases List.mem_append.mp hc with h | h
  · exact ha c h
  · exact hb c h

theorem NulFree.cons {c : UInt8} (hc : c ≠ 0) {b : Bytes} (hb : NulFree b) : NulFree (c :: b) := by
  intro d hd
  rcases List.mem_cons.mp hd with rfl | hd
  · exact hc
  · exact hb d hd

/-- The two sides of a separator. -/
theorem NulFree.split {a b : Bytes} {c : UInt8} (h : NulFree (a ++ c :: b)) :
    NulFree a ∧ NulFree b :=
  ⟨fun d hd => h d (List.mem_append_left _ hd),
    fun d hd => h d (List.mem_append_right a (List.mem_cons_of_mem c hd))⟩

theorem NulFree.take {a : Bytes} (ha : NulFree a) (n : ℕ) : NulFree (a.take n) :=
  fun c hc => ha c (List.mem_of_mem_take hc)

/-- A string ends before its terminator. -/
theorem cstr_length_lt {b : Bytes} {n : ℕ} (h : 0 ∈ b.take n) : (cstr b).length < n := by
  by_contra hle
  have hpre : cstr b <+: b := List.takeWhile_prefix _
  have htake : b.take n = (cstr b).take n := by
    obtain ⟨t, ht⟩ := hpre
    conv_lhs => rw [← ht]
    exact List.take_append_of_le_length (by omega)
  rw [htake] at h
  exact cstr_nulFree b 0 (List.mem_of_mem_take h) rfl

/-- The string ends where the buffer ends, or at a zero byte. -/
theorem cstr_split (b : Bytes) : b = cstr b ∨ ∃ rest, b = cstr b ++ 0 :: rest := by
  induction b with
  | nil => exact Or.inl rfl
  | cons c b ih =>
      by_cases hc : c = 0
      · right
        refine ⟨b, ?_⟩
        rw [hc, cstr_zero_cons, List.nil_append]
      · rw [cstr_cons hc b]
        rcases ih with hb | ⟨rest, hb⟩
        · exact Or.inl (congrArg (c :: ·) hb)
        · exact Or.inr ⟨rest, congrArg (c :: ·) hb⟩

/-- The tail of a string. -/
theorem cstr_drop {b : Bytes} {k : ℕ} (h : k ≤ (cstr b).length) : cstr (b.drop k) = (cstr b).drop k := by
  have hnul : NulFree ((cstr b).drop k) := fun c hc => cstr_nulFree b c (List.mem_of_mem_drop hc)
  rcases cstr_split b with hb | ⟨rest, hb⟩
  · rw [← hb] at hnul ⊢
    exact cstr_of_nulFree hnul
  · conv_lhs => rw [hb]
    rw [List.drop_append_of_le_length h, cstr_append hnul, cstr_zero_cons, List.append_nil]

/-- Nothing behind a terminator belongs to the string. -/
theorem cstr_append_zero_cons (b behind : Bytes) : cstr (b ++ 0 :: behind) = cstr b := by
  have hnul := cstr_nulFree b
  rcases cstr_split b with hb | ⟨rest, hb⟩
  · rw [hb, cstr_append hnul, cstr_zero_cons, List.append_nil, ← hb, ← hb]
  · rw [hb, List.append_assoc, cstr_append hnul, cstr_append hnul, List.cons_append, cstr_zero_cons,
      cstr_zero_cons]

theorem cstr_append_zero (b : Bytes) : cstr (b ++ [0]) = cstr b := cstr_append_zero_cons b []

/-! ## Fixed-size slots

`strncpy(dst, src, n)` writes exactly `n` bytes: the source cut at `n`, padded
with zeros when it is shorter. When the source has `n` bytes or more there is no
terminator in the slot, and a reader runs on into whatever lies behind it. -/

/-- What `strncpy(dst, src, n)` leaves in an `n`-byte slot. -/
def strncpy (src : Bytes) (n : ℕ) : Bytes := src.take n ++ List.replicate (n - src.length) 0

/-- The string read from an `n`-byte slot that is followed by the bytes `after`. -/
def slotStr (slot after : Bytes) : Bytes := cstr (slot ++ after)

/-- A source that fits with its terminator is read back unchanged, whatever
follows the slot. -/
theorem slotStr_strncpy_fits {src : Bytes} {n : ℕ} (hsrc : NulFree src) (hlen : src.length < n)
    (after : Bytes) : slotStr (strncpy src n) after = src := by
  unfold slotStr strncpy
  rw [List.take_of_length_le (le_of_lt hlen), List.append_assoc, cstr_append hsrc]
  obtain ⟨m, hm⟩ : ∃ m, n - src.length = m + 1 := ⟨n - src.length - 1, by omega⟩
  rw [hm, List.replicate_succ, List.cons_append, cstr_zero_cons, List.append_nil]

/-- A source that fills the slot is read as its first `n` bytes and then whatever
follows the slot. -/
theorem slotStr_strncpy_full {src : Bytes} {n : ℕ} (hsrc : NulFree src) (hlen : n ≤ src.length)
    (after : Bytes) : slotStr (strncpy src n) after = src.take n ++ cstr after := by
  unfold slotStr strncpy
  rw [Nat.sub_eq_zero_of_le hlen, List.replicate_zero, List.append_nil,
    cstr_append (hsrc.take n)]

/-! ## `strtok`

Runs of delimiters count as one and leading ones are skipped, so no token is
empty. -/

section Strtok

variable {α : Type*}

/-- The tokens `strtok` hands out, in order. -/
def strtok (p : α → Bool) (l : List α) : List (List α) :=
  (l.splitOnP p).filter fun t => !t.isEmpty

@[simp] theorem strtok_nil (p : α → Bool) : strtok p ([] : List α) = [] := rfl

/-- A delimiter separates: the tokens of both sides, one after the other. -/
theorem strtok_append_cons (p : α → Bool) (a b : List α) {d : α} (hd : p d = true) :
    strtok p (a ++ d :: b) = strtok p a ++ strtok p b := by
  unfold strtok
  rw [List.splitOnP_append_cons a b hd, List.filter_append]

/-- A text without a delimiter is one token. -/
theorem strtok_singleton (p : α → Bool) {l : List α} (hl : ∀ x ∈ l, p x = false) (hne : l ≠ []) :
    strtok p l = [l] := by
  unfold strtok
  rw [List.splitOnP_eq_singleton hl]
  simp [hne]

/-- A token is a part of the text, not empty and without a delimiter. -/
theorem strtok_mem (p : α → Bool) {l t : List α} (ht : t ∈ strtok p l) :
    t ≠ [] ∧ t <:+: l ∧ ∀ x ∈ t, p x = false := by
  induction hn : l.length using Nat.strong_induction_on generalizing l with
  | _ n ih =>
      by_cases hall : ∀ x ∈ l, p x = false
      · unfold strtok at ht
        rw [List.splitOnP_eq_singleton hall] at ht
        obtain ⟨hmem, hne⟩ := List.mem_filter.mp ht
        rw [List.mem_singleton.mp hmem] at hne ⊢
        exact ⟨by simpa using hne, List.infix_rfl, hall⟩
      · -- The tokens are those of the two sides of a delimiter.
        obtain ⟨d, hd, hpd⟩ : ∃ d ∈ l, p d = true := by simpa using hall
        obtain ⟨a, b, rfl⟩ := List.append_of_mem hd
        rw [List.length_append, List.length_cons] at hn
        rw [strtok_append_cons p a b hpd, List.mem_append] at ht
        rcases ht with ha | hb
        · obtain ⟨hne, hin, hnone⟩ := ih a.length (by omega) ha rfl
          exact ⟨hne, hin.trans (List.prefix_append a (d :: b)).isInfix, hnone⟩
        · obtain ⟨hne, hin, hnone⟩ := ih b.length (by omega) hb rfl
          have hsuffix : b <:+ a ++ d :: b := (List.suffix_cons d b).trans (List.suffix_append a (d :: b))
          exact ⟨hne, hin.trans hsuffix.isInfix, hnone⟩

variable [DecidableEq α]

/-- There is at most one token more than there are delimiters. If there is, the text is nothing but
the tokens with a delimiter between two of them. -/
theorem strtok_full (d : α) (l : List α) :
    (strtok (· = d) l).length ≤ l.count d + 1 ∧
      ((strtok (· = d) l).length = l.count d + 1 → [d].intercalate (strtok (· = d) l) = l) := by
  induction hn : l.length using Nat.strong_induction_on generalizing l with
  | _ n ih =>
      have hplain : ∀ a : List α, d ∉ a → strtok (· = d) a = if a = [] then [] else [a] := by
        intro a ha
        by_cases hempty : a = []
        · rw [if_pos hempty, hempty]
          rfl
        · rw [if_neg hempty]
          refine strtok_singleton _ (fun x hx => ?_) hempty
          rw [decide_eq_false_iff_not]
          rintro rfl
          exact ha hx
      by_cases hd : d ∈ l
      · -- The part before the first delimiter is one token or none.
        obtain ⟨a, b, rfl, ha⟩ := List.eq_append_cons_of_mem hd
        rw [List.length_append, List.length_cons] at hn
        obtain ⟨hle, hfull⟩ := ih b.length (by omega) b rfl
        have hcount : (a ++ d :: b).count d = b.count d + 1 := by
          rw [List.count_append, List.count_eq_zero.mpr ha, List.count_cons_self, Nat.zero_add]
        rw [strtok_append_cons _ a b (by simp), hplain a ha, hcount]
        by_cases hempty : a = []
        · rw [if_pos hempty, List.nil_append]
          exact ⟨by omega, fun h => by omega⟩
        · rw [if_neg hempty, List.singleton_append, List.length_cons]
          refine ⟨by omega, fun h => ?_⟩
          have hb := hfull (by omega)
          have hne : strtok (· = d) b ≠ [] := by
            intro h0
            rw [h0, List.length_nil] at h
            omega
          rw [List.intercalate_cons_of_ne_nil hne, hb, List.append_assoc, List.singleton_append]
      · rw [hplain l hd, List.count_eq_zero.mpr hd]
        by_cases hempty : l = []
        · rw [if_pos hempty, hempty]
          exact ⟨Nat.zero_le _, nofun⟩
        · rw [if_neg hempty]
          exact ⟨le_rfl, fun _ => List.intercalate_singleton⟩

end Strtok

/-! ## `strstr` and prefix comparison -/

/-- `strstr(hay, needle) != NULL`. -/
def strstr (hay needle : Bytes) : Bool := decide (needle <:+: hay)

/-- `strncmp(prefix, s, strlen(prefix)) == 0`, and `memcmp` over the same length
on a string that is at least as long or ends earlier in its terminator. -/
def startsWith (s pre : Bytes) : Bool := decide (pre <+: s)

@[simp] theorem startsWith_eq_true {s pre : Bytes} : startsWith s pre = true ↔ pre <+: s := by
  simp [startsWith]

/-! ## `strcmp` -/

/-- `strcmp`, of strings without their terminators. Only the sign is meant. -/
def strcmp : Bytes → Bytes → ℤ
  | [], [] => 0
  | [], _ :: _ => -1
  | _ :: _, [] => 1
  | a :: s, b :: t => if a = b then strcmp s t else (a.toNat : ℤ) - b.toNat

theorem strcmp_swap (s t : Bytes) : strcmp t s = - strcmp s t := by
  induction s generalizing t with
  | nil => cases t <;> rfl
  | cons a s ih =>
      cases t with
      | nil => rfl
      | cons b t =>
          unfold strcmp
          by_cases h : a = b
          · rw [if_pos h, if_pos h.symm, ih]
          · rw [if_neg h, if_neg (fun h' => h h'.symm)]
            ring

theorem strcmp_eq_zero {s t : Bytes} (h : strcmp s t = 0) : s = t := by
  induction s generalizing t with
  | nil =>
      cases t with
      | nil => rfl
      | cons b t => exact absurd h (by decide : (-1 : ℤ) ≠ 0)
  | cons a s ih =>
      cases t with
      | nil => exact absurd h (by decide : (1 : ℤ) ≠ 0)
      | cons b t =>
          unfold strcmp at h
          by_cases hab : a = b
          · rw [if_pos hab] at h
            rw [hab, ih h]
          · rw [if_neg hab] at h
            exact absurd (UInt8.toNat_inj.mp (by omega)) hab

theorem strcmp_trans {s t u : Bytes} (hst : strcmp s t ≤ 0) (htu : strcmp t u ≤ 0) : strcmp s u ≤ 0 := by
  induction s generalizing t u with
  | nil =>
      cases u with
      | nil => exact le_rfl
      | cons c u => exact (by decide : (-1 : ℤ) ≤ 0)
  | cons a s ih =>
      rcases t with _ | ⟨b, t⟩
      · exact absurd hst (by decide : ¬ (1 : ℤ) ≤ 0)
      rcases u with _ | ⟨c, u⟩
      · exact absurd htu (by decide : ¬ (1 : ℤ) ≤ 0)
      unfold strcmp at hst htu ⊢
      have hinj : ∀ x y : UInt8, x.toNat = y.toNat → x = y := fun x y => UInt8.toNat_inj.mp
      by_cases hac : a = c
      · subst hac
        rw [if_pos rfl]
        by_cases hab : a = b
        · subst hab
          rw [if_pos rfl] at hst htu
          exact ih hst htu
        · rw [if_neg hab] at hst
          rw [if_neg (fun h => hab h.symm)] at htu
          exact absurd (hinj a b (by omega)) hab
      · rw [if_neg hac]
        by_cases hab : a = b
        · subst hab
          rwa [if_neg hac] at htu
        · rw [if_neg hab] at hst
          by_cases hbc : b = c
          · subst hbc
            exact hst
          · rw [if_neg hbc] at htu
            omega

/-! ## Comparing through a pointer

`strncmp` on a pointer that was moved by a fixed amount reads where the pointer
is, and that is inside the string only if the string is long enough. So the memory
behind the terminator is part of the picture, and with the result of a comparison
goes the list of the offsets it has looked at. -/

/-- The memory from a pointer to the string `s` on: the string, its terminator, and
then whatever is `behind` it. -/
def memFrom (s : Bytes) (behind : ℕ → UInt8) (i : ℕ) : UInt8 :=
  if i ≤ s.length then s.getD i 0 else behind (i - s.length - 1)

/-- `strncmp(p + off, t, strlen(t)) == 0`, with the offsets from `p` it reads. -/
def strncmpAt (p : ℕ → UInt8) : ℕ → Bytes → Bool × List ℕ
  | _, [] => (true, [])
  | off, c :: t =>
      if p off = c then ((strncmpAt p (off + 1) t).1, off :: (strncmpAt p (off + 1) t).2)
      else (false, [off])

theorem drop_eq_memFrom_cons {s : Bytes} {off : ℕ} (h : off < s.length) (behind : ℕ → UInt8) :
    s.drop off = memFrom s behind off :: s.drop (off + 1) := by
  unfold memFrom
  rw [if_pos (le_of_lt h), List.getD_eq_getElem _ _ h]
  exact List.drop_eq_getElem_cons h

theorem memFrom_length (s : Bytes) (behind : ℕ → UInt8) : memFrom s behind s.length = 0 := by
  unfold memFrom
  rw [if_pos le_rfl]
  simp

/-- From a pointer into the string or at its terminator the comparison asks whether
`t` comes next, and does not get past the terminator. -/
theorem strncmpAt_memFrom {t : Bytes} (ht : NulFree t) {s : Bytes} {off : ℕ}
    (hoff : off ≤ s.length) (behind : ℕ → UInt8) :
    ((strncmpAt (memFrom s behind) off t).1 = true ↔ t <+: s.drop off) ∧
      ∀ i ∈ (strncmpAt (memFrom s behind) off t).2, i ≤ s.length := by
  induction t generalizing off with
  | nil => simp [strncmpAt]
  | cons c t ih =>
      have hc : c ≠ 0 := ht c List.mem_cons_self
      have ht' : NulFree t := fun x hx => ht x (List.mem_cons_of_mem c hx)
      -- Inside of the string one more byte is compared; at its end the terminator stops the loop.
      unfold strncmpAt
      rcases lt_or_eq_of_le hoff with hlt | rfl
      · rw [drop_eq_memFrom_cons hlt behind, List.cons_prefix_cons]
        obtain ⟨hres, hreads⟩ := ih ht' (Nat.succ_le_of_lt hlt)
        by_cases heq : memFrom s behind off = c
        · rw [if_pos heq]
          refine ⟨⟨fun h => ⟨heq.symm, hres.mp h⟩, fun h => hres.mpr h.2⟩, ?_⟩
          intro i hi
          rcases List.mem_cons.mp hi with rfl | hi
          · exact hoff
          · exact hreads i hi
        · rw [if_neg heq]
          refine ⟨⟨fun h => absurd h Bool.false_ne_true, fun h => absurd h.1.symm heq⟩, ?_⟩
          intro i hi
          rw [List.mem_singleton.mp hi]
          exact hoff
      · -- At the terminator no byte of `t` matches.
        rw [memFrom_length, if_neg (fun h => hc h.symm), List.drop_length]
        refine ⟨⟨fun h => absurd h Bool.false_ne_true, fun h => absurd (List.prefix_nil.mp h)
          (List.cons_ne_nil c t)⟩, ?_⟩
        intro i hi
        rw [List.mem_singleton.mp hi]

/-- The first byte of `t` is always compared. -/
theorem off_mem_strncmpAt (p : ℕ → UInt8) (off : ℕ) {t : Bytes} (ht : t ≠ []) :
    off ∈ (strncmpAt p off t).2 := by
  obtain ⟨c, t, rfl⟩ := List.exists_cons_of_ne_nil ht
  unfold strncmpAt
  by_cases h : p off = c
  · rw [if_pos h]
    exact List.mem_cons_self
  · rw [if_neg h]
    exact List.mem_cons_self

/-- The byte after a match, when it is not the terminator, prolongs the match. -/
theorem memFrom_after_match {s t : Bytes} {off : ℕ} (hoff : off ≤ s.length)
    (hmatch : t <+: s.drop off) (behind : ℕ → UInt8) {c : UInt8} (hc : c ≠ 0) :
    off + t.length ≤ s.length ∧ (memFrom s behind (off + t.length) = c ↔ t ++ [c] <+: s.drop off) := by
  obtain ⟨u, hu⟩ := hmatch
  have hlen : t.length + u.length = s.length - off := by
    rw [← List.length_append, hu, List.length_drop]
  have hdrop : s.drop (off + t.length) = u := by
    rw [← List.drop_drop, ← hu, List.drop_left]
  refine ⟨by omega, ?_⟩
  rw [← hu, List.prefix_append_right_inj]
  rcases u with _ | ⟨d, u⟩
  · have hend : off + t.length = s.length := by
      simp only [List.length_nil] at hlen
      omega
    rw [hend, memFrom_length]
    simp [hc.symm]
  · have hlt : off + t.length < s.length := by
      simp only [List.length_cons] at hlen
      omega
    rw [drop_eq_memFrom_cons hlt behind] at hdrop
    rw [(List.cons.inj hdrop).1, List.cons_prefix_cons]
    simp [eq_comm]

/-! ## Lines of a file -/

/-- The lines that `getline` reads, each with its newline. The last one may have none. -/
def lines : Bytes → List Bytes
  | [] => []
  | c :: s =>
      if c = 10 then [c] :: lines s
      else
        match lines s with
        | [] => [[c]]
        | l :: ls => (c :: l) :: ls

theorem lines_append {l : Bytes} (hl : 10 ∉ l) (s : Bytes) :
    lines (l ++ 10 :: s) = (l ++ [10]) :: lines s := by
  induction l with
  | nil => rfl
  | cons c l ih =>
      have hc : ¬ c = 10 := by
        rintro rfl
        exact hl List.mem_cons_self
      have hrest := ih fun h => hl (List.mem_cons_of_mem c h)
      rw [List.cons_append, lines, if_neg hc, hrest]
      rfl

/-- Two texts are equal up to their first mark only if they are equal before and after it. -/
theorem eq_of_append_mark {α : Type*} {m : α} {a b s t : List α} (ha : m ∉ a) (hb : m ∉ b)
    (h : a ++ m :: s = b ++ m :: t) : a = b ∧ s = t := by
  induction a generalizing b with
  | nil =>
      rcases b with _ | ⟨y, b⟩
      · exact ⟨rfl, (List.cons.inj h).2⟩
      · exact absurd ((List.cons.inj h).1 ▸ List.mem_cons_self) hb
  | cons x a ih =>
      rcases b with _ | ⟨y, b⟩
      · exact absurd ((List.cons.inj h).1 ▸ List.mem_cons_self) ha
      · obtain ⟨hxy, htail⟩ := List.cons.inj h
        obtain ⟨hab, hst⟩ := ih (fun hm => ha (List.mem_cons_of_mem x hm))
          (fun hm => hb (List.mem_cons_of_mem y hm)) htail
        exact ⟨by rw [hxy, hab], hst⟩

end TestCore.Lib
