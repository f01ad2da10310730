/-
The default password of a device: `jrd_get_hub_random_string_algo`, `jrd_rand_init_seed` and
`jrd_rand` of `webs_define.c`.

Every character is picked from a dictionary by a 64-bit generator whose seed is the IMEI. A
character that is the same as the one before it is replaced by the next one of the dictionary, and
whatever the generator says, that one is different: the dictionary has no character twice.

The password goes to a buffer, and the memory behind it stays as it is.
-/
import TestCore.Lib.Strtol
import TestCore.Lib.Wire

set_option autoImplicit false

namespace TestCore.Webs

open TestCore.Lib

/-! ## The generator -/

/-- `jrd_rand_init_seed`: an `unsigned long long`. -/
def jrd_rand_init_seed (seed : Bytes) : UInt64 := UInt64.ofInt (atoll seed)

/-- `jrd_rand`: the number, and `randseed` afterwards. -/
def jrd_rand (randseed : UInt64) : UInt64 × UInt64 :=
  let r := randseed * 9223 + 12345678
  ((r <<< 32) ||| ((r >>> 32) &&& 0xFFFFFFFF), r)

/-! ## The password -/

/-- The body of the loop: what `rand_str[i]` becomes. -/
def pickChar (dic : Bytes) (r : UInt64) (i : ℕ) (rand_str : Bytes) : UInt8 :=
  let dic_size := dic.length
  let idx := r.toNat % dic_size
  let c := dic.getD idx 0
  -- avoid neighbours like "aa" "33"
  if i ≠ 0 ∧ rand_str.getD (i - 1) 0 = c then dic.getD ((idx + 1) % dic_size) 0 else c

/-- The loop, with `left` turns to go. -/
def jrd_get_hub_random_string_algo.loop (dic : Bytes) :
    (left i : ℕ) → (randseed : UInt64) → (rand_str : Bytes) → Bytes
  | 0, _, _, rand_str => rand_str
  | left + 1, i, randseed, rand_str =>
      let (r, randseed) := jrd_rand randseed
      let rand_str := writeAt rand_str i [pickChar dic r i rand_str]
      jrd_get_hub_random_string_algo.loop dic left (i + 1) randseed rand_str

/-- `jrd_get_hub_random_string_algo`: the result, and the memory from `rand_str` on. `none` is
`NULL`. -/
def jrd_get_hub_random_string_algo (rand_str : Option Bytes) (rand_str_len : ℕ)
    (imei dic : Option Bytes) : ℤ × Option Bytes :=
  match rand_str, imei, dic with
  | some rand_str, some imei, some dic =>
      let rand_str := jrd_get_hub_random_string_algo.loop dic rand_str_len 0
        (jrd_rand_init_seed imei) rand_str
      (0, some (writeAt rand_str rand_str_len [0]))
  | _, _, _ => (-1, rand_str)

def admin_dic : Bytes := bytes "34679abcdefghikmnpqrtuvwxy"

/-! ## Neighbours -/

section Password

variable {dic : Bytes}

/-- The character behind another one in the cycle is another character. -/
theorem next_ne (hdic : dic.Nodup) (hsize : 2 ≤ dic.length) {idx : ℕ} (hidx : idx < dic.length) :
    dic.getD ((idx + 1) % dic.length) 0 ≠ dic.getD idx 0 := by
  have hnext : (idx + 1) % dic.length < dic.length := Nat.mod_lt _ (by omega)
  rw [List.getD_eq_getElem _ _ hnext, List.getD_eq_getElem _ _ hidx]
  intro heq
  have hindex := (hdic.getElem_inj_iff).mp heq
  by_cases hlast : idx + 1 = dic.length
  · rw [hlast, Nat.mod_self] at hindex
    omega
  · rw [Nat.mod_eq_of_lt (by omega)] at hindex
    omega

/-- A turn picks a character of the dictionary, and not the one before it. -/
theorem pickChar_spec (hdic : dic.Nodup) (hsize : 2 ≤ dic.length) (r : UInt64) (i : ℕ)
    (rand_str : Bytes) :
    pickChar dic r i rand_str ∈ dic ∧ (i ≠ 0 → rand_str.getD (i - 1) 0 ≠ pickChar dic r i rand_str) := by
  have hmem : ∀ idx < dic.length, dic.getD idx 0 ∈ dic := by
    intro idx hidx
    rw [List.getD_eq_getElem _ _ hidx]
    exact List.getElem_mem hidx
  have hidx : r.toNat % dic.length < dic.length := Nat.mod_lt _ (by omega)
  unfold pickChar
  dsimp only
  by_cases hsame : i ≠ 0 ∧ rand_str.getD (i - 1) 0 = dic.getD (r.toNat % dic.length) 0
  · rw [if_pos hsame]
    refine ⟨hmem _ (Nat.mod_lt _ (by omega)), fun _ => ?_⟩
    rw [hsame.2]
    exact (next_ne hdic hsize hidx).symm
  · rw [if_neg hsame]
    exact ⟨hmem _ hidx, fun hi heq => hsame ⟨hi, heq⟩⟩

/-- What the buffer holds before a turn. -/
structure Picked (dic : Bytes) (mem : Bytes) (s rand_str : Bytes) : Prop where
  buffer : rand_str = s ++ mem.drop s.length
  chars : ∀ c ∈ s, c ∈ dic
  neighbours : s.IsChain (· ≠ ·)

theorem Picked.turn {mem s rand_str : Bytes} (h : Picked dic mem s rand_str) (hdic : dic.Nodup)
    (hsize : 2 ≤ dic.length) (r : UInt64) :
    Picked dic mem (s ++ [pickChar dic r s.length rand_str])
      (writeAt rand_str s.length [pickChar dic r s.length rand_str]) := by
  obtain ⟨hmem, hne⟩ := pickChar_spec hdic hsize r s.length rand_str
  generalize pickChar dic r s.length rand_str = c at hmem hne
  refine ⟨?_, ?_, ?_⟩
  · rw [h.buffer, writeAt_append, List.drop_drop, List.length_append]
  · intro c' hc'
    rcases List.mem_append.mp hc' with hc' | hc'
    · exact h.chars c' hc'
    · rw [List.mem_singleton.mp hc']
      exact hmem
  · rw [List.isChain_append]
    refine ⟨h.neighbours, List.isChain_singleton c, ?_⟩
    rintro a ha _ ⟨⟩
    -- The last character of `s` is what the buffer has before the new one.
    rcases List.eq_nil_or_concat' s with rfl | ⟨t, b, rfl⟩
    · cases ha
    · have hlast : rand_str.getD ((t ++ [b]).length - 1) 0 = b := by
        rw [h.buffer, List.length_append, List.length_singleton, Nat.add_sub_cancel]
        simp
      have hab : a = b := by simpa using ha.symm
      rw [hab, ← hlast]
      exact hne (by simp)

/-- The whole loop. -/
theorem Picked.loop {mem s rand_str : Bytes} (h : Picked dic mem s rand_str) (hdic : dic.Nodup)
    (hsize : 2 ≤ dic.length) (left : ℕ) (randseed : UInt64) :
    ∃ t, Picked dic mem t (jrd_get_hub_random_string_algo.loop dic left s.length randseed rand_str) ∧
      t.length = s.length + left := by
  induction left generalizing s rand_str randseed with
  | zero => exact ⟨s, h, rfl⟩
  | succ left ih =>
      have hturn := h.turn hdic hsize (jrd_rand randseed).1
      have hlen : (s ++ [pickChar dic (jrd_rand randseed).1 s.length rand_str]).length = s.length + 1 := by
        rw [List.length_append, List.length_singleton]
      obtain ⟨t, ht, htlen⟩ := ih hturn (jrd_rand randseed).2
      rw [hlen] at ht htlen
      exact ⟨t, ht, by omega⟩

end Password

/-- **Default passwords.** For every IMEI, every length and every dictionary of two or more
different characters: the buffer gets as many characters as asked for and a terminator, all of them
from the dictionary and no two neighbours the same. -/
theorem random_string_neighbours (mem imei dic : Bytes) (n : ℕ) (hdic : dic.Nodup)
    (hsize : 2 ≤ dic.length) :
    ∃ s, jrd_get_hub_random_string_algo (some mem) n (some imei) (some dic)
        = (0, some (s ++ 0 :: mem.drop (n + 1))) ∧
      s.length = n ∧ (∀ c ∈ s, c ∈ dic) ∧ s.IsChain (· ≠ ·) ∧
      (0 ∉ dic → cstr (s ++ 0 :: mem.drop (n + 1)) = s) := by
  have hstart : Picked dic mem [] mem := ⟨rfl, by simp, List.isChain_nil⟩
  obtain ⟨s, hs, hlen⟩ := hstart.loop hdic hsize n (jrd_rand_init_seed imei)
  rw [List.length_nil, Nat.zero_add] at hlen
  refine ⟨s, ?_, hlen, hs.chars, hs.neighbours, ?_⟩
  · have hbuffer := hs.buffer
    unfold jrd_get_hub_random_string_algo
    dsimp only
    rw [List.length_nil] at hbuffer
    rw [hbuffer, ← hlen, writeAt_append, List.drop_drop]
    simp
  · intro hzero
    have hnul : NulFree s := fun c hc => ne_of_mem_of_not_mem (hs.chars c hc) hzero
    rw [cstr_append hnul, cstr_zero_cons, List.append_nil]

/-- The dictionary of the device is one of these. -/
theorem random_string_neighbours_admin :
    ∃ s, jrd_get_hub_random_string_algo (some []) 8 (some (bytes "861234567890123")) (some admin_dic)
        = (0, some (s ++ 0 :: [])) ∧
      s.length = 8 ∧ (∀ c ∈ s, c ∈ admin_dic) ∧ s.IsChain (· ≠ ·) ∧
      (0 ∉ admin_dic → cstr (s ++ 0 :: []) = s) :=
  random_string_neighbours [] (bytes "861234567890123") admin_dic 8 (by decide) (by decide)

end TestCore.Webs
