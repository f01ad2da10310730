/-
The tests of an address range of the DHCP server (`ip_range_check`, `ipaddr_range_check`).

Both start from the numbers that `inet_addr` returns, addresses in network order, which is the
wrong order to count or compare in on a host that stores the lowest byte first. The hosts of the
server do. The first function knows: it changes the byte that the host sees at the top, writes the
address as text and reads the text with its parts in the right order. The second one compares the
numbers as they are, so it may take the end of a range for less than its start, and the other way
round (`ipaddr_range_check_right_iff`).

Addresses are in host order here, and `swap32` makes the number of them that the host sees in
network order.
-/
import TestCore.Dhcp.Netmask
import TestCore.Ipv4llg.Options

set_option autoImplicit false

namespace TestCore.Dhcp

open TestCore.Lib
open TestCore.Ipv4llg (swap32 swap32_toNat swap32_injective)

/-! ## Network order -/

theorem octet_swap32 (a : UInt32) {i : ℕ} (hi : i < 4) : octet (swap32 a) i = octet a (3 - i) := by
  obtain ⟨h0, h1, h2, h3⟩ := octets_of_toNat (octet_lt a 1) (octet_lt a 2) (octet_lt a 3) (swap32_toNat a)
  interval_cases i
  · exact h0
  · exact h1
  · exact h2
  · exact h3

theorem swap32_and (a b : UInt32) : swap32 (a &&& b) = swap32 a &&& swap32 b := by
  apply ext_octet
  intro i hi
  rw [octet_swap32 _ hi, octet_and, octet_and, octet_swap32 _ hi, octet_swap32 _ hi]

theorem swap32_or (a b : UInt32) : swap32 (a ||| b) = swap32 a ||| swap32 b := by
  apply ext_octet
  intro i hi
  rw [octet_swap32 _ hi, octet_or, octet_or, octet_swap32 _ hi, octet_swap32 _ hi]

theorem swap32_compl (a : UInt32) : swap32 (~~~a) = ~~~swap32 a := by
  apply ext_octet
  intro i hi
  rw [octet_swap32 _ hi, octet_compl _ (by omega), octet_compl _ hi, octet_swap32 _ hi]

/-- `inet_addr`: the address in network order, or `INADDR_NONE`. -/
def inet_addr (cp : Bytes) : UInt32 :=
  match inet_aton cp with
  | some a => swap32 a
  | none => 0xffffffff

theorem inet_addr_ntoa (a : UInt32) : inet_addr (inet_ntoa a) = swap32 a := by
  unfold inet_addr
  rw [inet_aton_ntoa]

/-! ## `unsigned long`

A number of 64 or of 32 bits, as the host has it. -/

/-- The conversion of an `in_addr_t`. -/
def ulong (w : ℕ) (a : UInt32) : BitVec w := BitVec.ofNat w a.toNat

/-- The assignment to an `in_addr_t`. -/
def toAddr {w : ℕ} (x : BitVec w) : UInt32 := UInt32.ofNat x.toNat

section ULong

variable {w : ℕ} (hw : 32 ≤ w)

include hw

theorem ulong_toNat (a : UInt32) : (ulong w a).toNat = a.toNat := by
  have hpow : 2 ^ 32 ≤ 2 ^ w := Nat.pow_le_pow_right (by norm_num) hw
  exact BitVec.toNat_ofNat a.toNat w ▸ Nat.mod_eq_of_lt (lt_of_lt_of_le a.toNat_lt hpow)

theorem toAddr_ulong (a : UInt32) : toAddr (ulong w a) = a := by
  unfold toAddr
  rw [ulong_toNat hw, UInt32.ofNat_toNat]

theorem ulong_and (a b : UInt32) : ulong w a &&& ulong w b = ulong w (a &&& b) := by
  apply BitVec.eq_of_toNat_eq
  rw [BitVec.toNat_and, ulong_toNat hw, ulong_toNat hw, ulong_toNat hw, UInt32.toNat_and]

theorem ulong_lt_iff (a b : UInt32) : ulong w a < ulong w b ↔ a < b := by
  rw [BitVec.lt_def, ulong_toNat hw, ulong_toNat hw, UInt32.lt_iff_toNat_lt]

theorem ulong_inj (a b : UInt32) : ulong w a = ulong w b ↔ a = b := by
  rw [← BitVec.toNat_inj, ulong_toNat hw, ulong_toNat hw, UInt32.toNat_inj]

/-- The low 32 bits of a number. -/
theorem ulong_toAddr (x : BitVec w) : x &&& 0xffffffff#w = ulong w (toAddr x) := by
  have hpow : 2 ^ 32 ≤ 2 ^ w := Nat.pow_le_pow_right (by norm_num) hw
  apply BitVec.eq_of_toNat_eq
  rw [BitVec.toNat_and, ulong_toNat hw, BitVec.toNat_ofNat, Nat.mod_eq_of_lt (by omega)]
  unfold toAddr
  rw [UInt32.toNat_ofNat', show 0xffffffff = 2 ^ 32 - 1 from rfl, Nat.and_two_pow_sub_one_eq_mod]

omit hw in
theorem toAddr_or (x y : BitVec w) : toAddr (x ||| y) = toAddr x ||| toAddr y := by
  apply UInt32.toNat_inj.mp
  unfold toAddr
  rw [UInt32.toNat_or, UInt32.toNat_ofNat', UInt32.toNat_ofNat', UInt32.toNat_ofNat', BitVec.toNat_or,
    Nat.or_mod_two_pow]

/-- The complement has ones above them. -/
theorem toAddr_compl (a : UInt32) : toAddr (~~~ulong w a) = ~~~a := by
  have ha := a.toNat_lt
  have hnot : (~~~a).toNat = 4294967295 - a.toNat := a.toNat_not
  obtain ⟨d, rfl⟩ := Nat.exists_eq_add_of_le hw
  apply UInt32.toNat_inj.mp
  unfold toAddr
  have hpos : 0 < 2 ^ d := Nat.two_pow_pos d
  rw [UInt32.toNat_ofNat', BitVec.toNat_not, ulong_toNat hw, hnot, pow_add]
  omega

theorem ulong_or_compl (n m : UInt32) :
    (ulong w (swap32 n) ||| ~~~ulong w (swap32 m)) &&& 0xffffffff#w = ulong w (swap32 (n ||| ~~~m)) := by
  rw [ulong_toAddr hw, toAddr_or, toAddr_compl hw, toAddr_ulong hw, swap32_or, swap32_compl]

/-- The address with the byte at the top replaced. -/
theorem top_toNat {tmp : BitVec w} (htmp : tmp.toNat < 256) (x : BitVec w) :
    ((tmp <<< 24) ||| (x &&& 0xffffff#w)).toNat = tmp.toNat * 2 ^ 24 + x.toNat % 2 ^ 24 := by
  have hpow : 2 ^ 32 ≤ 2 ^ w := Nat.pow_le_pow_right (by norm_num) hw
  have hlow : (x &&& 0xffffff#w).toNat = x.toNat % 2 ^ 24 := by
    rw [BitVec.toNat_and, BitVec.toNat_ofNat, Nat.mod_eq_of_lt (by omega),
      show 0xffffff = 2 ^ 24 - 1 from rfl, Nat.and_two_pow_sub_one_eq_mod]
  have hhigh : (tmp <<< 24).toNat = tmp.toNat <<< 24 := by
    rw [BitVec.toNat_shiftLeft, Nat.shiftLeft_eq, Nat.mod_eq_of_lt (by omega)]
  rw [BitVec.toNat_or, hlow, hhigh, ← Nat.shiftLeft_add_eq_or_of_lt (Nat.mod_lt _ (by norm_num)),
    Nat.shiftLeft_eq]

end ULong

/-! ## The range of a subnet -/

/-- `strncpy(buf, text, strlen(text))`: no terminator is written. -/
def storeText (text buf : Bytes) : Bytes := strncpy text text.length ++ buf.drop text.length

def range_start_ip_calc (w : ℕ) (ip netmask start_ip : Bytes) : Bytes :=
  let ipv4 := ulong w (inet_addr ip)
  let ipv4msk := ulong w (inet_addr netmask)
  let ipv4subnet := ipv4 &&& ipv4msk
  let tmp := (ipv4subnet >>> 24) + 1#w
  let start_ip_int := (tmp <<< 24) ||| (ipv4subnet &&& 0xffffff#w)
  storeText (inet_ntoa (swap32 (toAddr start_ip_int))) start_ip

def range_end_ip_calc (w : ℕ) (ip netmask end_ip : Bytes) : Bytes :=
  let ipv4 := ulong w (inet_addr ip)
  let ipv4msk := ulong w (inet_addr netmask)
  let ipv4subnet := ipv4 &&& ipv4msk
  let end_ip_int := (ipv4subnet ||| ~~~ipv4msk) &&& 0xffffffff#w
  let tmp := (end_ip_int >>> 24) - 1#w
  let end_ip_int := (tmp <<< 24) ||| (end_ip_int &&& 0xffffff#w)
  storeText (inet_ntoa (swap32 (toAddr end_ip_int))) end_ip

/-- `%ld`, into an `unsigned long`. -/
def scanLong (w : ℕ) : Bool × ℕ → BitVec w
  | (neg, n) => BitVec.ofInt w (clampInt (w - 1) (if neg then -n else n))

def partsInt {w : ℕ} (parts : Quad (BitVec w)) : BitVec w :=
  (parts.first <<< 24) ||| (parts.second <<< 16) ||| (parts.third <<< 8) ||| parts.fourth

/-- `ip_range_check`, with what the four variables hold at the start. -/
def ip_range_check (w : ℕ) (parts : Quad (BitVec w)) (ip netmask start_ip end_ip : Bytes) : ℤ :=
  let range_start_ip := range_start_ip_calc w ip netmask (List.replicate 32 0)
  let range_end_ip := range_end_ip_calc w ip netmask (List.replicate 32 0)
  let parts := sscanfDotted (scanLong w) (cstr range_start_ip) parts
  let int_range_start_ip := partsInt parts
  let parts := sscanfDotted (scanLong w) (cstr range_end_ip) parts
  let int_range_end_ip := partsInt parts
  let parts := sscanfDotted (scanLong w) start_ip parts
  let int_start_ip := partsInt parts
  let parts := sscanfDotted (scanLong w) end_ip parts
  let int_end_ip := partsInt parts
  if int_end_ip < int_start_ip then -1
  else if int_start_ip < int_range_start_ip then -1
  else if int_range_end_ip < int_end_ip then -1
  else 0

/-! ### The ends of the range -/

/-- Replacing the byte that the host sees at the top replaces the last byte of the address. -/
theorem swap32_top (a : UInt32) {t : ℕ} (ht : t < 256) :
    (swap32 (UInt32.ofNat (t * 2 ^ 24 + (swap32 a).toNat % 2 ^ 24))).toNat =
      a.toNat - octet a 0 + t := by
  have h0 := octet_lt a 0
  have h1 := octet_lt a 1
  have h2 := octet_lt a 2
  have h3 := octet_lt a 3
  have ha := TestCore.Ipv4llg.octets_toNat a
  have hlow : (swap32 a).toNat % 2 ^ 24 = octet a 1 * 2 ^ 16 + octet a 2 * 2 ^ 8 + octet a 3 := by
    rw [swap32_toNat]
    omega
  have hnat : (UInt32.ofNat (t * 2 ^ 24 + (swap32 a).toNat % 2 ^ 24)).toNat =
      t * 2 ^ 24 + octet a 1 * 2 ^ 16 + octet a 2 * 2 ^ 8 + octet a 3 := by
    rw [UInt32.toNat_ofNat', hlow]
    omega
  obtain ⟨hb0, hb1, hb2, hb3⟩ := octets_of_toNat h1 h2 h3 hnat
  rw [swap32_toNat, hb0, hb1, hb2, hb3]
  omega

section Range

variable {w : ℕ} (hw : 32 ≤ w)

include hw

/-- The byte at the top of a number in network order. -/
theorem ulong_swap32_top (a : UInt32) : ((ulong w (swap32 a)) >>> 24).toNat = octet a 0 := by
  have h0 := octet_lt a 0
  have h1 := octet_lt a 1
  have h2 := octet_lt a 2
  have h3 := octet_lt a 3
  rw [BitVec.toNat_ushiftRight, ulong_toNat hw, Nat.shiftRight_eq_div_pow, swap32_toNat]
  omega

/-- The address that comes out when the last byte becomes `t`. -/
theorem toAddr_top {tmp : BitVec w} (htmp : tmp.toNat < 256) (a : UInt32) :
    (swap32 (toAddr ((tmp <<< 24) ||| (ulong w (swap32 a) &&& 0xffffff#w)))).toNat =
      a.toNat - octet a 0 + tmp.toNat := by
  unfold toAddr
  rw [top_toNat hw htmp, ulong_toNat hw]
  exact swap32_top a htmp

omit hw in
/-- What `sscanf` finds in a buffer of zeros that a text was stored in. -/
theorem cstr_storeText (a : UInt32) :
    cstr (storeText (inet_ntoa a) (List.replicate 32 0)) = inet_ntoa a := by
  have hlen := inet_ntoa_length_le a
  unfold storeText strncpy
  rw [List.take_length, Nat.sub_self, List.replicate_zero, List.append_nil, List.drop_replicate,
    cstr_append (nulFree_inet_ntoa a), show 32 - (inet_ntoa a).length = (31 - (inet_ntoa a).length) + 1 by omega,
    List.replicate_succ, cstr_zero_cons, List.append_nil]

/-- The start of the range is the address after the network. -/
theorem range_start (ip m : UInt32) (h : octet (ip &&& m) 0 < 255) :
    ∃ a : UInt32, a.toNat = (ip &&& m).toNat + 1 ∧
      cstr (range_start_ip_calc w (inet_ntoa ip) (inet_ntoa m) (List.replicate 32 0)) =
        inet_ntoa a := by
  have hpow : 2 ^ 32 ≤ 2 ^ w := Nat.pow_le_pow_right (by norm_num) hw
  have htop := ulong_swap32_top hw (ip &&& m)
  have htmp : ((ulong w (swap32 (ip &&& m))) >>> 24 + 1#w).toNat = octet (ip &&& m) 0 + 1 := by
    rw [BitVec.toNat_add, htop, BitVec.toNat_ofNat, Nat.mod_eq_of_lt (by omega : 1 < 2 ^ w),
      Nat.mod_eq_of_lt (by omega)]
  have hle : octet (ip &&& m) 0 ≤ (ip &&& m).toNat := by
    unfold octet
    omega
  unfold range_start_ip_calc
  simp only [inet_addr_ntoa, ulong_and hw, ← swap32_and]
  refine ⟨_, ?_, cstr_storeText _⟩
  rw [toAddr_top hw (by omega), htmp]
  omega

/-- The end of the range is the address before the broadcast address. -/
theorem range_end (ip m : UInt32) (h : 0 < octet (ip &&& m ||| ~~~m) 0) :
    ∃ a : UInt32, a.toNat = (ip &&& m ||| ~~~m).toNat - 1 ∧
      cstr (range_end_ip_calc w (inet_ntoa ip) (inet_ntoa m) (List.replicate 32 0)) =
        inet_ntoa a := by
  have hpow : 2 ^ 32 ≤ 2 ^ w := Nat.pow_le_pow_right (by norm_num) hw
  have hlt := octet_lt (ip &&& m ||| ~~~m) 0
  have htop := ulong_swap32_top hw (ip &&& m ||| ~~~m)
  have htmp : ((ulong w (swap32 (ip &&& m ||| ~~~m))) >>> 24 - 1#w).toNat =
      octet (ip &&& m ||| ~~~m) 0 - 1 := by
    rw [BitVec.toNat_sub, htop, BitVec.toNat_ofNat, Nat.mod_eq_of_lt (by omega : 1 < 2 ^ w)]
    rw [show 2 ^ w - 1 + octet (ip &&& m ||| ~~~m) 0 = (octet (ip &&& m ||| ~~~m) 0 - 1) + 2 ^ w by omega,
      Nat.add_mod_right, Nat.mod_eq_of_lt (by omega)]
  have hle : octet (ip &&& m ||| ~~~m) 0 ≤ (ip &&& m ||| ~~~m).toNat := by
    unfold octet
    omega
  unfold range_end_ip_calc
  simp only [inet_addr_ntoa, ulong_and hw, ← swap32_and, ulong_or_compl hw]
  refine ⟨_, ?_, cstr_storeText _⟩
  rw [toAddr_top hw (by omega), htmp]
  omega

omit hw in
/-- A number and the next byte. -/
theorem shift_or_byte (n : ℕ) {b : ℕ} (hb : b < 256) (i : ℕ) :
    n <<< (i + 8) ||| b <<< i = (n * 256 + b) <<< i := by
  rw [Nat.add_comm i 8, Nat.shiftLeft_add, ← Nat.shiftLeft_or_distrib,
    ← Nat.shiftLeft_add_eq_or_of_lt (by norm_num; exact hb), Nat.shiftLeft_eq n]

/-- The number of an address, from its four parts. -/
theorem partsInt_ntoa (a : UInt32) (parts : Quad (BitVec w)) :
    partsInt (sscanfDotted (scanLong w) (inet_ntoa a) parts) = ulong w a := by
  have hpow : 2 ^ 32 ≤ 2 ^ w := Nat.pow_le_pow_right (by norm_num) hw
  have ha := TestCore.Ipv4llg.octets_toNat a
  have hoctet : ∀ i, (scanLong w (false, octet a i)).toNat = octet a i := by
    intro i
    have hle := octet_le a i
    -- A part is far below the largest `long`.
    have hclamp : clampInt (w - 1) (octet a i) = (octet a i : ℤ) := by
      have hbig : (2 : ℤ) ^ 8 ≤ 2 ^ (w - 1) := pow_le_pow_right₀ (by norm_num) (by omega)
      unfold clampInt
      omega
    show (BitVec.ofInt w (clampInt (w - 1) (octet a i))).toNat = octet a i
    rw [hclamp, BitVec.ofInt_natCast, BitVec.toNat_ofNat, Nat.mod_eq_of_lt (by omega)]
  have hshift : ∀ i n, n ≤ 24 →
      (scanLong w (false, octet a i) <<< n).toNat = octet a i <<< n := by
    intro i n hn
    have hle := octet_le a i
    have hn24 : 2 ^ n ≤ 2 ^ 24 := Nat.pow_le_pow_right (by norm_num) hn
    have hmul : octet a i * 2 ^ n ≤ 255 * 2 ^ 24 := Nat.mul_le_mul hle hn24
    rw [BitVec.toNat_shiftLeft, hoctet, Nat.shiftLeft_eq, Nat.mod_eq_of_lt (by omega)]
  have h0 := octet_lt a 0
  have h1 := octet_lt a 1
  have h2 := octet_lt a 2
  apply BitVec.eq_of_toNat_eq
  rw [sscanfDotted_ntoa, ulong_toNat hw, ← ha]
  unfold partsInt
  simp only [BitVec.toNat_or, hoctet, hshift 3 24 le_rfl, hshift 2 16 (by norm_num),
    hshift 1 8 (by norm_num)]
  generalize octet a 3 = o3, octet a 2 = o2, octet a 1 = o1, octet a 0 = o0 at h0 h1 h2 ⊢
  -- The parts are shifted into place, and the places are disjoint.
  have hthree : o3 <<< 24 ||| o2 <<< 16 = (o3 * 256 + o2) <<< 16 := shift_or_byte o3 h2 16
  have htwo : (o3 * 256 + o2) <<< 16 ||| o1 <<< 8 = ((o3 * 256 + o2) * 256 + o1) <<< 8 :=
    shift_or_byte _ h1 8
  have hone : ((o3 * 256 + o2) * 256 + o1) <<< 8 ||| o0 = ((o3 * 256 + o2) * 256 + o1) * 256 + o0 :=
    shift_or_byte _ h0 0
  rw [hthree, htwo, hone]
  ring

end Range

/-! ### Between the network and the broadcast address -/

/-- The network of an address and its broadcast address, for a subnet with room between them. -/
theorem subnet_room {k : ℕ} (hk : k ≤ 30) (a : UInt32) :
    (network k a).toNat % 4 = 0 ∧ (broadcast k a).toNat % 4 = 3 := by
  have hpow : 2 ^ (32 - k) = 2 ^ (30 - k) * 4 := by
    rw [show 32 - k = (30 - k) + 2 by omega, pow_add]
    rfl
  have hpos : 0 < 2 ^ (30 - k) := Nat.two_pow_pos _
  rw [network_toNat (by omega), broadcast_toNat (by omega), hpow, ← mul_assoc]
  omega

/-- The network has the same broadcast address. -/
theorem broadcast_network {k : ℕ} (hk : k ≤ 32) (a : UInt32) :
    broadcast k (network k a) = broadcast k a := by
  have hpos : 0 < 2 ^ (32 - k) := Nat.two_pow_pos _
  rw [← UInt32.toNat_inj, broadcast_toNat hk, broadcast_toNat hk, network_toNat hk,
    Nat.mul_div_cancel _ hpos]

/-- **The range check**: it accepts what lies between the network and its broadcast address, in
order. -/
theorem ip_range_check_iff (long64 : Bool) (parts : Quad (BitVec (longBits long64))) {k : ℕ}
    (hk : k ≤ 30) (ip start_ip end_ip : UInt32) :
    ip_range_check (longBits long64) parts (inet_ntoa ip) (inet_ntoa (netmask k))
        (inet_ntoa start_ip) (inet_ntoa end_ip) = 0 ↔
      network k ip < start_ip ∧ start_ip ≤ end_ip ∧ end_ip < broadcast k ip := by
  have hw := longBits_ge long64
  obtain ⟨hnet, -⟩ := subnet_room hk ip
  obtain ⟨-, hbroad⟩ := subnet_room hk (network k ip)
  have hnet0 : octet (network k ip) 0 < 255 := by
    unfold octet
    omega
  have hbroad0 : 0 < octet (broadcast k (network k ip)) 0 := by
    unfold octet
    omega
  -- The two ends are counted from the network with a step in the last byte, which has room for it.
  obtain ⟨first, hfirst, hstart⟩ := range_start hw ip (netmask k) hnet0
  obtain ⟨last, hlast, hend⟩ := range_end hw ip (netmask k) hbroad0
  replace hlast : last.toNat = (broadcast k ip).toNat - 1 := by
    rw [hlast, ← broadcast_network (by omega)]
    rfl
  replace hfirst : first.toNat = (network k ip).toNat + 1 := hfirst
  rw [broadcast_network (by omega)] at hbroad
  unfold ip_range_check
  simp only [hstart, hend, partsInt_ntoa hw, ulong_lt_iff hw]
  simp only [UInt32.lt_iff_toNat_lt, UInt32.le_iff_toNat_le]
  split_ifs
  · exact iff_of_false (by norm_num) (by omega)
  · exact iff_of_false (by norm_num) (by omega)
  · exact iff_of_false (by norm_num) (by omega)
  · exact iff_of_true rfl (by omega)

theorem ip_range_check_24 :
    24 ≤ 30 ∧
      (ip_range_check 64 ⟨0, 0, 0, 0⟩ (inet_ntoa 3332950529) (inet_ntoa (netmask 24))
        (inet_ntoa 3332950538) (inet_ntoa 3332950628) = 0 ↔
      network 24 3332950529 < 3332950538 ∧ (3332950538 : UInt32) ≤ 3332950628 ∧
        3332950628 < broadcast 24 3332950529) :=
  ⟨by decide, ip_range_check_iff true ⟨0, 0, 0, 0⟩ (k := 24) (by decide) 3332950529 3332950538
    3332950628⟩

/-! ## Membership in a subnet -/

/-- `ipaddr_range_check`. -/
def ipaddr_range_check (w : ℕ) (subnet netmask ip_addr_start ip_addr_end : Bytes) : ℤ :=
  let subnet_int := ulong w (inet_addr subnet)
  let netmask_int := ulong w (inet_addr netmask)
  let ip_start_int := ulong w (inet_addr ip_addr_start)
  let ip_end_int := ulong w (inet_addr ip_addr_end)
  let ip_range_end := (subnet_int ||| ~~~netmask_int) &&& 0xffffffff#w
  if netmask_int = 0xffffffff#w ∧ subnet_int = ip_start_int ∧ subnet_int = ip_end_int then -2
  else if ip_start_int &&& netmask_int ≠ subnet_int ∨ ip_start_int < subnet_int ∨
      ip_range_end < ip_start_int then -1
  else if ip_end_int &&& netmask_int ≠ subnet_int ∨ ip_end_int < subnet_int ∨
      ip_range_end < ip_end_int then -1
  else if ip_end_int < ip_start_int then -1
  else 0

/-- What the check is for. -/
def InOrder (k : ℕ) (subnet ip_addr_start ip_addr_end : UInt32) : Prop :=
  network k ip_addr_start = subnet ∧ network k ip_addr_end = subnet ∧ ip_addr_start ≤ ip_addr_end

instance (k : ℕ) (subnet ip_addr_start ip_addr_end : UInt32) :
    Decidable (InOrder k subnet ip_addr_start ip_addr_end) :=
  inferInstanceAs (Decidable (_ ∧ _ ∧ _))

/-- The highest and the lowest of the bytes in which two addresses differ are in the same order. -/
def SameOrder (a b : UInt32) : Prop :=
  ∀ i < 4, ∀ j < 4,
    octet a i ≠ octet b i → (∀ l < 4, i < l → octet a l = octet b l) →
    octet a j ≠ octet b j → (∀ l < j, octet a l = octet b l) →
    (octet a i < octet b i ↔ octet a j < octet b j)

/-- In network order, the lowest byte that differs decides. -/
theorem swap32_lt_iff_octet {a b : UInt32} {j : ℕ} (hj : j < 4) (hne : octet a j ≠ octet b j)
    (hbelow : ∀ l < j, octet a l = octet b l) : swap32 a < swap32 b ↔ octet a j < octet b j := by
  have hoctet : ∀ c, octet (swap32 c) (3 - j) = octet c j := by
    intro c
    rw [octet_swap32 c (by omega), Nat.sub_sub_self (by omega)]
  rw [lt_iff_octet (i := 3 - j) (by omega) (by rw [hoctet, hoctet]; exact hne), hoctet, hoctet]
  intro l hl hlt
  rw [octet_swap32 a hl, octet_swap32 b hl]
  exact hbelow _ (by omega)

/-- The lowest of the bytes in which two addresses differ. -/
theorem exists_lowest {a b : UInt32} (h : ∃ j, j < 4 ∧ octet a j ≠ octet b j) :
    ∃ j < 4, octet a j ≠ octet b j ∧ ∀ l < j, octet a l = octet b l := by
  refine ⟨Nat.find h, (Nat.find_spec h).1, (Nat.find_spec h).2, ?_⟩
  intro l hl
  by_contra hne
  exact Nat.find_min h hl ⟨hl.trans (Nat.find_spec h).1, hne⟩

/-- The highest one, which is the lowest one the other way round. -/
theorem exists_highest {a b : UInt32} (h : ∃ j, j < 4 ∧ octet a j ≠ octet b j) :
    ∃ i < 4, octet a i ≠ octet b i ∧ ∀ l < 4, i < l → octet a l = octet b l := by
  have hswap : ∃ j, j < 4 ∧ octet (swap32 a) j ≠ octet (swap32 b) j := by
    obtain ⟨j, hj, hne⟩ := h
    refine ⟨3 - j, by omega, ?_⟩
    rw [octet_swap32 a (by omega), octet_swap32 b (by omega), Nat.sub_sub_self (by omega)]
    exact hne
  obtain ⟨j, hj, hne, hbelow⟩ := exists_lowest hswap
  rw [octet_swap32 a hj, octet_swap32 b hj] at hne
  refine ⟨3 - j, by omega, hne, ?_⟩
  intro l hl hlt
  have heq := hbelow (3 - l) (by omega)
  rwa [octet_swap32 a (by omega), octet_swap32 b (by omega), Nat.sub_sub_self (by omega)] at heq

/-- Two addresses compare in network order as they are exactly if their bytes are in the same
order. -/
theorem swap32_le_iff (a b : UInt32) : (swap32 a ≤ swap32 b ↔ a ≤ b) ↔ SameOrder a b := by
  rcases eq_or_ne a b with rfl | hab
  · -- Equal addresses differ in no byte.
    refine iff_of_true (iff_of_true (UInt32.le_refl _) (UInt32.le_refl _)) ?_
    intro i _ j _ hne
    exact absurd rfl hne
  have hdiff : ∃ i, i < 4 ∧ octet a i ≠ octet b i := by
    by_contra hall
    push Not at hall
    exact hab (ext_octet hall)
  obtain ⟨i, hi, hne, habove⟩ := exists_highest hdiff
  obtain ⟨j, hj, hnej, hbelow⟩ := exists_lowest hdiff
  have hle : ∀ x y : UInt32, x ≠ y → (x ≤ y ↔ x < y) := by
    intro x y hxy
    rw [UInt32.lt_iff_le_and_ne]
    exact (and_iff_left hxy).symm
  rw [hle a b hab, hle _ _ (fun h => hab (swap32_injective h)), lt_iff_octet hi hne habove,
    swap32_lt_iff_octet hj hnej hbelow]
  constructor
  · intro h i' hi' j' hj' hne' habove' hnej' hbelow'
    rw [← lt_iff_octet hi' hne' habove', ← swap32_lt_iff_octet hj' hnej' hbelow',
      lt_iff_octet hi hne habove, swap32_lt_iff_octet hj hnej hbelow]
    exact h.symm
  · intro h
    exact (h i hi j hj hne habove hnej hbelow).symm

/-- What is in a subnet lies between its ends, whatever the order of the bytes. -/
theorem between_of_and_eq {x m s : UInt32} (h : x &&& m = s) : s ≤ x ∧ x ≤ s ||| ~~~m := by
  have hor : s ||| ~~~m = x ||| ~~~m := by
    rw [← h, ← UInt32.toBitVec_inj]
    ext i hi
    simp only [UInt32.toBitVec_or, UInt32.toBitVec_and, UInt32.toBitVec_not, BitVec.getElem_or,
      BitVec.getElem_and, BitVec.getElem_not]
    cases m.toBitVec[i] <;> simp
  constructor
  · rw [UInt32.le_iff_toNat_le, ← h, UInt32.toNat_and]
    exact Nat.and_le_left
  · rw [hor, UInt32.le_iff_toNat_le, UInt32.toNat_or]
    exact Nat.left_le_or

/-- A netmask with a zero in it. -/
theorem swap32_netmask_ne {k : ℕ} (hk : k ≤ 31) : swap32 (netmask k) ≠ 0xffffffff := by
  intro h
  have hnat := congrArg UInt32.toNat (swap32_injective (h.trans (by decide : _ = swap32 0xffffffff)))
  rw [netmask_toNat] at hnat
  have hpow : 2 ^ 1 ≤ 2 ^ (32 - k) := Nat.pow_le_pow_right (by norm_num) (by omega)
  replace hnat : 2 ^ 32 - 2 ^ (32 - k) = 4294967295 := hnat
  omega

/-- **What the check accepts.** -/
theorem ipaddr_range_check_eq_zero (long64 : Bool) {k : ℕ} (hk : k ≤ 31)
    (subnet ip_addr_start ip_addr_end : UInt32) :
    ipaddr_range_check (longBits long64) (inet_ntoa subnet) (inet_ntoa (netmask k))
        (inet_ntoa ip_addr_start) (inet_ntoa ip_addr_end) = 0 ↔
      network k ip_addr_start = subnet ∧ network k ip_addr_end = subnet ∧
        swap32 ip_addr_start ≤ swap32 ip_addr_end := by
  have hw := longBits_ge long64
  have hmask : ulong (longBits long64) (swap32 (netmask k)) ≠ 0xffffffff#(longBits long64) := by
    intro h
    exact swap32_netmask_ne hk ((ulong_inj hw _ 0xffffffff).mp h)
  -- The tests against the ends of the subnet decide nothing.
  have hout : ∀ a : UInt32, (swap32 (a &&& netmask k) ≠ swap32 subnet ∨ swap32 a < swap32 subnet ∨
      swap32 (subnet ||| ~~~netmask k) < swap32 a) ↔ network k a ≠ subnet := by
    intro a
    constructor
    · rintro (hne | hout) heq
      · exact hne (congrArg swap32 heq)
      · have hand : swap32 a &&& swap32 (netmask k) = swap32 subnet := by
          rw [← swap32_and]
          exact congrArg swap32 heq
        obtain ⟨hlow, hhigh⟩ := between_of_and_eq hand
        rw [swap32_or, swap32_compl] at hout
        rcases hout with hlt | hlt
        · exact UInt32.not_lt.mpr hlow hlt
        · exact UInt32.not_lt.mpr hhigh hlt
    · intro hne
      exact Or.inl (fun h => hne (swap32_injective h))
  unfold ipaddr_range_check
  simp only [inet_addr_ntoa, ulong_or_compl hw, ulong_and hw, ← swap32_and, ulong_lt_iff hw, ne_eq,
    ulong_inj hw]
  simp only [ne_eq] at hout
  rw [if_neg (fun h => hmask h.1)]
  simp only [hout]
  by_cases hstart : network k ip_addr_start = subnet
  · by_cases hend : network k ip_addr_end = subnet
    · rw [if_neg (not_not.mpr hstart), if_neg (not_not.mpr hend)]
      by_cases horder : swap32 ip_addr_end < swap32 ip_addr_start
      · rw [if_pos horder]
        exact iff_of_false (by norm_num) (fun h => UInt32.not_lt.mpr h.2.2 horder)
      · rw [if_neg horder]
        exact iff_of_true rfl ⟨hstart, hend, UInt32.not_lt.mp horder⟩
    · rw [if_neg (not_not.mpr hstart), if_pos hend]
      exact iff_of_false (by norm_num) (fun h => hend h.2.1)
  · rw [if_pos hstart]
    exact iff_of_false (by norm_num) (fun h => hstart h.1)

/-- **When the membership check is right**: exactly if the two addresses are not both in the
subnet, or the highest and the lowest of the bytes in which they differ are in the same order. -/
theorem ipaddr_range_check_right_iff (long64 : Bool) {k : ℕ} (hk : k ≤ 31)
    (subnet ip_addr_start ip_addr_end : UInt32) :
    (ipaddr_range_check (longBits long64) (inet_ntoa subnet) (inet_ntoa (netmask k))
        (inet_ntoa ip_addr_start) (inet_ntoa ip_addr_end) = 0 ↔
      InOrder k subnet ip_addr_start ip_addr_end) ↔
    (network k ip_addr_start = subnet → network k ip_addr_end = subnet →
      SameOrder ip_addr_start ip_addr_end) := by
  rw [ipaddr_range_check_eq_zero long64 hk, ← swap32_le_iff]
  constructor
  · intro h hstart hend
    exact ⟨fun hle => (h.mp ⟨hstart, hend, hle⟩).2.2, fun hle => (h.mpr ⟨hstart, hend, hle⟩).2.2⟩
  · intro h
    constructor
    · rintro ⟨hstart, hend, hle⟩
      exact ⟨hstart, hend, (h hstart hend).mp hle⟩
    · rintro ⟨hstart, hend, hle⟩
      exact ⟨hstart, hend, (h hstart hend).mpr hle⟩

theorem ipaddr_range_check_right_24 :
    24 ≤ 31 ∧
      ((ipaddr_range_check 64 (inet_ntoa 3332950528) (inet_ntoa (netmask 24))
          (inet_ntoa 3332950538) (inet_ntoa 3332950628) = 0 ↔
        InOrder 24 3332950528 3332950538 3332950628) ↔
      (network 24 3332950538 = 3332950528 → network 24 3332950628 = 3332950528 →
        SameOrder 3332950538 3332950628)) :=
  ⟨by decide,
    ipaddr_range_check_right_iff true (k := 24) (by decide) 3332950528 3332950538 3332950628⟩

/-- In 192.168.0.0/16, the addresses from 192.168.1.200 to 192.168.2.100 are refused. -/
theorem ipaddr_range_check_refuses :
    ¬ ∀ (long64 : Bool) (k : ℕ) (subnet ip_addr_start ip_addr_end : UInt32), 1 ≤ k → k ≤ 31 →
      network k subnet = subnet →
      (ipaddr_range_check (longBits long64) (inet_ntoa subnet) (inet_ntoa (netmask k))
          (inet_ntoa ip_addr_start) (inet_ntoa ip_addr_end) = 0 ↔
        InOrder k subnet ip_addr_start ip_addr_end) := by
  intro h
  have hcheck := h true 16 3232235520 3232235976 3232236132 (by decide) (by decide) (by decide)
  rw [ipaddr_range_check_eq_zero true (by decide)] at hcheck
  revert hcheck
  decide

/-- With a netmask of 24 ones or more, the check is right: all but the last bytes are the same. -/
theorem sameOrder_of_network {k : ℕ} (hk : 24 ≤ k) (hk32 : k ≤ 32) {a b : UInt32}
    (h : network k a = network k b) : SameOrder a b := by
  have hhigh : ∀ i, 1 ≤ i → octet a i = octet b i := by
    have hnat := congrArg UInt32.toNat h
    have hpow : 2 ^ (32 - k) ∣ 256 := by
      rw [show (256 : ℕ) = 2 ^ 8 from rfl]
      exact pow_dvd_pow 2 (by omega)
    obtain ⟨c, hc⟩ := hpow
    have hpos : 0 < 2 ^ (32 - k) := Nat.two_pow_pos _
    rw [network_toNat hk32, network_toNat hk32] at hnat
    have hdiv : a.toNat / 256 = b.toNat / 256 := by
      rw [hc, ← Nat.div_div_eq_div_mul, ← Nat.div_div_eq_div_mul,
        Nat.eq_of_mul_eq_mul_right hpos hnat]
    intro i hi
    obtain ⟨d, rfl⟩ := Nat.exists_eq_add_of_le hi
    unfold octet
    rw [pow_add, pow_one, ← Nat.div_div_eq_div_mul, ← Nat.div_div_eq_div_mul, hdiv]
  intro i _ j _ hne _ hnej _
  have hi : i = 0 := by
    by_contra hpos
    exact hne (hhigh i (by omega))
  have hj : j = 0 := by
    by_contra hpos
    exact hnej (hhigh j (by omega))
  rw [hi, hj]

end TestCore.Dhcp
