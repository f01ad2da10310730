/-
The claims file of `ipv4ll-group.c`: the addresses of the IPv4LL groups, kept for the next run.

`ipv4llg_writeclaims` writes one line for every group that holds an address: the id, the range,
the prefix length, and the address. `ipv4llg_start` reads the file line by line, and hands each
line to `ipv4llg_read_saved_claim`, which compares it with what the line of each group starts
with. There is no quoting: that a line is taken for the right group rests on the blanks
between the columns, and on there being none inside.

The id is a C string, without its terminator. (An empty one is a null pointer in the source, and
left to `printf`.) Addresses are in host order.
-/
import TestCore.Lib.Inet

set_option autoImplicit false

namespace TestCore.Ipv4llg

open TestCore.Lib

/-! ## The file -/

/-- `struct ipv4ll_group`, with its configuration first. -/
structure Ipv4llGroup where
  id : Bytes
  range_begin : UInt32
  range_end : UInt32
  network : UInt32
  last_address : UInt32 := 0
  deriving DecidableEq, Repr

/-- The loop of `inet_ntocidr`. After 32 rounds nothing is left of the mask. -/
def inet_ntocidr.loop : ℕ → UInt32 → ℕ
  | 0, _ => 0
  | rounds + 1, mask => if mask = 0 then 0 else inet_ntocidr.loop rounds (mask <<< 1) + 1

def inet_ntocidr (address : UInt32) : ℕ := inet_ntocidr.loop 32 address

/-- `"%s %s "`, with the id and the begin of the range. -/
def claimBegin (group : Ipv4llGroup) : Bytes :=
  group.id ++ 32 :: (inet_ntoa group.range_begin ++ [32])

/-- `ipv4llg_writeclaims`: what is written for groups and the addresses in their states. -/
def ipv4llg_writeclaims (held : List (Ipv4llGroup × Option UInt32)) : Bytes :=
  held.flatMap fun (group, addr) =>
    match addr with
    | some addr =>
        claimBegin group ++ (inet_ntoa group.range_end ++ [32]) ++
          (dec (inet_ntocidr group.network) ++ 32 :: (inet_ntoa addr ++ [10]))
    | none => []

/-! ## Reading -/

def cmp_buf_size : ℕ := 2048

/-- `"%s %d "`, with the end of the range and the prefix length. -/
def claimEnd (group : Ipv4llGroup) : Bytes :=
  inet_ntoa group.range_end ++ 32 :: (dec (inet_ntocidr group.network) ++ [32])

/-- `cmp_buf`: what the line of a group starts with. -/
def claimKey (group : Ipv4llGroup) : Bytes := claimBegin group ++ claimEnd group

/-- `strcspn(addr, "\r\n")`. -/
def lineLen (addr : Bytes) : ℕ := ((cstr addr).takeWhile fun c => c ≠ 13 ∧ c ≠ 10).length

/-- A line is compared with one group. The end of the line is cut off in place. -/
def readClaim (read : ℕ) (line : Bytes) (group : Ipv4llGroup) : Bytes × Ipv4llGroup :=
  let cmp_buf := claimKey group
  if (claimBegin group).length < cmp_buf_size ∧
      (claimEnd group).length < cmp_buf_size - (claimBegin group).length ∧
      -- Neither `snprintf` was cut, and the line goes on behind the key.
      cmp_buf.length < read ∧ startsWith (cstr line) cmp_buf then
    let cmp_buf_used := cmp_buf.length
    -- The terminator goes where `\r` or `\n` was. The next group sees the line with it.
    let line := line.set (cmp_buf_used + lineLen (line.drop cmp_buf_used)) 0
    match inet_aton (cstr (line.drop cmp_buf_used)) with
    | some addr => (line, { group with last_address := addr })
    | none => (line, group)
  else (line, group)

/-- `ipv4llg_read_saved_claim`. `read` stays the length of the line as it was read. -/
def ipv4llg_read_saved_claim (read : ℕ) : Bytes → List Ipv4llGroup → List Ipv4llGroup
  | _, [] => []
  | line, group :: groups =>
      -- The loop has no `break`: a line that belonged to a group is compared with the others, too.
      let (line, group) := readClaim read line group
      group :: ipv4llg_read_saved_claim read line groups

/-- `ipv4llg_start`, up to the groups: the preferred addresses from the file. -/
def ipv4llg_start_claims (groups : List Ipv4llGroup) (file : Bytes) : List Ipv4llGroup :=
  (lines file).foldl (fun groups line => ipv4llg_read_saved_claim line.length line groups) groups

/-! ## Lines -/

/-- What tells groups apart. -/
def Ipv4llGroup.key (group : Ipv4llGroup) : Bytes × UInt32 × UInt32 × ℕ :=
  (group.id, group.range_begin, group.range_end, inet_ntocidr group.network)

/-- An id of the claims file: a C string without a blank, and not too long. -/
structure GoodId (id : Bytes) : Prop where
  ne_nil : id ≠ []
  length_lt : id.length < 1900
  no_space : ∀ c ∈ id, isspace c = false
  nulFree : NulFree id

instance (id : Bytes) : Decidable (GoodId id) :=
  decidable_of_iff (id ≠ [] ∧ id.length < 1900 ∧ (∀ c ∈ id, isspace c = false) ∧ NulFree id)
    ⟨fun h => ⟨h.1, h.2.1, h.2.2.1, h.2.2.2⟩, fun h => ⟨h.ne_nil, h.length_lt, h.no_space, h.nulFree⟩⟩

/-- The line of a group. -/
def claimLine (group : Ipv4llGroup) (addr : UInt32) : Bytes := claimKey group ++ (inet_ntoa addr ++ [10])

theorem GoodId.not_mem {id : Bytes} (h : GoodId id) {c : UInt8} (hc : isspace c = true) : c ∉ id := by
  intro hmem
  rw [h.no_space c hmem] at hc
  exact Bool.false_ne_true hc

/-- **A line starts with the key of a group only if it is a line of this group.** -/
theorem key_of_claimKey {g h : Ipv4llGroup} (hg : GoodId g.id) (hh : GoodId h.id) {s t : Bytes}
    (heq : claimKey g ++ s = claimKey h ++ t) : g.key = h.key := by
  have hblank : isspace 32 = true := by decide
  have hlow : (32 : UInt8).toNat < 46 := by decide
  simp only [claimKey, claimBegin, claimEnd, List.append_assoc, List.cons_append, List.nil_append] at heq
  -- Column by column, each up to its blank: no column has a blank inside.
  obtain ⟨hid, heq⟩ := eq_of_append_mark (hg.not_mem hblank) (hh.not_mem hblank) heq
  obtain ⟨hbegin, heq⟩ := eq_of_append_mark (not_mem_inet_ntoa hlow _) (not_mem_inet_ntoa hlow _) heq
  obtain ⟨hend, heq⟩ := eq_of_append_mark (not_mem_inet_ntoa hlow _) (not_mem_inet_ntoa hlow _) heq
  obtain ⟨hcidr, -⟩ := eq_of_append_mark (not_mem_dec (by decide) _) (not_mem_dec (by decide) _) heq
  unfold Ipv4llGroup.key
  rw [hid, inet_ntoa_injective hbegin, inet_ntoa_injective hend, dec_injective hcidr]

/-- The key text is about what tells groups apart, and nothing else. -/
theorem claimKey_of_key {g h : Ipv4llGroup} (hkey : g.key = h.key) : claimKey g = claimKey h := by
  simp only [Ipv4llGroup.key, Prod.mk.injEq] at hkey
  obtain ⟨hid, hbegin, hend, hcidr⟩ := hkey
  unfold claimKey claimBegin claimEnd
  rw [hid, hbegin, hend, hcidr]

theorem nulFree_claimKey {g : Ipv4llGroup} (hg : GoodId g.id) : NulFree (claimKey g) := by
  have hblank : NulFree [32] := by simp [NulFree]
  have hdec : NulFree (dec (inet_ntocidr g.network)) := by
    rintro c hc rfl
    exact not_mem_dec (by decide) _ hc
  have hbegin : NulFree (claimBegin g) :=
    hg.nulFree.append (hblank.append ((nulFree_inet_ntoa _).append hblank))
  have hend : NulFree (claimEnd g) :=
    (nulFree_inet_ntoa _).append (hblank.append (hdec.append hblank))
  exact hbegin.append hend

/-! ## The buffer is long enough -/

theorem inet_ntocidr_loop_le (rounds : ℕ) (mask : UInt32) : inet_ntocidr.loop rounds mask ≤ rounds := by
  induction rounds generalizing mask with
  | zero => exact le_rfl
  | succ rounds ih =>
      unfold inet_ntocidr.loop
      split_ifs
      · exact Nat.zero_le _
      · exact Nat.succ_le_succ (ih _)

theorem claimBegin_length_lt {g : Ipv4llGroup} (hg : GoodId g.id) : (claimBegin g).length < 1917 := by
  have hid := hg.length_lt
  have haddr := inet_ntoa_length_le g.range_begin
  unfold claimBegin
  simp only [List.length_append, List.length_cons, List.length_nil]
  omega

theorem claimEnd_length_le (g : Ipv4llGroup) : (claimEnd g).length ≤ 19 := by
  have haddr := inet_ntoa_length_le g.range_end
  have hcidr : inet_ntocidr g.network ≤ 32 := inet_ntocidr_loop_le 32 g.network
  have hdec := dec_length_le (n := inet_ntocidr g.network) (k := 1) (by omega)
  unfold claimEnd
  simp only [List.length_append, List.length_cons, List.length_nil]
  omega

/-! ## Reading a line -/

/-- The line of another group is passed over. -/
theorem readClaim_other {g h : Ipv4llGroup} (hg : GoodId g.id) (hh : GoodId h.id) (hne : g.key ≠ h.key)
    (read : ℕ) (r : Bytes) : readClaim read (claimKey h ++ r) g = (claimKey h ++ r, g) := by
  unfold readClaim
  dsimp only
  refine if_neg ?_
  rintro ⟨-, -, -, hstart⟩
  obtain ⟨s, hs⟩ := startsWith_eq_true.mp hstart
  rw [cstr_append (nulFree_claimKey hh)] at hs
  exact hne (key_of_claimKey hg hh hs)

theorem lineLen_inet_ntoa (a : UInt32) : lineLen (inet_ntoa a ++ [10]) = (inet_ntoa a).length := by
  have hnl : NulFree (inet_ntoa a ++ [10]) := (nulFree_inet_ntoa a).append (by simp [NulFree])
  unfold lineLen
  rw [cstr_of_nulFree hnl, List.takeWhile_append_of_pos]
  · rw [List.length_append]
    rfl
  · intro c hc
    have hmem := mem_inet_ntoa hc
    rw [decide_eq_true_eq]
    refine ⟨?_, ?_⟩
    · rintro rfl
      exact absurd hmem (by decide)
    · rintro rfl
      exact absurd hmem (by decide)

/-- The own line of a group sets its preferred address. -/
theorem readClaim_own {g h : Ipv4llGroup} (hg : GoodId g.id) (hkey : g.key = h.key) (a : UInt32) :
    readClaim (claimLine h a).length (claimLine h a) g
      = (claimKey h ++ (inet_ntoa a ++ [0]), { g with last_address := a }) := by
  have htext : claimKey g = claimKey h := claimKey_of_key hkey
  have hbegin := claimBegin_length_lt hg
  have hend := claimEnd_length_le g
  have hcond : (claimBegin g).length < cmp_buf_size ∧
      (claimEnd g).length < cmp_buf_size - (claimBegin g).length ∧
      (claimKey g).length < (claimLine h a).length ∧
      startsWith (cstr (claimLine h a)) (claimKey g) = true := by
    refine ⟨?_, ?_, ?_, ?_⟩
    · unfold cmp_buf_size
      omega
    · unfold cmp_buf_size
      omega
    · unfold claimLine
      simp only [htext, List.length_append, List.length_cons, List.length_nil]
      omega
    · rw [startsWith_eq_true, claimLine, ← htext, cstr_append (nulFree_claimKey hg)]
      exact List.prefix_append _ _
  have hcut : (claimLine h a).set ((claimKey g).length + lineLen ((claimLine h a).drop (claimKey g).length)) 0
      = claimKey h ++ (inet_ntoa a ++ [0]) := by
    unfold claimLine
    rw [htext, List.drop_left, lineLen_inet_ntoa, List.set_append_right _ _ (by omega),
      Nat.add_sub_cancel_left, List.set_append_right _ _ le_rfl, Nat.sub_self]
    rfl
  have haddr : cstr ((claimKey h ++ (inet_ntoa a ++ [0])).drop (claimKey g).length) = inet_ntoa a := by
    rw [htext, List.drop_left, cstr_append (nulFree_inet_ntoa a), cstr_zero_cons, List.append_nil]
  unfold readClaim
  dsimp only
  rw [if_pos hcond, hcut, haddr, inet_aton_ntoa]

/-! ## Reading the file -/

/-- Groups as they may be configured together. -/
structure Configured (groups : List Ipv4llGroup) : Prop where
  good : ∀ group ∈ groups, GoodId group.id
  distinct : (groups.map Ipv4llGroup.key).Nodup

theorem Configured.tail {g : Ipv4llGroup} {gs : List Ipv4llGroup} (h : Configured (g :: gs)) :
    Configured gs where
  good := fun group hgroup => h.good group (List.mem_cons_of_mem g hgroup)
  distinct := (List.nodup_cons.mp h.distinct).2

theorem read_saved_claim_others {h : Ipv4llGroup} (hh : GoodId h.id) {gs : List Ipv4llGroup}
    (hgood : ∀ g ∈ gs, GoodId g.id) (hne : ∀ g ∈ gs, g.key ≠ h.key) (read : ℕ) (r : Bytes) :
    ipv4llg_read_saved_claim read (claimKey h ++ r) gs = gs := by
  induction gs with
  | nil => rfl
  | cons g gs ih =>
      have hother := readClaim_other (hgood g List.mem_cons_self) hh (hne g List.mem_cons_self) read r
      have hrest := ih (fun e he => hgood e (List.mem_cons_of_mem g he))
        (fun e he => hne e (List.mem_cons_of_mem g he))
      unfold ipv4llg_read_saved_claim
      rw [hother]
      dsimp only
      rw [hrest]

/-- **A line sets the preferred address of its own group, and of no other.** -/
theorem read_saved_claim_line {h : Ipv4llGroup} (hh : GoodId h.id) (a : UInt32)
    {gs : List Ipv4llGroup} (hgs : Configured gs) :
    ipv4llg_read_saved_claim (claimLine h a).length (claimLine h a) gs
      = gs.map fun g => if g.key = h.key then { g with last_address := a } else g := by
  induction gs with
  | nil => rfl
  | cons g gs ih =>
      have hg : GoodId g.id := hgs.good g List.mem_cons_self
      rw [List.map_cons]
      unfold ipv4llg_read_saved_claim
      by_cases hkey : g.key = h.key
      · -- The line is cut now, but no group that is left has this key.
        have hne : ∀ e ∈ gs, e.key ≠ h.key := by
          intro e he heq
          refine (List.nodup_cons.mp hgs.distinct).1 ?_
          rw [hkey, ← heq]
          exact List.mem_map_of_mem he
        have hsame : gs.map (fun e => if e.key = h.key then { e with last_address := a } else e) = gs := by
          conv_rhs => rw [← List.map_id gs]
          refine List.map_congr_left ?_
          intro e he
          exact if_neg (hne e he)
        rw [readClaim_own hg hkey, if_pos hkey, hsame]
        dsimp only
        rw [read_saved_claim_others hh hgs.tail.good hne]
      · have hother := readClaim_other hg hh hkey (claimLine h a).length (inet_ntoa a ++ [10])
        rw [if_neg hkey]
        change readClaim _ (claimLine h a) g = (claimLine h a, g) at hother
        rw [hother]
        dsimp only
        rw [ih hgs.tail]

/-- The line of a group, if it holds an address. -/
def claimOf (x : Ipv4llGroup × Option UInt32) : Option Bytes := x.2.map (claimLine x.1)

theorem lines_writeclaims {held : List (Ipv4llGroup × Option UInt32)}
    (hgood : ∀ x ∈ held, GoodId x.1.id) : lines (ipv4llg_writeclaims held) = held.filterMap claimOf := by
  induction held with
  | nil => rfl
  | cons x held ih =>
      have hrest := ih fun y hy => hgood y (List.mem_cons_of_mem x hy)
      obtain ⟨g, addr⟩ := x
      cases addr with
      | none => exact hrest
      | some a =>
          have hg : GoodId g.id := hgood (g, some a) List.mem_cons_self
          have hnl : 10 ∉ claimKey g ++ inet_ntoa a := by
            have hlow : (10 : UInt8).toNat < 46 := by decide
            have hid := hg.not_mem (c := 10) (by decide)
            simp [claimKey, claimBegin, claimEnd, hid, not_mem_inet_ntoa hlow, not_mem_dec (c := 10) (by decide)]
          have hwrite : ipv4llg_writeclaims ((g, some a) :: held)
              = (claimKey g ++ inet_ntoa a) ++ 10 :: ipv4llg_writeclaims held := by
            simp [ipv4llg_writeclaims, claimKey, claimEnd]
          have hcons : ((g, some a) :: held).filterMap claimOf = claimLine g a :: held.filterMap claimOf := rfl
          rw [hwrite, lines_append hnl, hrest, hcons]
          simp [claimLine]

/-- The groups, with a preferred address each. -/
def withLast (held : List (Ipv4llGroup × Option UInt32)) (last : Ipv4llGroup × Option UInt32 → UInt32) :
    List Ipv4llGroup :=
  held.map fun x => { x.1 with last_address := last x }

theorem withLast_congr {held : List (Ipv4llGroup × Option UInt32)}
    {last last' : Ipv4llGroup × Option UInt32 → UInt32} (h : ∀ x ∈ held, last x = last' x) :
    withLast held last = withLast held last' := by
  unfold withLast
  refine List.map_congr_left ?_
  intro x hx
  rw [h x hx]

section ReadLines

variable {held : List (Ipv4llGroup × Option UInt32)} (hcfg : Configured (held.map Prod.fst))

include hcfg

theorem Configured.withLast (last : Ipv4llGroup × Option UInt32 → UInt32) :
    Configured (withLast held last) := by
  refine ⟨?_, ?_⟩
  · intro g hg
    obtain ⟨x, hx, rfl⟩ := List.mem_map.mp hg
    exact hcfg.good x.1 (List.mem_map_of_mem hx)
  · have hdistinct := hcfg.distinct
    rw [List.map_map] at hdistinct
    unfold Ipv4llg.withLast
    rw [List.map_map]
    exact hdistinct

/-- The line of a group is read as the line of this group, and of no other. -/
theorem claimOf_eq_line_iff {h : Ipv4llGroup} {a : UInt32} (hy : (h, some a) ∈ held)
    {x : Ipv4llGroup × Option UInt32} (hx : x ∈ held) :
    claimOf x = some (claimLine h a) ↔ x.1.key = h.key := by
  have hdistinct := hcfg.distinct
  rw [List.map_map] at hdistinct
  constructor
  · intro hclaim
    obtain ⟨b, -, hb⟩ := Option.map_eq_some_iff.mp hclaim
    exact key_of_claimKey (hcfg.good x.1 (List.mem_map_of_mem hx))
      (hcfg.good h (List.mem_map_of_mem hy)) hb
  · intro hkey
    rw [List.inj_on_of_nodup_map hdistinct hx hy hkey]
    rfl

open Classical in
/-- One line: the group that it belongs to gets its address. -/
theorem read_line {h : Ipv4llGroup} {a : UInt32} (hy : (h, some a) ∈ held)
    (last : Ipv4llGroup × Option UInt32 → UInt32) :
    ipv4llg_read_saved_claim (claimLine h a).length (claimLine h a) (withLast held last)
      = withLast held fun x => if claimOf x = some (claimLine h a) then x.2.getD 0 else last x := by
  have hh : GoodId h.id := hcfg.good h (List.mem_map_of_mem hy)
  rw [read_saved_claim_line hh a (hcfg.withLast last)]
  unfold withLast
  rw [List.map_map]
  apply List.map_congr_left
  intro x hx
  have hiff := claimOf_eq_line_iff hcfg hy hx
  dsimp only [Function.comp]
  by_cases hkey : x.1.key = h.key
  · have hdistinct := hcfg.distinct
    rw [List.map_map] at hdistinct
    obtain rfl : x = (h, some a) := List.inj_on_of_nodup_map hdistinct hx hy hkey
    rw [if_pos (hiff.mpr hkey)]
    exact if_pos rfl
  · rw [if_neg (fun hclaim => hkey (hiff.mp hclaim))]
    exact if_neg hkey

open Classical in
/-- After some lines, the groups whose lines were among them have their addresses. -/
theorem read_lines {ls : List Bytes} (hls : ∀ l ∈ ls, ∃ x ∈ held, claimOf x = some l)
    (last : Ipv4llGroup × Option UInt32 → UInt32) :
    ls.foldl (fun groups line => ipv4llg_read_saved_claim line.length line groups) (withLast held last)
      = withLast held fun x => if ∃ l ∈ ls, claimOf x = some l then x.2.getD 0 else last x := by
  -- The addresses so far are what the rest of the file starts from.
  induction ls generalizing last with
  | nil => simp
  | cons l ls ih =>
      obtain ⟨⟨h, addr⟩, hy, hline⟩ := hls l List.mem_cons_self
      obtain ⟨a, rfl, rfl⟩ := Option.map_eq_some_iff.mp hline
      rw [List.foldl_cons, read_line hcfg hy, ih fun l hl => hls l (List.mem_cons_of_mem _ hl)]
      apply withLast_congr
      intro x hx
      -- A line that comes twice brings the same address both times.
      by_cases hlast : ∃ l ∈ ls, claimOf x = some l
      · have hboth : ∃ l ∈ claimLine h a :: ls, claimOf x = some l := by
          obtain ⟨l, hl, hclaim⟩ := hlast
          exact ⟨l, List.mem_cons_of_mem _ hl, hclaim⟩
        rw [if_pos hlast, if_pos hboth]
      · rw [if_neg hlast]
        simp only [List.mem_cons, exists_eq_or_imp]
        by_cases hfirst : claimOf x = some (claimLine h a)
        · rw [if_pos hfirst, if_pos (Or.inl hfirst)]
        · rw [if_neg hfirst, if_neg (not_or.mpr ⟨hfirst, hlast⟩)]

end ReadLines

/-- A file that has exactly the lines of the groups that hold an address brings each group its own
address back. -/
theorem start_claims_of_lines {held : List (Ipv4llGroup × Option UInt32)}
    (hcfg : Configured (held.map Prod.fst)) {file : Bytes}
    (hmem : ∀ l, l ∈ lines file ↔ ∃ x ∈ held, claimOf x = some l) :
    ipv4llg_start_claims (withLast held fun _ => 0) file = withLast held fun x => x.2.getD 0 := by
  have hread := read_lines hcfg (fun l hl => (hmem l).mp hl) (fun _ => 0)
  unfold ipv4llg_start_claims
  refine hread.trans (withLast_congr ?_)
  rintro ⟨g, addr⟩ hx
  cases addr with
  | none => simp [claimOf]
  | some a =>
      have hline : claimLine g a ∈ lines file := (hmem _).mpr ⟨(g, some a), hx, rfl⟩
      rw [if_pos ⟨_, hline, rfl⟩]

theorem mem_lines_writeclaims {held : List (Ipv4llGroup × Option UInt32)}
    (hcfg : Configured (held.map Prod.fst)) (l : Bytes) :
    l ∈ lines (ipv4llg_writeclaims held) ↔ ∃ x ∈ held, claimOf x = some l := by
  rw [lines_writeclaims fun x hx => hcfg.good x.1 (List.mem_map_of_mem hx), List.mem_filterMap]

/-- **The claims file brings every group its own address back**, whatever the order of the groups
and of the lines. -/
theorem claims_round_trip {held held' : List (Ipv4llGroup × Option UInt32)}
    (hcfg : Configured (held.map Prod.fst)) (hgroups : held'.Perm held) {file : Bytes}
    (hfile : (lines file).Perm (lines (ipv4llg_writeclaims held))) :
    ipv4llg_start_claims (held'.map fun x => { x.1 with last_address := 0 }) file
      = held'.map fun x => { x.1 with last_address := x.2.getD 0 } := by
  have hcfg' : Configured (held'.map Prod.fst) := by
    refine ⟨?_, ?_⟩
    · intro g hg
      exact hcfg.good g ((hgroups.map Prod.fst).mem_iff.mp hg)
    · exact ((hgroups.map Prod.fst).map Ipv4llGroup.key).nodup_iff.mpr hcfg.distinct
  refine start_claims_of_lines hcfg' ?_
  intro l
  rw [hfile.mem_iff, mem_lines_writeclaims hcfg]
  exact exists_congr fun x => and_congr_left fun _ => hgroups.mem_iff.symm

/-- Two groups with one id and one range. -/
def sharedId : List Ipv4llGroup :=
  [{ id := bytes "ray", range_begin := 0xa9fe0100, range_end := 0xa9fefeff, network := 0xffff0000 },
    { id := bytes "ray", range_begin := 0xa9fe0100, range_end := 0xa9fefeff, network := 0xffffff00 }]

theorem configured_sharedId : Configured sharedId :=
  ⟨by decide, by decide⟩

theorem claims_round_trip_shared_id :
    let held := sharedId.zip [some 0xa9fe0203, none]
    Configured (held.map Prod.fst) ∧ held.reverse.Perm held ∧
      ipv4llg_start_claims (held.reverse.map fun x => { x.1 with last_address := 0 })
          (ipv4llg_writeclaims held)
        = held.reverse.map fun x => { x.1 with last_address := x.2.getD 0 } := by
  intro held
  have hcfg : Configured (held.map Prod.fst) := configured_sharedId
  have hperm : held.reverse.Perm held := List.reverse_perm held
  exact ⟨hcfg, hperm, claims_round_trip hcfg hperm (List.Perm.refl _)⟩

end TestCore.Ipv4llg
