/-
The names of the devices on `eth0` (`get_eth0_device` of `eth0_connect_device.c`).

A name comes from the leases of the DHCP server. The function looks for the address of the device as a
text in a text: the first place where it stands, up to the next brace, is taken for the lease of the
device, and if the lease is not active, the next place. So a lease of an address that only contains the
address of the device is as good as its own, and of several leases the first active one counts, with or
without a name.

The array has as many entries as `counter_eth0_device` says. Where these are too few, the list does not fit
into it; where they are too many, the last one has no address. No address is found wherever the search
begins, at the end of the first lease too, so the search does not get behind it, and never ends unless that
lease is active (`get_eth0_device_right_iff`).

The two copies that are searched have no end of their own: neither `fread` nor `strncpy` puts a zero
behind them.
-/
import TestCore.ConnectDevice.DeviceList
import TestCore.ConnectDevice.StringFind

set_option autoImplicit false

namespace TestCore.ConnectDevice

open TestCore.Lib

/-! ## The function -/

def activeText : Bytes := bytes "binding state active"
def hostText : Bytes := bytes "client-hostname"

/-- What lies in memory behind the two copies: `dhcpd_lease`, and `tmp_buf` of the device `i` when it
is made the `n`th time. -/
structure Behind where
  dhcpd_lease : Bytes
  tmp_buf : (i : ℕ) → (n : ℕ) → Bytes

/-- The address from some place on, and the next brace. The pointers are the texts from there on. -/
def locate (text ip : Bytes) : Option (Bytes × Bytes) := do
  let point ← findFrom ip text
  let end_point ← findFrom [125] point
  return (point, end_point)

/-- A turn: the two calls of `strstr`, which are made again before the `goto`, the copy and its test.
The state is the number of copies made, and where the search goes on. -/
def get_eth0_device.turn (behind : Behind) (i : ℕ) (ip : Bytes) (s : ℕ × Bytes) :
    Option Bytes ⊕ ℕ × Bytes :=
  match locate s.2 ip with
  | none => .inl none
  | some (point, end_point) =>
      let tmp_buf := cstr (point.take (point.length - end_point.length) ++ behind.tmp_buf i s.1)
      if stringFind tmp_buf activeText ≠ activeText.length then .inr (s.1 + 1, end_point)
      else .inl (some tmp_buf)

/-- What is stored at the name, for the copy of an active lease. Without a semicolon, or one that
comes too early, the count of the second `strncpy` is none. -/
def get_eth0_device.hostname (tmp_buf : Bytes) : Option Bytes :=
  match findFrom hostText tmp_buf with
  | none => some (bytes "*" ++ [0])
  | some point =>
      match findFrom [59] point with
      | none => none
      | some end_point =>
          let n := point.length - end_point.length
          if n < 18 then none
          else if n - 18 > 64 then some (strncpy (point.drop 17) 64 ++ [0])
          else some (strncpy (point.drop 17) (n - 18) ++ [0])

/-- What is stored at the name of the device `i`, if the search is over after so many turns. -/
def get_eth0_device.name (turns : ℕ) (behind : Behind) (dhcpd_lease : Bytes) (i : ℕ) (ip : Bytes) :
    Option Bytes :=
  match loopFor (get_eth0_device.turn behind i ip) turns (0, dhcpd_lease) with
  | none => none
  | some none => some (bytes "*" ++ [0])
  | some (some tmp_buf) => get_eth0_device.hostname tmp_buf

/-- The loop over `count` entries from `i` on. An address ends before the array does. -/
def get_eth0_device.names (turns : ℕ) (behind : Behind) (dhcpd_lease : Bytes) :
    (count : ℕ) → (i : ℕ) → Memory → Option Memory
  | 0, _, m => some m
  | count + 1, i, m =>
      let ip := cstr (load m (sizeofEntry * i) (sizeofEntry * (count + 1)))
      match get_eth0_device.name turns behind dhcpd_lease i ip with
      | none => none
      | some name =>
          get_eth0_device.names turns behind dhcpd_lease count (i + 1)
            (store m (sizeofEntry * i + offsetofName) name)

/-- The loop over the list of devices, from the entry `i` on. Without a space in the text the function
returns; behind the `cap` entries of the array there is nothing to store an entry in. -/
def get_eth0_device.fill (cap : ℕ) : ℕ → List Bytes → Memory → Option Memory
  | _, [], m => some m
  | i, buf :: fp, m =>
      if cap ≤ i then none
      else
        let buf := cstr buf
        let m := store m (sizeofEntry * i) (List.replicate 20 0)
        let m := store m (sizeofEntry * i) (List.replicate 20 0)
        match findSub [32] buf with
        | none => none
        | some n =>
            if buf.length - n = 1 then none
            else
              let m := store m (sizeofEntry * i) (buf.take n)
              let m := store m (sizeofEntry * i + offsetofMac) ((buf.drop (n + 1)).take (buf.length - n - 2))
              get_eth0_device.fill cap (i + 1) fp m

/-- `get_eth0_device`, with the texts of both files: the array after it. -/
def get_eth0_device (turns : ℕ) (behind : Behind) (iplist leases : Bytes) (cap : ℕ)
    (eth0_dev_list : Memory) : Option Memory :=
  (get_eth0_device.fill cap 0 (reads iplist) eth0_dev_list).bind fun m =>
    get_eth0_device.names turns behind (cstr (leases ++ behind.dhcpd_lease)) cap 0 m

/-! ## What is asked for -/

inductive LeaseStatement where
  | binding (state : Bytes)
  | hostname (host : Bytes)
  | other (text : Bytes)
  deriving DecidableEq

/-- A statement without its semicolon. -/
def LeaseStatement.text : LeaseStatement → Bytes
  | .binding state => bytes "binding state " ++ state
  | .hostname host => hostText ++ (bytes " \"" ++ (host ++ bytes "\""))
  | .other text => text

structure LeaseBlock where
  address : Bytes
  statements : List LeaseStatement
  deriving DecidableEq

/-- `lease`, the address, and the statements in braces. -/
def bodyText (ss : List LeaseStatement) : Bytes :=
  (ss.map fun s => bytes "  " ++ s.text ++ bytes ";\n").flatten

def LeaseBlock.text (b : LeaseBlock) : Bytes :=
  bytes "lease " ++ (b.address ++ ([32, 123, 10] ++ (bodyText b.statements ++ [125, 10])))

def leaseText (bs : List LeaseBlock) : Bytes := (bs.map LeaseBlock.text).flatten

def LeaseBlock.Active (b : LeaseBlock) : Prop := .binding (bytes "active") ∈ b.statements

def LeaseBlock.HasHostname (b : LeaseBlock) (host : Bytes) : Prop := .hostname host ∈ b.statements

structure Device where
  ip : Bytes
  mac : Bytes

def Device.line (d : Device) : Bytes := d.ip ++ 32 :: d.mac

/-- The file with the list of devices. -/
def iplistOf (ds : List Device) : Bytes := listOf (ds.map Device.line)

/-- A hostname of an active lease of exactly the address, or a star if there is none. -/
def RightName (bs : List LeaseBlock) (ip name : Bytes) : Prop :=
  (∃ b ∈ bs, b.address = ip ∧ b.Active ∧ b.HasHostname name) ∨
    name = bytes "*" ∧ ∀ b ∈ bs, b.address = ip → b.Active → ∀ host, ¬ b.HasHostname host

/-- `main` makes the array as large as `counter_eth0_device` says, and goes on if this is not negative.
Then `get_eth0_device` returns, and the names in the array are right. -/
def NamesRight (behind : Behind) (bs : List LeaseBlock) (ds : List Device) (eth0_dev_list : Memory) :
    Prop :=
  ∀ cap : ℕ, counter_eth0_device (iplistOf ds) = cap →
    ∃ turns m, get_eth0_device turns behind (iplistOf ds) (leaseText bs) cap eth0_dev_list = some m ∧
      ∀ i d, ds[i]? = some d → ∃ name, StringAt m (sizeofEntry * i + offsetofName) name ∧
        RightName bs d.ip name

/-! ## The condition -/

/-- The characters of an address. -/
def AddressText (ip : Bytes) : Prop := ∀ c ∈ ip, c = 46 ∨ 48 ≤ c ∧ c ≤ 57

instance (ip : Bytes) : Decidable (AddressText ip) :=
  inferInstanceAs (Decidable (∀ c ∈ ip, c = 46 ∨ 48 ≤ c ∧ c ≤ 57))

/-- A statement that is what it looks like, with a name that fits. -/
structure LeaseStatement.Plain (s : LeaseStatement) : Prop where
  nulFree : NulFree s.text
  no_semicolon : 59 ∉ s.text
  no_brace : 125 ∉ s.text
  named : hostText <:+: s.text → ∃ host, s = .hostname host
  host : ∀ host, s = .hostname host → host.length < 64

structure LeaseBlock.Plain (b : LeaseBlock) : Prop where
  address : AddressText b.address
  statements : ∀ s ∈ b.statements, s.Plain

/-- A device whose line is read at once and whose address fits. -/
structure Device.Plain (d : Device) : Prop where
  ip : AddressText d.ip
  ip_ne : d.ip ≠ []
  ip_length : d.ip.length < 20
  mac : NulFree d.mac ∧ 10 ∉ d.mac
  line_length : d.line.length < 39

/-- Nothing is read behind the copies. -/
def Behind.Clean (behind : Behind) : Prop :=
  cstr behind.dhcpd_lease = [] ∧ ∀ i n, cstr (behind.tmp_buf i n) = []

def LeaseBlock.LooksActive (b : LeaseBlock) : Prop := ∃ s ∈ b.statements, activeText <:+: s.text

instance (b : LeaseBlock) : Decidable b.LooksActive :=
  inferInstanceAs (Decidable (∃ s ∈ b.statements, activeText <:+: s.text))

/-- The first lease whose address contains the address and that looks active. -/
def firstFor (bs : List LeaseBlock) (ip : Bytes) : Option LeaseBlock :=
  bs.find? fun b => ip <:+: b.address ∧ b.LooksActive

def hostOf : LeaseStatement → Option Bytes
  | .hostname host => some host
  | _ => none

def LeaseBlock.firstHost (b : LeaseBlock) : Option Bytes := b.statements.findSome? hostOf

/-- The first hostname of the first lease is right for the device, or the star if it has none. -/
def FirstIsRight (bs : List LeaseBlock) (ip : Bytes) : Prop :=
  ∀ c, firstFor bs ip = some c →
    (∀ host, c.firstHost = some host → RightName bs ip host) ∧
      (c.firstHost = none → RightName bs ip (bytes "*"))

/-- The devices fit into the array, and if an entry is left over, the first lease looks active. -/
def CountOk (bs : List LeaseBlock) (ds : List Device) : Prop :=
  ds.length ≤ room (iplistOf ds) ∧
    (ds.length < room (iplistOf ds) → ∀ b ∈ bs.head?, b.LooksActive)

/-- An entry behind those of the devices begins with a zero. `malloc` does not put it there. -/
def ZeroBehind (ds : List Device) (eth0_dev_list : Memory) : Prop :=
  ds.length < room (iplistOf ds) → eth0_dev_list (sizeofEntry * ds.length) = 0

/-! ## The search in a text -/

section Text

theorem bodyText_cons (s : LeaseStatement) (ss : List LeaseStatement) :
    bodyText (s :: ss) = (bytes "  " ++ s.text) ++ 59 :: 10 :: bodyText ss := by
  unfold bodyText
  rw [List.map_cons, List.flatten_cons, List.append_assoc]
  rfl

/-- A text that begins with another character than those around a statement is in one of them. -/
theorem infix_bodyText {f : UInt8} {pat : Bytes} (hf : f ≠ 32 ∧ f ≠ 10) (hsemi : 59 ∉ f :: pat)
    (ss : List LeaseStatement) :
    f :: pat <:+: bodyText ss ↔ ∃ s ∈ ss, f :: pat <:+: s.text := by
  have hspace : f ∉ bytes "  " := by
    show f ∉ [32, 32]
    simp [hf.1]
  induction ss with
  | nil => simp [bodyText]
  | cons s ss ih =>
      rw [bodyText_cons, infix_append_mark hsemi, infix_append_of_not_mem hspace,
        show 10 :: bodyText ss = [10] ++ bodyText ss from rfl,
        infix_append_of_not_mem (by simp [hf.2]), List.exists_mem_cons_iff]
      exact or_congr_right ih

/-- What stands between the address and the end of a lease. -/
def LeaseBlock.inner (b : LeaseBlock) : Bytes := [32, 123, 10] ++ bodyText b.statements

/-- A character that is in no statement. -/
theorem LeaseBlock.not_mem_inner {b : LeaseBlock} {c : UInt8}
    (hc : c ∉ [32, 123, 10, 59]) (hb : ∀ s ∈ b.statements, c ∉ s.text) : c ∉ b.inner := by
  simp only [List.mem_cons, List.not_mem_nil, or_false, not_or] at hc
  obtain ⟨hspace, hopen, hline, hsemi⟩ := hc
  have hbody : ∀ ss : List LeaseStatement, (∀ s ∈ ss, c ∉ s.text) → c ∉ bodyText ss := by
    intro ss hss
    induction ss with
    | nil => exact List.not_mem_nil
    | cons s ss ih =>
        rw [List.forall_mem_cons] at hss
        have hindent : c ∉ bytes "  " := by
          show c ∉ [32, 32]
          simp [hspace]
        rw [bodyText_cons, List.mem_append, List.mem_append, List.mem_cons, List.mem_cons]
        simp only [hindent, hss.1, hsemi, hline, ih hss.2, or_self, not_false_eq_true]
  unfold LeaseBlock.inner
  rw [List.mem_append]
  simp [hspace, hopen, hline, hbody b.statements hb]

theorem LeaseBlock.text_append (b : LeaseBlock) (rest : Bytes) :
    b.text ++ rest = bytes "lease" ++ 32 :: (b.address ++ (b.inner ++ 125 :: 10 :: rest)) := by
  unfold LeaseBlock.text LeaseBlock.inner
  simp only [List.append_assoc]
  rfl

end Text

section Address

variable {ip : Bytes} (hip : AddressText ip) (hne : ip ≠ [])

include hip

theorem AddressText.not_mem {c : UInt8} (hc : ¬ (c = 46 ∨ 48 ≤ c ∧ c ≤ 57)) : c ∉ ip :=
  fun hmem => hc (hip c hmem)

include hne

theorem AddressText.not_within {a : Bytes} (ha : ∀ c ∈ a, ¬ (c = 46 ∨ 48 ≤ c ∧ c ≤ 57)) :
    ¬ ip <:+: a := by
  intro h
  obtain ⟨c, t, rfl⟩ := List.exists_cons_of_ne_nil hne
  exact ha c (h.subset List.mem_cons_self) (hip c List.mem_cons_self)

/-- Statements without the address are passed over. -/
theorem findFrom_bodyText {ss : List LeaseStatement} (hss : ∀ s ∈ ss, ¬ ip <:+: s.text) (rest : Bytes) :
    findFrom ip (bodyText ss ++ rest) = findFrom ip rest := by
  have hspace : 32 ∉ ip := hip.not_mem (by decide)
  have hempty : ¬ ip <:+: [] := hip.not_within hne nofun
  induction ss with
  | nil => rfl
  | cons s ss ih =>
      have hs : ¬ ip <:+: bytes "  " ++ s.text := by
        show ¬ ip <:+: [] ++ 32 :: ([] ++ 32 :: s.text)
        rw [infix_append_mark hspace, infix_append_mark hspace]
        simp only [hempty, false_or]
        exact hss s List.mem_cons_self
      rw [bodyText_cons, List.append_assoc, List.cons_append, List.cons_append,
        findFrom_append_mark (hip.not_mem (by decide)) hs,
        ← ih fun x hx => hss x (List.mem_cons_of_mem s hx)]
      exact findFrom_append_mark (a := []) (hip.not_mem (by decide)) hempty

/-- The end of a lease is passed over. -/
theorem findFrom_brace (rest : Bytes) : findFrom ip (125 :: 10 :: rest) = findFrom ip rest :=
  findFrom_append_mark (a := [125]) (hip.not_mem (by decide)) (hip.not_within hne (by decide))

theorem findFrom_inner {b : LeaseBlock} (hb : ∀ s ∈ b.statements, ¬ ip <:+: s.text) (rest : Bytes) :
    findFrom ip (b.inner ++ rest) = findFrom ip rest := by
  rw [LeaseBlock.inner, List.append_assoc, ← findFrom_bodyText hip hne hb rest]
  exact findFrom_append_mark (a := [32, 123]) (hip.not_mem (by decide)) (hip.not_within hne (by decide))

theorem findFrom_block {b : LeaseBlock} (rest : Bytes) :
    findFrom ip (b.text ++ rest) = findFrom ip (b.address ++ (b.inner ++ 125 :: 10 :: rest)) := by
  rw [LeaseBlock.text_append]
  exact findFrom_append_mark (hip.not_mem (by decide)) (hip.not_within hne (by decide))

/-- A lease of another address is passed over. -/
theorem findFrom_other {b : LeaseBlock} (hb : ∀ s ∈ b.statements, ¬ ip <:+: s.text)
    (hother : ¬ ip <:+: b.address) (rest : Bytes) : findFrom ip (b.text ++ rest) = findFrom ip rest := by
  have hempty := findFrom_append_mark (a := []) (m := 32) (hip.not_mem (by decide))
    (hip.not_within hne nofun) (s := 123 :: 10 :: bodyText b.statements ++ 125 :: 10 :: rest)
  calc findFrom ip (b.text ++ rest)
      = findFrom ip (b.address ++ (b.inner ++ 125 :: 10 :: rest)) := findFrom_block hip hne rest
    _ = findFrom ip (123 :: 10 :: bodyText b.statements ++ 125 :: 10 :: rest) :=
        findFrom_append_mark (m := 32) (hip.not_mem (by decide)) hother
    _ = findFrom ip (b.inner ++ 125 :: 10 :: rest) := hempty.symm
    _ = findFrom ip (125 :: 10 :: rest) := findFrom_inner hip hne hb _
    _ = findFrom ip rest := findFrom_brace hip hne rest

/-- A lease of an address that contains the address is located. -/
theorem locate_block {b : LeaseBlock} (hb : b.Plain) (hin : ip <:+: b.address) :
    ∃ v, v <:+ b.address ∧ ∀ start rest, findFrom ip start = findFrom ip (b.text ++ rest) →
      locate start ip = some ((v ++ b.inner) ++ 125 :: 10 :: rest, 125 :: 10 :: rest) := by
  obtain ⟨v, hv, hfind⟩ := findFrom_append hne hin
  refine ⟨v, hv, ?_⟩
  intro start rest hstart
  have hbrace : 125 ∉ v ++ b.inner := by
    rw [List.mem_append, not_or]
    exact ⟨fun h => hb.address.not_mem (by decide) (hv.subset h), LeaseBlock.not_mem_inner (by decide)
      fun s hs => (hb.statements s hs).no_brace⟩
  unfold locate
  rw [hstart, findFrom_block hip hne, hfind, ← List.append_assoc]
  show (findFrom [125] _).bind _ = _
  rw [findFrom_singleton hbrace]
  rfl

end Address

/-! ## The copy -/

section Copy

variable {b : LeaseBlock} {v : Bytes}

/-- What a copy may begin with: no letter of it begins one of the texts that are looked for. -/
structure Front (v : Bytes) : Prop where
  nulFree : NulFree v
  not_active : 98 ∉ v
  not_host : 99 ∉ v

/-- A copy begins within the address, or, if there is no address to look for, before it. -/
theorem front_of_suffix {a : Bytes} (ha : AddressText a) (hv : v <:+ a) : Front v where
  nulFree := nulFree_iff.mpr fun h => ha.not_mem (by decide) (hv.subset h)
  not_active h := ha.not_mem (by decide) (hv.subset h)
  not_host h := ha.not_mem (by decide) (hv.subset h)

theorem front_lease {a : Bytes} (ha : AddressText a) : Front (bytes "lease " ++ a) where
  nulFree := NulFree.append (by decide) (nulFree_iff.mpr (ha.not_mem (by decide)))
  not_active h := (List.mem_append.mp h).elim (absurd · (by decide)) (ha.not_mem (by decide))
  not_host h := (List.mem_append.mp h).elim (absurd · (by decide)) (ha.not_mem (by decide))

/-- A text that begins with a letter is in the copy if it is in a statement. -/
theorem infix_copy {f : UInt8} {pat : Bytes} (hfv : f ∉ v) (hmarks : f ∉ [32, 123, 10])
    (hsemi : 59 ∉ f :: pat) :
    f :: pat <:+: v ++ b.inner ↔ ∃ s ∈ b.statements, f :: pat <:+: s.text := by
  unfold LeaseBlock.inner
  rw [infix_append_of_not_mem hfv, infix_append_of_not_mem hmarks]
  simp only [List.mem_cons, List.not_mem_nil, or_false, not_or] at hmarks
  exact infix_bodyText ⟨hmarks.1, hmarks.2.2⟩ hsemi b.statements

theorem active_copy_iff (hv : Front v) : activeText <:+: v ++ b.inner ↔ b.LooksActive :=
  infix_copy hv.not_active (by decide) (by decide)

/-- A text without the first character of `client-hostname` is passed over. -/
theorem findFrom_hostText {u : Bytes} (hu : 99 ∉ u) (rest : Bytes) :
    findFrom hostText (u ++ rest) = findFrom hostText rest := by
  show findFrom (99 :: bytes "lient-hostname") _ = findFrom (99 :: bytes "lient-hostname") _
  exact findFrom_append_of_not_mem hu

/-- The statement of the first name is found. -/
theorem findFrom_hostname {ss : List LeaseStatement} (hss : ∀ s ∈ ss, s.Plain) {host : Bytes}
    (h : ss.findSome? hostOf = some host) :
    ∃ rest, findFrom hostText (bodyText ss) = some ((LeaseStatement.hostname host).text ++ 59 :: rest) := by
  have hspace : 99 ∉ bytes "  " := by decide
  induction ss with
  | nil => cases h
  | cons s ss ih =>
      rw [List.forall_mem_cons] at hss
      rw [bodyText_cons]
      by_cases hs : hostText <:+: s.text
      · obtain ⟨host', rfl⟩ := hss.1.named hs
        cases h
        refine ⟨10 :: bodyText ss, ?_⟩
        rw [List.append_assoc]
        refine (findFrom_hostText hspace _).trans (findFrom_at_start ?_)
        unfold LeaseStatement.text
        rw [List.append_assoc]
        exact List.prefix_append _ _
      · have hskip : ¬ hostText <:+: bytes "  " ++ s.text := by
          rw [show hostText = 99 :: bytes "lient-hostname" from rfl, infix_append_of_not_mem hspace]
          exact hs
        have hnone : hostOf s = none := by
          cases s with
          | hostname host' => exact absurd (List.prefix_append hostText _).isInfix hs
          | binding state => rfl
          | other text => rfl
        rw [List.findSome?_cons, hnone] at h
        obtain ⟨rest, hrest⟩ := ih hss.2 h
        refine ⟨rest, ?_⟩
        rw [findFrom_append_mark (by decide) hskip, ← hrest]
        exact findFrom_hostText (show 99 ∉ [10] by decide) (bodyText ss)

theorem hasHostname_of_firstHost {host : Bytes} (h : b.firstHost = some host) : b.HasHostname host := by
  obtain ⟨s, hs, heq⟩ := List.exists_of_findSome?_eq_some h
  cases s with
  | hostname host' =>
      cases heq
      exact hs
  | binding state => cases heq
  | other text => cases heq

/-- The name that the copy of a lease gives. -/
def LeaseBlock.name (b : LeaseBlock) : Bytes := b.firstHost.getD (bytes "*")

theorem hostname_copy (hb : b.Plain) (hv : Front v) :
    get_eth0_device.hostname (v ++ b.inner) = some (b.name ++ [0]) := by
  unfold get_eth0_device.hostname LeaseBlock.name
  rcases hfirst : b.firstHost with _ | host
  · -- Only the statement of a name contains the text that is looked for.
    have hno : ¬ hostText <:+: v ++ b.inner := by
      intro hin
      obtain ⟨s, hs, htext⟩ := (infix_copy hv.not_host (by decide) (by decide)).mp hin
      obtain ⟨host, rfl⟩ := (hb.statements s hs).named htext
      exact absurd (List.findSome?_eq_none_iff.mp hfirst _ hs) nofun
    rw [findFrom_eq_none.mpr hno]
    rfl
  · obtain ⟨rest, hrest⟩ := findFrom_hostname hb.statements hfirst
    have hplain := hb.statements _ (hasHostname_of_firstHost hfirst)
    have hlen := hplain.host host rfl
    have hpoint : findFrom hostText (v ++ b.inner) =
        some ((LeaseStatement.hostname host).text ++ 59 :: rest) := by
      rw [← hrest, findFrom_hostText hv.not_host]
      exact findFrom_hostText (show 99 ∉ [32, 123, 10] by decide) (bodyText b.statements)
    have hsize : (LeaseStatement.hostname host).text.length = host.length + 18 := by
      unfold LeaseStatement.text
      rw [List.length_append, List.length_append, List.length_append]
      show 15 + (2 + (host.length + 1)) = _
      omega
    have hdrop : ((LeaseStatement.hostname host).text ++ 59 :: rest).drop 17 =
        host ++ (34 :: 59 :: rest) := by
      unfold LeaseStatement.text
      simp only [List.append_assoc]
      rfl
    rw [hpoint]
    dsimp only
    rw [findFrom_singleton hplain.no_semicolon]
    dsimp only
    rw [List.length_append, hsize, Nat.add_sub_cancel, if_neg (by omega), Nat.add_sub_cancel,
      if_neg (by omega), hdrop, strncpy, List.take_left, Nat.sub_eq_zero_of_le (by simp)]
    simp

end Copy

/-! ## The search for one device -/

section Search

variable {behind : Behind} {ip : Bytes}

/-- What the search ends with: nothing, or the copy of the first lease. -/
def Found (bs : List LeaseBlock) (ip : Bytes) (r : Option Bytes) : Prop :=
  match firstFor bs ip with
  | none => r = none
  | some b => ∃ v, Front v ∧ r = some (v ++ b.inner)

/-- A turn that locates what is left of a lease. -/
theorem turn_located {b : LeaseBlock} (hclean : behind.Clean) (hb : b.Plain) {v : Bytes} (hv : Front v)
    {start rest : Bytes}
    (hlocate : locate start ip = some ((v ++ b.inner) ++ 125 :: 10 :: rest, 125 :: 10 :: rest)) (i n : ℕ) :
    get_eth0_device.turn behind i ip (n, start) =
      if b.LooksActive then .inl (some (v ++ b.inner)) else .inr (n + 1, 125 :: 10 :: rest) := by
  -- The copy ends where the brace was, as nothing is behind it.
  have hinner : NulFree b.inner := nulFree_iff.mpr (LeaseBlock.not_mem_inner (by decide)
    fun s hs => nulFree_iff.mp (hb.statements s hs).nulFree)
  have hfree : NulFree (v ++ b.inner) := hv.nulFree.append hinner
  have htmp : cstr (((v ++ b.inner) ++ 125 :: 10 :: rest).take
      (((v ++ b.inner) ++ 125 :: 10 :: rest).length - (125 :: 10 :: rest).length) ++
        behind.tmp_buf i n) = v ++ b.inner := by
    rw [List.length_append, Nat.add_sub_cancel, List.take_left, cstr_append hfree, hclean.2,
      List.append_nil]
  unfold get_eth0_device.turn
  rw [hlocate]
  dsimp only
  rw [htmp]
  by_cases hactive : b.LooksActive
  · rw [if_neg (by rw [stringFind_ne_iff (by decide), active_copy_iff hv]; exact not_not.mpr hactive),
      if_pos hactive]
  · rw [if_pos (by rw [stringFind_ne_iff (by decide), active_copy_iff hv]; exact hactive),
      if_neg hactive]

/-- A turn at a lease of an address that contains the address. -/
theorem turn_block {b : LeaseBlock} (hclean : behind.Clean) (hip : AddressText ip) (hne : ip ≠ [])
    (hb : b.Plain) (hin : ip <:+: b.address) {start rest : Bytes}
    (hstart : findFrom ip start = findFrom ip (b.text ++ rest)) (i n : ℕ) :
    ∃ v, Front v ∧ get_eth0_device.turn behind i ip (n, start) =
      if b.LooksActive then .inl (some (v ++ b.inner)) else .inr (n + 1, 125 :: 10 :: rest) := by
  obtain ⟨v, hv, hlocate⟩ := locate_block hip hne hb hin
  have hfront := front_of_suffix hb.address hv
  exact ⟨v, hfront, turn_located hclean hb hfront (hlocate start rest hstart) i n⟩

/-- **The search comes to the first lease.** -/
theorem search_leases (hclean : behind.Clean) (hip : AddressText ip) (hne : ip ≠ []) {bs : List LeaseBlock}
    (hbs : ∀ b ∈ bs, b.Plain ∧ ∀ s ∈ b.statements, ¬ ip <:+: s.text) {turns : ℕ}
    (hturns : bs.length < turns) (i n : ℕ) {start : Bytes}
    (hstart : findFrom ip start = findFrom ip (leaseText bs)) :
    ∃ r, loopFor (get_eth0_device.turn behind i ip) turns (n, start) = some r ∧ Found bs ip r := by
  induction bs generalizing turns n start with
  | nil =>
      obtain ⟨k, rfl⟩ := Nat.exists_eq_add_of_lt hturns
      have hnone : findFrom ip start = none := by
        rw [hstart, findFrom_eq_none]
        exact hip.not_within hne nofun
      refine ⟨none, loopFor_inl ?_ _, rfl⟩
      unfold get_eth0_device.turn locate
      rw [hnone]
      rfl
  | cons b bs ih =>
      rw [List.forall_mem_cons] at hbs
      obtain ⟨⟨hb, hstatements⟩, hbs⟩ := hbs
      obtain ⟨k, rfl⟩ := Nat.exists_eq_add_of_lt hturns
      rw [List.length_cons] at hturns
      have htext : leaseText (b :: bs) = b.text ++ leaseText bs := by
        unfold leaseText
        rw [List.map_cons, List.flatten_cons]
      rw [htext] at hstart
      by_cases hin : ip <:+: b.address
      · obtain ⟨v, hv, hturn⟩ := turn_block hclean hip hne hb hin hstart i n
        by_cases hactive : b.LooksActive
        · rw [if_pos hactive] at hturn
          refine ⟨_, loopFor_inl hturn _, ?_⟩
          unfold Found firstFor
          rw [List.find?_cons_of_pos (by simp [hin, hactive])]
          exact ⟨v, hv, rfl⟩
        · rw [if_neg hactive] at hturn
          -- The next turn begins at the brace, behind which the others are.
          have hk : bs.length < (b :: bs).length + k := by rw [List.length_cons]; omega
          obtain ⟨r, hr, hfound⟩ := ih hbs hk (n + 1) (findFrom_brace hip hne (leaseText bs))
          refine ⟨r, (loopFor_inr hturn _).trans hr, ?_⟩
          unfold Found firstFor at hfound ⊢
          rwa [List.find?_cons_of_neg (by simp [hactive])]
      · -- No turn is needed for this lease: the search from here is that in the others.
        rw [findFrom_other hip hne hstatements hin] at hstart
        have hk : bs.length < (b :: bs).length + k + 1 := by rw [List.length_cons]; omega
        obtain ⟨r, hr, hfound⟩ := ih hbs hk n hstart
        refine ⟨r, hr, ?_⟩
        unfold Found firstFor at hfound ⊢
        rwa [List.find?_cons_of_neg (by simp [hin])]

/-- The name that comes out for a device. -/
def nameFor (bs : List LeaseBlock) (ip : Bytes) : Bytes :=
  ((firstFor bs ip).map LeaseBlock.name).getD (bytes "*")

theorem name_eq (hclean : behind.Clean) (hip : AddressText ip) (hne : ip ≠ []) {bs : List LeaseBlock}
    (hbs : ∀ b ∈ bs, b.Plain ∧ ∀ s ∈ b.statements, ¬ ip <:+: s.text) {turns : ℕ}
    (hturns : bs.length < turns) (i : ℕ) :
    get_eth0_device.name turns behind (leaseText bs) i ip = some (nameFor bs ip ++ [0]) := by
  obtain ⟨r, hr, hfound⟩ := search_leases hclean hip hne hbs hturns i 0 rfl
  unfold get_eth0_device.name nameFor
  unfold Found at hfound
  rw [hr]
  rcases hfirst : firstFor bs ip with _ | b
  · rw [hfirst] at hfound
    rw [hfound]
    rfl
  · rw [hfirst] at hfound
    obtain ⟨v, hv, rfl⟩ := hfound
    exact hostname_copy (hbs b (List.mem_of_find?_eq_some hfirst)).1 hv

/-- No address is found where a lease begins, and the lease is located. -/
theorem locate_nil_block {b : LeaseBlock} (hb : b.Plain) (rest : Bytes) :
    locate (b.text ++ rest) [] =
      some (((bytes "lease " ++ b.address) ++ b.inner) ++ 125 :: 10 :: rest, 125 :: 10 :: rest) := by
  have hfront : 125 ∉ bytes "lease " := by decide
  have hbrace : 125 ∉ (bytes "lease " ++ b.address) ++ b.inner := by
    rw [List.mem_append, List.mem_append, not_or, not_or]
    exact ⟨⟨hfront, hb.address.not_mem (by decide)⟩, LeaseBlock.not_mem_inner (by decide)
      fun s hs => (hb.statements s hs).no_brace⟩
  have htext : b.text ++ rest = ((bytes "lease " ++ b.address) ++ b.inner) ++ 125 :: 10 :: rest := by
    rw [LeaseBlock.text_append, List.append_assoc, List.append_assoc]
    rfl
  unfold locate
  rw [findFrom_at_start List.nil_prefix, htext]
  show (findFrom [125] _).bind _ = _
  rw [findFrom_singleton hbrace]
  rfl

/-- At a brace no address is found again and again. -/
theorem turn_nil_brace (hclean : behind.Clean) (i n : ℕ) (rest : Bytes) :
    get_eth0_device.turn behind i [] (n, 125 :: rest) = .inr (n + 1, 125 :: rest) := by
  have hlocate : locate (125 :: rest) [] = some (125 :: rest, 125 :: rest) := by
    unfold locate
    rw [findFrom_at_start List.nil_prefix]
    show (findFrom [125] (125 :: rest)).bind _ = _
    rw [findFrom_at_start (show [125] <+: 125 :: rest by simp)]
    rfl
  unfold get_eth0_device.turn
  rw [hlocate]
  dsimp only
  rw [Nat.sub_self, List.take_zero, List.nil_append, hclean.2, if_pos]
  rw [stringFind_ne_iff (by decide)]
  decide

/-- **Without an address**, the first lease is taken if it is active. -/
theorem name_nil_eq (hclean : behind.Clean) {bs : List LeaseBlock} (hbs : ∀ b ∈ bs, b.Plain)
    (hfirst : ∀ b ∈ bs.head?, b.LooksActive) {turns : ℕ} (hturns : 0 < turns) (i : ℕ) :
    get_eth0_device.name turns behind (leaseText bs) i [] = some (nameFor bs [] ++ [0]) := by
  obtain ⟨k, rfl⟩ := Nat.exists_eq_add_of_lt hturns
  cases bs with
  | nil =>
      have hturn : get_eth0_device.turn behind i [] (0, leaseText []) = .inl none := rfl
      unfold get_eth0_device.name
      rw [loopFor_inl hturn]
      rfl
  | cons b bs =>
      have hb := hbs b List.mem_cons_self
      have hactive : b.LooksActive := hfirst b rfl
      have hfront := front_lease hb.address
      have hturn := turn_located hclean hb hfront (locate_nil_block hb (leaseText bs)) i 0
      rw [if_pos hactive] at hturn
      have hname : nameFor (b :: bs) [] = b.name := by
        unfold nameFor firstFor
        rw [List.find?_cons_of_pos (by simp [hactive])]
        rfl
      unfold get_eth0_device.name
      rw [show leaseText (b :: bs) = b.text ++ leaseText bs from rfl, loopFor_inl hturn, hname]
      exact hostname_copy hb hfront

/-- If it is not, the search does not end. -/
theorem name_nil_none (hclean : behind.Clean) {bs : List LeaseBlock} (hbs : ∀ b ∈ bs, b.Plain)
    (hfirst : ¬ ∀ b ∈ bs.head?, b.LooksActive) (turns i : ℕ) :
    get_eth0_device.name turns behind (leaseText bs) i [] = none := by
  cases bs with
  | nil => exact absurd nofun hfirst
  | cons b bs =>
      have hb := hbs b List.mem_cons_self
      have hactive : ¬ b.LooksActive := fun h => hfirst (by rintro _ ⟨⟩; exact h)
      have hturn : get_eth0_device.turn behind i [] (0, leaseText (b :: bs)) = _ :=
        turn_located hclean hb (front_lease hb.address) (locate_nil_block hb (leaseText bs)) i 0
      rw [if_neg hactive] at hturn
      -- The first turn comes to the brace, and there it stays.
      have hends : ¬ Ends (get_eth0_device.turn behind i []) (0, leaseText (b :: bs)) := by
        rw [ends_inr hturn]
        refine not_ends_of_invariant (I := fun s => s.2 = 125 :: 10 :: leaseText bs) ?_ rfl
        rintro ⟨n, _⟩ rfl
        exact ⟨_, turn_nil_brace hclean i n _, rfl⟩
      unfold get_eth0_device.name
      rcases hr : loopFor (get_eth0_device.turn behind i []) turns (0, leaseText (b :: bs)) with _ | r
      · rfl
      · exact absurd ⟨r, turns, hr⟩ hends

/-- It does not depend on the number of turns. -/
theorem name_unique {turns turns' : ℕ} {text : Bytes} {i : ℕ} {x x' : Bytes}
    (h : get_eth0_device.name turns behind text i ip = some x)
    (h' : get_eth0_device.name turns' behind text i ip = some x') : x = x' := by
  unfold get_eth0_device.name at h h'
  rcases hr : loopFor (get_eth0_device.turn behind i ip) turns (0, text) with _ | r
  · rw [hr] at h
    cases h
  · rcases hr' : loopFor (get_eth0_device.turn behind i ip) turns' (0, text) with _ | r'
    · rw [hr'] at h'
      cases h'
    · obtain rfl := EndsWith.unique ⟨turns, hr⟩ ⟨turns', hr'⟩
      rw [hr] at h
      rw [hr', h] at h'
      exact Option.some.inj h'

end Search

/-! ## The array -/

theorem names_unique {turns turns' : ℕ} {behind : Behind} {text : Bytes} {count i : ℕ} {m r r' : Memory}
    (h : get_eth0_device.names turns behind text count i m = some r)
    (h' : get_eth0_device.names turns' behind text count i m = some r') : r = r' := by
  induction count generalizing i m with
  | zero => exact Option.some.inj (h.symm.trans h')
  | succ count ih =>
      rw [get_eth0_device.names] at h h'
      split at h
      · cases h
      · split at h'
        · cases h'
        · rename_i _ hname _ _ hname'
          rw [name_unique hname hname'] at h
          exact ih h h'

/-- The loop over the entries stores the names of all and leaves what lies before. -/
theorem names_spec {turns : ℕ} {behind : Behind} {text : Bytes} {ip name : ℕ → Bytes} {count : ℕ} :
    ∀ {i : ℕ} {m : Memory},
      (∀ k, i ≤ k → k < i + count → StringAt m (sizeofEntry * k) (ip k) ∧ (ip k).length < 20 ∧
        get_eth0_device.name turns behind text k (ip k) = some (name k ++ [0]) ∧
          NulFree (name k) ∧ (name k).length < 64) →
      ∃ r, get_eth0_device.names turns behind text count i m = some r ∧
        (∀ k, i ≤ k → k < i + count → StringAt r (sizeofEntry * k + offsetofName) (name k)) ∧
        ∀ p s, StringAt m p s → p + s.length < sizeofEntry * i + offsetofName → StringAt r p s := by
  unfold sizeofEntry offsetofName
  induction count with
  | zero =>
      intro i m _
      exact ⟨m, rfl, fun k hk hlt => absurd hlt (by omega), fun p s h _ => h⟩
  | succ count ih =>
      intro i m hall
      obtain ⟨hip, hlen, hname, hfree, hshort⟩ := hall i (Nat.le_refl i) (by omega)
      have hread : cstr (load m (104 * i) (104 * (count + 1))) = ip i := hip.cstr_load (by omega)
      have hstored : (name i ++ [0]).length = (name i).length + 1 := by
        rw [List.length_append, List.length_singleton]
      -- The name lies before the next entry, so the addresses of the others are still there.
      obtain ⟨r, hr, hnames, hkeep⟩ := ih (i := i + 1) (m := store m (104 * i + 40) (name i ++ [0])) (by
        intro k hk hlt
        obtain ⟨hipk, hrest⟩ := hall k (by omega) (by omega)
        exact ⟨hipk.store (Or.inr (by omega)), hrest⟩)
      refine ⟨r, ?_, ?_, ?_⟩
      · rw [get_eth0_device.names]
        unfold sizeofEntry offsetofName
        rw [hread, hname]
        exact hr
      · intro k hk hlt
        rcases Nat.eq_or_lt_of_le hk with rfl | hk
        · exact hkeep _ _ (stringAt_store m _ hfree) (by omega)
        · exact hnames k hk (by omega)
      · intro p s hs hp
        exact hkeep p s (hs.store (Or.inl (by omega))) (by omega)

/-- The loop does not come behind an entry without a name, whatever comes out for those before. -/
theorem names_none {turns : ℕ} {behind : Behind} {text : Bytes} {ip : ℕ → Bytes} {last count : ℕ} :
    ∀ {i : ℕ} {m : Memory}, i ≤ last → last < i + count →
      (∀ k, i ≤ k → k < i + count → StringAt m (sizeofEntry * k) (ip k) ∧ (ip k).length < 20 ∧
        ∀ name, get_eth0_device.name turns behind text k (ip k) = some name → name.length ≤ 64) →
      get_eth0_device.name turns behind text last (ip last) = none →
      get_eth0_device.names turns behind text count i m = none := by
  unfold sizeofEntry
  induction count with
  | zero =>
      intro i m hle hlt _ _
      omega
  | succ count ih =>
      intro i m hle hlt hall hlast
      obtain ⟨hip, hlen, hname⟩ := hall i (Nat.le_refl i) (by omega)
      have hread : cstr (load m (104 * i) (104 * (count + 1))) = ip i := hip.cstr_load (by omega)
      rw [get_eth0_device.names]
      unfold sizeofEntry offsetofName
      rw [hread]
      rcases hres : get_eth0_device.name turns behind text i (ip i) with _ | name
      · rfl
      · have hshort := hname name hres
        have hne : i ≠ last := by
          rintro rfl
          rw [hres] at hlast
          cases hlast
        refine ih (by omega) (by omega) ?_ hlast
        intro k hk hlt
        obtain ⟨hipk, hrest⟩ := hall k (by omega) (by omega)
        exact ⟨hipk.store (Or.inr (by omega)), hrest⟩

/-- A text put into a field that was cleared has its end there. -/
theorem stringAt_cleared (m : Memory) (p : ℕ) {s : Bytes} (hs : NulFree s) {n : ℕ} (hn : s.length < n) :
    StringAt (store (store m p (List.replicate n 0)) p s) p s := by
  refine ⟨hs, ?_⟩
  rw [load_add, load_store, load_store_of_disjoint _ (Or.inr (Nat.le_refl _))]
  congr 1
  have hzero : (List.replicate n (0 : UInt8))[s.length]? = some 0 := by
    rw [List.getElem?_replicate, if_pos hn]
  rw [load_succ, load_zero, store, if_pos (Nat.le_add_right _ _), Nat.add_sub_cancel_left, hzero]
  rfl

/-- A line is read into an entry, and nothing is stored outside it. -/
theorem fill_line {d : Device} (hd : d.Plain) {cap i : ℕ} (hi : i < cap) (fp : List Bytes) (m : Memory) :
    ∃ m', get_eth0_device.fill cap i ((d.line ++ [10]) :: fp) m = get_eth0_device.fill cap (i + 1) fp m' ∧
      StringAt m' (sizeofEntry * i) d.ip ∧
      ∀ p s, StringAt m p s → p + s.length < sizeofEntry * i ∨ sizeofEntry * (i + 1) ≤ p →
        StringAt m' p s := by
  have hip : NulFree d.ip := nulFree_iff.mpr (hd.ip.not_mem (by decide))
  have hline : d.line ++ [10] = d.ip ++ 32 :: (d.mac ++ [10]) := by
    rw [Device.line, List.append_assoc, List.cons_append]
  have hcstr : cstr (d.line ++ [10]) = d.ip ++ 32 :: (d.mac ++ [10]) := by
    rw [hline]
    exact cstr_of_nulFree (hip.append ((hd.mac.1.append (show NulFree [10] by decide)).cons
      (by decide)))
  have hlen : (d.ip ++ 32 :: (d.mac ++ [10])).length - d.ip.length = d.mac.length + 2 := by
    rw [List.length_append, Nat.add_sub_cancel_left, List.length_cons, List.length_append,
      List.length_singleton]
  have hip_length := hd.ip_length
  have hmac : ((List.drop (d.ip.length + 1) (d.ip ++ 32 :: (d.mac ++ [10]))).take
      (d.mac.length + 2 - 2)).length < 39 := by
    have hline_length := hd.line_length
    rw [Device.line, List.length_append, List.length_cons] at hline_length
    rw [List.length_take]
    omega
  rw [get_eth0_device.fill, if_neg (by omega), hcstr]
  dsimp only
  rw [findSub_singleton (hd.ip.not_mem (by decide))]
  dsimp only
  rw [hlen, if_neg (by omega), List.take_left]
  refine ⟨_, rfl, ?_, ?_⟩
  · exact (stringAt_cleared _ _ hip hip_length).store (Or.inl (by unfold offsetofMac; omega))
  · unfold sizeofEntry offsetofMac
    have hzeros : (List.replicate 20 (0 : UInt8)).length = 20 := List.length_replicate
    rintro p s hs (hp | hp)
    · exact (((hs.store (Or.inl hp)).store (Or.inl hp)).store (Or.inl hp)).store (Or.inl (by omega))
    · exact (((hs.store (Or.inr (by omega))).store (Or.inr (by omega))).store
        (Or.inr (by omega))).store (Or.inr (by omega))

/-- All lines are read if there is an entry for each. -/
theorem fill_spec {ds : List Device} (hds : ∀ d ∈ ds, d.Plain) {cap i : ℕ} (hroom : i + ds.length ≤ cap)
    (m : Memory) :
    ∃ m', get_eth0_device.fill cap i (ds.map fun d => d.line ++ [10]) m = some m' ∧
      (∀ k d, ds[k]? = some d → StringAt m' (sizeofEntry * (i + k)) d.ip) ∧
      ∀ p s, StringAt m p s → p + s.length < sizeofEntry * i ∨ sizeofEntry * (i + ds.length) ≤ p →
        StringAt m' p s := by
  induction ds generalizing i m with
  | nil => exact ⟨m, rfl, nofun, fun p s h _ => h⟩
  | cons d ds ih =>
      rw [List.forall_mem_cons] at hds
      rw [List.length_cons] at hroom
      obtain ⟨m₁, hfill, hip, hkeep⟩ :=
        fill_line hds.1 (show i < cap by omega) (ds.map fun d => d.line ++ [10]) m
      obtain ⟨m', hrest, hips, hkeep'⟩ := ih hds.2 (i := i + 1) (by omega) m₁
      have hlen := hds.1.ip_length
      rw [List.length_cons]
      unfold sizeofEntry at *
      refine ⟨m', hfill.trans hrest, ?_, ?_⟩
      · intro k d' hk
        rcases k with _ | k
        · cases hk
          exact hkeep' _ _ hip (Or.inl (by omega))
        · rw [show i + (k + 1) = i + 1 + k by omega]
          exact hips k d' hk
      · intro p s hs hp
        exact hkeep' p s (hkeep p s hs (by omega)) (by omega)

/-- With an entry too few, one is stored behind the array. -/
theorem fill_none {ds : List Device} (hds : ∀ d ∈ ds, d.Plain) {cap i : ℕ} (hi : i ≤ cap)
    (hroom : cap < i + ds.length) (m : Memory) :
    get_eth0_device.fill cap i (ds.map fun d => d.line ++ [10]) m = none := by
  induction ds generalizing i m with
  | nil => exact absurd hroom (by simpa using hi)
  | cons d ds ih =>
      rw [List.forall_mem_cons] at hds
      rw [List.length_cons] at hroom
      rcases Nat.eq_or_lt_of_le hi with rfl | hlt
      · rw [List.map_cons, get_eth0_device.fill, if_pos (Nat.le_refl i)]
      · obtain ⟨m', hfill, -⟩ := fill_line hds.1 hlt (ds.map fun d => d.line ++ [10]) m
        exact hfill.trans (ih hds.2 hlt (by omega) m')

/-! ## All devices -/

section Devices

variable {behind : Behind} {bs : List LeaseBlock} {ds : List Device}

/-- The address of no device stands in a statement. -/
def AddressesApart (bs : List LeaseBlock) (ds : List Device) : Prop :=
  ∀ b ∈ bs, ∀ s ∈ b.statements, ∀ d ∈ ds, ¬ d.ip <:+: s.text

instance (bs : List LeaseBlock) (ds : List Device) : Decidable (AddressesApart bs ds) :=
  inferInstanceAs (Decidable (∀ b ∈ bs, ∀ s ∈ b.statements, ∀ d ∈ ds, ¬ d.ip <:+: s.text))

theorem deviceLine_line {d : Device} (hd : d.Plain) : DeviceLine d.line where
  spaced := List.mem_append_right _ List.mem_cons_self
  one_line := by
    rw [Device.line, List.mem_append, List.mem_cons, not_or, not_or]
    exact ⟨hd.ip.not_mem (by decide), by decide, hd.mac.2⟩
  nulFree := (nulFree_iff.mpr (hd.ip.not_mem (by decide))).append (hd.mac.1.cons (by decide))
  length_lt := hd.line_length

theorem nulFree_leaseText (hbs : ∀ b ∈ bs, b.Plain) : NulFree (leaseText bs) := by
  rw [nulFree_iff]
  unfold leaseText
  rw [List.mem_flatten]
  rintro ⟨text, htext, hzero⟩
  obtain ⟨b, hb, rfl⟩ := List.mem_map.mp htext
  have haddress := (hbs b hb).address.not_mem (c := 0) (by decide)
  have hinner : 0 ∉ b.inner := LeaseBlock.not_mem_inner (by decide)
    fun s hs => nulFree_iff.mp ((hbs b hb).statements s hs).nulFree
  have hlease : 0 ∉ bytes "lease" := by decide
  rw [← List.append_nil b.text, LeaseBlock.text_append] at hzero
  simp [haddress, hinner, hlease] at hzero

theorem nameFor_plain (hbs : ∀ b ∈ bs, b.Plain) (ip : Bytes) :
    NulFree (nameFor bs ip) ∧ (nameFor bs ip).length < 64 := by
  have hstar : NulFree (bytes "*") ∧ (bytes "*").length < 64 := by decide
  unfold nameFor
  rcases hfirst : firstFor bs ip with _ | b
  · exact hstar
  · have hb := hbs b (List.mem_of_find?_eq_some hfirst)
    show NulFree b.name ∧ b.name.length < 64
    unfold LeaseBlock.name
    rcases hhost : b.firstHost with _ | host
    · exact hstar
    · have hplain := hb.statements _ (hasHostname_of_firstHost hhost)
      refine ⟨?_, hplain.host host rfl⟩
      intro c hc
      have hmem : c ∈ host := hc
      refine hplain.nulFree c ?_
      unfold LeaseStatement.text
      simp [hmem]

/-- The address in the entry with this index. There is none behind the devices. -/
def ipOf (ds : List Device) (k : ℕ) : Bytes := (ds[k]?.map Device.ip).getD []

theorem deviceLines (hds : ∀ d ∈ ds, d.Plain) : ∀ l ∈ ds.map Device.line, DeviceLine l := by
  intro l hl
  obtain ⟨d, hd, rfl⟩ := List.mem_map.mp hl
  exact deviceLine_line (hds d hd)

/-- At most one entry is left over. -/
theorem room_le (hds : ∀ d ∈ ds, d.Plain) : room (iplistOf ds) ≤ ds.length + 1 := by
  have hcount := oddNewlines_add_evenNewlines (iplistOf ds)
  have hlines : (iplistOf ds).count 10 = ds.length := by
    rw [iplistOf, count_listOf (deviceLines hds), List.length_map]
  have hmod : room (iplistOf ds) ≤ oddNewlines (iplistOf ds) + 1 := Nat.mod_le _ _
  omega

theorem get_eth0_device_eq (hclean : behind.Clean) (hbs : ∀ b ∈ bs, b.Plain) (hds : ∀ d ∈ ds, d.Plain)
    (turns cap : ℕ) (eth0_dev_list : Memory) :
    get_eth0_device turns behind (iplistOf ds) (leaseText bs) cap eth0_dev_list =
      (get_eth0_device.fill cap 0 (ds.map fun d => d.line ++ [10]) eth0_dev_list).bind
        (get_eth0_device.names turns behind (leaseText bs) cap 0) := by
  have hlines : reads (iplistOf ds) = ds.map fun d => d.line ++ [10] := by
    rw [iplistOf, reads_listOf (deviceLines hds), List.map_map]
    rfl
  have hleases : cstr (leaseText bs ++ behind.dhcpd_lease) = leaseText bs := by
    rw [cstr_append (nulFree_leaseText hbs), hclean.1, List.append_nil]
  unfold get_eth0_device
  rw [hlines, hleases]

/-- What the first loop leaves in the entries. -/
theorem fill_entries (hds : ∀ d ∈ ds, d.Plain) {eth0_dev_list : Memory}
    (hbehind : ZeroBehind ds eth0_dev_list) (hfits : ds.length ≤ room (iplistOf ds)) :
    ∃ m, get_eth0_device.fill (room (iplistOf ds)) 0 (ds.map fun d => d.line ++ [10]) eth0_dev_list =
        some m ∧
      ∀ k < room (iplistOf ds), StringAt m (sizeofEntry * k) (ipOf ds k) ∧ (ipOf ds k).length < 20 := by
  have hroom : 0 + ds.length ≤ room (iplistOf ds) := by rwa [Nat.zero_add]
  obtain ⟨m, hfill, hips, hkeep⟩ := fill_spec hds hroom eth0_dev_list
  refine ⟨m, hfill, ?_⟩
  intro k hk
  have hlast := room_le hds
  unfold ipOf
  rcases Nat.lt_or_ge k ds.length with hlt | hge
  · have hget := List.getElem?_eq_getElem hlt
    have hip := hips k _ hget
    rw [Nat.zero_add] at hip
    rw [hget]
    exact ⟨hip, (hds _ (List.getElem_mem hlt)).ip_length⟩
  · obtain rfl : k = ds.length := by omega
    rw [List.getElem?_eq_none hge]
    refine ⟨hkeep _ [] ⟨nofun, ?_⟩ (Or.inr (by rw [Nat.zero_add])), by decide⟩
    show load eth0_dev_list (sizeofEntry * ds.length) 1 = [0]
    rw [load_succ, load_zero, hbehind hk]

section Names

variable (hclean : behind.Clean) (hbs : ∀ b ∈ bs, b.Plain) (hds : ∀ d ∈ ds, d.Plain)
  (hapart : AddressesApart bs ds) {eth0_dev_list : Memory}

include hclean hbs hds hapart

theorem name_device {turns : ℕ} (hturns : bs.length < turns) {k : ℕ} (hk : k < ds.length) :
    get_eth0_device.name turns behind (leaseText bs) k (ipOf ds k) =
      some (nameFor bs (ipOf ds k) ++ [0]) := by
  have hmem := List.getElem_mem hk
  have hd := hds _ hmem
  unfold ipOf
  rw [List.getElem?_eq_getElem hk]
  exact name_eq hclean hd.ip hd.ip_ne (fun b hb => ⟨hbs b hb, fun s hs => hapart b hb s hs _ hmem⟩) hturns k

/-- **The names that come out**, if the function comes to its end. -/
theorem get_eth0_device_spec (hbehind : ZeroBehind ds eth0_dev_list) (hcount : CountOk bs ds) :
    ∃ m, get_eth0_device (bs.length + 1) behind (iplistOf ds) (leaseText bs) (room (iplistOf ds))
        eth0_dev_list = some m ∧
      ∀ i d, ds[i]? = some d → StringAt m (sizeofEntry * i + offsetofName) (nameFor bs d.ip) := by
  obtain ⟨hfits, hfirst⟩ := hcount
  obtain ⟨m, hfill, hentries⟩ := fill_entries hds hbehind hfits
  rw [get_eth0_device_eq hclean hbs hds, hfill, Option.bind_some]
  have hname : ∀ k < room (iplistOf ds),
      get_eth0_device.name (bs.length + 1) behind (leaseText bs) k (ipOf ds k) =
        some (nameFor bs (ipOf ds k) ++ [0]) := by
    intro k hk
    rcases Nat.lt_or_ge k ds.length with hlt | hge
    · exact name_device hclean hbs hds hapart (Nat.lt_succ_self _) hlt
    · have hnil : ipOf ds k = [] := by
        unfold ipOf
        rw [List.getElem?_eq_none hge]
        rfl
      rw [hnil]
      exact name_nil_eq hclean hbs (hfirst (by omega)) (Nat.succ_pos _) k
  -- What `names_spec` wants to know of each entry.
  have hall : ∀ k, 0 ≤ k → k < 0 + room (iplistOf ds) →
      StringAt m (sizeofEntry * k) (ipOf ds k) ∧ (ipOf ds k).length < 20 ∧
      get_eth0_device.name (bs.length + 1) behind (leaseText bs) k (ipOf ds k) =
        some (nameFor bs (ipOf ds k) ++ [0]) ∧
      NulFree (nameFor bs (ipOf ds k)) ∧ (nameFor bs (ipOf ds k)).length < 64 := by
    intro k _ hk
    rw [Nat.zero_add] at hk
    exact ⟨(hentries k hk).1, (hentries k hk).2, hname k hk, nameFor_plain hbs _⟩
  obtain ⟨r, hr, hnames, -⟩ := names_spec hall
  refine ⟨r, hr, ?_⟩
  intro i d hd
  have hlt := (List.getElem?_eq_some_iff.mp hd).1
  have hstored := hnames i (Nat.zero_le i) (by omega)
  unfold ipOf at hstored
  rwa [hd] at hstored

/-- **Where it does not come to its end**: an entry is stored behind the array, or the search for no
address does not end. -/
theorem get_eth0_device_none (hbehind : ZeroBehind ds eth0_dev_list) (hcount : ¬ CountOk bs ds)
    (turns : ℕ) :
    get_eth0_device turns behind (iplistOf ds) (leaseText bs) (room (iplistOf ds)) eth0_dev_list =
      none := by
  rw [get_eth0_device_eq hclean hbs hds]
  by_cases hfits : ds.length ≤ room (iplistOf ds)
  · obtain ⟨m, hfill, hentries⟩ := fill_entries hds hbehind hfits
    obtain ⟨hlt, hfirst⟩ := Classical.not_imp.mp fun h => hcount ⟨hfits, h⟩
    have hnil : ipOf ds ds.length = [] := by
      unfold ipOf
      rw [List.getElem?_eq_none (Nat.le_refl _)]
      rfl
    rw [hfill, Option.bind_some]
    have hlast : get_eth0_device.name turns behind (leaseText bs) ds.length (ipOf ds ds.length) = none := by
      rw [hnil]
      exact name_nil_none hclean hbs hfirst turns _
    refine names_none (Nat.zero_le _) (by rwa [Nat.zero_add]) ?_ hlast
    intro k _ hk
    rw [Nat.zero_add] at hk
    refine ⟨(hentries k hk).1, (hentries k hk).2, ?_⟩
    intro name hname
    rcases Nat.lt_or_ge k ds.length with hdevice | hge
    · -- The name of a device is the same for any number of turns, and it is short.
      have heq := name_unique hname (name_device hclean hbs hds hapart (Nat.lt_succ_self _) hdevice)
      rw [heq, List.length_append, List.length_singleton]
      exact (nameFor_plain hbs _).2
    · have hroom := room_le hds
      obtain rfl : k = ds.length := by omega
      rw [hlast] at hname
      cases hname
  · rw [fill_none hds (Nat.zero_le _) (by omega)]
    rfl

/-- The names that come out, after any number of turns, are those of `nameFor`. -/
theorem namesRight_iff (hbehind : ZeroBehind ds eth0_dev_list) :
    NamesRight behind bs ds eth0_dev_list ↔ NoCount (iplistOf ds) ∨
      CountOk bs ds ∧ ∀ d ∈ ds, RightName bs d.ip (nameFor bs d.ip) := by
  unfold NamesRight
  simp only [counter_eq_natCast_iff]
  by_cases hno : NoCount (iplistOf ds)
  · exact iff_of_true (fun cap hcap => absurd hno hcap.1) (Or.inl hno)
  rw [or_iff_right hno]
  constructor
  · intro h
    obtain ⟨turns, m', hm', hright⟩ := h _ ⟨hno, rfl⟩
    by_cases hcount : CountOk bs ds
    · refine ⟨hcount, ?_⟩
      obtain ⟨m, hm, hnames⟩ := get_eth0_device_spec hclean hbs hds hapart hbehind hcount
      intro d hd
      obtain ⟨i, hi⟩ := List.getElem?_of_mem hd
      obtain ⟨name, hname, hright⟩ := hright i d hi
      -- Both runs are at their ends, so they have made the same array.
      have heq : m' = m := by
        obtain ⟨filled, hfill, hrest⟩ := Option.bind_eq_some_iff.mp hm
        obtain ⟨filled', hfill', hrest'⟩ := Option.bind_eq_some_iff.mp hm'
        rw [hfill] at hfill'
        cases hfill'
        exact names_unique hrest' hrest
      rw [heq] at hname
      rw [← hname.unique (hnames i d hi)]
      exact hright
    · rw [get_eth0_device_none hclean hbs hds hapart hbehind hcount] at hm'
      cases hm'
  · rintro ⟨hcount, hright⟩ cap ⟨-, rfl⟩
    obtain ⟨m, hm, hnames⟩ := get_eth0_device_spec hclean hbs hds hapart hbehind hcount
    refine ⟨_, m, hm, ?_⟩
    intro i d hd
    exact ⟨_, hnames i d hd, hright d (List.mem_of_getElem? hd)⟩

end Names

theorem LeaseBlock.Active.looksActive {b : LeaseBlock} (h : b.Active) : b.LooksActive :=
  ⟨_, h, List.infix_rfl⟩

/-- **When the name that comes out is right.** -/
theorem rightName_iff (bs : List LeaseBlock) (ip : Bytes) :
    RightName bs ip (nameFor bs ip) ↔ FirstIsRight bs ip := by
  unfold FirstIsRight nameFor
  rcases hfirst : firstFor bs ip with _ | c
  · -- An active lease of the address itself would have been found.
    refine iff_of_true (Or.inr ⟨rfl, ?_⟩) nofun
    intro b hb haddress hactive
    have hno := List.find?_eq_none.mp hfirst b hb
    rw [decide_eq_true_eq, not_and] at hno
    exact absurd hactive.looksActive (hno (haddress ▸ List.infix_rfl))
  · have hname : ((some c).map LeaseBlock.name).getD (bytes "*") = c.firstHost.getD (bytes "*") := rfl
    simp only [hname, Option.some.injEq, forall_eq']
    rcases c.firstHost with _ | host
    · simp only [Option.getD_none, forall_const, reduceCtorEq, false_implies, true_and]
    · simp only [Option.getD_some, Option.some.injEq, forall_eq', reduceCtorEq, false_implies, and_true]

end Devices

/-! ## Two leases -/

/-- The active lease of a client that told its name. -/
def namedLease (address host : Bytes) : LeaseBlock :=
  ⟨address, [.binding (bytes "active"), .hostname host]⟩

def laptop : LeaseBlock := namedLease (bytes "192.168.1.10") (bytes "laptop")
def phone : LeaseBlock := namedLease (bytes "192.168.1.1") (bytes "phone")
def phoneDevice : Device := ⟨bytes "192.168.1.1", bytes "a0:48:1c:95:ca:58"⟩

theorem namedLease_plain {address host : Bytes} (haddress : AddressText address)
    (hhost : ∀ c ∈ host, c ≠ 0 ∧ c ≠ 59 ∧ c ≠ 125) (hlen : host.length < 64) :
    (namedLease address host).Plain := by
  have hmem : ∀ c, c ∉ host → c ∉ hostText ++ bytes " \"" → c ∉ (LeaseStatement.hostname host).text := by
    intro c hc hrest
    rw [List.mem_append, not_or] at hrest
    have hquote : c ∉ bytes "\"" := fun h => hrest.2 (List.mem_cons_of_mem _ h)
    unfold LeaseStatement.text
    simp only [List.mem_append, hrest, hc, hquote, or_self, not_false_eq_true]
  refine ⟨haddress, ?_⟩
  intro s hs
  rcases List.mem_cons.mp hs with rfl | hs
  · exact ⟨by decide, by decide, by decide, fun h => absurd h (by decide),
      nofun⟩
  · obtain rfl := List.mem_singleton.mp hs
    refine ⟨nulFree_iff.mpr ?_, ?_, ?_, fun _ => ⟨host, rfl⟩, ?_⟩
    · exact hmem 0 (fun h => (hhost 0 h).1 rfl) (by decide)
    · exact hmem 59 (fun h => (hhost 59 h).2.1 rfl) (by decide)
    · exact hmem 125 (fun h => (hhost 125 h).2.2 rfl) (by decide)
    · rintro _ ⟨⟩
      exact hlen

theorem laptop_plain : laptop.Plain :=
  namedLease_plain (by decide) (by decide) (by decide)

theorem phone_plain : phone.Plain :=
  namedLease_plain (by decide) (by decide) (by decide)

theorem phoneDevice_plain : phoneDevice.Plain where
  ip := by decide
  ip_ne := by decide
  ip_length := by decide
  mac := by decide
  line_length := by decide

/-- Its line has its newline at an odd offset, so there is an entry more than is filled. -/
theorem phone_room : room (iplistOf [phoneDevice]) = 2 := by decide

end TestCore.ConnectDevice
