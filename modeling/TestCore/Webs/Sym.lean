/-
Symbol tables as they lie in memory (`sym.c`): chains of `sym_t` blocks, a table of pointers to the first
block of each chain, and the two static variables in which an enumeration keeps its place.

The other modules take a symbol table for a map that can be enumerated (`Base.lean`). This one is why they
may: `SymTab.Shows` relates the memory to such a map, and every operation keeps it, memory for a new block or
none (`symtab_refines_map`). Characters are unsigned here, as in `hashIndex`; where they are signed, names with
bytes from 128 on hash to other chains, and nothing else is different. The awkward point is the place of an
enumeration, which is a pointer to the block that comes next: it survives the deletion of any other symbol,
the one that the loop holds included, and a symbol that is entered meanwhile comes up in its turn or not at
all.
-/
import TestCore.Lib.Buckets
import TestCore.Lib.Mealy
import TestCore.Webs.Base

set_option autoImplicit false

namespace TestCore.Webs

open TestCore.Lib

/-- Addresses; `0` is `NULL`. -/
abbrev SymPtr := ℕ

def SYM_NULL : SymPtr := 0

/-- A symbol table: the pointers `hash_table`, the fields of the `sym_t` blocks, and the blocks in use. The
word behind the table is read by an enumeration, which makes nothing of it. -/
structure SymTab (ν : Type) where
  hash_table : List SymPtr
  behind : SymPtr
  name : SymPtr → Bytes
  content : SymPtr → ν
  arg : SymPtr → ℤ
  forw : SymPtr → SymPtr
  used : List SymPtr

/-- `balloc` of a `sym_t`, at one call: whether there is memory, and the block that is then picked, which is
none of those in use. -/
structure SymAlloc where
  memory : Bool
  pick : List SymPtr → SymPtr
  fresh : ∀ used, pick used ≠ SYM_NULL ∧ pick used ∉ used

/-- The block, or nothing. -/
def SymAlloc.block (alloc : SymAlloc) (used : List SymPtr) : Option SymPtr :=
  if alloc.memory then some (alloc.pick used) else none

theorem SymAlloc.fresh_of_block {alloc : SymAlloc} {used : List SymPtr} {p : SymPtr}
    (h : alloc.block used = some p) : alloc.memory = true ∧ p ≠ SYM_NULL ∧ p ∉ used := by
  unfold SymAlloc.block at h
  split_ifs at h with hmemory
  rw [← Option.some.inj h]
  exact ⟨hmemory, alloc.fresh used⟩

theorem SymAlloc.memory_of_block {alloc : SymAlloc} {used : List SymPtr} (h : alloc.block used = none) :
    alloc.memory = false := by
  unfold SymAlloc.block at h
  split_ifs at h with hmemory
  exact eq_false_of_ne_true hmemory

variable {ν : Type}

/-! ## The functions -/

/-- `isPrime`: no number from 2 to `n / 2` divides `n`. -/
def isPrime (n : ℕ) : Bool := (List.range' 2 (n / 2 - 1)).all fun i => n % i != 0

/-- `calcPrime`. -/
def calcPrime : ℕ → ℕ
  | 0 => 1
  | count + 1 => if isPrime (count + 1) then count + 1 else calcPrime count

/-- `symOpen`, given memory for the table. -/
def symOpen (hash_size : ℕ) (mem : SymTab ν) : SymTab ν :=
  { mem with hash_table := List.replicate (calcPrime hash_size) SYM_NULL }

/-- `tp->hash_size`. -/
def SymTab.hash_size (tp : SymTab ν) : ℕ := tp.hash_table.length

/-- `tp->hash_table[i]`, up to one behind the last. -/
def SymTab.chain (tp : SymTab ν) (i : ℕ) : SymPtr := tp.hash_table.getD i tp.behind

/-- The loop along a chain that looks for a name: the block that has it, or `NULL`, and the block before. A
chain has no more blocks than are in use. -/
def SymTab.find (tp : SymTab ν) (name : Bytes) : ℕ → SymPtr → SymPtr → SymPtr × SymPtr
  | 0, _, last => (SYM_NULL, last)
  | steps + 1, sp, last =>
      if sp = SYM_NULL then (SYM_NULL, last)
      else if tp.name sp = name then (sp, last)
      else tp.find name steps (tp.forw sp) sp

/-- The search in the chain of a name. -/
def SymTab.hashFind (tp : SymTab ν) (name : Bytes) : SymPtr × SymPtr :=
  tp.find name tp.used.length (tp.chain (hashIndex tp.hash_size name)) SYM_NULL

/-- `symLookup`. -/
def SymTab.symLookup (tp : SymTab ν) (name : Bytes) : SymPtr :=
  if name = [] then SYM_NULL else (tp.hashFind name).1

/-- A new block gets its fields. -/
def SymTab.fill (tp : SymTab ν) (sp : SymPtr) (name : Bytes) (v : ν) (arg : ℤ) : SymTab ν :=
  { tp with
    name := Function.update tp.name sp name
    content := Function.update tp.content sp v
    arg := Function.update tp.arg sp arg
    forw := Function.update tp.forw sp SYM_NULL
    used := sp :: tp.used }

/-- `symEnter`: the block with the symbol, or `NULL` if there is no memory. -/
def SymTab.symEnter (alloc : SymAlloc) (tp : SymTab ν) (name : Bytes) (v : ν) (arg : ℤ) :
    SymTab ν × SymPtr :=
  let hindex := hashIndex tp.hash_size name
  let (sp, last) := tp.hashFind name
  if sp ≠ SYM_NULL then
    ({ tp with
       content := Function.update tp.content sp v
       arg := Function.update tp.arg sp arg }, sp)
  else
    match alloc.block tp.used with
    | none => (tp, SYM_NULL)
    | some sp =>
        let filled := tp.fill sp name v arg
        if last ≠ SYM_NULL then ({ filled with forw := Function.update filled.forw last sp }, sp)
        else ({ filled with hash_table := filled.hash_table.set hindex sp }, sp)

/-- `symDelete`: `-1` if there is no such symbol. -/
def SymTab.symDelete (tp : SymTab ν) (name : Bytes) : SymTab ν × ℤ :=
  let hindex := hashIndex tp.hash_size name
  let (sp, last) := tp.hashFind name
  if sp = SYM_NULL then (tp, -1)
  else
    let unlinked :=
      if last ≠ SYM_NULL then { tp with forw := Function.update tp.forw last (tp.forw sp) }
      else { tp with hash_table := tp.hash_table.set hindex (tp.forw sp) }
    ({ unlinked with used := unlinked.used.erase sp }, 0)

/-- The static variables `htIndex` and `next`. -/
structure SymCursor where
  htIndex : ℕ
  next : SymPtr

/-- The place behind the block `sp` of the chain `i`. -/
def SymTab.advance (tp : SymTab ν) (i : ℕ) (sp : SymPtr) : SymCursor :=
  if tp.forw sp = SYM_NULL then ⟨i + 1, tp.chain (i + 1)⟩ else ⟨i, tp.forw sp⟩

/-- The loop of `symFirst` from the chain `i` on, of the last `chains` ones. -/
def SymTab.firstFrom (tp : SymTab ν) (cur : SymCursor) : ℕ → ℕ → SymPtr × SymCursor
  | 0, _ => (SYM_NULL, cur)
  | chains + 1, i =>
      let sp := tp.chain i
      if sp ≠ SYM_NULL then (sp, tp.advance i sp) else tp.firstFrom cur chains (i + 1)

/-- `symFirst`. -/
def SymTab.symFirst (tp : SymTab ν) (cur : SymCursor) : SymPtr × SymCursor :=
  tp.firstFrom cur tp.hash_size 0

/-- The loop of `symNext` from the chain `i` on, of the last `chains` ones. -/
def SymTab.nextFrom (tp : SymTab ν) (cur : SymCursor) : ℕ → ℕ → SymPtr × SymCursor
  | 0, _ => (SYM_NULL, cur)
  | chains + 1, i =>
      let sp := cur.next
      if sp ≠ SYM_NULL then (sp, tp.advance i sp)
      else tp.nextFrom { cur with next := tp.chain (i + 1) } chains (i + 1)

/-- `symNext`. -/
def SymTab.symNext (tp : SymTab ν) (cur : SymCursor) : SymPtr × SymCursor :=
  tp.nextFrom cur (tp.hash_size - cur.htIndex) cur.htIndex

/-! ## Primes -/

theorem isPrime_iff {n : ℕ} (hn : 2 ≤ n) : isPrime n = true ↔ n.Prime := by
  unfold isPrime
  rw [List.all_eq_true, Nat.prime_def_lt']
  constructor
  · refine fun h => ⟨hn, fun m hm hlt hdvd => ?_⟩
    obtain ⟨k, rfl⟩ := hdvd
    have hk : 2 ≤ k := by
      by_contra hk
      interval_cases k
      all_goals omega
    have hhalf : m ≤ m * k / 2 := by
      rw [Nat.le_div_iff_mul_le (by omega)]
      exact Nat.mul_le_mul_left m hk
    have htest := h m (List.mem_range'_1.mpr (by omega))
    simp at htest
  · rintro ⟨-, h⟩ i hi
    rw [List.mem_range'_1] at hi
    have hno := h i hi.1 (by omega)
    rw [bne_iff_ne, ne_eq, ← Nat.dvd_iff_mod_eq_zero]
    exact hno

/-- `calcPrime` finds the largest prime up to its argument. -/
theorem calcPrime_spec {n : ℕ} (hn : 2 ≤ n) :
    (calcPrime n).Prime ∧ calcPrime n ≤ n ∧ ∀ p, p.Prime → p ≤ n → p ≤ calcPrime n := by
  induction n, hn using Nat.le_induction with
  | base => exact ⟨by decide, by decide, fun p _ hp => hp⟩
  | succ n hn ih =>
      rw [calcPrime]
      by_cases hprime : isPrime (n + 1) = true
      · rw [if_pos hprime]
        exact ⟨(isPrime_iff (by omega)).mp hprime, le_rfl, fun p _ hp => hp⟩
      · rw [if_neg hprime]
        refine ⟨ih.1, ih.2.1.trans (Nat.le_succ n), fun p hp hle => ?_⟩
        rcases Nat.lt_or_ge n p with hlt | hge
        · obtain rfl : p = n + 1 := by omega
          exact absurd ((isPrime_iff (by omega)).mpr hp) hprime
        · exact ih.2.2 p hp hge

/-! ## The memory and the map -/

/-- The blocks of each chain, with each name in one of them, the chain it hashes to. -/
structure SymTab.Rep (tp : SymTab ν) (nodes : List (List SymPtr)) : Prop where
  buckets : Buckets tp.forw SYM_NULL tp.hash_table nodes
  ranked : Ranked (fun x => hashIndex tp.hash_size (tp.name x)) nodes
  keys : (nodes.flatten.map tp.name).Nodup
  used : nodes.flatten ⊆ tp.used
  size_pos : 0 < tp.hash_size

/-- What a block says. -/
def SymTab.entry (tp : SymTab ν) (x : SymPtr) : Bytes × ν × ℤ := (tp.name x, tp.content x, tp.arg x)

/-- The blocks hold the map `t`, in the order of the chains. -/
structure SymTab.Shows (tp : SymTab ν) (nodes : List (List SymPtr)) (t : Table Bytes (ν × ℤ)) : Prop where
  rep : tp.Rep nodes
  entries : t.entries = nodes.flatten.map tp.entry

theorem find_spec (tp : SymTab ν) (name : Bytes) {l : List SymPtr} {p : SymPtr}
    (hchain : Chain tp.forw p l SYM_NULL) (hnull : SYM_NULL ∉ l) {steps : ℕ} (hsteps : l.length ≤ steps)
    (last : SymPtr) :
    ((∀ x ∈ l, tp.name x ≠ name) ∧ tp.find name steps p last = (SYM_NULL, l.getLastD last)) ∨
      ∃ a x b, l = a ++ x :: b ∧ tp.name x = name ∧ tp.find name steps p last = (x, a.getLastD last) := by
  induction l generalizing p last steps with
  | nil =>
      refine Or.inl ⟨fun x hx => absurd hx List.not_mem_nil, ?_⟩
      have hp : p = SYM_NULL := hchain
      rcases steps with _ | steps
      · rfl
      · rw [SymTab.find, if_pos hp]
        rfl
  | cons x l ih =>
      obtain ⟨rfl, hrest⟩ := hchain
      rw [List.mem_cons, not_or] at hnull
      rcases steps with _ | steps
      · cases hsteps
      · rw [SymTab.find, if_neg (fun h => hnull.1 h.symm)]
        by_cases hname : tp.name p = name
        · rw [if_pos hname]
          exact Or.inr ⟨[], p, l, rfl, hname, rfl⟩
        · rw [if_neg hname]
          rcases ih hrest hnull.2 (Nat.le_of_succ_le_succ hsteps) p with ⟨hnone, hfind⟩ |
            ⟨a, x, b, rfl, hx, hfind⟩
          · refine Or.inl ⟨fun y hy => ?_, hfind.trans ?_⟩
            · rcases List.mem_cons.mp hy with rfl | hy
              · exact hname
              · exact hnone y hy
            · rw [List.getLastD_cons]
          · refine Or.inr ⟨p :: a, x, b, rfl, hx, hfind.trans ?_⟩
            rw [List.getLastD_cons]

/-- The search for a name ends at the block that has it, with the block before it in its chain; or it goes to
the end of the chain, and no block has the name. -/
theorem SymTab.Rep.hashFind {tp : SymTab ν} {nodes : List (List SymPtr)} (h : tp.Rep nodes) (name : Bytes) :
    (∃ pre l post, nodes = pre ++ l :: post ∧ pre.length = hashIndex tp.hash_size name ∧
        Chain tp.forw (tp.chain (hashIndex tp.hash_size name)) l SYM_NULL ∧
        tp.hashFind name = (SYM_NULL, l.getLastD SYM_NULL) ∧ ∀ x ∈ nodes.flatten, tp.name x ≠ name) ∨
      ∃ pre a x b post, nodes = pre ++ (a ++ x :: b) :: post ∧
        pre.length = hashIndex tp.hash_size name ∧
        Chain tp.forw (tp.chain (hashIndex tp.hash_size name)) (a ++ x :: b) SYM_NULL ∧
        tp.hashFind name = (x, a.getLastD SYM_NULL) ∧ tp.name x = name := by
  have hlt : hashIndex tp.hash_size name < tp.hash_table.length := Nat.mod_lt _ h.size_pos
  have hhead : tp.hash_table[hashIndex tp.hash_size name]?
      = some (tp.chain (hashIndex tp.hash_size name)) := by
    unfold SymTab.chain
    rw [List.getD_eq_getElem _ _ hlt, List.getElem?_eq_getElem hlt]
  obtain ⟨pre, l, post, rfl, hpre, hchain⟩ := h.buckets.split hhead
  have hsteps : l.length ≤ tp.used.length :=
    (h.buckets.nodup_chain.1.subperm fun x hx => h.used (mem_flatten_middle.mpr (Or.inl hx))).length_le
  rcases find_spec tp name hchain h.buckets.nonnull_chain hsteps SYM_NULL with ⟨hnone, hfind⟩ |
    ⟨a, x, b, rfl, hx, hfind⟩
  · refine Or.inl ⟨pre, l, post, rfl, hpre, hchain, hfind, fun x hx hname => ?_⟩
    -- a block of another chain hashes to that one
    rcases mem_flatten_middle.mp hx with hx | hx
    · exact hnone x hx hname
    rcases List.mem_append.mp hx with hx | hx
    · have hrank := h.ranked.lt_of_mem hx
      simp only [hname] at hrank
      omega
    · have hrank := h.ranked.gt_of_mem hx
      simp only [hname] at hrank
      omega
  · exact Or.inr ⟨pre, a, x, b, post, rfl, hpre, hchain, hfind, hx⟩

/-- One chain gets other blocks or another first one. -/
theorem SymTab.Rep.replace {tp tp' : SymTab ν} {pre post : List (List SymPtr)} {l l' : List SymPtr}
    {p : SymPtr} (h : tp.Rep (pre ++ l :: post)) (hhash : tp'.hash_table = tp.hash_table.set pre.length p)
    (hchain : Chain tp'.forw p l' SYM_NULL) (hnull : SYM_NULL ∉ l')
    (hsame : ∀ x ∈ pre.flatten ++ post.flatten, tp'.forw x = tp.forw x ∧ tp'.name x = tp.name x)
    (hrank : ∀ x ∈ l', hashIndex tp.hash_size (tp'.name x) = pre.length)
    (hkeys : ((pre ++ l' :: post).flatten.map tp'.name).Nodup)
    (hused : (pre ++ l' :: post).flatten ⊆ tp'.used) : tp'.Rep (pre ++ l' :: post) := by
  have hsize : tp'.hash_size = tp.hash_size := by
    rw [SymTab.hash_size, hhash, List.length_set]
    rfl
  refine ⟨?_, ?_, hkeys, hused, hsize ▸ h.size_pos⟩
  · rw [hhash]
    exact h.buckets.join hchain (fun x hx => (hsame x hx).1) hnull hkeys.of_map
  · refine h.ranked.replace (fun x hx => ?_) fun x hx => ?_
    · rw [hsize]
      exact hrank x hx
    · rw [hsize, (hsame x hx).2]

/-- Two blocks with one name are the same. -/
theorem SymTab.Rep.name_inj {tp : SymTab ν} {nodes : List (List SymPtr)} (h : tp.Rep nodes) {x y : SymPtr}
    (hx : x ∈ nodes.flatten) (hy : y ∈ nodes.flatten) (hname : tp.name x = tp.name y) : x = y :=
  List.inj_on_of_nodup_map h.keys hx hy hname

theorem map_fst_entry (tp : SymTab ν) (l : List SymPtr) : (l.map tp.entry).map Prod.fst = l.map tp.name := by
  rw [List.map_map]
  rfl

/-! ## Looking a symbol up -/

/-- What a pointer to a symbol gives. -/
def SymTab.deref (tp : SymTab ν) (p : SymPtr) : Option (ν × ℤ) :=
  if p = SYM_NULL then none else some (tp.content p, tp.arg p)

theorem SymTab.Rep.lookup_of_mem {tp : SymTab ν} {t : Table Bytes (ν × ℤ)} {nodes : List (List SymPtr)}
    (ht : t.entries = nodes.flatten.map tp.entry) {x : SymPtr} (hx : x ∈ nodes.flatten) :
    t.lookup (tp.name x) = some (tp.content x, tp.arg x) := by
  rw [← Table.mem_entries, ht]
  exact List.mem_map_of_mem hx

theorem lookup_of_forall_ne {tp : SymTab ν} {t : Table Bytes (ν × ℤ)} {nodes : List (List SymPtr)}
    {name : Bytes} (ht : t.entries = nodes.flatten.map tp.entry)
    (hnone : ∀ x ∈ nodes.flatten, tp.name x ≠ name) : t.lookup name = none := by
  rw [Table.lookup_eq_none, ht, map_fst_entry, List.mem_map]
  rintro ⟨x, hx, rfl⟩
  exact hnone x hx rfl

/-- **Looking a symbol up** gives what the map has for it. -/
theorem SymTab.Shows.symLookup {tp : SymTab ν} {nodes : List (List SymPtr)} {t : Table Bytes (ν × ℤ)}
    (h : tp.Shows nodes t) (name : Bytes) : tp.deref (tp.symLookup name) = Webs.symLookup t name := by
  obtain ⟨hrep, ht⟩ := h
  unfold SymTab.symLookup Webs.symLookup
  by_cases hempty : name = []
  · rw [if_pos hempty, if_pos hempty]
    exact if_pos rfl
  · rw [if_neg hempty, if_neg hempty]
    rcases hrep.hashFind name with ⟨pre, l, post, rfl, -, -, hfind, hnone⟩ |
      ⟨pre, a, x, b, post, rfl, -, -, hfind, rfl⟩
    · rw [hfind, lookup_of_forall_ne ht hnone]
      exact if_pos rfl
    · have hx : x ∈ (pre ++ (a ++ x :: b) :: post).flatten := mem_flatten_middle.mpr (Or.inl (by simp))
      have hne : x ≠ SYM_NULL := fun heq => hrep.buckets.nonnull (heq ▸ hx)
      rw [hfind, SymTab.Rep.lookup_of_mem ht hx]
      exact if_neg hne

/-! ## Entering a symbol -/

/-- A symbol that is there gets another value. -/
theorem SymTab.Rep.overwrite {tp : SymTab ν} {t : Table Bytes (ν × ℤ)} {nodes : List (List SymPtr)}
    (h : tp.Rep nodes) (ht : t.entries = nodes.flatten.map tp.entry) {x : SymPtr} (hx : x ∈ nodes.flatten)
    (v : ν) (arg : ℤ) :
    SymTab.Shows { tp with
        content := Function.update tp.content x v
        arg := Function.update tp.arg x arg } nodes
      (Webs.symEnter tp.hash_size t (tp.name x) (v, arg)) := by
  refine ⟨⟨h.buckets, h.ranked, h.keys, h.used, h.size_pos⟩, ?_⟩
  have hmem : tp.name x ∈ t.entries.map Prod.fst := by
    rw [ht, map_fst_entry]
    exact List.mem_map_of_mem hx
  unfold Webs.symEnter Table.enter
  rw [dif_pos hmem]
  change t.entries.map _ = _
  rw [ht, List.map_map]
  refine List.map_congr_left fun y hy => ?_
  by_cases hyx : y = x
  · subst hyx
    simp [SymTab.entry]
  · have hname : tp.name y ≠ tp.name x := fun heq => hyx (h.name_inj hy hx heq)
    simp [SymTab.entry, hyx, hname]

/-- A block that is not in use becomes the last one of a chain. -/
theorem SymTab.Rep.append {tp tp' : SymTab ν} {t : Table Bytes (ν × ℤ)} {pre post : List (List SymPtr)}
    {l : List SymPtr} {p e : SymPtr} {name : Bytes} {v : ν} {arg : ℤ} (h : tp.Rep (pre ++ l :: post))
    (ht : t.entries = (pre ++ l :: post).flatten.map tp.entry)
    (hnone : ∀ x ∈ (pre ++ l :: post).flatten, tp.name x ≠ name)
    (hpre : pre.length = hashIndex tp.hash_size name) (he : e ≠ SYM_NULL) (hnew : e ∉ tp.used)
    (hhash : tp'.hash_table = tp.hash_table.set pre.length p)
    (hchain : Chain tp'.forw p (l ++ [e]) SYM_NULL)
    (hforw : ∀ x ∈ pre.flatten ++ post.flatten, tp'.forw x = tp.forw x)
    (hname : tp'.name = Function.update tp.name e name)
    (hcontent : tp'.content = Function.update tp.content e v)
    (harg : tp'.arg = Function.update tp.arg e arg) (hused : tp'.used = e :: tp.used) :
    tp'.Shows (pre ++ (l ++ [e]) :: post) (Webs.symEnter tp.hash_size t name (v, arg)) := by
  have hne : ∀ x ∈ (pre ++ l :: post).flatten, x ≠ e := fun x hx heq => hnew (heq ▸ h.used hx)
  have hold : ∀ x ∈ (pre ++ l :: post).flatten, tp'.entry x = tp.entry x := fun x hx => by
    rw [SymTab.entry, hname, hcontent, harg, Function.update_of_ne (hne x hx),
      Function.update_of_ne (hne x hx), Function.update_of_ne (hne x hx)]
    rfl
  have hlast : tp'.entry e = (name, v, arg) := by
    rw [SymTab.entry, hname, hcontent, harg, Function.update_self, Function.update_self,
      Function.update_self]
  have hflat : (pre ++ (l ++ [e]) :: post).flatten = (pre.flatten ++ l) ++ e :: post.flatten := by
    simp
  have hflat' : (pre ++ l :: post).flatten = (pre.flatten ++ l) ++ post.flatten := by
    simp
  have hentries : (pre ++ (l ++ [e]) :: post).flatten.map tp'.entry
      = (pre.flatten ++ l).map tp.entry ++ (name, v, arg) :: post.flatten.map tp.entry := by
    rw [hflat, List.map_append, List.map_cons, hlast]
    rw [hflat'] at hold
    congr 1
    · exact List.map_congr_left fun x hx => hold x (List.mem_append_left _ hx)
    · exact congrArg _ (List.map_congr_left fun x hx => hold x (List.mem_append_right _ hx))
  have habsent : name ∉ t.entries.map Prod.fst := by
    rw [ht, map_fst_entry, List.mem_map]
    rintro ⟨x, hx, hxname⟩
    exact hnone x hx hxname
  have henter : (Webs.symEnter tp.hash_size t name (v, arg)).entries
      = (pre ++ (l ++ [e]) :: post).flatten.map tp'.entry := by
    unfold Webs.symEnter Table.enter
    rw [dif_neg habsent, hentries]
    change t.entries.orderedInsert _ _ = _
    rw [ht, hflat', List.map_append]
    refine orderedInsert_append (f := fun q : Bytes × ν × ℤ => hashIndex tp.hash_size q.1) ?_ ?_
    · intro q hq
      obtain ⟨x, hx, rfl⟩ := List.mem_map.mp hq
      rw [← hpre]
      rcases List.mem_append.mp hx with hx | hx
      · exact (h.ranked.lt_of_mem hx).le
      · exact (h.ranked.eq_of_mem hx).le
    · intro q hq
      obtain ⟨x, hx, rfl⟩ := List.mem_map.mp hq
      rw [← hpre]
      exact h.ranked.gt_of_mem hx
  refine ⟨?_, henter⟩
  refine h.replace hhash hchain ?_ (fun x hx => ⟨hforw x hx, ?_⟩) ?_ ?_ ?_
  · rw [List.mem_append, List.mem_singleton, not_or]
    refine ⟨fun hx => h.buckets.nonnull (mem_flatten_middle.mpr (Or.inl hx)), he.symm⟩
  · rw [hname, Function.update_of_ne (hne x (mem_flatten_middle.mpr (Or.inr hx)))]
  · intro x hx
    rw [hname]
    rcases List.mem_append.mp hx with hx | hx
    · rw [Function.update_of_ne (hne x (mem_flatten_middle.mpr (Or.inl hx)))]
      exact h.ranked.eq_of_mem hx
    · rw [List.mem_singleton.mp hx, Function.update_self, hpre]
  · rw [← map_fst_entry, ← henter]
    exact (Webs.symEnter tp.hash_size t name (v, arg)).nodup
  · intro x hx
    rw [hused]
    rcases mem_flatten_middle.mp hx with hx | hx
    · rcases List.mem_append.mp hx with hx | hx
      · exact List.mem_cons_of_mem _ (h.used (mem_flatten_middle.mpr (Or.inl hx)))
      · rw [List.mem_singleton.mp hx]
        exact List.mem_cons_self
    · exact List.mem_cons_of_mem _ (h.used (mem_flatten_middle.mpr (Or.inr hx)))

theorem SymTab.getD_chain {tp : SymTab ν} {pre post : List (List SymPtr)} {l : List SymPtr}
    (h : tp.Rep (pre ++ l :: post)) :
    tp.hash_table.set pre.length (tp.chain pre.length) = tp.hash_table := by
  obtain ⟨p, hp, -⟩ := h.buckets.head
  obtain ⟨hlt, -⟩ := List.getElem?_eq_some_iff.mp hp
  unfold SymTab.chain
  rw [List.getD_eq_getElem _ _ hlt, List.set_getElem_self]

/-- The chains before and after a name is entered: its block is there, or a new one is the last of the chain. -/
inductive SymTab.Grows (tp tp' : SymTab ν) (name : Bytes) : List (List SymPtr) → List (List SymPtr) → Prop
  | old {nodes : List (List SymPtr)} (hname : tp'.name = tp.name)
      (hthere : ∃ x ∈ nodes.flatten, tp.name x = name) : tp.Grows tp' name nodes nodes
  | new {pre post : List (List SymPtr)} {l : List SymPtr} {e : SymPtr}
      (hpre : pre.length = hashIndex tp.hash_size name) (hname : tp'.name = Function.update tp.name e name)
      (hfresh : e ∉ (pre ++ l :: post).flatten)
      (hnone : ∀ x ∈ (pre ++ l :: post).flatten, tp.name x ≠ name) :
      tp.Grows tp' name (pre ++ l :: post) (pre ++ (l ++ [e]) :: post)

/-- **Entering a symbol** does to the map what it should, or there is no memory for a new one and nothing has
changed. -/
theorem SymTab.Shows.symEnter {tp : SymTab ν} {nodes : List (List SymPtr)} {t : Table Bytes (ν × ℤ)}
    (h : tp.Shows nodes t) (alloc : SymAlloc) (name : Bytes) (v : ν) (arg : ℤ) :
    ((tp.symEnter alloc name v arg).2 ≠ SYM_NULL ∧
        ((t.lookup name).isSome = true ∨ alloc.memory = true) ∧
        (tp.symEnter alloc name v arg).1.hash_size = tp.hash_size ∧
        ∃ nodes', tp.Grows (tp.symEnter alloc name v arg).1 name nodes nodes' ∧
          (tp.symEnter alloc name v arg).1.Shows nodes' (Webs.symEnter tp.hash_size t name (v, arg))) ∨
      (tp.symEnter alloc name v arg = (tp, SYM_NULL) ∧ alloc.memory = false ∧ t.lookup name = none) := by
  obtain ⟨hrep, ht⟩ := h
  rcases hrep.hashFind name with ⟨pre, l, post, rfl, hpre, hchain, hfind, hnone⟩ |
    ⟨pre, a, x, b, post, rfl, -, -, hfind, rfl⟩
  · unfold SymTab.symEnter
    rw [hfind]
    cases halloc : alloc.block tp.used with
    | none => exact Or.inr ⟨by simp, SymAlloc.memory_of_block halloc, lookup_of_forall_ne ht hnone⟩
    | some e =>
        left
        obtain ⟨hmemory, he, hnew⟩ := SymAlloc.fresh_of_block halloc
        have hfresh : e ∉ (pre ++ l :: post).flatten := fun hx => hnew (hrep.used hx)
        have hout : ∀ x ∈ (pre ++ l :: post).flatten, x ≠ e := fun x hx heq => hfresh (heq ▸ hx)
        simp only [ne_eq, not_true_eq_false, if_false]
        rcases List.eq_nil_or_concat' l with rfl | ⟨front, y, rfl⟩
        · -- the chain has no block yet
          rw [if_neg (by simp)]
          refine ⟨he, Or.inr hmemory, List.length_set, _, SymTab.Grows.new hpre rfl hfresh hnone, ?_⟩
          refine hrep.append (p := e) ht hnone hpre he hnew (by rw [hpre]; rfl) ⟨rfl, ?_⟩ (fun x hx => ?_)
            rfl rfl rfl rfl
          · exact Function.update_self e SYM_NULL tp.forw
          · exact Function.update_of_ne (hout x (mem_flatten_middle.mpr (Or.inr hx))) _ _
        · have hy : y ∈ (pre ++ (front ++ [y]) :: post).flatten := mem_flatten_middle.mpr (Or.inl (by simp))
          have hynull : y ≠ SYM_NULL := fun heq => hrep.buckets.nonnull (heq ▸ hy)
          obtain ⟨hnodup, hother⟩ := hrep.buckets.nodup_chain
          have hyfront : y ∉ front := by
            rw [← List.concat_eq_append, List.nodup_concat] at hnodup
            exact hnodup.1
          have henew : e ∉ front ++ [y] := fun hmem =>
            hout e (mem_flatten_middle.mpr (Or.inl hmem)) rfl
          rw [List.getLastD_concat, if_pos hynull]
          refine ⟨he, Or.inr hmemory, rfl, _, SymTab.Grows.new hpre rfl hfresh hnone, ?_⟩
          refine hrep.append ht hnone hpre he hnew (SymTab.getD_chain hrep).symm ?_ (fun x hx => ?_)
            rfl rfl rfl rfl
          · rw [hpre]
            exact hchain.snoc hyfront henew
          · have hxy : x ≠ y := fun heq => hother y (by simp) (heq ▸ hx)
            change Function.update (Function.update tp.forw e SYM_NULL) y e x = tp.forw x
            rw [Function.update_of_ne hxy,
              Function.update_of_ne (hout x (mem_flatten_middle.mpr (Or.inr hx)))]
  · have hx : x ∈ (pre ++ (a ++ x :: b) :: post).flatten := mem_flatten_middle.mpr (Or.inl (by simp))
    have hne : x ≠ SYM_NULL := fun heq => hrep.buckets.nonnull (heq ▸ hx)
    left
    unfold SymTab.symEnter
    rw [hfind]
    simp only [ne_eq, hne, not_false_eq_true, if_true]
    refine ⟨trivial, Or.inl ?_, rfl, _, SymTab.Grows.old rfl ⟨x, hx, rfl⟩, hrep.overwrite ht hx v arg⟩
    rw [SymTab.Rep.lookup_of_mem ht hx]
    rfl

/-! ## Deleting a symbol -/

/-- A block is taken out of its chain. -/
theorem SymTab.Rep.remove {tp tp' : SymTab ν} {t : Table Bytes (ν × ℤ)} {pre post : List (List SymPtr)}
    {a b : List SymPtr} {x p : SymPtr} (h : tp.Rep (pre ++ (a ++ x :: b) :: post))
    (ht : t.entries = (pre ++ (a ++ x :: b) :: post).flatten.map tp.entry)
    (hhash : tp'.hash_table = tp.hash_table.set pre.length p) (hchain : Chain tp'.forw p (a ++ b) SYM_NULL)
    (hforw : ∀ y ∈ pre.flatten ++ post.flatten, tp'.forw y = tp.forw y) (hname : tp'.name = tp.name)
    (hcontent : tp'.content = tp.content) (harg : tp'.arg = tp.arg) (hused : tp'.used = tp.used.erase x) :
    tp'.Shows (pre ++ (a ++ b) :: post) (t.delete (tp.name x)) := by
  have hx : x ∈ (pre ++ (a ++ x :: b) :: post).flatten := mem_flatten_middle.mpr (Or.inl (by simp))
  have hentry : tp'.entry = tp.entry := by
    funext y
    rw [SymTab.entry, hname, hcontent, harg]
    rfl
  have hsplit : (pre ++ (a ++ x :: b) :: post).flatten = (pre.flatten ++ a) ++ x :: (b ++ post.flatten) := by
    simp
  have hsplit' : (pre ++ (a ++ b) :: post).flatten = (pre.flatten ++ a) ++ (b ++ post.flatten) := by
    simp
  have hperm : (pre ++ (a ++ x :: b) :: post).flatten.Perm (x :: (pre ++ (a ++ b) :: post).flatten) := by
    rw [hsplit, hsplit']
    exact List.perm_middle
  have hne : ∀ y ∈ (pre ++ (a ++ b) :: post).flatten, y ≠ x := fun y hy heq => by
    have hnodup := hperm.nodup_iff.mp h.buckets.nodup
    exact (List.nodup_cons.mp hnodup).1 (heq ▸ hy)
  have hmem : ∀ y ∈ (pre ++ (a ++ b) :: post).flatten, y ∈ (pre ++ (a ++ x :: b) :: post).flatten :=
    fun y hy => hperm.mem_iff.mpr (List.mem_cons_of_mem x hy)
  have hkeep : ∀ l : List SymPtr, (∀ y ∈ l, y ∈ (pre ++ (a ++ b) :: post).flatten) →
      (l.map tp.entry).filter (fun q => q.1 ≠ tp.name x) = l.map tp.entry := by
    intro l hl
    refine List.filter_eq_self.mpr fun q hq => ?_
    obtain ⟨y, hy, rfl⟩ := List.mem_map.mp hq
    have hyx : tp.name y ≠ tp.name x := fun heq => hne y (hl y hy) (h.name_inj (hmem y (hl y hy)) hx heq)
    exact decide_eq_true hyx
  have hentries : (t.delete (tp.name x)).entries = (pre ++ (a ++ b) :: post).flatten.map tp'.entry := by
    change t.entries.filter (fun q => q.1 ≠ tp.name x) = _
    rw [hentry, ht, hsplit, List.map_append, List.map_cons, List.filter_append, List.filter_cons,
      if_neg (by simp [SymTab.entry]), hkeep _ fun y hy => by rw [hsplit']; exact List.mem_append_left _ hy,
      hkeep _ fun y hy => by rw [hsplit']; exact List.mem_append_right _ hy, ← List.map_append, hsplit']
  refine ⟨?_, hentries⟩
  have hrest : ∀ y ∈ a ++ b, y ∈ a ++ x :: b := fun y hy => by
    rw [List.mem_append, List.mem_cons]
    rcases List.mem_append.mp hy with hy | hy
    · exact Or.inl hy
    · exact Or.inr (Or.inr hy)
  refine h.replace hhash hchain ?_ (fun y hy => ⟨hforw y hy, by rw [hname]⟩) (fun y hy => ?_) ?_ fun y hy => ?_
  · exact fun hnull => h.buckets.nonnull_chain (hrest _ hnull)
  · rw [hname]
    exact h.ranked.eq_of_mem (hrest y hy)
  · rw [← map_fst_entry, ← hentries]
    exact (t.delete (tp.name x)).nodup
  · rw [hused]
    exact (List.mem_erase_of_ne (hne y hy)).mpr (h.used (hmem y hy))

/-- **Deleting a symbol** takes its block out and its entry out of the map, or there is none and nothing has
changed. -/
theorem SymTab.Shows.symDelete {tp : SymTab ν} {nodes : List (List SymPtr)} {t : Table Bytes (ν × ℤ)}
    (h : tp.Shows nodes t) (name : Bytes) :
    (t.lookup name = none ∧ tp.symDelete name = (tp, -1)) ∨
      ∃ x ∈ nodes.flatten, tp.name x = name ∧ (tp.symDelete name).2 = 0 ∧
        (tp.symDelete name).1.hash_size = tp.hash_size ∧ (tp.symDelete name).1.name = tp.name ∧
        (tp.symDelete name).1.Shows (nodes.map (List.filter (· ≠ x))) (t.delete name) := by
  obtain ⟨hrep, ht⟩ := h
  unfold SymTab.symDelete
  rcases hrep.hashFind name with ⟨pre, l, post, rfl, hpre, hchain, hfind, hnone⟩ |
    ⟨pre, a, x, b, post, rfl, hpre, hchain, hfind, rfl⟩
  · refine Or.inl ⟨lookup_of_forall_ne ht hnone, ?_⟩
    rw [hfind]
    exact if_pos rfl
  · have hx : x ∈ (pre ++ (a ++ x :: b) :: post).flatten := mem_flatten_middle.mpr (Or.inl (by simp))
    have hne : x ≠ SYM_NULL := fun heq => hrep.buckets.nonnull (heq ▸ hx)
    obtain ⟨hnodup, hother⟩ := hrep.buckets.nodup_chain
    refine Or.inr ⟨x, hx, rfl, ?_⟩
    rw [hfind, hrep.buckets.map_filter]
    simp only [hne, if_false]
    rcases List.eq_nil_or_concat' a with rfl | ⟨front, y, rfl⟩
    · -- the first block of the chain
      obtain ⟨-, hrest⟩ := hchain
      refine ⟨trivial, List.length_set, rfl, ?_⟩
      exact hrep.remove ht (by rw [hpre]; rfl) hrest (fun _ _ => rfl) rfl rfl rfl rfl
    · have hynull : y ≠ SYM_NULL := fun heq => hrep.buckets.nonnull_chain (by simp [heq])
      rw [List.getLastD_concat]
      simp only [ne_eq, hynull, not_false_eq_true, if_true]
      refine ⟨trivial, rfl, trivial, ?_⟩
      refine hrep.remove ht (SymTab.getD_chain hrep).symm ?_ (fun z hz => ?_) rfl rfl rfl rfl
      · rw [hpre]
        exact hchain.unlink hnodup
      · have hzy : z ≠ y := fun heq => hother y (by simp) (heq ▸ hz)
        exact Function.update_of_ne hzy _ _

/-! ## Enumerating the symbols -/

/-- The place of an enumeration is in front of these blocks. -/
def SymCursor.Ahead (cur : SymCursor) (nodes : List (List SymPtr)) (rest : List SymPtr) : Prop :=
  (∃ pre a b post, nodes = pre ++ (a ++ b) :: post ∧ pre.length = cur.htIndex ∧
      cur.next = b.headD SYM_NULL ∧ rest = b ++ post.flatten) ∨
    (cur.htIndex = nodes.length ∧ rest = [])

theorem SymTab.Rep.chain_eq {tp : SymTab ν} {pre post : List (List SymPtr)} {l : List SymPtr}
    (h : tp.Rep (pre ++ l :: post)) : tp.chain pre.length = l.headD SYM_NULL := by
  obtain ⟨p, hp, hchain⟩ := h.buckets.head
  rw [← hchain.head, SymTab.chain, List.getD_eq_getElem?_getD, hp, Option.getD_some]

theorem SymTab.Rep.ne_null {tp : SymTab ν} {pre post : List (List SymPtr)} {a b : List SymPtr} {x : SymPtr}
    (h : tp.Rep (pre ++ (a ++ x :: b) :: post)) : x ≠ SYM_NULL := fun heq =>
  h.buckets.nonnull_chain (by simp [heq])

/-- A block is come by, and the place is in front of the others. -/
theorem SymTab.Rep.advance {tp : SymTab ν} {pre post : List (List SymPtr)} {a b : List SymPtr} {x : SymPtr}
    (h : tp.Rep (pre ++ (a ++ x :: b) :: post)) :
    (tp.advance pre.length x).Ahead (pre ++ (a ++ x :: b) :: post) (b ++ post.flatten) := by
  have hforw : tp.forw x = b.headD SYM_NULL := h.buckets.rest.2.head
  unfold SymTab.advance
  rcases b with _ | ⟨y, b⟩
  · rw [if_pos (show tp.forw x = SYM_NULL from hforw)]
    rcases post with _ | ⟨l, post⟩
    · refine Or.inr ⟨?_, rfl⟩
      rw [List.length_append]
      rfl
    · -- the first block of the next chain, if it has one
      have hnodes : pre ++ (a ++ [x]) :: l :: post = (pre ++ [a ++ [x]]) ++ l :: post := by simp
      have hlen : (pre ++ [a ++ [x]]).length = pre.length + 1 := List.length_append
      rw [hnodes] at h
      refine Or.inl ⟨pre ++ [a ++ [x]], [], l, post, hnodes, hlen, ?_, rfl⟩
      rw [← hlen]
      exact h.chain_eq
  · have hy : y ≠ SYM_NULL := fun heq => h.buckets.nonnull_chain (by simp [heq])
    have hforw' : tp.forw x = y := hforw
    rw [if_neg (hforw' ▸ hy)]
    exact Or.inl ⟨pre, a ++ [x], y :: b, post, by simp, rfl, hforw, rfl⟩

/-- The loop of `symNext` comes by the first of the blocks ahead. -/
theorem SymTab.Rep.nextFrom {tp : SymTab ν} {pre post : List (List SymPtr)} {a b : List SymPtr}
    (h : tp.Rep (pre ++ (a ++ b) :: post)) {cur : SymCursor} (hnext : cur.next = b.headD SYM_NULL) :
    (∃ x rest, b ++ post.flatten = x :: rest ∧
        (tp.nextFrom cur (post.length + 1) pre.length).1 = x ∧
        (tp.nextFrom cur (post.length + 1) pre.length).2.Ahead (pre ++ (a ++ b) :: post) rest) ∨
      (b ++ post.flatten = [] ∧ (tp.nextFrom cur (post.length + 1) pre.length).1 = SYM_NULL) := by
  induction post generalizing pre a b cur with
  | nil =>
      rw [SymTab.nextFrom]
      rcases b with _ | ⟨x, b⟩
      · right
        have hnull : ¬ cur.next ≠ SYM_NULL := not_not_intro hnext
        rw [if_neg hnull]
        exact ⟨rfl, rfl⟩
      · left
        have hx : cur.next ≠ SYM_NULL := hnext.trans_ne h.ne_null
        rw [if_pos hx, hnext]
        exact ⟨x, b ++ [], rfl, rfl, h.advance⟩
  | cons l post ih =>
      rw [SymTab.nextFrom]
      rcases b with _ | ⟨x, b⟩
      · -- nothing is left in this chain
        have hnodes : pre ++ (a ++ []) :: l :: post = (pre ++ [a]) ++ ([] ++ l) :: post := by simp
        have hlen : (pre ++ [a]).length = pre.length + 1 := List.length_append
        have hnull : ¬ cur.next ≠ SYM_NULL := not_not_intro hnext
        rw [if_neg hnull, hnodes, ← hlen]
        rw [hnodes] at h
        exact ih h h.chain_eq
      · left
        have hx : cur.next ≠ SYM_NULL := hnext.trans_ne h.ne_null
        rw [if_pos hx, hnext]
        exact ⟨x, b ++ (l :: post).flatten, rfl, rfl, h.advance⟩

/-- `symNext` gives the first of the blocks ahead, and is in front of the others then. -/
theorem SymTab.Rep.symNext {tp : SymTab ν} {nodes : List (List SymPtr)} (h : tp.Rep nodes) {cur : SymCursor}
    {rest : List SymPtr} (hahead : cur.Ahead nodes rest) :
    (rest = [] ∧ (tp.symNext cur).1 = SYM_NULL) ∨
      ∃ x rest', rest = x :: rest' ∧ (tp.symNext cur).1 = x ∧ (tp.symNext cur).2.Ahead nodes rest' := by
  have hsize : tp.hash_size = nodes.length := h.buckets.length_eq.symm
  unfold SymTab.symNext
  rcases hahead with ⟨pre, a, b, post, rfl, hpre, hnext, rfl⟩ | ⟨hend, rfl⟩
  · have hleft : tp.hash_size - cur.htIndex = post.length + 1 := by
      rw [hsize, List.length_append, List.length_cons, ← hpre]
      omega
    rw [hleft, ← hpre]
    rcases h.nextFrom hnext with ⟨x, rest, hrest, hx, hcur⟩ | hnone
    · exact Or.inr ⟨x, rest, hrest, hx, hcur⟩
    · exact Or.inl hnone
  · rw [hsize, hend, Nat.sub_self]
    exact Or.inl ⟨rfl, rfl⟩

/-- The loop of `symFirst` comes by the first of all blocks from a chain on. -/
theorem SymTab.Rep.firstFrom {tp : SymTab ν} {pre post : List (List SymPtr)} (h : tp.Rep (pre ++ post))
    (cur : SymCursor) :
    (∃ x rest, post.flatten = x :: rest ∧ (tp.firstFrom cur post.length pre.length).1 = x ∧
        (tp.firstFrom cur post.length pre.length).2.Ahead (pre ++ post) rest) ∨
      (post.flatten = [] ∧ (tp.firstFrom cur post.length pre.length).1 = SYM_NULL) := by
  induction post generalizing pre with
  | nil => exact Or.inr ⟨rfl, rfl⟩
  | cons l post ih =>
      rw [List.length_cons, SymTab.firstFrom]
      rw [h.chain_eq]
      rcases l with _ | ⟨x, l⟩
      · have hnodes : pre ++ [] :: post = (pre ++ [[]]) ++ post := by simp
        have hlen : (pre ++ [([] : List SymPtr)]).length = pre.length + 1 := List.length_append
        have hnull : ¬ ([] : List SymPtr).headD SYM_NULL ≠ SYM_NULL := not_not_intro rfl
        rw [if_neg hnull, hnodes, ← hlen]
        rw [hnodes] at h
        exact ih h
      · rw [List.headD_cons, if_pos (h.ne_null (a := []))]
        exact Or.inl ⟨x, l ++ post.flatten, rfl, rfl, h.advance (a := [])⟩

/-- `symFirst` gives the first of all blocks. -/
theorem SymTab.Rep.symFirst {tp : SymTab ν} {nodes : List (List SymPtr)} (h : tp.Rep nodes)
    (cur : SymCursor) :
    (∃ x rest, nodes.flatten = x :: rest ∧ (tp.symFirst cur).1 = x ∧ (tp.symFirst cur).2.Ahead nodes rest) ∨
      (nodes.flatten = [] ∧ (tp.symFirst cur).1 = SYM_NULL) := by
  have hsize : tp.hash_size = nodes.length := h.buckets.length_eq.symm
  unfold SymTab.symFirst
  rw [hsize]
  have hempty : tp.Rep ([] ++ nodes) := h
  exact SymTab.Rep.firstFrom hempty cur

/-! ## Enumerations while the table changes -/

theorem SymCursor.Ahead.subset {cur : SymCursor} {nodes : List (List SymPtr)} {rest : List SymPtr}
    (h : cur.Ahead nodes rest) : rest ⊆ nodes.flatten := by
  rcases h with ⟨pre, a, b, post, rfl, -, -, rfl⟩ | ⟨-, rfl⟩
  · intro x hx
    simp only [List.flatten_append, List.flatten_cons, List.mem_append] at hx ⊢
    tauto
  · exact List.nil_subset _

/-- A new block comes up in an enumeration in its turn, or not at all. -/
theorem SymCursor.Ahead.grow {cur : SymCursor} {pre post : List (List SymPtr)} {l rest : List SymPtr}
    (h : cur.Ahead (pre ++ l :: post) rest) (e : SymPtr) :
    cur.Ahead (pre ++ (l ++ [e]) :: post) rest ∨
      ∃ front, rest = front ++ post.flatten ∧ front ⊆ pre.flatten ++ l ∧
        cur.Ahead (pre ++ (l ++ [e]) :: post) (front ++ e :: post.flatten) := by
  -- the place is in the chain of the block
  have hhere : ∀ a b, l = a ++ b → pre.length = cur.htIndex → cur.next = b.headD SYM_NULL →
      cur.Ahead (pre ++ (l ++ [e]) :: post) (b ++ post.flatten) ∨
        ∃ front, b ++ post.flatten = front ++ post.flatten ∧ front ⊆ pre.flatten ++ l ∧
          cur.Ahead (pre ++ (l ++ [e]) :: post) (front ++ e :: post.flatten) := by
    rintro a b rfl hpre hnext
    rcases b with _ | ⟨y, b⟩
    · exact Or.inl (Or.inl ⟨pre, a ++ [] ++ [e], [], post, by simp, hpre, hnext, rfl⟩)
    · refine Or.inr ⟨y :: b, rfl, fun x hx => ?_, Or.inl ⟨pre, a, y :: b ++ [e], post, ?_, hpre, hnext, ?_⟩⟩
      · exact List.mem_append_right _ (List.mem_append_right _ hx)
      · rw [List.append_assoc]
      · simp
  rcases h with ⟨pre', a, b, post', heq, hpre, hnext, rfl⟩ | ⟨hend, rfl⟩
  · rcases List.append_eq_append_iff.mp heq with ⟨mid, rfl, hmid⟩ | ⟨mid, rfl, hmid⟩
    · rcases mid with _ | ⟨l', mid⟩
      · obtain ⟨rfl, rfl⟩ := List.cons.inj hmid
        rw [List.append_nil] at hpre
        exact hhere a b rfl hpre hnext
      · obtain ⟨rfl, rfl⟩ := List.cons.inj hmid
        exact Or.inl (Or.inl ⟨pre ++ (l ++ [e]) :: mid, a, b, post', by simp, by simpa using hpre, hnext, rfl⟩)
    · rcases mid with _ | ⟨l', mid⟩
      · obtain ⟨rfl, rfl⟩ := List.cons.inj hmid
        rw [List.append_nil]
        have hpre' : (pre' ++ []).length = cur.htIndex := by rw [List.append_nil, hpre]
        simpa using hhere a b rfl hpre' hnext
      · obtain ⟨rfl, rfl⟩ := List.cons.inj hmid
        refine Or.inr ⟨b ++ mid.flatten ++ l, by simp, fun x hx => ?_,
          Or.inl ⟨pre', a, b, mid ++ (l ++ [e]) :: post, by simp, hpre, hnext, by simp⟩⟩
        simp only [List.flatten_append, List.flatten_cons, List.mem_append] at hx ⊢
        tauto
  · refine Or.inl (Or.inr ⟨hend.trans ?_, rfl⟩)
    rw [List.length_append, List.length_append, List.length_cons, List.length_cons]

/-- A block that is not the next one may go. -/
theorem SymCursor.Ahead.filter {cur : SymCursor} {nodes : List (List SymPtr)} {rest : List SymPtr}
    (h : cur.Ahead nodes rest) {x : SymPtr} (hx : rest.head? ≠ some x) :
    cur.Ahead (nodes.map (List.filter (· ≠ x))) (rest.filter (· ≠ x)) := by
  rcases h with ⟨pre, a, b, post, rfl, hpre, hnext, rfl⟩ | ⟨hend, rfl⟩
  · refine Or.inl ⟨pre.map (List.filter (· ≠ x)), a.filter (· ≠ x), b.filter (· ≠ x),
      post.map (List.filter (· ≠ x)), ?_, ?_, ?_, ?_⟩
    · rw [List.map_append, List.map_cons, List.filter_append]
    · rw [List.length_map, hpre]
    · rcases b with _ | ⟨y, b⟩
      · exact hnext
      · have hy : y ≠ x := fun heq => hx (congrArg some heq)
        rw [List.filter_cons, if_pos (decide_eq_true hy)]
        exact hnext
    · rw [List.filter_append, List.filter_flatten]
  · exact Or.inr ⟨by rw [List.length_map, hend], rfl⟩

/-! ## Whole runs -/

/-- What a program does with a symbol table; it may find no memory for a new block, and enumerations of other
tables use the same static variables. -/
inductive SymOp (ν : Type)
  | enter (alloc : SymAlloc) (name : Bytes) (v : ν) (arg : ℤ)
  | lookup (name : Bytes)
  | delete (name : Bytes)
  | first
  | next
  | elsewhere (cur : SymCursor)

/-- What it learns. -/
inductive SymAnswer (ν : Type)
  | entered (stored : Bool)
  | found (r : Option (ν × ℤ))
  | deleted (rc : ℤ)
  | symbol (r : Option (Bytes × ν × ℤ))
  | nothing

/-- A symbol table and the static variables. -/
structure SymState (ν : Type) where
  tab : SymTab ν
  cur : SymCursor

/-- The symbol that a pointer stands for. -/
def SymTab.symbol (tp : SymTab ν) (p : SymPtr) : Option (Bytes × ν × ℤ) :=
  if p = SYM_NULL then none else some (tp.entry p)

def SymState.step (s : SymState ν) : SymOp ν → SymState ν × SymAnswer ν
  | .enter alloc name v arg =>
      let (tab, sp) := s.tab.symEnter alloc name v arg
      ({ s with tab := tab }, .entered (sp ≠ SYM_NULL))
  | .lookup name => (s, .found (s.tab.deref (s.tab.symLookup name)))
  | .delete name =>
      let (tab, rc) := s.tab.symDelete name
      ({ s with tab := tab }, .deleted rc)
  | .first =>
      let (sp, cur) := s.tab.symFirst s.cur
      ({ s with cur := cur }, .symbol (s.tab.symbol sp))
  | .next =>
      let (sp, cur) := s.tab.symNext s.cur
      ({ s with cur := cur }, .symbol (s.tab.symbol sp))
  | .elsewhere cur => ({ s with cur := cur }, .nothing)

/-- A map, and the names that an enumeration of it has not come by yet, unless its place is lost. -/
structure SymView (ν : Type) where
  map : Table Bytes (ν × ℤ)
  ahead : Option (List Bytes)

/-- A name goes; the place is lost if it was the next one. -/
def forget (name : Bytes) : Option (List Bytes) → Option (List Bytes)
  | none => none
  | some names => if names.head? = some name then none else some (names.filter (· ≠ name))

/-- What the operations of a table with `n` chains may do. A name is not entered only if it is a new one and
there is no memory. A name that is entered while an enumeration is on may come up in its turn or not; without
a place, `symNext` may give anything, but changes nothing. -/
def SymMay (n : ℕ) (t : SymView ν) : SymOp ν → SymAnswer ν → SymView ν → Prop
  | .enter alloc name v arg, .entered true, t' =>
      ((t.map.lookup name).isSome = true ∨ alloc.memory = true) ∧
        t'.map = symEnter n t.map name (v, arg) ∧
        (t'.ahead = t.ahead ∨ (t.map.lookup name = none ∧
          t'.ahead = t.ahead.map (List.orderedInsert (fun a b => hashIndex n a < hashIndex n b) name)))
  | .enter alloc name _ _, .entered false, t' =>
      alloc.memory = false ∧ t.map.lookup name = none ∧ t' = t
  | .lookup name, .found r, t' => r = symLookup t.map name ∧ t' = t
  | .delete name, .deleted rc, t' =>
      rc = (symDelete t.map name).2 ∧ t'.map = (symDelete t.map name).1 ∧ t'.ahead = forget name t.ahead
  | .first, .symbol r, t' =>
      r = t.map.entries.head? ∧ t'.map = t.map ∧ t'.ahead = t.map.entries.tail?.map (List.map Prod.fst)
  | .next, .symbol r, t' =>
      t'.map = t.map ∧
        match t.ahead with
        | none => t'.ahead = none
        | some [] => r = none ∧ t'.ahead = none
        | some (name :: names) =>
            ∃ p, t.map.lookup name = some p ∧ r = some (name, p) ∧ t'.ahead = some names
  | .elsewhere _, .nothing, t' => t'.map = t.map ∧ t'.ahead = none
  | _, _, _ => False

/-- The memory holds the map, and the static variables are in front of the names ahead. -/
def SymState.Stands (n : ℕ) (s : SymState ν) (t : SymView ν) : Prop :=
  s.tab.hash_size = n ∧ ∃ nodes, s.tab.Shows nodes t.map ∧
    ∀ names, t.ahead = some names → ∃ rest, s.cur.Ahead nodes rest ∧ names = rest.map s.tab.name

variable {n : ℕ} {s : SymState ν} {t : SymView ν}

theorem SymState.Stands.enter (h : s.Stands n t) (alloc : SymAlloc) (name : Bytes) (v : ν) (arg : ℤ) :
    ∃ t', SymMay n t (.enter alloc name v arg) (s.step (.enter alloc name v arg)).2 t' ∧
      (s.step (.enter alloc name v arg)).1.Stands n t' := by
  obtain ⟨rfl, nodes, hshows, hahead⟩ := h
  rcases hshows.symEnter alloc name v arg with ⟨hstored, hmay, hsize, nodes', hgrows, hshows'⟩ |
    ⟨hsame, hmemory, habsent⟩
  · have hans : (s.step (.enter alloc name v arg)).2 = .entered true :=
      congrArg SymAnswer.entered (decide_eq_true hstored)
    rw [hans]
    cases hgrows with
    | old hname hthere =>
        refine ⟨⟨_, t.ahead⟩, ⟨hmay, rfl, Or.inl rfl⟩, hsize, _, hshows', fun names hnames => ?_⟩
        obtain ⟨rest, hrest, rfl⟩ := hahead names hnames
        exact ⟨rest, hrest, congrArg (rest.map ·) hname.symm⟩
    | @new pre post l e hpre hname hfresh hnone =>
        have hold : ∀ l' : List SymPtr, l' ⊆ (pre ++ l :: post).flatten →
            l'.map (s.tab.symEnter alloc name v arg).1.name = l'.map s.tab.name := fun l' hl' =>
          List.map_congr_left fun x hx => by
            rw [hname, Function.update_of_ne fun heq : x = e => hfresh (heq ▸ hl' hx)]
        have habsent : t.map.lookup name = none := lookup_of_forall_ne hshows.entries hnone
        cases hplace : t.ahead with
        | none => exact ⟨⟨_, none⟩, ⟨hmay, rfl, Or.inl hplace.symm⟩, hsize, _, hshows', nofun⟩
        | some names =>
            obtain ⟨rest, hrest, rfl⟩ := hahead names hplace
            rcases hrest.grow e with hskip | ⟨front, rfl, hfront, hturn⟩
            · refine ⟨⟨_, t.ahead⟩, ⟨hmay, rfl, Or.inl rfl⟩, hsize, _, hshows', fun names hnames => ?_⟩
              rw [hplace] at hnames
              exact ⟨rest, hskip, (Option.some.inj hnames).symm.trans (hold rest hrest.subset).symm⟩
            · have hsub : front ++ post.flatten ⊆ (pre ++ l :: post).flatten := hrest.subset
              refine ⟨⟨_, some ((front ++ e :: post.flatten).map (s.tab.symEnter alloc name v arg).1.name)⟩,
                ⟨hmay, rfl, Or.inr ⟨habsent, ?_⟩⟩, hsize, _, hshows', fun names hnames => ?_⟩
              · have he : (s.tab.symEnter alloc name v arg).1.name e = name := by
                  rw [hname, Function.update_self]
                rw [hplace, Option.map_some, List.map_append, List.map_cons, he, List.map_append,
                  hold front fun x hx => hsub (List.mem_append_left _ hx),
                  hold post.flatten fun x hx => hsub (List.mem_append_right _ hx)]
                refine congrArg some (orderedInsert_append ?_ ?_).symm
                · intro k hk
                  obtain ⟨x, hx, rfl⟩ := List.mem_map.mp hk
                  rw [← hpre]
                  rcases List.mem_append.mp (hfront hx) with hx | hx
                  · exact (hshows.rep.ranked.lt_of_mem hx).le
                  · exact (hshows.rep.ranked.eq_of_mem hx).le
                · intro k hk
                  obtain ⟨x, hx, rfl⟩ := List.mem_map.mp hk
                  rw [← hpre]
                  exact hshows.rep.ranked.gt_of_mem hx
              · exact ⟨_, hturn, (Option.some.inj hnames).symm⟩
  · have hstep : s.step (.enter alloc name v arg) = (s, .entered false) := by
      simp only [SymState.step, hsame]
      simp
    rw [hstep]
    exact ⟨t, ⟨hmemory, habsent, rfl⟩, rfl, nodes, hshows, hahead⟩

theorem SymState.Stands.delete (h : s.Stands n t) (name : Bytes) :
    ∃ t', SymMay n t (.delete name) (s.step (.delete name)).2 t' ∧
      (s.step (.delete name)).1.Stands n t' := by
  obtain ⟨rfl, nodes, hshows, hahead⟩ := h
  refine ⟨⟨(symDelete t.map name).1, forget name t.ahead⟩, ?_⟩
  rcases hshows.symDelete name with ⟨habsent, hsame⟩ | ⟨x, hx, hxname, hrc, hsize, hname, hshows'⟩
  · have hgone : symDelete t.map name = (t.map, -1) := if_neg (by simp [habsent])
    have hstep : s.step (.delete name) = (s, .deleted (-1)) := by
      simp only [SymState.step, hsame]
    rw [hstep, hgone]
    refine ⟨⟨by rw [hgone], by rw [hgone], rfl⟩, rfl, nodes, hshows, fun names hnames => ?_⟩
    cases hplace : t.ahead with
    | none => rw [hplace] at hnames; exact absurd hnames (Option.some_ne_none names).symm
    | some names₀ =>
        obtain ⟨rest, hrest, rfl⟩ := hahead names₀ hplace
        have hno : ∀ k ∈ rest.map s.tab.name, k ≠ name := fun k hk heq => by
          obtain ⟨y, hy, rfl⟩ := List.mem_map.mp hk
          have hlook := SymTab.Rep.lookup_of_mem hshows.entries (hrest.subset hy)
          rw [heq, habsent] at hlook
          simp at hlook
        simp only [hplace, forget] at hnames
        rw [if_neg fun hhead => hno _ (List.mem_of_head? hhead) rfl,
          List.filter_eq_self.mpr fun k hk => decide_eq_true (hno k hk)] at hnames
        exact ⟨rest, hrest, (Option.some.inj hnames).symm⟩
  · have hthere : (t.map.lookup name).isSome = true := by
      rw [← hxname, SymTab.Rep.lookup_of_mem hshows.entries hx]
      rfl
    have hgone : symDelete t.map name = (t.map.delete name, 0) := if_pos hthere
    refine ⟨⟨hrc.trans (by rw [hgone]), rfl, rfl⟩, hsize, _, by rw [hgone]; exact hshows',
      fun names hnames => ?_⟩
    cases hplace : t.ahead with
    | none => rw [hplace] at hnames; exact absurd hnames (Option.some_ne_none names).symm
    | some names₀ =>
        obtain ⟨rest, hrest, rfl⟩ := hahead names₀ hplace
        simp only [hplace, forget] at hnames
        split_ifs at hnames with hhead
        have hnext : rest.head? ≠ some x := fun hfirst => hhead (by rw [List.head?_map, hfirst, ← hxname]; rfl)
        refine ⟨_, hrest.filter hnext, (Option.some.inj hnames).symm.trans ?_⟩
        change _ = (rest.filter (· ≠ x)).map (s.tab.symDelete name).1.name
        rw [hname, List.filter_map]
        refine congrArg _ (List.filter_congr fun y hy => decide_eq_decide.mpr (not_congr ?_))
        constructor
        · exact fun heq => hshows.rep.name_inj (hrest.subset hy) hx (heq.trans hxname.symm)
        · rintro rfl
          exact hxname

theorem SymTab.Shows.symbol_of_mem {tp : SymTab ν} {nodes : List (List SymPtr)} {m : Table Bytes (ν × ℤ)}
    (h : tp.Shows nodes m) {x : SymPtr} (hx : x ∈ nodes.flatten) : tp.symbol x = some (tp.entry x) := by
  have hne : x ≠ SYM_NULL := fun heq => h.rep.buckets.nonnull (heq ▸ hx)
  exact if_neg hne

theorem SymState.Stands.first (h : s.Stands n t) :
    ∃ t', SymMay n t .first (s.step .first).2 t' ∧ (s.step .first).1.Stands n t' := by
  obtain ⟨rfl, nodes, hshows, -⟩ := h
  refine ⟨⟨t.map, t.map.entries.tail?.map (List.map Prod.fst)⟩, ⟨?_, rfl, rfl⟩, rfl, nodes, hshows,
    fun names hnames => ?_⟩
  · rcases hshows.rep.symFirst s.cur with ⟨x, rest, hnodes, hx, -⟩ | ⟨hnodes, hx⟩
    · have hmem : x ∈ nodes.flatten := hnodes ▸ List.mem_cons_self
      change s.tab.symbol (s.tab.symFirst s.cur).1 = _
      rw [hx, hshows.symbol_of_mem hmem, hshows.entries, hnodes]
      rfl
    · change s.tab.symbol (s.tab.symFirst s.cur).1 = _
      rw [hx, hshows.entries, hnodes]
      rfl
  · rcases hshows.rep.symFirst s.cur with ⟨x, rest, hnodes, -, hplace⟩ | ⟨hnodes, -⟩
    · refine ⟨rest, hplace, ?_⟩
      rw [hshows.entries, hnodes, List.map_cons, List.tail?_cons, Option.map_some, map_fst_entry] at hnames
      exact (Option.some.inj hnames).symm
    · rw [hshows.entries, hnodes] at hnames
      exact nomatch hnames

theorem SymState.Stands.next (h : s.Stands n t) :
    ∃ t', SymMay n t .next (s.step .next).2 t' ∧ (s.step .next).1.Stands n t' := by
  obtain ⟨rfl, nodes, hshows, hahead⟩ := h
  cases hplace : t.ahead with
  | none =>
      refine ⟨⟨t.map, none⟩, ⟨rfl, ?_⟩, rfl, nodes, hshows, fun _ hc => nomatch hc⟩
      rw [hplace]
  | some names =>
      obtain ⟨rest, hrest, rfl⟩ := hahead names hplace
      rcases hshows.rep.symNext hrest with ⟨rfl, hx⟩ | ⟨x, rest, rfl, hx, hplace'⟩
      · refine ⟨⟨t.map, none⟩, ⟨rfl, ?_⟩, rfl, nodes, hshows, fun _ hc => nomatch hc⟩
        rw [hplace]
        refine ⟨?_, rfl⟩
        change s.tab.symbol (s.tab.symNext s.cur).1 = none
        rw [hx]
        rfl
      · have hmem : x ∈ nodes.flatten := hrest.subset List.mem_cons_self
        refine ⟨⟨t.map, some (rest.map s.tab.name)⟩, ⟨rfl, ?_⟩, rfl, nodes, hshows, fun names hnames => ?_⟩
        · rw [hplace]
          refine ⟨_, SymTab.Rep.lookup_of_mem hshows.entries hmem, ?_, rfl⟩
          change s.tab.symbol (s.tab.symNext s.cur).1 = _
          rw [hx, hshows.symbol_of_mem hmem]
          rfl
        · exact ⟨rest, hplace', (Option.some.inj hnames).symm⟩

theorem SymState.Stands.step (h : s.Stands n t) (op : SymOp ν) :
    ∃ t', SymMay n t op (s.step op).2 t' ∧ (s.step op).1.Stands n t' := by
  cases op with
  | enter alloc name v arg => exact h.enter alloc name v arg
  | lookup name =>
      obtain ⟨hsize, nodes, hshows, hahead⟩ := h
      exact ⟨t, ⟨hshows.symLookup name, rfl⟩, hsize, nodes, hshows, hahead⟩
  | delete name => exact h.delete name
  | first => exact h.first
  | next => exact h.next
  | elsewhere cur =>
      obtain ⟨hsize, nodes, hshows, -⟩ := h
      exact ⟨⟨t.map, none⟩, ⟨rfl, rfl⟩, hsize, nodes, hshows, fun _ hc => nomatch hc⟩

theorem calcPrime_pos (n : ℕ) : 0 < calcPrime n := by
  induction n with
  | zero => exact Nat.one_pos
  | succ n ih =>
      rw [calcPrime]
      split
      · exact Nat.succ_pos n
      · exact ih

/-- A new table is empty. -/
theorem symOpen_stands (hash_size : ℕ) (mem : SymTab ν) (cur : SymCursor) :
    SymState.Stands (calcPrime hash_size) ⟨symOpen hash_size mem, cur⟩ ⟨Table.empty, none⟩ := by
  have hflat : (List.replicate (calcPrime hash_size) ([] : List SymPtr)).flatten = [] := by simp
  have hsize : (symOpen hash_size mem).hash_size = calcPrime hash_size := List.length_replicate
  refine ⟨hsize, List.replicate (calcPrime hash_size) [], ⟨⟨?_, ?_, ?_, ?_, ?_⟩, ?_⟩, fun _ hc => nomatch hc⟩
  · exact buckets_empty _ _ _
  · exact ranked_replicate _ _
  · rw [hflat]
    exact List.nodup_nil
  · rw [hflat]
    exact List.nil_subset _
  · rw [hsize]
    exact calcPrime_pos hash_size
  · rw [hflat]
    rfl

/-- **A symbol table is a map that can be enumerated**, whatever is done with it from `symOpen` on: each
operation answers as the map does, and does to the map what it should. -/
theorem symtab_refines_map (hash_size : ℕ) (mem : SymTab ν) (cur : SymCursor) (ops : List (SymOp ν)) :
    ∃ t', Behaves (SymMay (calcPrime hash_size)) ⟨Table.empty, none⟩ ops
        (answers SymState.step ⟨symOpen hash_size mem, cur⟩ ops) t' ∧
      (finish SymState.step ⟨symOpen hash_size mem, cur⟩ ops).Stands (calcPrime hash_size) t' :=
  behaves_simulation (fun _ _ op h => h.step op) (symOpen_stands hash_size mem cur) ops

/-- The calls of `symNext` up to the first `NULL`. -/
theorem SymState.Stands.nexts {es : List (Bytes × ν × ℤ)} (h : s.Stands n t)
    (hahead : t.ahead = some (es.map Prod.fst)) (hes : ∀ q ∈ es, q ∈ t.map.entries) :
    answers SymState.step s (List.replicate (es.length + 1) .next)
      = (es.map some ++ [none]).map SymAnswer.symbol := by
  induction es generalizing s t with
  | nil =>
      obtain ⟨t', hmay, -⟩ := h.next
      obtain ⟨-, hmay⟩ := hmay
      rw [hahead] at hmay
      exact congrArg (fun r => [SymAnswer.symbol r]) hmay.1
  | cons q es ih =>
      obtain ⟨t', hmay, hstands⟩ := h.next
      obtain ⟨hmap, hmay⟩ := hmay
      rw [hahead] at hmay
      obtain ⟨p, hp, hr, hahead'⟩ := hmay
      have hq : t.map.lookup q.1 = some q.2 := (t.map.mem_entries q.1 q.2).mp (hes q List.mem_cons_self)
      obtain rfl : q.2 = p := Option.some.inj (hq.symm.trans hp)
      have hrest := ih hstands hahead' fun q' hq' => hmap ▸ hes q' (List.mem_cons_of_mem q hq')
      rw [List.length_cons, List.replicate_succ, answers_cons, hrest]
      exact congrArg (fun r => SymAnswer.symbol r :: _) hr

/-- **A loop over a symbol table**, with `symFirst` and then `symNext` up to `NULL`, comes by the entries of
the map, each once, in the order of the map. -/
theorem symNext_run (h : s.Stands n t) :
    answers SymState.step s (.first :: List.replicate t.map.entries.length .next)
      = (t.map.entries.map some ++ [none]).map SymAnswer.symbol := by
  obtain ⟨t', hmay, hstands⟩ := h.first
  obtain ⟨hr, hmap, hahead⟩ := hmay
  rw [answers_cons]
  cases hentries : t.map.entries with
  | nil =>
      rw [hentries] at hr
      exact congrArg (fun r => [SymAnswer.symbol r]) hr
  | cons q es =>
      rw [hentries] at hr hahead
      have hes : ∀ q' ∈ es, q' ∈ t'.map.entries := fun q' hq' => by
        rw [hmap, hentries]
        exact List.mem_cons_of_mem q hq'
      rw [List.length_cons, hstands.nexts hahead hes]
      exact congrArg (fun r => SymAnswer.symbol r :: _) hr

/-- Memory for any number of blocks, each behind those in use. -/
def freeBlocks : SymAlloc where
  memory := true
  pick := fun used => used.sum + 1
  fresh := fun _ => ⟨Nat.succ_ne_zero _, fun h => absurd (List.le_sum_of_mem h) (Nat.not_succ_le_self _)⟩

/-- A table with three chains, before anything is entered. -/
def emptyState : SymState ℤ :=
  ⟨symOpen 3 ⟨[], 0, fun _ => [], fun _ => 0, fun _ => 0, fun _ => 0, []⟩, ⟨0, 0⟩⟩

/-- A loop over a table in which four symbols were entered: two of them are in one chain, and the one that
was entered last is in the first chain. -/
theorem symNext_run_entered :
    answers SymState.step
        (finish SymState.step emptyState
          [.enter freeBlocks [97] 7 1, .enter freeBlocks [98] 8 2, .enter freeBlocks [100] 9 3,
            .enter freeBlocks [99] 5 4])
        [.first, .next, .next, .next, .next]
      = [.symbol (some ([99], 5, 4)), .symbol (some ([97], 7, 1)), .symbol (some ([100], 9, 3)),
        .symbol (some ([98], 8, 2)), .symbol none] := by
  obtain ⟨t₁, hmay₁, h₁⟩ := (symOpen_stands 3 _ _ : emptyState.Stands 3 _).step (.enter freeBlocks [97] 7 1)
  obtain ⟨t₂, hmay₂, h₂⟩ := h₁.step (.enter freeBlocks [98] 8 2)
  obtain ⟨t₃, hmay₃, h₃⟩ := h₂.step (.enter freeBlocks [100] 9 3)
  obtain ⟨t₄, hmay₄, h₄⟩ := h₃.step (.enter freeBlocks [99] 5 4)
  have hentries : t₄.map.entries = [([99], 5, 4), ([97], 7, 1), ([100], 9, 3), ([98], 8, 2)] := by
    rw [hmay₄.2.1, hmay₃.2.1, hmay₂.2.1, hmay₁.2.1]
    decide
  have hrun := symNext_run h₄
  rw [hentries] at hrun
  exact hrun

end TestCore.Webs
