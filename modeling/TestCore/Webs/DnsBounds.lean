/-
How far the name server reads in a query (`jrd_dns_build_answer` and
`jrd_dns_parse_host_from_query` of `sockGen.c`).

Both walk over the labels of the name, from the offset 12 of the buffer on. The lengths come from the
network. `jrd_dns_build_answer` looks for the end of the name wherever it is. The other function stops
at 256, which it counts from the offset 12, and reads the label that starts before it to its end.

It is also to count the labels. But `*dns_seg_count ++` moves the pointer, and nobody is told the
number (`dns_bounds_iff`).
-/
import TestCore.Webs.DnsAnswer

set_option autoImplicit false

namespace TestCore.Webs

open TestCore.Lib

/-! ## The host name -/

/-- The variables of `jrd_dns_parse_host_from_query`. -/
structure HostParse where
  icount_buf : ℕ := 0
  icount_host_char : ℕ := 0
  dns_host_parse : Memory
  /-- The numbers from the one on that the argument `dns_seg_count` points to. -/
  segs : ℕ → ℕ
  /-- Where it points to now. -/
  dns_seg_count : ℕ := 0

/-- A turn of the loop. The counters are of 16 bits. -/
def jrd_dns_parse_host_from_query.turn (dns_query_buf : Memory) (s : HostParse) :
    HostParse ⊕ HostParse :=
  if s.icount_buf < JRD_DNS_BUF_SIZE then
    let icount_char := (dns_query_buf s.icount_buf).toNat
    if 1 ≤ icount_char then
      let label := load dns_query_buf (s.icount_buf + 1) icount_char
      .inr { s with
        icount_buf := (s.icount_buf + icount_char + 1) % 65536
        icount_host_char := (s.icount_host_char + icount_char + 1) % 65536
        dns_host_parse := store s.dns_host_parse s.icount_host_char (label ++ [46])
        -- `*dns_seg_count ++` is `*(dns_seg_count++)`.
        dns_seg_count := s.dns_seg_count + 1 }
    else
      -- Before the first label, the counter goes below zero.
      let icount_host_char := (s.icount_host_char + 65535) % 65536
      .inl { s with
        icount_host_char := icount_host_char
        dns_host_parse := store s.dns_host_parse icount_host_char [0] }
  else .inl s

/-- The offsets that a turn reads in the query. -/
def HostParse.reads (dns_query_buf : Memory) (s : HostParse) : List ℕ :=
  if s.icount_buf < JRD_DNS_BUF_SIZE then
    List.range' s.icount_buf ((dns_query_buf s.icount_buf).toNat + 1)
  else []

/-- The offsets behind the walk that `jrd_dns_build_answer` reads and writes: the type and class of the
question, the record, and the header. -/
def finishTouched (p : ℕ) : List ℕ := List.range' (p + 1) 4 ++ (List.range' (p + 5) 16 ++ List.range' 2 10)

/-! ## What is asked for -/

/-- The query, from the name on. -/
def fromName (m : Memory) : Memory := fun i => m (12 + i)

/-- Only the buffer is read and written, and the name of a well-formed query is told with the number
of its labels. -/
structure DnsBounds (m : Memory) (host : Memory) (segs : ℕ → ℕ) : Prop where
  walk : ∀ p, Visits (jrd_dns_build_answer.turn m) 12 p → p < JRD_DNS_BUF_SIZE
  finish : ∀ p, EndsWith (jrd_dns_build_answer.turn m) 12 p →
    ∀ i ∈ finishTouched p, i < JRD_DNS_BUF_SIZE
  parse : ∀ s, Visits (jrd_dns_parse_host_from_query.turn (fromName m))
    { dns_host_parse := host, segs := segs } s →
    ∀ i ∈ s.reads (fromName m), 12 + i < JRD_DNS_BUF_SIZE
  host : ∀ ls, ls ≠ [] → WellFormedName ls → NameAt m 12 ls →
    ∃ s, EndsWith (jrd_dns_parse_host_from_query.turn (fromName m))
      { dns_host_parse := host, segs := segs } s ∧
      load s.dns_host_parse 0 (([46].intercalate ls).length + 1) = [46].intercalate ls ++ [0] ∧
      s.segs 0 = (segs 0 + ls.length) % 65536

/-! ## The walk of the answer -/

/-- The walk visits the name only. -/
theorem visits_name {m : Memory} {p : ℕ} {ls : List Bytes} (hls : LabelsUpTo 255 ls)
    (h : NameAt m p ls) {q : ℕ} (hq : Visits (jrd_dns_build_answer.turn m) p q) :
    q < p + (nameBytes ls).length := by
  induction ls generalizing p with
  | nil =>
      rw [nameAt_nil] at h
      rcases Relation.ReflTransGen.cases_head hq with rfl | ⟨c, hc, -⟩
      · exact Nat.lt_succ_self _
      · unfold jrd_dns_build_answer.turn at hc
        rw [if_pos h] at hc
        cases hc
  | cons l ls ih =>
      have hl := hls l List.mem_cons_self
      rw [nameAt_cons m p hl.2] at h
      rw [nameBytes_cons_length]
      rcases Relation.ReflTransGen.cases_head hq with rfl | ⟨c, hc, hq⟩
      · omega
      · -- The turn goes behind the label, and the rest of the walk is in the rest of the name.
        have hne : m p ≠ 0 := by
          intro h0
          rw [h0, UInt8.toNat_zero] at h
          omega
        unfold jrd_dns_build_answer.turn at hc
        rw [if_neg hne, h.1] at hc
        cases hc
        have hlt := ih (fun x hx => hls x (List.mem_cons_of_mem l hx)) h.2.2 hq
        omega

/-- Where the walk ends, a name ends. -/
theorem exists_name {m : Memory} {p e : ℕ} (h : EndsWith (jrd_dns_build_answer.turn m) p e) :
    ∃ ls, LabelsUpTo 255 ls ∧ NameAt m p ls ∧ e + 1 = p + (nameBytes ls).length := by
  obtain ⟨turns, h⟩ := h
  induction turns generalizing p with
  | zero => cases h
  | succ n ih =>
      by_cases h0 : m p = 0
      · have hturn : jrd_dns_build_answer.turn m p = .inl p := if_pos h0
        rw [loopFor_inl hturn] at h
        cases h
        exact ⟨[], nofun, (nameAt_nil m _).mpr h0, rfl⟩
      · have hturn : jrd_dns_build_answer.turn m p = .inr (p + (m p).toNat + 1) := if_neg h0
        have hpos : 0 < (m p).toNat := by
          rw [Nat.pos_iff_ne_zero]
          exact fun hz => h0 (UInt8.toNat_inj.mp hz)
        have hlt := (m p).toNat_lt
        rw [loopFor_inr hturn] at h
        obtain ⟨ls, hls, hname, he⟩ := ih h
        refine ⟨load m (p + 1) (m p).toNat :: ls, ?_, ?_, ?_⟩
        · intro l hl
          rcases List.mem_cons.mp hl with rfl | hl
          · rw [load_length]
            omega
          · exact hls l hl
        · rw [nameAt_cons m p (by rw [load_length]; omega), load_length]
          exact ⟨rfl, rfl, hname⟩
        · rw [nameBytes_cons_length, load_length]
          omega

/-- A walk that stays below a bound ends. -/
theorem ends_of_bounded {m : Memory} {bound p : ℕ}
    (h : ∀ q, Visits (jrd_dns_build_answer.turn m) p q → q < bound) :
    Ends (jrd_dns_build_answer.turn m) p := by
  induction hn : bound - p using Nat.strong_induction_on generalizing p with
  | _ n ih =>
      have hp := h p Relation.ReflTransGen.refl
      by_cases h0 : m p = 0
      · have hturn : jrd_dns_build_answer.turn m p = .inl p := if_pos h0
        exact ⟨p, 1, loopFor_inl hturn 0⟩
      · have hturn : jrd_dns_build_answer.turn m p = .inr (p + (m p).toNat + 1) := if_neg h0
        -- The turn has come closer to the bound.
        rw [ends_inr hturn]
        exact ih _ (by omega) (fun q hq => h q (Relation.ReflTransGen.head hturn hq)) rfl

/-! ## The walk of the host name -/

section HostParse

variable {q : Memory} {s : HostParse}

theorem parse_turn_zero (hlt : s.icount_buf < JRD_DNS_BUF_SIZE) (h : q s.icount_buf = 0) :
    jrd_dns_parse_host_from_query.turn q s = .inl { s with
      icount_host_char := (s.icount_host_char + 65535) % 65536
      dns_host_parse := store s.dns_host_parse ((s.icount_host_char + 65535) % 65536) [0] } := by
  unfold jrd_dns_parse_host_from_query.turn
  rw [if_pos hlt, h]
  rfl

theorem parse_turn_label {l : Bytes} (hlt : s.icount_buf < JRD_DNS_BUF_SIZE) (hne : 1 ≤ l.length)
    (hlen : (q s.icount_buf).toNat = l.length) (hl : load q (s.icount_buf + 1) l.length = l) :
    jrd_dns_parse_host_from_query.turn q s = .inr { s with
      icount_buf := s.icount_buf + l.length + 1
      icount_host_char := (s.icount_host_char + l.length + 1) % 65536
      dns_host_parse := store s.dns_host_parse s.icount_host_char (l ++ [46])
      dns_seg_count := s.dns_seg_count + 1 } := by
  have hbyte := (q s.icount_buf).toNat_lt
  have hsmall : s.icount_buf + l.length + 1 < 65536 := by
    unfold JRD_DNS_BUF_SIZE at hlt
    omega
  unfold jrd_dns_parse_host_from_query.turn
  dsimp only
  rw [if_pos hlt, hlen, if_pos hne, hl, Nat.mod_eq_of_lt hsmall]

/-- A turn writes to no number of the caller. -/
theorem parse_segs {r : HostParse} (h : EndsWith (jrd_dns_parse_host_from_query.turn q) s r) :
    r.segs = s.segs := by
  obtain ⟨t, hvisits, hlast⟩ := h.last
  have hsegs : t.segs = s.segs := by
    refine hvisits.invariant (I := fun t => t.segs = s.segs) ?_ rfl
    intro a b ha hb
    unfold jrd_dns_parse_host_from_query.turn at hb
    dsimp only at hb
    split_ifs at hb
    cases hb
    exact ha
  rw [← hsegs]
  unfold jrd_dns_parse_host_from_query.turn at hlast
  dsimp only at hlast
  split_ifs at hlast
  · cases hlast
    rfl
  · cases hlast
    rfl

/-- The walk reads the name only. -/
theorem parse_reads {ls : List Bytes} (hls : LabelsUpTo 255 ls) (h : NameAt q s.icount_buf ls)
    (hfits : s.icount_buf + (nameBytes ls).length ≤ JRD_DNS_BUF_SIZE) {t : HostParse}
    (ht : Visits (jrd_dns_parse_host_from_query.turn q) s t) :
    ∀ i ∈ t.reads q, i < s.icount_buf + (nameBytes ls).length := by
  have hpos := nameBytes_length_pos ls
  have hlt : s.icount_buf < JRD_DNS_BUF_SIZE := by omega
  induction ls generalizing s with
  | nil =>
      rw [nameAt_nil] at h
      rcases Relation.ReflTransGen.cases_head ht with rfl | ⟨c, hc, -⟩
      · intro i hi
        unfold HostParse.reads at hi
        rw [if_pos hlt, h, List.mem_range'_1] at hi
        exact hi.2
      · rw [parse_turn_zero hlt h] at hc
        cases hc
  | cons l ls ih =>
      have hl := hls l List.mem_cons_self
      rw [nameAt_cons q _ hl.2] at h
      rw [nameBytes_cons_length] at hfits ⊢
      rcases Relation.ReflTransGen.cases_head ht with rfl | ⟨c, hc, ht⟩
      · intro i hi
        unfold HostParse.reads at hi
        rw [if_pos hlt, h.1, List.mem_range'_1] at hi
        omega
      · have hposls := nameBytes_length_pos ls
        rw [parse_turn_label hlt hl.1 h.1 h.2.1] at hc
        cases hc
        intro i hi
        have hrest := ih (s := { s with
          icount_buf := s.icount_buf + l.length + 1
          icount_host_char := (s.icount_host_char + l.length + 1) % 65536
          dns_host_parse := store s.dns_host_parse s.icount_host_char (l ++ [46])
          dns_seg_count := s.dns_seg_count + 1 }) (fun x hx => hls x (List.mem_cons_of_mem l hx)) h.2.2
          (by dsimp only; omega) ht hposls (by dsimp only; omega) i hi
        dsimp only at hrest
        omega

/-- The labels, each with a dot behind it. -/
def withDots (ls : List Bytes) : Bytes := (ls.map (· ++ [46])).flatten

@[simp] theorem withDots_nil : withDots [] = [] := rfl

theorem withDots_cons (l : Bytes) (ls : List Bytes) : withDots (l :: ls) = l ++ [46] ++ withDots ls := by
  unfold withDots
  rw [List.map_cons, List.flatten_cons]

/-- **What the walk leaves.** The zero takes the place of the last dot. -/
theorem parse_ends {ls : List Bytes} (hls : LabelsUpTo 255 ls) (h : NameAt q s.icount_buf ls)
    (hfits : s.icount_buf + (nameBytes ls).length ≤ JRD_DNS_BUF_SIZE)
    (hdots : 0 < s.icount_host_char + (withDots ls).length)
    (hhost : s.icount_host_char + (withDots ls).length < 65536) :
    ∃ r, EndsWith (jrd_dns_parse_host_from_query.turn q) s r ∧
      r.dns_host_parse = store (store s.dns_host_parse s.icount_host_char (withDots ls))
        (s.icount_host_char + (withDots ls).length - 1) [0] ∧
      r.dns_seg_count = s.dns_seg_count + ls.length := by
  have hpos := nameBytes_length_pos ls
  have hlt : s.icount_buf < JRD_DNS_BUF_SIZE := by omega
  induction ls generalizing s with
  | nil =>
      -- There was a label, so the counter does not go below zero.
      have hback : (s.icount_host_char + 65535) % 65536 = s.icount_host_char - 1 := by
        rw [withDots_nil, List.length_nil] at hdots hhost
        omega
      rw [nameAt_nil] at h
      refine ⟨_, (endsWith_inl (parse_turn_zero hlt h)).mpr rfl, ?_, rfl⟩
      dsimp only
      rw [hback, withDots_nil, store_nil]
      rfl
  | cons l ls ih =>
      have hl := hls l List.mem_cons_self
      have hposls := nameBytes_length_pos ls
      rw [nameAt_cons q _ hl.2] at h
      rw [nameBytes_cons_length] at hfits
      have hdot : (withDots (l :: ls)).length = l.length + 1 + (withDots ls).length := by
        rw [withDots_cons, List.length_append, List.length_append, List.length_singleton]
      have hmod : (s.icount_host_char + l.length + 1) % 65536 = s.icount_host_char + l.length + 1 :=
        Nat.mod_eq_of_lt (by omega)
      obtain ⟨r, hr, hhostr, hsegr⟩ := ih (s := { s with
        icount_buf := s.icount_buf + l.length + 1
        icount_host_char := s.icount_host_char + l.length + 1
        dns_host_parse := store s.dns_host_parse s.icount_host_char (l ++ [46])
        dns_seg_count := s.dns_seg_count + 1 }) (fun x hx => hls x (List.mem_cons_of_mem l hx)) h.2.2
        (by dsimp only; omega) (by dsimp only; omega) (by dsimp only; omega) hposls
        (by dsimp only; omega)
      -- The label with its dot, and what the rest stores, lie one behind the other.
      have hstore := store_store_append s.dns_host_parse s.icount_host_char (l ++ [46]) (withDots ls)
      rw [List.length_append, List.length_singleton, ← Nat.add_assoc] at hstore
      refine ⟨r, ?_, ?_, ?_⟩
      · rw [endsWith_inr (parse_turn_label hlt hl.1 h.1 h.2.1), hmod]
        exact hr
      · rw [hhostr, hstore, ← withDots_cons, hdot]
        dsimp only
        congr 1
        omega
      · rw [hsegr, List.length_cons]
        dsimp only
        omega

end HostParse

theorem withDots_eq {ls : List Bytes} (h : ls ≠ []) : withDots ls = [46].intercalate ls ++ [46] := by
  induction ls with
  | nil => exact absurd rfl h
  | cons l ls ih =>
      rcases ls with _ | ⟨l', ls⟩
      · simp [withDots]
      · rw [withDots_cons, ih (List.cons_ne_nil _ _), List.intercalate_cons_cons, List.append_assoc,
          List.append_assoc, List.append_assoc]

theorem withDots_length_lt (ls : List Bytes) : (withDots ls).length < (nameBytes ls).length := by
  induction ls with
  | nil => exact Nat.zero_lt_one
  | cons l ls ih =>
      rw [withDots_cons, nameBytes_cons_length, List.length_append, List.length_append,
        List.length_singleton]
      omega

theorem length_lt_nameBytes (ls : List Bytes) : ls.length < (nameBytes ls).length := by
  induction ls with
  | nil => exact Nat.zero_lt_one
  | cons l ls ih =>
      rw [nameBytes_cons_length, List.length_cons]
      omega

theorem nameAt_fromName (m : Memory) (ls : List Bytes) :
    NameAt (fromName m) 0 ls ↔ NameAt m 12 ls := by
  unfold NameAt load fromName
  simp only [Nat.zero_add]

/-- The host name is right, but the labels are counted where nobody looks. -/
theorem parse_host {m : Memory} (host : Memory) (segs : ℕ → ℕ) {ls : List Bytes} (hne : ls ≠ [])
    (hls : LabelsUpTo 255 ls) (hname : NameAt m 12 ls)
    (hfits : (nameBytes ls).length ≤ JRD_DNS_BUF_SIZE) :
    ∃ s, EndsWith (jrd_dns_parse_host_from_query.turn (fromName m))
      { dns_host_parse := host, segs := segs } s ∧
      load s.dns_host_parse 0 (([46].intercalate ls).length + 1) = [46].intercalate ls ++ [0] ∧
      s.dns_seg_count = ls.length := by
  have hlen : (withDots ls).length = ([46].intercalate ls).length + 1 := by
    rw [withDots_eq hne, List.length_append, List.length_singleton]
  have hshort := withDots_length_lt ls
  unfold JRD_DNS_BUF_SIZE at hfits
  obtain ⟨s, hs, hhost, hcount⟩ := parse_ends (s := { dns_host_parse := host, segs := segs }) hls
    ((nameAt_fromName m ls).mpr hname) (by dsimp only; rw [Nat.zero_add]; exact hfits)
    (by dsimp only; omega) (by dsimp only; omega)
  dsimp only at hhost hcount
  refine ⟨s, hs, ?_, by rw [hcount, Nat.zero_add]⟩
  rw [hhost, Nat.zero_add, hlen, Nat.add_sub_cancel, load_add, Nat.zero_add,
    load_store_of_disjoint _ (Or.inl (by omega)), withDots_eq hne]
  congr 1
  · rw [← store_store_append, load_store_of_disjoint _ (Or.inl (by omega)), load_store]
  · exact load_store _ _ [0]

/-! ## When both stay inside -/

/-- The name ends so early that the record fits behind the question. -/
def NameFits (m : Memory) (ls : List Bytes) : Prop :=
  LabelsUpTo 255 ls ∧ NameAt m 12 ls ∧ 12 + (nameBytes ls).length + 20 ≤ JRD_DNS_BUF_SIZE

section Bounds

variable {m host : Memory} {segs : ℕ → ℕ} {ls : List Bytes}

theorem nameFits_of_dnsBounds (h : DnsBounds m host segs) : ∃ ls, NameFits m ls := by
  obtain ⟨e, he⟩ := ends_of_bounded h.walk
  obtain ⟨ls, hls, hname, hend⟩ := exists_name he
  have hlast : e + 20 < JRD_DNS_BUF_SIZE := by
    refine h.finish e he (e + 20) ?_
    unfold finishTouched
    rw [List.mem_append, List.mem_append, List.mem_range'_1, List.mem_range'_1]
    omega
  exact ⟨ls, hls, hname, by omega⟩

/-- The number of labels is not told. -/
theorem not_wellFormed_of_dnsBounds (h : DnsBounds m host segs) (hfits : NameFits m ls) :
    ls = [] ∨ ¬ LabelsUpTo 63 ls := by
  obtain ⟨-, hname, hlen⟩ := hfits
  unfold JRD_DNS_BUF_SIZE at hlen
  by_contra! hwell
  obtain ⟨hne, hls⟩ := hwell
  obtain ⟨s, hs, -, hcount⟩ := h.host ls hne ⟨hls, by omega⟩ hname
  have hpos := List.length_pos_iff.mpr hne
  have hlt := length_lt_nameBytes ls
  -- The number is still what it was, and there are less than 65536 labels.
  rw [parse_segs hs] at hcount
  dsimp only at hcount
  omega

theorem dnsBounds_of_nameFits (hfits : NameFits m ls) (h : ls = [] ∨ ¬ LabelsUpTo 63 ls) :
    DnsBounds m host segs := by
  obtain ⟨hls, hname, hlen⟩ := hfits
  refine ⟨?_, ?_, ?_, ?_⟩
  · intro p hp
    have hlt := visits_name hls hname hp
    omega
  · intro p hp i hi
    obtain ⟨ls', hls', hname', hend⟩ := exists_name hp
    rw [nameAt_unique hls' hls hname' hname] at hend
    unfold finishTouched at hi
    rw [List.mem_append, List.mem_append, List.mem_range'_1, List.mem_range'_1,
      List.mem_range'_1] at hi
    omega
  · intro s hs i hi
    have hlt := parse_reads (s := { dns_host_parse := host, segs := segs }) hls
      ((nameAt_fromName m ls).mpr hname) (by dsimp only; omega) hs i hi
    dsimp only at hlt
    omega
  · intro ls' hne hwell hname'
    have heq := nameAt_unique (hwell.labels.mono (by decide)) hls hname' hname
    rw [heq] at hne hwell
    rcases h with h | h
    · exact absurd h hne
    · exact absurd hwell.labels h

end Bounds

/-- **When both stay inside and all is told.** The labels from the offset 12 on have to end so early
that the record fits behind the question. And since they are not counted, there must be none, or one
that is too long for a name. -/
theorem dns_bounds_iff (datagram : Bytes) (behind host : Memory) (segs : ℕ → ℕ) :
    DnsBounds (jrd_dns_buf datagram behind) host segs ↔
      ∃ ls, NameFits (jrd_dns_buf datagram behind) ls ∧ (ls = [] ∨ ¬ LabelsUpTo 63 ls) := by
  constructor
  · intro h
    obtain ⟨ls, hfits⟩ := nameFits_of_dnsBounds h
    exact ⟨ls, hfits, not_wellFormed_of_dnsBounds h hfits⟩
  · rintro ⟨ls, hfits, h⟩
    exact dnsBounds_of_nameFits hfits h

/-- A datagram whose name is one label, which leads out of the buffer. -/
def datagramLong : Bytes := List.replicate 12 0 ++ [255]

/-- The walk leaves the buffer. -/
theorem dns_bounds_fail : ¬ ∀ datagram behind host segs, datagram.length ≤ JRD_DNS_BUF_SIZE →
    DnsBounds (jrd_dns_buf datagram behind) host segs := by
  intro h
  -- The length of 255 leads from 12 to 268.
  have hwalk := (h datagramLong (fun _ => 0) (fun _ => 0) (fun _ => 0) (by decide)).walk
  refine absurd (hwalk 268 (Relation.ReflTransGen.single ?_)) (by decide)
  decide

end TestCore.Webs
