/-
The channels of an answer (`ad_data_handle`).

A payload is a list of records of three bytes, a channel and its value. Each record is checked and
stored at once, so that a record that is refused leaves those before it in the table. And the check
lets the first number behind the channels pass, which no entry of the table has: the answer is taken
and nothing comes of the record (`ad_data_handle_all_or_nothing_iff`).

What a run over the records leaves in the table is said for the table as a whole: every entry holds
the value of the last record for it, if there is one (`updated`).
-/
import TestCore.Uart.Frame

set_option autoImplicit false

namespace TestCore.Uart

open TestCore.Lib

/-! ## Records -/

structure AdRecord where
  id : UInt8
  lo : UInt8
  hi : UInt8
  deriving DecidableEq, Repr

/-- The value of a record, lowest byte first. -/
def AdRecord.value (r : AdRecord) : UInt16 := r.hi.toUInt16 <<< 8 ||| r.lo.toUInt16

/-- The payload. -/
def adBytes (rs : List AdRecord) : Bytes := rs.flatMap fun r => [r.id, r.lo, r.hi]

/-- The value of the last record for a channel. -/
def lastValue (id : UInt8) : List AdRecord → Option UInt16
  | [] => none
  | r :: rs => (lastValue id rs).or (if r.id = id then some r.value else none)

/-- An entry of the table, with the value of the last record for it. -/
def updated (rs : List AdRecord) (a : AdDate) : AdDate :=
  { a with channel_val := (lastValue a.ad_channel_id rs).getD a.channel_val }

/-- The answer is taken with all of its records, which are all for channels, or with none. -/
def AllOrNothing (ad_data : List AdDate) (rs : List AdRecord) (more : Bytes) : Prop :=
  ad_data_handle ad_data (adBytes rs ++ more) rs.length =
    if ∀ r ∈ rs, r.id.toNat < MAX_AD_CHANNEL_ID then (ad_data.map (updated rs), .done)
    else (ad_data, .date_invail)

/-- The records that are stored, up to the first one that is refused. -/
def accepted (rs : List AdRecord) : List AdRecord :=
  rs.takeWhile fun r => r.id.toNat ≤ MAX_AD_CHANNEL_ID

/-! ## One record -/

/-- The entries of the table are where they were at the start. -/
def Table (table : List AdDate) : Prop := table.map AdDate.ad_channel_id = ad_data.map AdDate.ad_channel_id

theorem Table.index_lt {table : List AdDate} (h : Table table) {i : ℕ} {a : AdDate}
    (ha : table[i]? = some a) (hid : a.ad_channel_id.toNat ≤ MAX_AD_CHANNEL_ID) :
    i < MAX_AD_CHANNEL_ID := by
  have hentry : (ad_data.map AdDate.ad_channel_id)[i]? = some a.ad_channel_id := by
    rw [← h, List.getElem?_map, ha]
    rfl
  have hnine : i < 9 := (List.getElem?_eq_some_iff.mp hentry).1
  unfold MAX_AD_CHANNEL_ID at hid ⊢
  by_contra hge
  have height : i = 8 := by omega
  rw [height] at hentry
  have hlast : a.ad_channel_id = 0xff := (Option.some.inj hentry).symm
  rw [hlast] at hid
  exact absurd hid (by decide)

/-- The inner loop stores to the entry of the channel, and to no other. -/
theorem adStore_eq {table : List AdDate} (h : Table table) {r : AdRecord}
    (hid : r.id.toNat ≤ MAX_AD_CHANNEL_ID) :
    adStore table r.id r.lo r.hi
      = table.map fun a => if a.ad_channel_id = r.id then { a with channel_val := r.value } else a := by
  apply List.ext_getElem?
  intro i
  unfold adStore
  rw [List.getElem?_mapIdx, List.getElem?_map]
  rcases ha : table[i]? with _ | a
  · rfl
  · rw [Option.map_some, Option.map_some]
    by_cases heq : a.ad_channel_id = r.id
    · have hlt := h.index_lt ha (by rw [heq]; exact hid)
      rw [if_pos ⟨hlt, heq⟩, if_pos heq]
      rfl
    · rw [if_neg (fun hc => heq hc.2), if_neg heq]

theorem Table.adStore {table : List AdDate} (h : Table table) {r : AdRecord}
    (hid : r.id.toNat ≤ MAX_AD_CHANNEL_ID) : Table (adStore table r.id r.lo r.hi) := by
  unfold Table
  rw [adStore_eq h hid, List.map_map, ← h]
  apply List.map_congr_left
  intro a _
  show (if a.ad_channel_id = r.id then _ else a).ad_channel_id = a.ad_channel_id
  split_ifs
  · rfl
  · rfl

/-- A record, and those behind it. -/
theorem adStore_updated {table : List AdDate} (h : Table table) {r : AdRecord}
    (hid : r.id.toNat ≤ MAX_AD_CHANNEL_ID) (rs : List AdRecord) :
    (adStore table r.id r.lo r.hi).map (updated rs) = table.map (updated (r :: rs)) := by
  rw [adStore_eq h hid, List.map_map]
  apply List.map_congr_left
  intro a _
  have hlast : lastValue a.ad_channel_id (r :: rs)
      = (lastValue a.ad_channel_id rs).or (if r.id = a.ad_channel_id then some r.value else none) := rfl
  show updated rs (if a.ad_channel_id = r.id then _ else a) = updated (r :: rs) a
  unfold updated
  rw [hlast]
  by_cases heq : a.ad_channel_id = r.id
  · rw [if_pos heq, if_pos heq.symm]
    dsimp only
    rcases lastValue a.ad_channel_id rs with _ | v
    · rfl
    · rfl
  · rw [if_neg heq, if_neg (Ne.symm heq), Option.or_none]

/-! ## All records -/

/-- **What a run over the records does**: those before the first one that is refused are stored. -/
theorem ad_data_handle_eq {table : List AdDate} (h : Table table) (rs : List AdRecord) (more : Bytes) :
    ad_data_handle table (adBytes rs ++ more) rs.length
      = (table.map (updated (accepted rs)),
          if ∀ r ∈ rs, r.id.toNat ≤ MAX_AD_CHANNEL_ID then .done else .date_invail) := by
  induction rs generalizing table with
  | nil =>
      have hsame : table.map (updated []) = table := List.map_id table
      show (table, RxStatus.done) = _
      rw [show accepted [] = [] from rfl, hsame, if_pos (by simp)]
  | cons r rs ih =>
      have hbytes : adBytes (r :: rs) ++ more = r.id :: r.lo :: r.hi :: (adBytes rs ++ more) := rfl
      rw [List.length_cons, hbytes]
      unfold ad_data_handle
      dsimp only
      by_cases hid : r.id.toNat ≤ MAX_AD_CHANNEL_ID
      · have haccepted : accepted (r :: rs) = r :: accepted rs := by
          unfold accepted
          rw [List.takeWhile_cons_of_pos (by simpa using hid)]
        have hall : (∀ r' ∈ r :: rs, r'.id.toNat ≤ MAX_AD_CHANNEL_ID) ↔
            ∀ r' ∈ rs, r'.id.toNat ≤ MAX_AD_CHANNEL_ID := by
          rw [List.forall_mem_cons]
          exact and_iff_right hid
        show (if MAX_AD_CHANNEL_ID < r.id.toNat then _ else
          ad_data_handle (adStore table r.id r.lo r.hi) (adBytes rs ++ more) rs.length) = _
        rw [if_neg (not_lt.mpr hid), ih (h.adStore hid), adStore_updated h hid, haccepted]
        simp only [hall]
      · have haccepted : accepted (r :: rs) = [] := by
          unfold accepted
          rw [List.takeWhile_cons_of_neg (by simpa using hid)]
        have hsame : table.map (updated []) = table := List.map_id table
        show (if MAX_AD_CHANNEL_ID < r.id.toNat then _ else _) = _
        rw [if_pos (not_le.mp hid), haccepted, hsame,
          if_neg (fun hall => hid (hall r List.mem_cons_self))]

theorem map_updated_eq_iff (table : List AdDate) (rs : List AdRecord) :
    table.map (updated rs) = table ↔
      ∀ a ∈ table, ∀ v, lastValue a.ad_channel_id rs = some v → v = a.channel_val := by
  have hone : ∀ a : AdDate, updated rs a = a ↔
      ∀ v, lastValue a.ad_channel_id rs = some v → v = a.channel_val := by
    intro a
    unfold updated
    rcases hlast : lastValue a.ad_channel_id rs with _ | v
    · exact iff_of_true rfl (fun v hv => absurd hv (Option.some_ne_none v).symm)
    · constructor
      · intro h v' hv'
        rw [← Option.some.inj hv']
        exact congrArg AdDate.channel_val h
      · intro h
        rw [Option.getD_some, h v rfl]
  simp only [← hone]
  conv_lhs => rhs; rw [← List.map_id table]
  rw [List.map_inj_left]
  exact Iff.rfl

/-- **All or nothing.** An answer is taken with all of its records, or with none, exactly if all its
channels are there, or if some channel is above 8 and what was stored before it changes nothing. -/
theorem ad_data_handle_all_or_nothing_iff (table : List AdDate) (htable : Table table)
    (rs : List AdRecord) (more : Bytes) :
    AllOrNothing table rs more ↔
      (∀ r ∈ rs, r.id.toNat < MAX_AD_CHANNEL_ID) ∨
        (∃ r ∈ rs, MAX_AD_CHANNEL_ID < r.id.toNat) ∧
          ∀ a ∈ table, ∀ v, lastValue a.ad_channel_id (accepted rs) = some v → v = a.channel_val := by
  unfold AllOrNothing
  rw [ad_data_handle_eq htable]
  by_cases hall : ∀ r ∈ rs, r.id.toNat < MAX_AD_CHANNEL_ID
  · have hle : ∀ r ∈ rs, r.id.toNat ≤ MAX_AD_CHANNEL_ID := fun r hr => (hall r hr).le
    have haccepted : accepted rs = rs := by
      apply List.takeWhile_eq_self_iff.mpr
      intro r hr
      exact decide_eq_true (hle r hr)
    rw [if_pos hle, if_pos hall, haccepted]
    exact iff_of_true rfl (Or.inl hall)
  · rw [if_neg hall, or_iff_right hall]
    by_cases hle : ∀ r ∈ rs, r.id.toNat ≤ MAX_AD_CHANNEL_ID
    · -- The channel 8: the answer is taken.
      rw [if_pos hle]
      constructor
      · intro h
        cases (Prod.mk.inj h).2
      · rintro ⟨⟨r, hr, hlt⟩, -⟩
        exact absurd (hle r hr) (not_le.mpr hlt)
    · rw [if_neg hle, Prod.mk.injEq, map_updated_eq_iff]
      push Not at hle
      constructor
      · rintro ⟨hsame, -⟩
        exact ⟨hle, hsame⟩
      · rintro ⟨-, hsame⟩
        exact ⟨hsame, rfl⟩

/-- A record for channel 2, and one for a channel that is not there. The value is stored, and the
answer is refused. -/
theorem ad_data_half_updated :
    ¬ ∀ (table : List AdDate) (rs : List AdRecord) (more : Bytes), Table table →
      AllOrNothing table rs more := by
  intro hall
  have h := hall ad_data [⟨2, 0x23, 0x01⟩, ⟨9, 0, 0⟩] [] rfl
  exact absurd h (by unfold AllOrNothing; decide)

/-- The channel 8, alone: the answer is taken. -/
example : ad_data_handle ad_data (adBytes [⟨8, 0, 0⟩]) 1 = (ad_data, .done) := by decide

/-- Two records for channel 2: the last one counts. -/
theorem ad_data_all_updated :
    Table ad_data ∧ AllOrNothing ad_data [⟨2, 0x23, 0x01⟩, ⟨7, 1, 0⟩, ⟨2, 0x24, 0x01⟩] [] := by
  have htable : Table ad_data := rfl
  exact ⟨htable, (ad_data_handle_all_or_nothing_iff ad_data htable _ []).mpr (Or.inl (by decide))⟩

end TestCore.Uart
