/-
The parameters of a response: `jrd_get_rsp_params` of `sock_clt.c` goes through a table of names and
takes each one's value from the result object.

A table is used again and again, and the flag of an entry whose name is missing has to be taken
back. The branch that does so has moved on to the next entry before it does: it is that one's flag
that is cleared, or the flag of the entry with the `NULL` name, and the own one stays as it was.

A string is decoded into the 64 units of `u.str`, however many there are in it. `RspEnd` says how a
call ends; a string that the decoder does not come back from is an end of its own.
-/
import TestCore.Webs.Params
import TestCore.Webs.Unicode
import TestCore.Lib.Strtol

set_option autoImplicit false

namespace TestCore.Webs

open TestCore.Lib

/-! ## Entries -/

/-- `json_type`. -/
inductive JsonType where
  | null | boolean | double | int | object | array | string
  deriving DecidableEq, Repr

def MAX_PARAM_LEN : ℕ := 128

/-- The units that `u.str` has room for. -/
def strRoom : ℕ := MAX_PARAM_LEN / 2

/-- `u`: the member that was written last. -/
inductive ParamValue where
  | str (units : List UInt16)
  | val_int (v : UInt64)
  deriving DecidableEq, Repr

structure jrd_param_info_type where
  name : Option Bytes
  got_value : Bool
  type : JsonType
  u : ParamValue
  deriving DecidableEq, Repr

/-- `json_object_get_int` of an integer: the nearest number of 32 bits. -/
def json_object_get_int (i : ℤ) : ℤ := clampInt 31 i

/-- What `jrd_convert_utf8_to_unicode` writes for a string; nothing if it does not return. -/
def decodeString (s : Bytes) : Option (List UInt16) :=
  if cstr s = [] then some [0]
  else
    (loopFor (jrd_convert_utf8_to_unicode.turn (s ++ [0])) ((cstr s).length + 1)
      (Utf8Loop.start (s ++ [0]))).map Utf8Loop.unicode_data

/-! ## The walk through the table -/

/-- How a call ends. -/
inductive RspEnd where
  | ret (v : ℤ)
  /-- The decoder does not come back. -/
  | hangs
  /-- More is written to `u.str` than there is room for. -/
  | overrun
  /-- No entry of the table has the name `NULL`. -/
  | fault
  deriving DecidableEq, Repr

structure RspRun where
  outcome : RspEnd
  rsp_params : List jrd_param_info_type
  /-- The strings that were given to the decoder. -/
  handed : List Bytes
  deriving DecidableEq, Repr

/-- An entry whose name was found: the end of the call, if it comes to that, and the entry. -/
def jrd_get_rsp_params.found (e : jrd_param_info_type) (object_one_param : Json) :
    Option RspEnd × jrd_param_info_type :=
  let e := { e with got_value := true }
  match e.type, object_one_param with
  | .string, .string s =>
      let cleared := List.replicate strRoom (0 : UInt16)
      match decodeString s with
      | none => (some .hangs, { e with u := .str cleared })
      | some units =>
          if strRoom < units.length then (some .overrun, { e with u := .str units })
          else (none, { e with u := .str (units ++ cleared.drop units.length) })
  | .int, .int i => (none, { e with u := .val_int (UInt64.ofInt (json_object_get_int i)) })
  | _, _ => (some (.ret (-1)), { e with got_value := false })

/-- The string that is given to the decoder for an entry. -/
def jrd_get_rsp_params.handedFor (e : jrd_param_info_type) (object_one_param : Json) : List Bytes :=
  match e.type, object_one_param with
  | .string, .string s => [s]
  | _, _ => []

/-- The loop, from an entry on. With `cleared` the branch for a missing name has been here before the
entry was looked at: `i ++; rsp_params[i].got_value = FALSE;`. -/
def jrd_get_rsp_params.walk (object_result : Json) (cleared : Bool) :
    List jrd_param_info_type → RspRun
  | [] => ⟨.fault, [], []⟩
  | e :: rest =>
      let e := if cleared then { e with got_value := false } else e
      match e.name with
      | none => ⟨.ret 0, e :: rest, []⟩
      | some name =>
          match json_object_object_get object_result name with
          | none =>
              let run := jrd_get_rsp_params.walk object_result true rest
              { run with rsp_params := e :: run.rsp_params }
          | some object_one_param =>
              let handed := jrd_get_rsp_params.handedFor e object_one_param
              match jrd_get_rsp_params.found e object_one_param with
              | (some outcome, e) => ⟨outcome, e :: rest, handed⟩
              | (none, e) =>
                  let run := jrd_get_rsp_params.walk object_result false rest
                  { run with rsp_params := e :: run.rsp_params, handed := handed ++ run.handed }

/-- The object whose members are taken: the member `result`, or the whole response. -/
def objectResult (object_rsp_data : Json) : Json :=
  (json_object_object_get object_rsp_data (bytes "result")).getD object_rsp_data

/-- `jrd_get_rsp_params`, with a table or with `NULL`. -/
def jrd_get_rsp_params (lib : JsonLib) (rsp_buf : Bytes)
    (rsp_params : Option (List jrd_param_info_type)) : RspRun :=
  match lib.json_tokener_parse rsp_buf with
  | none => ⟨.ret (-1), rsp_params.getD [], []⟩
  | some object_rsp_data =>
      match rsp_params with
      | none => ⟨.ret 0, [], []⟩
      | some rsp_params => jrd_get_rsp_params.walk (objectResult object_rsp_data) false rsp_params

/-- A table: the entries with names, and the one that ends it. -/
structure RspTable where
  entries : List jrd_param_info_type
  last : jrd_param_info_type
  named : ∀ e ∈ entries, e.name ≠ none
  ended : last.name = none

/-- The table in memory, with what is behind it. -/
def RspTable.params (t : RspTable) (behind : List jrd_param_info_type) : List jrd_param_info_type :=
  t.entries ++ t.last :: behind

/-! ## Decoding a string of the response -/

theorem decodeString_of_chars {s : Bytes} {units : List UInt16} (h : Chars (cstr s) units) :
    decodeString s = some (writtenUnits units) := by
  unfold decodeString writtenUnits
  by_cases hnil : cstr s = []
  · rw [hnil] at h
    rw [if_pos hnil, h.unique Chars.nil, if_pos rfl]
  · have hunits : units ≠ [] := by
      rintro rfl
      generalize cstr s = b at h hnil
      cases h
      exact hnil rfl
    obtain ⟨behind, hmem⟩ := exists_drop_zero (s ++ [0])
    rw [cstr_append_zero] at hmem
    have hrun := decode_chars h hmem (Nat.lt_succ_of_le h.length_le) []
    have hstart : Utf8Loop.start (s ++ [0]) = .at 0 (cstr s) [] := by
      unfold Utf8Loop.start Utf8Loop.at
      rw [cstr_append_zero]
    rw [if_neg hnil, if_neg hunits, hstart, hrun]
    rfl

/-- What is behind the terminator does not matter. -/
theorem decodeString_eq_some_iff (s behind : Bytes) (w : List UInt16) :
    decodeString s = some w ↔ ∃ n, jrd_convert_utf8_to_unicode (s ++ 0 :: behind) (n, w) := by
  have hstr := cstr_append_zero_cons s behind
  constructor
  · intro h
    have hreturns : ∃ r, jrd_convert_utf8_to_unicode (s ++ [0]) r := by
      unfold decodeString at h
      unfold jrd_convert_utf8_to_unicode
      rw [cstr_append_zero]
      by_cases hnil : cstr s = []
      · simp only [if_pos hnil]
        exact ⟨_, rfl⟩
      · simp only [if_neg hnil] at h ⊢
        obtain ⟨t, ht, -⟩ := Option.map_eq_some_iff.mp h
        exact ⟨_, t, ⟨_, ht⟩, rfl⟩
    obtain ⟨units, hunits⟩ := (decode_returns_iff _).mp hreturns
    rw [cstr_append_zero] at hunits
    rw [decodeString_of_chars hunits] at h
    rw [← Option.some.inj h]
    exact ⟨_, (decode_iff (hstr ▸ hunits) _).mpr rfl⟩
  · rintro ⟨n, hr⟩
    obtain ⟨units, hunits⟩ := (decode_returns_iff _).mp ⟨_, hr⟩
    have hwritten := (decode_iff hunits _).mp hr
    rw [decodeString_of_chars (hstr ▸ hunits), ← (Prod.mk.inj hwritten).2]

/-! ## One entry -/

/-- The value that is taken for an entry, if there is one. -/
def lookup (obj : Json) (e : jrd_param_info_type) : Option Json :=
  e.name.bind (json_object_object_get obj)

/-- The value's text, for an entry that a string is decoded for. -/
def stringFor (e : jrd_param_info_type) (v : Json) : Option Bytes :=
  match e.type, v with
  | .string, .string s => some s
  | _, _ => none

def intFor (e : jrd_param_info_type) (v : Json) : Option ℤ :=
  match e.type, v with
  | .int, .int i => some i
  | _, _ => none

theorem stringFor_congr {e e' : jrd_param_info_type} (h : e'.type = e.type) (v : Json) :
    stringFor e' v = stringFor e v := by
  unfold stringFor
  rw [h]

theorem intFor_congr {e e' : jrd_param_info_type} (h : e'.type = e.type) (v : Json) :
    intFor e' v = intFor e v := by
  unfold intFor
  rw [h]

/-- The walk goes on behind an entry with this value: a string of whole characters that fit, or a
number. -/
def Taken (e : jrd_param_info_type) (v : Json) : Prop :=
  (∃ s units, stringFor e v = some s ∧ Chars (cstr s) units ∧ units.length ≤ strRoom) ∨
    ∃ i, intFor e v = some i

/-- A string of whole characters that do not fit. -/
def TooLong (e : jrd_param_info_type) (v : Json) : Prop :=
  ∃ s units, stringFor e v = some s ∧ Chars (cstr s) units ∧ strRoom < units.length

/-- What `u.str` holds after a string. -/
def strOf (units : List UInt16) : List UInt16 :=
  writtenUnits units ++ (List.replicate strRoom 0).drop (writtenUnits units).length

theorem handedFor_eq (e : jrd_param_info_type) (v : Json) :
    jrd_get_rsp_params.handedFor e v = (stringFor e v).toList := by
  unfold jrd_get_rsp_params.handedFor stringFor
  split <;> rfl

theorem found_of_stringFor {e : jrd_param_info_type} {v : Json} {s : Bytes}
    (h : stringFor e v = some s) : e.type = .string ∧ v = .string s := by
  unfold stringFor at h
  split at h
  · rename_i htype
    cases h
    exact ⟨htype, rfl⟩
  · cases h

theorem found_of_intFor {e : jrd_param_info_type} {v : Json} {i : ℤ} (h : intFor e v = some i) :
    e.type = .int ∧ v = .int i := by
  unfold intFor at h
  split at h
  · rename_i htype
    cases h
    exact ⟨htype, rfl⟩
  · cases h

theorem found_chars {e : jrd_param_info_type} {v : Json} {s : Bytes} {units : List UInt16}
    (h : stringFor e v = some s) (hunits : Chars (cstr s) units) :
    jrd_get_rsp_params.found e v =
      if strRoom < units.length then
        (some .overrun, { e with got_value := true, u := .str (writtenUnits units) })
      else (none, { e with got_value := true, u := .str (strOf units) }) := by
  obtain ⟨htype, rfl⟩ := found_of_stringFor h
  have hroom : strRoom < (writtenUnits units).length ↔ strRoom < units.length := by
    unfold writtenUnits
    split_ifs with hnil
    · rw [hnil]
      decide
    · exact Iff.rfl
  unfold jrd_get_rsp_params.found
  simp only [htype, decodeString_of_chars hunits]
  rw [if_congr hroom rfl rfl]
  rfl

theorem found_int {e : jrd_param_info_type} {v : Json} {i : ℤ} (h : intFor e v = some i) :
    jrd_get_rsp_params.found e v =
      (none, { e with got_value := true, u := .val_int (UInt64.ofInt (json_object_get_int i)) }) := by
  obtain ⟨htype, rfl⟩ := found_of_intFor h
  unfold jrd_get_rsp_params.found
  simp only [htype]

/-- The other values end the call, though not with 0. -/
theorem found_not_taken {e : jrd_param_info_type} {v : Json} (h : ¬ Taken e v) :
    ∃ outcome, (jrd_get_rsp_params.found e v).1 = some outcome ∧ outcome ≠ .ret 0 ∧
      (outcome = .overrun ↔ TooLong e v) := by
  rcases hstr : stringFor e v with _ | s
  · have hshort : ¬ TooLong e v := by
      rintro ⟨s, units, hs, -⟩
      rw [hstr] at hs
      cases hs
    rcases hint : intFor e v with _ | i
    · refine ⟨.ret (-1), ?_, by decide, iff_of_false RspEnd.noConfusion hshort⟩
      unfold stringFor at hstr
      unfold intFor at hint
      unfold jrd_get_rsp_params.found
      dsimp only
      split
      · rename_i htype
        simp only [htype] at hstr
        cases hstr
      · rename_i htype
        simp only [htype] at hint
        cases hint
      · rfl
    · exact absurd (Or.inr ⟨i, hint⟩) h
  · by_cases hchars : ∃ units, Chars (cstr s) units
    · obtain ⟨units, hunits⟩ := hchars
      have hlong : strRoom < units.length := by
        by_contra hle
        exact h (Or.inl ⟨s, units, hstr, hunits, not_lt.mp hle⟩)
      rw [found_chars hstr hunits, if_pos hlong]
      exact ⟨.overrun, rfl, by decide, iff_of_true rfl ⟨s, units, hstr, hunits, hlong⟩⟩
    · have hnone : decodeString s = none := by
        rw [Option.eq_none_iff_forall_not_mem]
        intro w hw
        obtain ⟨n, hn⟩ := (decodeString_eq_some_iff s [] w).mp hw
        have hreturns := (decode_returns_iff _).mp ⟨_, hn⟩
        rw [cstr_append_zero] at hreturns
        exact hchars hreturns
      have hshort : ¬ TooLong e v := by
        rintro ⟨s', units, hs', hunits, -⟩
        rw [hstr] at hs'
        cases hs'
        exact hchars ⟨units, hunits⟩
      obtain ⟨htype, rfl⟩ := found_of_stringFor hstr
      refine ⟨.hangs, ?_, by decide, iff_of_false RspEnd.noConfusion hshort⟩
      unfold jrd_get_rsp_params.found
      simp only [htype, hnone]

theorem not_tooLong_of_taken {e : jrd_param_info_type} {v : Json} (h : Taken e v) : ¬ TooLong e v := by
  rintro ⟨s, units, hs, hunits, hlong⟩
  rcases h with ⟨s', units', hs', hunits', hle⟩ | ⟨i, hi⟩
  · rw [hs] at hs'
    cases hs'
    rw [hunits.unique hunits'] at hlong
    omega
  · obtain ⟨htype, -⟩ := found_of_stringFor hs
    obtain ⟨htype', -⟩ := found_of_intFor hi
    rw [htype] at htype'
    cases htype'

/-! ## The walk -/

/-- The walk goes on behind an entry: its name is missing, or its value is taken. -/
def Passes (obj : Json) (e : jrd_param_info_type) : Prop := ∀ v, lookup obj e = some v → Taken e v

/-- An entry after the walk has passed it. -/
def passed (obj : Json) (cleared : Bool) (e : jrd_param_info_type) : jrd_param_info_type :=
  let e := if cleared then { e with got_value := false } else e
  match lookup obj e with
  | none => e
  | some v => (jrd_get_rsp_params.found e v).2

/-- Entries after the walk has passed them. -/
def passedAll (obj : Json) : (cleared : Bool) → List jrd_param_info_type → List jrd_param_info_type
  | _, [] => []
  | cleared, e :: rest => passed obj cleared e :: passedAll obj (lookup obj e).isNone rest

/-- Whether the flag of the next entry is cleared before the walk gets there. -/
def clearedAfter (obj : Json) (cleared : Bool) (pre : List jrd_param_info_type) : Bool :=
  (pre.getLast?.map fun e => (lookup obj e).isNone).getD cleared

/-- The strings that are given to the decoder for entries that are passed. -/
def handedAll (obj : Json) (pre : List jrd_param_info_type) : List Bytes :=
  pre.filterMap fun e => (lookup obj e).bind (stringFor e)

theorem lookup_of_name {e : jrd_param_info_type} {name : Bytes} (h : e.name = some name) (obj : Json) :
    lookup obj e = json_object_object_get obj name := by
  unfold lookup
  rw [h, Option.bind_some]

theorem found_of_taken {e : jrd_param_info_type} {v : Json} (h : Taken e v) :
    jrd_get_rsp_params.found e v = (none, (jrd_get_rsp_params.found e v).2) := by
  rcases h with ⟨s, units, hs, hunits, hle⟩ | ⟨i, hi⟩
  · rw [found_chars hs hunits, if_neg (not_lt.mpr hle)]
  · rw [found_int hi]

theorem walk_last {e : jrd_param_info_type} (hname : e.name = none) (obj : Json) (cleared : Bool)
    (rest : List jrd_param_info_type) :
    jrd_get_rsp_params.walk obj cleared (e :: rest)
      = ⟨.ret 0, (if cleared then { e with got_value := false } else e) :: rest, []⟩ := by
  cases cleared <;> simp [jrd_get_rsp_params.walk, hname]

theorem walk_missing {obj : Json} {e : jrd_param_info_type} (hname : e.name ≠ none)
    (h : lookup obj e = none) (rest : List jrd_param_info_type) :
    jrd_get_rsp_params.walk obj false (e :: rest) =
      let run := jrd_get_rsp_params.walk obj true rest
      { run with rsp_params := e :: run.rsp_params } := by
  obtain ⟨name, hname⟩ := Option.ne_none_iff_exists'.mp hname
  rw [lookup_of_name hname] at h
  simp only [jrd_get_rsp_params.walk, Bool.false_eq_true, if_false, hname, h]

theorem walk_found {obj : Json} {e : jrd_param_info_type} {v : Json} (h : lookup obj e = some v)
    (rest : List jrd_param_info_type) :
    jrd_get_rsp_params.walk obj false (e :: rest) =
      let handed := jrd_get_rsp_params.handedFor e v
      match jrd_get_rsp_params.found e v with
      | (some outcome, e) => ⟨outcome, e :: rest, handed⟩
      | (none, e) =>
          let run := jrd_get_rsp_params.walk obj false rest
          { run with rsp_params := e :: run.rsp_params, handed := handed ++ run.handed } := by
  obtain ⟨name, hname, hget⟩ := Option.bind_eq_some_iff.mp h
  simp only [jrd_get_rsp_params.walk, Bool.false_eq_true, if_false, hname, hget]

/-- **Passing an entry.** -/
theorem walk_cons {obj : Json} {e : jrd_param_info_type} (hname : e.name ≠ none) (h : Passes obj e)
    (cleared : Bool) (rest : List jrd_param_info_type) :
    jrd_get_rsp_params.walk obj cleared (e :: rest) =
      let run := jrd_get_rsp_params.walk obj (lookup obj e).isNone rest
      ⟨run.outcome, passed obj cleared e :: run.rsp_params, handedAll obj [e] ++ run.handed⟩ := by
  have hkept : ∀ e : jrd_param_info_type, e.name ≠ none → Passes obj e →
      jrd_get_rsp_params.walk obj false (e :: rest) =
        let run := jrd_get_rsp_params.walk obj (lookup obj e).isNone rest
        ⟨run.outcome, passed obj false e :: run.rsp_params, handedAll obj [e] ++ run.handed⟩ := by
    intro e hname h
    rcases hv : lookup obj e with _ | v
    · rw [walk_missing hname hv]
      simp [passed, handedAll, hv]
    · rw [walk_found hv, found_of_taken (h v hv), handedFor_eq]
      rcases hstr : stringFor e v with _ | s
      · simp [passed, handedAll, hv, hstr]
      · simp [passed, handedAll, hv, hstr]
  cases cleared with
  | false => exact hkept e hname h
  | true => exact hkept { e with got_value := false } hname h

theorem clearedAfter_cons (obj : Json) (cleared : Bool) (e : jrd_param_info_type)
    (pre : List jrd_param_info_type) :
    clearedAfter obj (lookup obj e).isNone pre = clearedAfter obj cleared (e :: pre) := by
  unfold clearedAfter
  rcases pre with _ | ⟨p, pre⟩
  · rfl
  · rw [List.getLast?_cons_cons]
    rcases hp : (p :: pre).getLast? with _ | x
    · simp at hp
    · rfl

/-- **Passing entries.** -/
theorem walk_append {obj : Json} {pre : List jrd_param_info_type} (hname : ∀ e ∈ pre, e.name ≠ none)
    (h : ∀ e ∈ pre, Passes obj e) (cleared : Bool) (rest : List jrd_param_info_type) :
    jrd_get_rsp_params.walk obj cleared (pre ++ rest) =
      let run := jrd_get_rsp_params.walk obj (clearedAfter obj cleared pre) rest
      ⟨run.outcome, passedAll obj cleared pre ++ run.rsp_params, handedAll obj pre ++ run.handed⟩ := by
  induction pre generalizing cleared with
  | nil => rfl
  | cons e pre ih =>
      obtain ⟨hne, hnames⟩ := List.forall_mem_cons.mp hname
      obtain ⟨he, hpre⟩ := List.forall_mem_cons.mp h
      have hhanded : handedAll obj (e :: pre) = handedAll obj [e] ++ handedAll obj pre :=
        @List.filterMap_append _ _ [e] pre _
      rw [List.cons_append, walk_cons hne he, ih hnames hpre,
        clearedAfter_cons obj cleared, hhanded]
      simp only [passedAll, List.cons_append, List.append_assoc]

/-- The first entry that is not passed, if there is one. -/
theorem all_or_first {α : Type*} (P : α → Prop) (l : List α) :
    (∀ a ∈ l, P a) ∨ ∃ pre a post, l = pre ++ a :: post ∧ (∀ x ∈ pre, P x) ∧ ¬ P a := by
  induction l with
  | nil => exact Or.inl fun a ha => absurd ha List.not_mem_nil
  | cons a l ih =>
      by_cases ha : P a
      · rcases ih with hall | ⟨pre, b, post, rfl, hpre, hb⟩
        · exact Or.inl (List.forall_mem_cons.mpr ⟨ha, hall⟩)
        · exact Or.inr ⟨a :: pre, b, post, rfl, List.forall_mem_cons.mpr ⟨ha, hpre⟩, hb⟩
      · exact Or.inr ⟨[], a, l, rfl, fun x hx => absurd hx List.not_mem_nil, ha⟩

/-- A walk that passes all entries gets to the end of the table. -/
theorem walk_all {obj : Json} {t : RspTable} (h : ∀ e ∈ t.entries, Passes obj e)
    (behind : List jrd_param_info_type) :
    jrd_get_rsp_params.walk obj false (t.params behind) =
      ⟨.ret 0, passedAll obj false t.entries ++
        (if clearedAfter obj false t.entries then { t.last with got_value := false } else t.last)
          :: behind, handedAll obj t.entries⟩ := by
  unfold RspTable.params
  rw [walk_append t.named h, walk_last t.ended]
  simp only [List.append_nil]

/-- A walk ends at an entry that it does not pass. -/
theorem walk_stop {obj : Json} {e : jrd_param_info_type} (h : ¬ Passes obj e) (cleared : Bool)
    (post : List jrd_param_info_type) :
    let run := jrd_get_rsp_params.walk obj cleared (e :: post)
    run.outcome ≠ .ret 0 ∧ (run.outcome = .overrun ↔ ∃ v, lookup obj e = some v ∧ TooLong e v) ∧
      run.handed = ((lookup obj e).bind (stringFor e)).toList := by
  have hkept : ∀ e : jrd_param_info_type, ¬ Passes obj e →
      let run := jrd_get_rsp_params.walk obj false (e :: post)
      run.outcome ≠ .ret 0 ∧ (run.outcome = .overrun ↔ ∃ v, lookup obj e = some v ∧ TooLong e v) ∧
        run.handed = ((lookup obj e).bind (stringFor e)).toList := by
    intro e h
    obtain ⟨v, hv, htaken⟩ : ∃ v, lookup obj e = some v ∧ ¬ Taken e v := by
      unfold Passes at h
      push Not at h
      exact h
    obtain ⟨outcome, hfound, hne, hlong⟩ := found_not_taken htaken
    have hpair : jrd_get_rsp_params.found e v = (some outcome, (jrd_get_rsp_params.found e v).2) := by
      rw [← hfound]
    dsimp only
    rw [walk_found hv, hv, Option.bind_some, handedFor_eq, hpair]
    refine ⟨hne, hlong.trans ⟨fun hv' => ⟨v, rfl, hv'⟩, ?_⟩, rfl⟩
    rintro ⟨v', hv', hlong'⟩
    cases hv'
    exact hlong'
  cases cleared with
  | false => exact hkept e h
  | true => exact hkept { e with got_value := false } h

/-- A walk up to the first entry that it does not pass. -/
theorem walk_first {obj : Json} {t : RspTable} {pre post : List jrd_param_info_type}
    {a : jrd_param_info_type} (hsplit : t.entries = pre ++ a :: post) (hpre : ∀ x ∈ pre, Passes obj x)
    (ha : ¬ Passes obj a) (behind : List jrd_param_info_type) :
    let run := jrd_get_rsp_params.walk obj false (t.params behind)
    run.outcome ≠ .ret 0 ∧ (run.outcome = .overrun ↔ ∃ v, lookup obj a = some v ∧ TooLong a v) ∧
      run.handed = handedAll obj pre ++ ((lookup obj a).bind (stringFor a)).toList := by
  have hname : ∀ x ∈ pre, x.name ≠ none := by
    intro x hx
    apply t.named
    rw [hsplit]
    exact List.mem_append_left _ hx
  have hparams : t.params behind = pre ++ a :: (post ++ t.last :: behind) := by
    unfold RspTable.params
    rw [hsplit, List.append_assoc, List.cons_append]
  obtain ⟨hne, hlong, hhanded⟩ :=
    walk_stop ha (clearedAfter obj false pre) (post ++ t.last :: behind)
  rw [hparams, walk_append hname hpre]
  dsimp only at hne hlong hhanded ⊢
  rw [hhanded]
  exact ⟨hne, hlong, rfl⟩

/-! ## What is handed to the decoder -/

/-- An entry that a walk gets to: all before it are passed. -/
def Reached (obj : Json) (t : RspTable) (e : jrd_param_info_type) : Prop :=
  ∃ pre post, t.entries = pre ++ e :: post ∧ ∀ x ∈ pre, Passes obj x

theorem reached_of_all {obj : Json} {t : RspTable} (h : ∀ e ∈ t.entries, Passes obj e)
    (e : jrd_param_info_type) : Reached obj t e ↔ e ∈ t.entries := by
  constructor
  · rintro ⟨pre, post, hsplit, -⟩
    rw [hsplit]
    exact List.mem_append_right _ List.mem_cons_self
  · intro he
    obtain ⟨pre, post, hsplit⟩ := List.append_of_mem he
    refine ⟨pre, post, hsplit, fun x hx => h x ?_⟩
    rw [hsplit]
    exact List.mem_append_left _ hx

theorem reached_of_first {obj : Json} {t : RspTable} {pre post : List jrd_param_info_type}
    {a : jrd_param_info_type} (hsplit : t.entries = pre ++ a :: post) (hpre : ∀ x ∈ pre, Passes obj x)
    (ha : ¬ Passes obj a) (e : jrd_param_info_type) : Reached obj t e ↔ e ∈ pre ∨ e = a := by
  constructor
  · rintro ⟨pre', post', hsplit', hpre'⟩
    rw [hsplit] at hsplit'
    rcases List.append_eq_append_iff.mp hsplit' with ⟨m, hm, htail⟩ | ⟨m, hm, htail⟩
    · rcases m with _ | ⟨x, m⟩
      · exact Or.inr (List.cons.inj htail).1.symm
      · rw [List.cons_append] at htail
        refine absurd (hpre' a ?_) ha
        rw [hm, (List.cons.inj htail).1]
        exact List.mem_append_right _ List.mem_cons_self
    · rcases m with _ | ⟨x, m⟩
      · exact Or.inr (List.cons.inj htail).1
      · rw [List.cons_append] at htail
        left
        rw [hm, (List.cons.inj htail).1]
        exact List.mem_append_right _ List.mem_cons_self
  · rintro (he | rfl)
    · obtain ⟨pre₁, pre₂, rfl⟩ := List.append_of_mem he
      refine ⟨pre₁, pre₂ ++ a :: post, ?_, fun x hx => hpre x (List.mem_append_left _ hx)⟩
      rw [hsplit, List.append_assoc, List.cons_append]
    · exact ⟨pre, post, hsplit, hpre⟩

theorem mem_handedAll {obj : Json} {pre : List jrd_param_info_type} {s : Bytes} :
    s ∈ handedAll obj pre ↔ ∃ e ∈ pre, ∃ v, lookup obj e = some v ∧ stringFor e v = some s := by
  unfold handedAll
  rw [List.mem_filterMap]
  exact exists_congr fun e => and_congr_right fun _ => Option.bind_eq_some_iff

/-- The strings that are handed over are those of the entries that the walk gets to. -/
theorem mem_handed_iff (obj : Json) (t : RspTable) (behind : List jrd_param_info_type) (s : Bytes) :
    s ∈ (jrd_get_rsp_params.walk obj false (t.params behind)).handed ↔
      ∃ e v, Reached obj t e ∧ lookup obj e = some v ∧ stringFor e v = some s := by
  rcases all_or_first (Passes obj) t.entries with hall | ⟨pre, a, post, hsplit, hpre, ha⟩
  · rw [walk_all hall, mem_handedAll]
    constructor
    · rintro ⟨e, he, v, hv⟩
      exact ⟨e, v, (reached_of_all hall e).mpr he, hv⟩
    · rintro ⟨e, v, he, hv⟩
      exact ⟨e, (reached_of_all hall e).mp he, v, hv⟩
  · rw [(walk_first hsplit hpre ha behind).2.2, List.mem_append, mem_handedAll, Option.mem_toList,
      Option.bind_eq_some_iff]
    constructor
    · rintro (⟨e, he, v, hv⟩ | ⟨v, hv⟩)
      · exact ⟨e, v, (reached_of_first hsplit hpre ha e).mpr (Or.inl he), hv⟩
      · exact ⟨a, v, (reached_of_first hsplit hpre ha a).mpr (Or.inr rfl), hv⟩
    · rintro ⟨e, v, he, hv⟩
      rcases (reached_of_first hsplit hpre ha e).mp he with he | rfl
      · exact Or.inl ⟨e, he, v, hv⟩
      · exact Or.inr ⟨v, hv⟩

theorem utf8Safe_handed_iff (s behind : Bytes) :
    Utf8Safe (s ++ 0 :: behind) strRoom ↔ ∃ units, Chars (cstr s) units ∧ units.length ≤ strRoom := by
  have hroom : 1 ≤ strRoom := by decide
  rw [utf8Safe_iff, cstr_append_zero_cons]
  exact exists_congr fun units => and_congr_right fun _ =>
    ⟨fun h => (le_max_right _ _).trans h, fun h => max_le hroom h⟩

/-- **What the decoder does with any string, and with those of a response.** It is right for the
strings of whole characters that are not empty, and there is room for 64 characters. -/
theorem decoder_safe_iff (mem : Bytes) (lib : JsonLib) (rsp_buf : Bytes) (t : RspTable)
    (behind : List jrd_param_info_type) (above : Bytes → Bytes) :
    (Utf8Safe mem (cstr mem).length ↔ cstr mem ≠ [] ∧ ∃ units, Chars (cstr mem) units) ∧
    ((∀ s ∈ (jrd_get_rsp_params lib rsp_buf (some (t.params behind))).handed,
        Utf8Safe (s ++ 0 :: above s) strRoom) ↔
      ∀ response, lib.json_tokener_parse rsp_buf = some response →
        ∀ e v s, Reached (objectResult response) t e → lookup (objectResult response) e = some v →
          stringFor e v = some s → ∃ units, Chars (cstr s) units ∧ units.length ≤ strRoom) := by
  constructor
  · rw [utf8Safe_iff]
    constructor
    · rintro ⟨units, hunits, hroom⟩
      refine ⟨?_, units, hunits⟩
      intro hnil
      rw [hnil, List.length_nil] at hroom
      omega
    · rintro ⟨hne, units, hunits⟩
      have hpos := List.length_pos_of_ne_nil hne
      exact ⟨units, hunits, max_le hpos hunits.length_le⟩
  · rcases hparse : lib.json_tokener_parse rsp_buf with _ | response
    · have hnone : (jrd_get_rsp_params lib rsp_buf (some (t.params behind))).handed = [] := by
        unfold jrd_get_rsp_params
        rw [hparse]
      rw [hnone]
      exact iff_of_true (fun s hs => absurd hs List.not_mem_nil)
        (fun response h => absurd h.symm (Option.some_ne_none response))
    · have hrun : jrd_get_rsp_params lib rsp_buf (some (t.params behind))
          = jrd_get_rsp_params.walk (objectResult response) false (t.params behind) := by
        unfold jrd_get_rsp_params
        rw [hparse]
      rw [hrun]
      constructor
      · rintro hsafe response' hresponse e v s he hv hs
        cases hresponse
        have hmem := (mem_handed_iff _ t behind s).mpr ⟨e, v, he, hv, hs⟩
        exact (utf8Safe_handed_iff s _).mp (hsafe s hmem)
      · intro hall s hs
        obtain ⟨e, v, he, hv, hstr⟩ := (mem_handed_iff _ t behind s).mp hs
        exact (utf8Safe_handed_iff s _).mpr (hall response rfl e v s he hv hstr)

/-- The byte 0x80, which no character starts with. -/
theorem stray_byte_not_safe :
    ¬ ((∀ mem : Bytes, 0 ∈ mem → Utf8Safe mem (cstr mem).length) ∧
      ∀ (lib : JsonLib) (rsp_buf : Bytes) (t : RspTable) (behind : List jrd_param_info_type)
        (above : Bytes → Bytes),
        ∀ s ∈ (jrd_get_rsp_params lib rsp_buf (some (t.params behind))).handed,
          Utf8Safe (s ++ 0 :: above s) strRoom) := by
  rintro ⟨hall, -⟩
  obtain ⟨units, hunits, -⟩ := (utf8Safe_iff _ _).mp (hall [0x80, 0] (by decide))
  have hstr : cstr [0x80, 0] = [0x80] := by decide
  rw [hstr] at hunits
  generalize hb : [(0x80 : UInt8)] = b at hunits
  cases hunits with
  | nil => cases hb
  | cons hne _ _ =>
      rw [← hb] at hne
      exact hne (by decide)

/-! ## What is reported -/

/-- A member of an object, be it `null`. -/
def memberOf : Json → Bytes → Option Json
  | .object members, key => (members.find? fun m => m.1 = key).map Prod.snd
  | _, _ => none

/-- The value that a response has for an entry's name. -/
def reported (obj : Json) (e : jrd_param_info_type) : Option Json := e.name.bind (memberOf obj)

/-- The entry holds the value: the text that `u.str` holds, up to a zero unit, or the number, in 64
bits. -/
def Holds (e : jrd_param_info_type) (v : Json) : Prop :=
  (∃ s units, stringFor e v = some s ∧ e.u = .str units ∧ utf8 (beforeZero units) = s) ∨
    ∃ i w, intFor e v = some i ∧ e.u = .val_int w ∧ -2 ^ 63 ≤ i ∧ i < 2 ^ 63 ∧ (w.toNat : ℤ) = i % 2 ^ 64

/-- What an entry has to say about a response. -/
structure EntryRight (obj : Json) (e e' : jrd_param_info_type) : Prop where
  name : e'.name = e.name
  type : e'.type = e.type
  flag : e'.got_value = true ↔ (reported obj e).isSome
  value : ∀ v, reported obj e = some v → Holds e' v

/-- What a table has to say about a response after a call that returns 0, which has to keep within
the table. -/
def TableRight (obj : Json) (t : RspTable) (behind : List jrd_param_info_type) (run : RspRun) : Prop :=
  run.outcome ≠ .overrun ∧
    (run.outcome = .ret 0 → ∃ entries, run.rsp_params = entries ++ t.last :: behind ∧
      List.Forall₂ (EntryRight obj) t.entries entries)

/-- A value that an entry can hold: a text of at most 64 units, or a number of 32 bits. -/
def Fits (e : jrd_param_info_type) (v : Json) : Prop :=
  (∃ s units, stringFor e v = some s ∧ s = utf8 units ∧ 0 ∉ units ∧ units.length ≤ strRoom) ∨
    ∃ i, intFor e v = some i ∧ -2 ^ 31 ≤ i ∧ i < 2 ^ 31

/-- The name before the next entry is missing. -/
def MissingBefore (obj : Json) (pre : List jrd_param_info_type) : Prop :=
  ∃ p, pre.getLast? = some p ∧ lookup obj p = none

/-- The tables and responses that the call is right for. No string that is reached has more than 64
characters, and if all entries are passed, then: a missing name's entry has no flag set, or comes
behind another; the flag at the end is not set, or the last name is there; and the values fit. -/
structure RspOk (obj : Json) (t : RspTable) : Prop where
  room : ∀ e v, Reached obj t e → lookup obj e = some v → ¬ TooLong e v
  missing : (∀ e ∈ t.entries, Passes obj e) → ∀ pre e post, t.entries = pre ++ e :: post →
    lookup obj e = none → e.got_value = false ∨ MissingBefore obj pre
  ended : (∀ e ∈ t.entries, Passes obj e) → t.last.got_value = false ∨ ¬ MissingBefore obj t.entries
  values : (∀ e ∈ t.entries, Passes obj e) → ∀ e ∈ t.entries, ∀ v, reported obj e = some v → Fits e v

/-! ### One entry -/

/-- To json-c a member that is `null` is one that is not there. -/
theorem lookup_eq_some_iff {obj : Json} {e : jrd_param_info_type} {v : Json} :
    lookup obj e = some v ↔ reported obj e = some v ∧ v ≠ .null := by
  unfold lookup reported
  rcases e.name with _ | name
  · simp
  · rw [Option.bind_some, Option.bind_some]
    unfold json_object_object_get memberOf
    cases obj with
    | object members =>
        dsimp only
        generalize members.find? (fun m => decide (m.1 = name)) = found
        rcases found with _ | ⟨k, j⟩
        · simp
        · cases j with
          | null =>
              simp
              exact Eq.symm
          | _ =>
              simp
              rintro rfl
              exact Json.noConfusion
    | _ => simp

/-- What is left in `u.str` for a text is read back as the text. -/
theorem beforeZero_strOf (units : List UInt16) : beforeZero (strOf units) = beforeZero units := by
  have hzeros : ∀ n, beforeZero (List.replicate n 0) = [] := by
    intro n
    cases n <;> rfl
  have happend : ∀ n, beforeZero (units ++ List.replicate n 0) = beforeZero units := by
    intro n
    induction units with
    | nil => exact hzeros n
    | cons u units ih =>
        unfold beforeZero at ih ⊢
        rw [List.cons_append, List.takeWhile_cons, List.takeWhile_cons, ih]
  unfold strOf writtenUnits
  by_cases hnil : units = []
  · rw [if_pos hnil, hnil]
    rfl
  · rw [if_neg hnil, List.drop_replicate, happend]

/-- A string of whole characters is held if it is UTF-8, without a zero byte. -/
theorem holds_str_iff {s : Bytes} {units : List UInt16} (hunits : Chars (cstr s) units)
    (hle : units.length ≤ strRoom) :
    utf8 (beforeZero (strOf units)) = s ↔
      ∃ units, s = utf8 units ∧ 0 ∉ units ∧ units.length ≤ strRoom := by
  rw [beforeZero_strOf]
  constructor
  · rintro rfl
    exact ⟨beforeZero units, rfl, not_mem_beforeZero units, (List.takeWhile_sublist _).length_le.trans hle⟩
  · rintro ⟨units', rfl, hzero, -⟩
    rw [cstr_of_nulFree (utf8_nulFree hzero)] at hunits
    rw [hunits.unique (chars_utf8 units'), beforeZero_of_not_mem hzero]

/-- A number is held if 32 bits are enough for it. -/
theorem holds_int_iff (i : ℤ) :
    (-2 ^ 63 ≤ i ∧ i < 2 ^ 63 ∧ ((UInt64.ofInt (json_object_get_int i)).toNat : ℤ) = i % 2 ^ 64) ↔
      -2 ^ 31 ≤ i ∧ i < 2 ^ 31 := by
  have hnat : ((UInt64.ofInt (json_object_get_int i)).toNat : ℤ) = json_object_get_int i % 2 ^ 64 := by
    unfold UInt64.ofInt
    rw [UInt64.toNat_ofNat']
    omega
  rw [hnat]
  unfold json_object_get_int clampInt
  omega

/-- The value of an entry that is taken is held if it fits. -/
theorem holds_found_iff {e : jrd_param_info_type} {v : Json} (h : Taken e v) :
    Holds (jrd_get_rsp_params.found e v).2 v ↔ Fits e v := by
  rcases h with ⟨s, units, hs, hunits, hle⟩ | ⟨i, hi⟩
  · have hint : intFor e v = none := by
      obtain ⟨htype, rfl⟩ := found_of_stringFor hs
      unfold intFor
      simp only [htype]
    rw [found_chars hs hunits, if_neg (not_lt.mpr hle)]
    constructor
    · rintro (⟨s', units', hs', hu, htext⟩ | ⟨i, w, hi, -⟩)
      · cases hs.symm.trans hs'
        cases hu
        obtain ⟨units', htext', hzero, hle'⟩ := (holds_str_iff hunits hle).mp htext
        exact Or.inl ⟨s, units', hs, htext', hzero, hle'⟩
      · exact absurd (hi.symm.trans hint) (Option.some_ne_none i)
    · rintro (⟨s', units', hs', htext⟩ | ⟨i, hi, -⟩)
      · cases hs.symm.trans hs'
        exact Or.inl ⟨s, strOf units, hs, rfl, (holds_str_iff hunits hle).mpr ⟨units', htext⟩⟩
      · exact absurd (hi.symm.trans hint) (Option.some_ne_none i)
  · have hstr : stringFor e v = none := by
      obtain ⟨htype, rfl⟩ := found_of_intFor hi
      unfold stringFor
      simp only [htype]
    rw [found_int hi]
    constructor
    · rintro (⟨s, units, hs, -⟩ | ⟨i', w, hi', hu, hvalue⟩)
      · exact absurd (hs.symm.trans hstr) (Option.some_ne_none s)
      · cases hi.symm.trans hi'
        cases hu
        exact Or.inr ⟨i, hi, (holds_int_iff i).mp hvalue⟩
    · rintro (⟨s, units, hs, -⟩ | ⟨i', hi', hvalue⟩)
      · exact absurd (hs.symm.trans hstr) (Option.some_ne_none s)
      · cases hi.symm.trans hi'
        exact Or.inr ⟨i, _, hi, rfl, (holds_int_iff i).mpr hvalue⟩

theorem found_entry {e : jrd_param_info_type} {v : Json} (h : Taken e v) :
    (jrd_get_rsp_params.found e v).2.name = e.name ∧
      (jrd_get_rsp_params.found e v).2.type = e.type ∧
      (jrd_get_rsp_params.found e v).2.got_value = true := by
  rcases h with ⟨s, units, hs, hunits, hle⟩ | ⟨i, hi⟩
  · rw [found_chars hs hunits, if_neg (not_lt.mpr hle)]
    exact ⟨rfl, rfl, rfl⟩
  · rw [found_int hi]
    exact ⟨rfl, rfl, rfl⟩

/-- No entry holds `null`. -/
theorem not_fits_null (e : jrd_param_info_type) : ¬ Fits e .null ∧ ¬ Holds e .null := by
  have hstr : ∀ s, stringFor e .null ≠ some s := by
    intro s hs
    obtain ⟨-, hv⟩ := found_of_stringFor hs
    cases hv
  have hint : ∀ i, intFor e .null ≠ some i := by
    intro i hi
    obtain ⟨-, hv⟩ := found_of_intFor hi
    cases hv
  constructor
  · rintro (⟨s, units, hs, -⟩ | ⟨i, hi, -⟩)
    · exact hstr s hs
    · exact hint i hi
  · rintro (⟨s, units, hs, -⟩ | ⟨i, w, hi, -⟩)
    · exact hstr s hs
    · exact hint i hi

/-- An entry whose name is missing: only the flag may have changed. -/
theorem passed_missing {obj : Json} {e : jrd_param_info_type} (h : lookup obj e = none)
    (cleared : Bool) :
    passed obj cleared e = { e with got_value := e.got_value && !cleared } := by
  have hlookup : lookup obj { e with got_value := false } = none := h
  cases cleared with
  | false => simp [passed, h]
  | true => simp [passed, hlookup]

theorem passed_found {obj : Json} {e : jrd_param_info_type} {v : Json} (h : lookup obj e = some v)
    (cleared : Bool) : ∃ e', e'.name = e.name ∧ e'.type = e.type ∧
      passed obj cleared e = (jrd_get_rsp_params.found e' v).2 := by
  have hlookup : lookup obj { e with got_value := false } = some v := h
  cases cleared with
  | false => exact ⟨e, rfl, rfl, by simp [passed, h]⟩
  | true => exact ⟨{ e with got_value := false }, rfl, rfl, by simp [passed, hlookup]⟩

/-- **What an entry that is passed has to say.** -/
theorem entryRight_passed_iff {obj : Json} {e : jrd_param_info_type} (h : Passes obj e)
    (cleared : Bool) :
    EntryRight obj e (passed obj cleared e) ↔
      (lookup obj e = none → e.got_value = false ∨ cleared = true) ∧
        ∀ v, reported obj e = some v → Fits e v := by
  rcases hv : lookup obj e with _ | v
  · rw [passed_missing hv]
    rcases hr : reported obj e with _ | v
    · constructor
      · intro hright
        have hflag := hright.flag
        rw [hr] at hflag
        refine ⟨fun _ => ?_, fun v hv' => absurd hv'.symm (Option.some_ne_none v)⟩
        simpa [imp_iff_not_or] using hflag
      · rintro ⟨hflag, -⟩
        refine ⟨rfl, rfl, ?_, fun v hv' => absurd (hr.symm.trans hv').symm (Option.some_ne_none v)⟩
        rw [hr]
        simpa [imp_iff_not_or] using hflag rfl
    · -- The member is `null`.
      have hnull : v = .null := by
        by_contra hne
        have hsome := lookup_eq_some_iff.mpr ⟨hr, hne⟩
        exact absurd (hsome.symm.trans hv) (Option.some_ne_none v)
      subst hnull
      refine iff_of_false (fun hright => ?_) (fun hall => (not_fits_null e).1 (hall.2 _ rfl))
      exact (not_fits_null _).2 (hright.value _ hr)
  · have hr := (lookup_eq_some_iff.mp hv).1
    obtain ⟨e', hname, htype, hpassed⟩ := passed_found hv cleared
    have htaken : Taken e' v := by
      have he := h v hv
      unfold Taken at he ⊢
      rwa [stringFor_congr htype, intFor_congr htype]
    have hfits : Holds (passed obj cleared e) v ↔ Fits e v := by
      rw [hpassed, holds_found_iff htaken]
      unfold Fits
      rw [stringFor_congr htype, intFor_congr htype]
    obtain ⟨hname', htype', hflag⟩ := found_entry htaken
    rw [← hpassed] at hname' htype' hflag
    constructor
    · intro hright
      refine ⟨fun hnone => absurd hnone (Option.some_ne_none v), fun v' hv' => ?_⟩
      cases hr.symm.trans hv'
      exact hfits.mp (hright.value v hr)
    · rintro ⟨-, hall⟩
      refine ⟨hname'.trans hname, htype'.trans htype, ?_, fun v' hv' => ?_⟩
      · rw [hr]
        exact iff_of_true hflag rfl
      · cases hr.symm.trans hv'
        exact hfits.mpr (hall v hr)

/-! ### The table -/

theorem clearedAfter_iff (obj : Json) (pre : List jrd_param_info_type) :
    clearedAfter obj false pre = true ↔ MissingBefore obj pre := by
  unfold clearedAfter MissingBefore
  rcases pre.getLast? with _ | p
  · simp
  · simp

theorem passedAll_length (obj : Json) (cleared : Bool) (l : List jrd_param_info_type) :
    (passedAll obj cleared l).length = l.length := by
  induction l generalizing cleared with
  | nil => rfl
  | cons e l ih => rw [passedAll, List.length_cons, List.length_cons, ih]

/-- Each entry is right after what was before it. -/
theorem entriesRight_iff (obj : Json) (cleared : Bool) (l : List jrd_param_info_type) :
    List.Forall₂ (EntryRight obj) l (passedAll obj cleared l) ↔
      ∀ pre e post, l = pre ++ e :: post →
        EntryRight obj e (passed obj (clearedAfter obj cleared pre) e) := by
  induction l generalizing cleared with
  | nil =>
      refine iff_of_true List.Forall₂.nil ?_
      intro pre e post h
      cases pre <;> cases h
  | cons a l ih =>
      rw [passedAll, List.forall₂_cons, ih]
      constructor
      · rintro ⟨ha, hl⟩ pre e post h
        rcases pre with _ | ⟨p, pre⟩
        · cases h
          exact ha
        · cases h
          rw [← clearedAfter_cons]
          exact hl pre e post rfl
      · intro hall
        refine ⟨hall [] a l rfl, fun pre e post h => ?_⟩
        rw [clearedAfter_cons obj cleared]
        exact hall (a :: pre) e post (by rw [h, List.cons_append])

/-- The flag at the end is cleared behind a missing name. -/
theorem last_kept_iff (obj : Json) (t : RspTable) :
    (if clearedAfter obj false t.entries then { t.last with got_value := false } else t.last) = t.last ↔
      t.last.got_value = false ∨ ¬ MissingBefore obj t.entries := by
  rw [← clearedAfter_iff]
  by_cases hc : clearedAfter obj false t.entries = true
  · rw [if_pos hc]
    constructor
    · intro h
      exact Or.inl (congrArg jrd_param_info_type.got_value h).symm
    · rintro (h | h)
      · rw [← h]
      · exact absurd hc h
  · rw [if_neg hc]
    exact iff_of_true rfl (Or.inr hc)

/-- **A table after a walk that passes all entries.** -/
theorem tableRight_all_iff {obj : Json} {t : RspTable} (hall : ∀ e ∈ t.entries, Passes obj e)
    (behind : List jrd_param_info_type) :
    TableRight obj t behind (jrd_get_rsp_params.walk obj false (t.params behind)) ↔
      List.Forall₂ (EntryRight obj) t.entries (passedAll obj false t.entries) ∧
        (t.last.got_value = false ∨ ¬ MissingBefore obj t.entries) := by
  rw [walk_all hall, ← last_kept_iff]
  constructor
  · rintro ⟨-, hright⟩
    obtain ⟨entries, happend, hentries⟩ := hright rfl
    have hlen : (passedAll obj false t.entries).length = entries.length := by
      rw [passedAll_length, hentries.length_eq]
    obtain ⟨hsame, hend⟩ := List.append_inj happend hlen
    rw [hsame]
    exact ⟨hentries, (List.cons.inj hend).1⟩
  · rintro ⟨hentries, hlast⟩
    refine ⟨RspEnd.noConfusion, fun _ => ⟨_, ?_, hentries⟩⟩
    rw [hlast]

/-- **A table after a walk.** -/
theorem tableRight_walk_iff (obj : Json) (t : RspTable) (behind : List jrd_param_info_type) :
    TableRight obj t behind (jrd_get_rsp_params.walk obj false (t.params behind)) ↔ RspOk obj t := by
  rcases all_or_first (Passes obj) t.entries with hall | ⟨pre, a, post, hsplit, hpre, ha⟩
  · have hmem : ∀ {pre e post}, t.entries = pre ++ e :: post → e ∈ t.entries := by
      intro pre e post h
      rw [h]
      exact List.mem_append_right _ List.mem_cons_self
    rw [tableRight_all_iff hall, entriesRight_iff]
    constructor
    · rintro ⟨hentries, hlast⟩
      have hone := fun pre e post h =>
        (entryRight_passed_iff (hall e (hmem h)) (clearedAfter obj false pre)).mp (hentries pre e post h)
      refine ⟨?_, ?_, fun _ => hlast, ?_⟩
      · intro e v he hv
        exact not_tooLong_of_taken (hall e ((reached_of_all hall e).mp he) v hv)
      · intro _ pre e post h hnone
        rw [← clearedAfter_iff]
        exact (hone pre e post h).1 hnone
      · intro _ e he
        obtain ⟨pre, post, hsplit⟩ := List.append_of_mem he
        exact (hone pre e post hsplit).2
    · intro hok
      refine ⟨fun pre e post h => ?_, hok.ended hall⟩
      rw [entryRight_passed_iff (hall e (hmem h)), clearedAfter_iff]
      exact ⟨hok.missing hall pre e post h, hok.values hall e (hmem h)⟩
  · obtain ⟨hne, hlong, -⟩ := walk_first hsplit hpre ha behind
    have hstops : ¬ ∀ e ∈ t.entries, Passes obj e := by
      intro hall
      apply ha
      apply hall
      rw [hsplit]
      exact List.mem_append_right _ List.mem_cons_self
    constructor
    · rintro ⟨hroom, -⟩
      refine ⟨?_, fun h => absurd h hstops, fun h => absurd h hstops, fun h => absurd h hstops⟩
      intro e v he hv htoo
      rcases (reached_of_first hsplit hpre ha e).mp he with hmem | rfl
      · exact not_tooLong_of_taken (hpre e hmem v hv) htoo
      · exact hroom (hlong.mpr ⟨v, hv, htoo⟩)
    · intro hok
      refine ⟨fun hover => ?_, fun hret => absurd hret hne⟩
      obtain ⟨v, hv, htoo⟩ := hlong.mp hover
      exact hok.room a v ((reached_of_first hsplit hpre ha a).mpr (Or.inr rfl)) hv htoo

/-- **What the call says about a response.** It is right for the tables and responses with
`RspOk`. -/
theorem table_right_iff {lib : JsonLib} {rsp_buf : Bytes} {members : List (Bytes × Json)}
    (h : lib.json_tokener_parse rsp_buf = some (.object members)) (t : RspTable)
    (behind : List jrd_param_info_type) :
    TableRight (objectResult (.object members)) t behind
        (jrd_get_rsp_params lib rsp_buf (some (t.params behind))) ↔
      RspOk (objectResult (.object members)) t := by
  unfold jrd_get_rsp_params
  rw [h]
  exact tableRight_walk_iff _ t behind

/-- A library that gives the same response for every text. -/
def constLib (response : Json) : JsonLib := ⟨fun _ => some response, fun _ => []⟩

/-- A table for one number, which was there in an earlier response. -/
def staleTable : RspTable where
  entries := [⟨some (bytes "Status"), true, .int, .val_int 7⟩]
  last := ⟨none, false, .null, .str []⟩
  named := by decide
  ended := rfl

/-- A table for three numbers. -/
def levelTable : RspTable where
  entries := [⟨some (bytes "Level"), false, .int, .val_int 0⟩, ⟨some (bytes "Status"), false, .int, .val_int 7⟩,
    ⟨some (bytes "Mode"), true, .int, .val_int 7⟩]
  last := ⟨none, false, .null, .str []⟩
  named := by decide
  ended := rfl

/-- A response with the first number and without the others. -/
def levelResponse : List (Bytes × Json) := [(bytes "Level", .int 5), (bytes "Name", .string (bytes "ap"))]

theorem table_right_level :
    TableRight (objectResult (.object levelResponse)) levelTable []
        (jrd_get_rsp_params (constLib (.object levelResponse))
          (bytes "\x7b\"Level\":5,\"Name\":\"ap\"\x7d") (some (levelTable.params []))) ↔
      RspOk (objectResult (.object levelResponse)) levelTable :=
  @table_right_iff (constLib (.object levelResponse)) _ levelResponse rfl levelTable []

/-- The flag of a number that is missing stays as it was. -/
theorem stale_flag_kept :
    ¬ ∀ (lib : JsonLib) (rsp_buf : Bytes) (members : List (Bytes × Json)),
      lib.json_tokener_parse rsp_buf = some (.object members) →
        ∀ (t : RspTable) (behind : List jrd_param_info_type),
          TableRight (objectResult (.object members)) t behind
            (jrd_get_rsp_params lib rsp_buf (some (t.params behind))) := by
  intro hall
  obtain ⟨-, hright⟩ := hall (constLib (.object [])) (bytes "\x7b\x7d") [] rfl staleTable []
  obtain ⟨entries, hparams, hentries⟩ := hright rfl
  cases hentries with
  | cons hentry htail =>
      cases htail
      have hflag := hentry.flag
      rw [← (List.cons.inj hparams).1] at hflag
      exact absurd (hflag.mp rfl) (by decide)

end TestCore.Webs
