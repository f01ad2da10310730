/-
The request configuration: `jrd_oem_parser_req_conf_file` of `form.c` enters the actions of each
record of a file under the record's request, with a mask of 128 bits for the parameter ids of each.

The loop over the ids takes the next one only behind an id that was put to the mask. Behind an id
above 128 it goes on with the same one, and the id 128 has its bit in a fifth word, where there are
four. A `null` among the ids or the actions ends the list, as json-c has the same pointer for it as
for what is behind the end. And a record without actions ends not only itself but the file.

The records of a file are those of `fileRecords`. What the parser gets of a record is something
else where it has slashes in it, a zero byte, or more than 767 bytes: these come in several calls
(`confTexts_eq`).

json-c is a parameter (`JsonLib`). To ask for an element of something that is no array is not
allowed, and ends the call with `ConfEnd.fault`. `malloc` does not fail.
-/
import TestCore.Webs.Params
import TestCore.Webs.ConfRecords
import TestCore.Lib.BitWords
import TestCore.Lib.Loop
import TestCore.Lib.Strtol

set_option autoImplicit false

namespace TestCore.Webs

open TestCore.Lib

/-! ## Actions -/

def JRD_OEM_SUB_MASK_SIZE : ℕ := 4

def MODULE_INVALID : ℤ := -1

structure web_act_info_type where
  module_id : ℤ
  act_id : UInt16
  sub_mask : List UInt32
  deriving DecidableEq, Repr

/-- The entry behind the last action. -/
def web_act_info_type.invalid : web_act_info_type :=
  ⟨MODULE_INVALID, 0, List.replicate JRD_OEM_SUB_MASK_SIZE 0⟩

/-- `JRD_ADD_PRAM_ID_TO_MASK`; nothing if there is no such word. -/
def JRD_ADD_PRAM_ID_TO_MASK (val : List UInt32) (id : ℤ) : Option (List UInt32) :=
  if 0 ≤ id ∧ id < 32 * val.length then some (setWordsBit val id.toNat) else none

/-! ## json-c -/

/-- The pointer for a value. -/
def pointer : Json → Option Json
  | .null => none
  | j => some j

/-- The elements of what has to be an array. -/
def arrayOf : Option Json → Option (List Json)
  | some (.array elems) => some elems
  | _ => none

def json_object_array_get_idx (elems : List Json) (idx : ℕ) : Option Json := elems[idx]?.bind pointer

/-! ## The parser -/

/-- How a call ends. -/
inductive ConfEnd where
  | ret (v : ℤ)
  /-- `return;`, with no value. -/
  | returned
  /-- The loop over the ids does not end. -/
  | hangs
  /-- A word of the mask is written that is not there. -/
  | outside
  /-- An element of something that is no array is asked for. -/
  | fault
  deriving DecidableEq, Repr

/-- The variables of the loop over the ids. -/
structure IdLoop where
  param_id_index : ℕ
  sub_mask : List UInt32
  deriving DecidableEq, Repr

/-- `param_id`. -/
def paramId (lib : JsonLib) (param_id_obj : Json) : ℤ := atoi (json_object_get_string lib param_id_obj)

/-- One turn of the loop over the ids. It ends with the mask, or by writing outside of it. -/
def idLoop.turn (lib : JsonLib) (param_list : List Json) (s : IdLoop) :
    Option (List UInt32) ⊕ IdLoop :=
  match json_object_array_get_idx param_list s.param_id_index with
  | none => .inl (some s.sub_mask)
  | some param_id_obj =>
      -- `continue` gets to the condition of the loop, which holds.
      if 128 < paramId lib param_id_obj then .inr s
      else
        match JRD_ADD_PRAM_ID_TO_MASK s.sub_mask (paramId lib param_id_obj) with
        | none => .inl none
        | some sub_mask => .inr ⟨s.param_id_index + 1, sub_mask⟩

/-- The loop over the ids; nothing if it does not end. -/
def idLoop (lib : JsonLib) (param_list : List Json) : Option (Option (List UInt32)) :=
  loopFor (idLoop.turn lib param_list) (param_list.length + 1)
    ⟨0, List.replicate JRD_OEM_SUB_MASK_SIZE 0⟩

/-- `module_id` and `act_id`, if there are strings for both. -/
def actIds (lib : JsonLib) (act_info_obj : Json) : Option (ℤ × ℤ) := do
  let module_str ← (json_object_object_get act_info_obj (bytes "module")).map (json_object_get_string lib)
  let act_str ← (json_object_object_get act_info_obj (bytes "act")).map (json_object_get_string lib)
  some (atoi module_str, atoi act_str)

/-- The second loop over the actions of a record, from `act_index` on. -/
def actLoop (lib : JsonLib) : List Json → Except ConfEnd (List web_act_info_type)
  | [] => .ok []
  | act_info_obj :: rest =>
      match pointer act_info_obj with
      | none => .ok []
      | some act_info_obj =>
          match actIds lib act_info_obj with
          | none => .ok []
          | some (module_id, act_id) =>
              match arrayOf (json_object_object_get act_info_obj (bytes "id")) with
              | none => .error .fault
              | some param_list =>
                  match idLoop lib param_list with
                  | none => .error .hangs
                  | some none => .error .outside
                  | some (some sub_mask) => do
                      let entries ← actLoop lib rest
                      .ok (⟨module_id, UInt16.ofInt act_id, sub_mask⟩ :: entries)

/-- What is done with a record: it is passed over, its request is entered, or the call ends. -/
def jrd_oem_parser_req_conf_file.record (lib : JsonLib) (json_data : Bytes) :
    Except ConfEnd (Option (Bytes × List web_act_info_type)) :=
  match lib.json_tokener_parse json_data with
  | none => .ok none
  | some object_data =>
      match (json_object_object_get object_data (bytes "req")).map (json_object_get_string lib) with
      | none => .ok none
      | some req_str =>
          match arrayOf (json_object_object_get object_data (bytes "info")) with
          | none => .error .fault
          | some info_list =>
              -- The first loop over the actions counts them up to a `NULL`.
              if info_list.head?.bind pointer = none then .error .returned
              else do
                let entries ← actLoop lib info_list
                .ok (some (req_str, entries ++ [.invalid]))

/-- The file, and what has been entered, in order. -/
structure ConfLoop where
  fp : FILE
  symtab : List (Bytes × List web_act_info_type)

/-- One turn of the loop over the file. -/
def jrd_oem_parser_req_conf_file.turn (lib : JsonLib) (s : ConfLoop) :
    (ConfEnd × List (Bytes × List web_act_info_type)) ⊕ ConfLoop :=
  if s.fp.feof then .inl (.ret 0, s.symtab)
  else
    let read := jrd_file_get_one_json s.fp 768
    if 0 < read.rtn then
      match jrd_oem_parser_req_conf_file.record lib (cstr read.buffer) with
      | .error outcome => .inl (outcome, s.symtab)
      | .ok none => .inr ⟨read.fp, s.symtab⟩
      | .ok (some entry) => .inr ⟨read.fp, s.symtab ++ [entry]⟩
    else .inr ⟨read.fp, s.symtab⟩

/-- `jrd_oem_parser_req_conf_file`: how the call ends, and what has been entered; nothing if the loop
over the file does not end. -/
def jrd_oem_parser_req_conf_file (lib : JsonLib) (file : Option Bytes)
    (symtab : List (Bytes × List web_act_info_type)) :
    Option (ConfEnd × List (Bytes × List web_act_info_type)) :=
  match file with
  | none => some (.ret (-1), symtab)
  | some content =>
      loopFor (jrd_oem_parser_req_conf_file.turn lib) (content.length + 2) ⟨⟨content, false⟩, symtab⟩

/-! ## The ids of an action -/

/-- The ids before the first `null`. -/
def headIds (lib : JsonLib) (param_list : List Json) : List ℤ :=
  (param_list.takeWhile fun v => (pointer v).isSome).map (paramId lib)

/-- The ids that are listed. -/
def allIds (lib : JsonLib) (param_list : List Json) : List ℤ :=
  (param_list.filter fun v => (pointer v).isSome).map (paramId lib)

/-- An id that has a bit. -/
def IdFits (id : ℤ) : Prop := 0 ≤ id ∧ id ≤ 127

theorem pointer_of_isSome {v : Json} (h : (pointer v).isSome = true) : pointer v = some v := by
  cases v with
  | null => cases h
  | _ => rfl

section IdLoop

variable {lib : JsonLib} {param_list : List Json}

theorem get_idx_append {pre rest : List Json} {v : Json} (h : param_list = pre ++ v :: rest) :
    json_object_array_get_idx param_list pre.length = pointer v := by
  unfold json_object_array_get_idx
  rw [h, List.getElem?_append_right le_rfl, Nat.sub_self, List.getElem?_cons_zero, Option.bind_some]

theorem get_idx_end {idx : ℕ} (h : param_list.length ≤ idx) :
    json_object_array_get_idx param_list idx = none := by
  unfold json_object_array_get_idx
  rw [List.getElem?_eq_none h, Option.bind_none]

/-- A turn leads on to the next id, or back to where it started. -/
theorem idLoop_turn_measure (s t : IdLoop) (h : idLoop.turn lib param_list s = .inr t) :
    t = s ∨ param_list.length - t.param_id_index < param_list.length - s.param_id_index := by
  have hlt : s.param_id_index < param_list.length := by
    by_contra hge
    unfold idLoop.turn at h
    rw [get_idx_end (not_lt.mp hge)] at h
    cases h
  unfold idLoop.turn at h
  split at h
  · cases h
  · split_ifs at h
    · left
      cases h
      rfl
    · split at h
      · cases h
      · right
        cases h
        dsimp only
        omega

/-- The number of turns that are tried is enough. -/
theorem idLoop_eq_some_iff (r : Option (List UInt32)) :
    idLoop lib param_list = some r ↔
      EndsWith (idLoop.turn lib param_list) ⟨0, List.replicate JRD_OEM_SUB_MASK_SIZE 0⟩ r :=
  (endsWith_iff_loopFor idLoop_turn_measure (Nat.lt_succ_self _) r).symm

/-- An id above 128 is never left. -/
theorem idLoop_stuck {s : IdLoop} {v : Json}
    (hget : json_object_array_get_idx param_list s.param_id_index = some v) (h : 128 < paramId lib v) :
    idLoop.turn lib param_list s = .inr s := by
  unfold idLoop.turn
  rw [hget]
  dsimp only
  rw [if_pos h]

theorem idLoop_next {s : IdLoop} {v : Json}
    (hget : json_object_array_get_idx param_list s.param_id_index = some v)
    (hlen : s.sub_mask.length = JRD_OEM_SUB_MASK_SIZE) (h : IdFits (paramId lib v)) :
    idLoop.turn lib param_list s
      = .inr ⟨s.param_id_index + 1, setWordsBit s.sub_mask (paramId lib v).toNat⟩ := by
  obtain ⟨hlo, hhi⟩ := h
  have hroom : 0 ≤ paramId lib v ∧ paramId lib v < 32 * s.sub_mask.length := by
    rw [hlen]
    unfold JRD_OEM_SUB_MASK_SIZE
    omega
  unfold idLoop.turn JRD_ADD_PRAM_ID_TO_MASK
  rw [hget]
  dsimp only
  rw [if_neg (by omega), if_pos hroom]

theorem idLoop_outside {s : IdLoop} {v : Json}
    (hget : json_object_array_get_idx param_list s.param_id_index = some v)
    (hlen : s.sub_mask.length = JRD_OEM_SUB_MASK_SIZE) (h : ¬ IdFits (paramId lib v))
    (hle : paramId lib v ≤ 128) : idLoop.turn lib param_list s = .inl none := by
  have hroom : ¬ (0 ≤ paramId lib v ∧ paramId lib v < 32 * s.sub_mask.length) := by
    rw [hlen]
    unfold IdFits at h
    unfold JRD_OEM_SUB_MASK_SIZE
    omega
  unfold idLoop.turn JRD_ADD_PRAM_ID_TO_MASK
  rw [hget]
  dsimp only
  rw [if_neg (by omega), if_neg hroom]

theorem headIds_cons (lib : JsonLib) {v : Json} (h : pointer v = some v) (rest : List Json) :
    headIds lib (v :: rest) = paramId lib v :: headIds lib rest := by
  unfold headIds
  rw [List.takeWhile_cons_of_pos (by rw [h]; rfl), List.map_cons]

theorem headIds_null (lib : JsonLib) {v : Json} (h : pointer v = none) (rest : List Json) :
    headIds lib (v :: rest) = [] := by
  unfold headIds
  rw [List.takeWhile_cons_of_neg (by rw [h]; exact Bool.false_ne_true), List.map_nil]

/-- **A run of the loop** over ids that fit puts their bits to the mask. -/
theorem idLoop_fits (pre : List Json) {rest : List Json} (h : param_list = pre ++ rest) {mask : List UInt32}
    (hlen : mask.length = JRD_OEM_SUB_MASK_SIZE) (hfits : ∀ id ∈ headIds lib rest, IdFits id) :
    ∃ m, EndsWith (idLoop.turn lib param_list) ⟨pre.length, mask⟩ (some m) ∧
      m.length = JRD_OEM_SUB_MASK_SIZE ∧
      ∀ j : ℕ, wordsBit m j = true ↔ wordsBit mask j = true ∨ (j : ℤ) ∈ headIds lib rest := by
  have hend : json_object_array_get_idx param_list pre.length = none →
      EndsWith (idLoop.turn lib param_list) ⟨pre.length, mask⟩ (some mask) := by
    intro hget
    have hturn : idLoop.turn lib param_list ⟨pre.length, mask⟩ = .inl (some mask) := by
      unfold idLoop.turn
      rw [hget]
    exact (endsWith_inl hturn).mpr rfl
  induction rest generalizing pre mask with
  | nil =>
      have hget : json_object_array_get_idx param_list pre.length = none := get_idx_end (by rw [h]; simp)
      exact ⟨mask, hend hget, hlen, fun j => by simp [headIds]⟩
  | cons v rest ih =>
      have hget := get_idx_append h
      rcases hv : pointer v with _ | v'
      · rw [headIds_null lib hv]
        exact ⟨mask, hend (hget.trans hv), hlen, fun j => by simp⟩
      · have hv' := pointer_of_isSome (v := v) (by rw [hv]; rfl)
        rw [headIds_cons lib hv'] at hfits ⊢
        obtain ⟨hid, hrest⟩ := List.forall_mem_cons.mp hfits
        have hturn := idLoop_next (s := ⟨pre.length, mask⟩) (hget.trans hv') hlen hid
        have hsplit : param_list = (pre ++ [v]) ++ rest := by
          rw [h, List.append_assoc, List.singleton_append]
        obtain ⟨m, hm, hmlen, hbits⟩ := ih _ hsplit ((setWordsBit_length mask _).trans hlen) hrest
          (fun hnone => (endsWith_inl (by
            unfold idLoop.turn
            rw [hnone])).mpr rfl)
        rw [List.length_append, List.length_singleton] at hm
        refine ⟨m, (endsWith_inr hturn).mpr hm, hmlen, fun j => ?_⟩
        have hroom : (paramId lib v).toNat < 32 * mask.length := by
          rw [hlen]
          unfold IdFits at hid
          unfold JRD_OEM_SUB_MASK_SIZE
          omega
        have heq : (paramId lib v).toNat = j ↔ (j : ℤ) = paramId lib v := by
          unfold IdFits at hid
          omega
        rw [hbits, wordsBit_setWordsBit hroom, Bool.or_eq_true, decide_eq_true_iff, heq, List.mem_cons,
          or_assoc]

/-- A run that ends with a mask has come by ids that fit only. -/
theorem fits_of_idLoop (pre : List Json) {rest : List Json} (h : param_list = pre ++ rest)
    {mask m : List UInt32}
    (hlen : mask.length = JRD_OEM_SUB_MASK_SIZE)
    (hends : EndsWith (idLoop.turn lib param_list) ⟨pre.length, mask⟩ (some m)) :
    ∀ id ∈ headIds lib rest, IdFits id := by
  induction rest generalizing pre mask with
  | nil => exact fun id hid => absurd hid List.not_mem_nil
  | cons v rest ih =>
      rcases hv : pointer v with _ | v'
      · rw [headIds_null lib hv]
        exact fun id hid => absurd hid List.not_mem_nil
      · have hv' := pointer_of_isSome (v := v) (by rw [hv]; rfl)
        have hget := (get_idx_append h).trans hv'
        rw [headIds_cons lib hv', List.forall_mem_cons]
        by_cases hid : IdFits (paramId lib v)
        · have hturn := idLoop_next (s := ⟨pre.length, mask⟩) hget hlen hid
          have hsplit : param_list = (pre ++ [v]) ++ rest := by
            rw [h, List.append_assoc, List.singleton_append]
          have hrest : EndsWith (idLoop.turn lib param_list)
              ⟨(pre ++ [v]).length, setWordsBit mask (paramId lib v).toNat⟩ (some m) := by
            rw [List.length_append, List.length_singleton]
            exact (endsWith_inr hturn).mp hends
          exact ⟨hid, ih _ hsplit (by rw [setWordsBit_length, hlen]) hrest⟩
        · by_cases hbig : 128 < paramId lib v
          · exact absurd ⟨_, hends⟩ (not_ends_of_back (idLoop_stuck (s := ⟨pre.length, mask⟩) hget hbig))
          · have hturn := idLoop_outside (s := ⟨pre.length, mask⟩) hget hlen hid (not_lt.mp hbig)
            exact absurd ((endsWith_inl hturn).mp hends) (Option.some_ne_none m)

/-- The mask has the ids that are listed, and no others. -/
def MaskRight (lib : JsonLib) (param_list : List Json) (mask : List UInt32) : Prop :=
  mask.length = JRD_OEM_SUB_MASK_SIZE ∧
    ∀ j < 128, wordsBit mask j = true ↔ (j : ℤ) ∈ allIds lib param_list

/-- The ids before the first `null` have a bit, and behind it there are no others that have one. -/
def IdsOk (lib : JsonLib) (param_list : List Json) : Prop :=
  (∀ id ∈ headIds lib param_list, IdFits id) ∧
    ∀ id ∈ allIds lib param_list, IdFits id → id ∈ headIds lib param_list

theorem mem_allIds_of_mem_headIds {id : ℤ} (h : id ∈ headIds lib param_list) :
    id ∈ allIds lib param_list := by
  obtain ⟨v, hv, rfl⟩ := List.mem_map.mp h
  have hmem := (List.takeWhile_sublist _).subset hv
  have hsome := List.mem_takeWhile_imp (p := fun v => (pointer v).isSome) hv
  exact List.mem_map_of_mem (List.mem_filter.mpr ⟨hmem, hsome⟩)

/-- **The mask of an action.** -/
theorem idLoop_right_iff :
    (∃ m, idLoop lib param_list = some (some m) ∧ MaskRight lib param_list m) ↔ IdsOk lib param_list := by
  have hzero : (List.replicate JRD_OEM_SUB_MASK_SIZE (0 : UInt32)).length = JRD_OEM_SUB_MASK_SIZE :=
    List.length_replicate
  constructor
  · rintro ⟨m, hm, -, hbits⟩
    have hends := (idLoop_eq_some_iff _).mp hm
    have hfits := fits_of_idLoop [] rfl hzero hends
    obtain ⟨m', hends', -, hbits'⟩ := idLoop_fits [] rfl hzero hfits
    cases hends.unique hends'
    refine ⟨hfits, fun id hid hin => ?_⟩
    obtain ⟨hlo, hhi⟩ := hin
    obtain ⟨j, rfl⟩ := Int.eq_ofNat_of_zero_le hlo
    have hset := (hbits j (by omega)).mpr hid
    have hhead := (hbits' j).mp hset
    rw [wordsBit_zeros] at hhead
    exact hhead.resolve_left Bool.false_ne_true
  · rintro ⟨hfits, hall⟩
    obtain ⟨m, hends, hlen, hbits⟩ := idLoop_fits [] rfl hzero hfits
    refine ⟨m, (idLoop_eq_some_iff _).mpr hends, hlen, fun j hj => ?_⟩
    rw [hbits, wordsBit_zeros]
    constructor
    · rintro (h | h)
      · exact absurd h Bool.false_ne_true
      · exact mem_allIds_of_mem_headIds h
    · intro h
      refine Or.inr (hall j h ⟨by omega, by omega⟩)

end IdLoop

/-! ## The actions of a record -/

/-- An element that is an action: it has a module and an act. -/
def isAction (lib : JsonLib) (obj : Json) : Bool := (actIds lib obj).isSome

/-- The ids of an action. -/
def idList (obj : Json) : Option (List Json) := arrayOf (json_object_object_get obj (bytes "id"))

/-- The entry for an action. -/
structure ActionRight (lib : JsonLib) (obj : Json) (e : web_act_info_type) : Prop where
  ids : ∃ act_id, actIds lib obj = some (e.module_id, act_id) ∧ e.act_id = UInt16.ofInt act_id
  mask : MaskRight lib ((idList obj).getD []) e.sub_mask

/-- The actions stand before all other elements, each with a list of ids. -/
def ActsOk (lib : JsonLib) (info_list : List Json) : Prop :=
  (∀ obj ∈ info_list.dropWhile (isAction lib), isAction lib obj = false) ∧
    ∀ obj ∈ info_list.takeWhile (isAction lib), ∃ param_list,
      idList obj = some param_list ∧ IdsOk lib param_list

section ActLoop

variable {lib : JsonLib}

theorem isAction_eq_false {obj : Json} (h : actIds lib obj = none) : isAction lib obj = false := by
  unfold isAction
  rw [h]
  rfl

theorem isAction_eq_true {obj : Json} {ids : ℤ × ℤ} (h : actIds lib obj = some ids) :
    isAction lib obj = true := by
  unfold isAction
  rw [h]
  rfl

theorem pointer_of_isAction {obj : Json} (h : isAction lib obj = true) : pointer obj = some obj := by
  cases obj with
  | null => cases h
  | _ => rfl

theorem actLoop_stop {obj : Json} (h : isAction lib obj = false) (rest : List Json) :
    actLoop lib (obj :: rest) = .ok [] := by
  have hnone : actIds lib obj = none := Option.isNone_iff_eq_none.mp (by simpa [isAction] using h)
  rw [actLoop]
  rcases hp : pointer obj with _ | obj'
  · rfl
  · have hp' := pointer_of_isSome (v := obj) (by rw [hp]; rfl)
    cases hp.symm.trans hp'
    dsimp only
    rw [hnone]

theorem actLoop_action {obj : Json} {ids : ℤ × ℤ} (h : actIds lib obj = some ids) (rest : List Json)
    (entries : List web_act_info_type) :
    actLoop lib (obj :: rest) = .ok entries ↔
      ∃ param_list m es, idList obj = some param_list ∧ idLoop lib param_list = some (some m) ∧
        actLoop lib rest = .ok es ∧ entries = ⟨ids.1, UInt16.ofInt ids.2, m⟩ :: es := by
  rw [actLoop, pointer_of_isAction (isAction_eq_true h)]
  dsimp only
  rw [h]
  dsimp only
  rcases hl : idList obj with _ | param_list
  · rw [show arrayOf (json_object_object_get obj (bytes "id")) = none from hl]
    simp
  rw [show arrayOf (json_object_object_get obj (bytes "id")) = some param_list from hl]
  dsimp only
  rcases hm : idLoop lib param_list with _ | _ | m
  · simp [hm]
  · simp [hm]
  rcases actLoop lib rest with e | es
  · simp [bind, Except.bind]
  · simp [hm, bind, Except.bind, eq_comm]

/-- The entries that are made are as many as the actions at the beginning. -/
theorem actLoop_length {info_list : List Json} {entries : List web_act_info_type}
    (h : actLoop lib info_list = .ok entries) :
    entries.length = (info_list.takeWhile (isAction lib)).length := by
  induction info_list generalizing entries with
  | nil =>
      cases h
      rfl
  | cons obj rest ih =>
      rcases hids : actIds lib obj with _ | ids
      · have hno := isAction_eq_false hids
        rw [actLoop_stop hno] at h
        cases h
        rw [List.takeWhile_cons_of_neg (by rw [hno]; exact Bool.false_ne_true)]
        rfl
      · have hyes := isAction_eq_true hids
        obtain ⟨param_list, m, es, -, -, hes, rfl⟩ := (actLoop_action hids rest entries).mp h
        rw [List.takeWhile_cons_of_pos hyes, List.length_cons, List.length_cons, ih hes]

/-- **The entries of a record.** -/
theorem actLoop_right_iff (info_list : List Json) :
    (∃ entries, actLoop lib info_list = .ok entries ∧
        List.Forall₂ (ActionRight lib) (info_list.filter (isAction lib)) entries) ↔
      ActsOk lib info_list := by
  induction info_list with
  | nil =>
      refine iff_of_true ⟨[], rfl, List.Forall₂.nil⟩ ⟨?_, ?_⟩
      · exact fun obj h => absurd h List.not_mem_nil
      · exact fun obj h => absurd h List.not_mem_nil
  | cons obj rest ih =>
      rcases hids : actIds lib obj with _ | ids
      · have hno := isAction_eq_false hids
        have hneg : ¬ isAction lib obj = true := by
          rw [hno]
          exact Bool.false_ne_true
        unfold ActsOk
        rw [List.filter_cons_of_neg hneg, List.dropWhile_cons_of_neg hneg,
          List.takeWhile_cons_of_neg hneg, List.forall_mem_cons, actLoop_stop hno]
        constructor
        · rintro ⟨entries, hok, hright⟩
          cases hok
          have hempty := List.forall₂_nil_right_iff.mp hright
          refine ⟨⟨hno, fun x hx => ?_⟩, fun x hx => absurd hx List.not_mem_nil⟩
          simpa using List.filter_eq_nil_iff.mp hempty x hx
        · rintro ⟨⟨-, hrest⟩, -⟩
          refine ⟨[], rfl, List.forall₂_nil_right_iff.mpr (List.filter_eq_nil_iff.mpr fun x hx => ?_)⟩
          rw [hrest x hx]
          exact Bool.false_ne_true
      · have hyes := isAction_eq_true hids
        unfold ActsOk
        rw [List.filter_cons_of_pos hyes, List.dropWhile_cons_of_pos hyes,
          List.takeWhile_cons_of_pos hyes, List.forall_mem_cons]
        unfold ActsOk at ih
        constructor
        · rintro ⟨entries, hok, hright⟩
          obtain ⟨param_list, m, es, hl, hm, hes, rfl⟩ := (actLoop_action hids rest entries).mp hok
          obtain ⟨hobj, hrest⟩ := List.forall₂_cons.mp hright
          have hmask := hobj.mask
          rw [hl, Option.getD_some] at hmask
          obtain ⟨hdrop, htake⟩ := ih.mp ⟨es, hes, hrest⟩
          exact ⟨hdrop, ⟨param_list, hl, idLoop_right_iff.mp ⟨m, hm, hmask⟩⟩, htake⟩
        · rintro ⟨hdrop, ⟨param_list, hl, hids_ok⟩, htake⟩
          obtain ⟨m, hm, hmask⟩ := idLoop_right_iff.mpr hids_ok
          obtain ⟨es, hes, hrest⟩ := ih.mpr ⟨hdrop, htake⟩
          refine ⟨_, (actLoop_action hids rest _).mpr ⟨param_list, m, es, hl, hm, hes, rfl⟩,
            List.Forall₂.cons ⟨⟨ids.2, hids, rfl⟩, ?_⟩ hrest⟩
          rw [hl, Option.getD_some]
          exact hmask

end ActLoop

/-! ## The records -/

/-- What a record is entered under, and its actions, if they are in an array. -/
def recordOf (lib : JsonLib) (json_data : Bytes) : Option (Bytes × Option (List Json)) := do
  let object_data ← lib.json_tokener_parse json_data
  let req ← json_object_object_get object_data (bytes "req")
  some (json_object_get_string lib req, arrayOf (json_object_object_get object_data (bytes "info")))

/-- The actions of a record, if there are any. -/
def actionsOf (lib : JsonLib) (json_data : Bytes) : Option (Bytes × List Json) :=
  (recordOf lib json_data).bind fun r =>
    let actions := (r.2.getD []).filter (isAction lib)
    if actions.isEmpty then none else some (r.1, actions)

/-- A record with nothing at the beginning of its list. -/
def EmptyInfo (lib : JsonLib) (json_data : Bytes) : Prop :=
  ∃ req info_list, recordOf lib json_data = some (req, some info_list) ∧
    info_list.head?.bind pointer = none

/-- A record whose actions are entered as they are. -/
def RecordOk (lib : JsonLib) (json_data : Bytes) : Prop :=
  ∀ req info, recordOf lib json_data = some (req, info) →
    ∃ info_list, info = some info_list ∧ ActsOk lib info_list

/-- What is entered for a record: its actions, and the entry that ends them. -/
def RequestRight (lib : JsonLib) (r : Bytes × List Json) (entered : Bytes × List web_act_info_type) :
    Prop :=
  entered.1 = r.1 ∧ ∃ entries, entered.2 = entries ++ [.invalid] ∧
    List.Forall₂ (ActionRight lib) r.2 entries

/-- Some action has been entered. -/
def hasActions (entered : Bytes × List web_act_info_type) : Bool := decide (1 < entered.2.length)

section Record

variable {lib : JsonLib} {json_data : Bytes}

theorem record_none (h : recordOf lib json_data = none) :
    jrd_oem_parser_req_conf_file.record lib json_data = .ok none := by
  unfold recordOf at h
  unfold jrd_oem_parser_req_conf_file.record
  rcases hparse : lib.json_tokener_parse json_data with _ | object_data
  · rfl
  · rw [hparse] at h
    rcases hreq : json_object_object_get object_data (bytes "req") with _ | req
    · simp [hreq]
    · simp [hreq] at h

theorem record_some {req : Bytes} {info : Option (List Json)}
    (h : recordOf lib json_data = some (req, info)) :
    jrd_oem_parser_req_conf_file.record lib json_data =
      (info.elim (.error .fault) fun info_list =>
        if info_list.head?.bind pointer = none then .error .returned
        else (actLoop lib info_list).map fun entries => some (req, entries ++ [.invalid])) := by
  unfold recordOf at h
  unfold jrd_oem_parser_req_conf_file.record
  rcases hparse : lib.json_tokener_parse json_data with _ | object_data
  · simp [hparse] at h
  · rw [hparse] at h
    rcases hreq : json_object_object_get object_data (bytes "req") with _ | r
    · simp [hreq] at h
    · simp only [hreq, Option.bind_eq_bind, Option.bind_some, Option.some.injEq, Prod.mk.injEq] at h
      obtain ⟨hstr, hinfo⟩ := h
      dsimp only
      rw [hreq, Option.map_some, hstr]
      dsimp only
      rw [hinfo]
      rcases info with _ | info_list
      · rfl
      · dsimp only [Option.elim_some]
        split_ifs
        · rfl
        · rcases actLoop lib info_list with e | entries
          · rfl
          · rfl

end Record

/-! ## The file -/

/-- The strings that are read from a file. -/
def readTexts (max_len : ℕ) : ℕ → FILE → List Bytes
  | 0, _ => []
  | n + 1, fp =>
      if fp.feof then []
      else
        let read := jrd_file_get_one_json fp max_len
        if 0 < read.rtn then cstr read.buffer :: readTexts max_len n read.fp
        else readTexts max_len n read.fp

/-- The records of a file, as they are read. -/
def confTexts (content : Bytes) : List Bytes := readTexts 768 (content.length + 2) ⟨content, false⟩

/-- What is made of texts one after the other: how it ends, and what is entered. -/
def runTexts (lib : JsonLib) : List Bytes → ConfEnd × List (Bytes × List web_act_info_type)
  | [] => (.ret 0, [])
  | text :: texts =>
      match jrd_oem_parser_req_conf_file.record lib text with
      | .error outcome => (outcome, [])
      | .ok none => runTexts lib texts
      | .ok (some entry) => ((runTexts lib texts).1, entry :: (runTexts lib texts).2)

/-- The bytes that are left to read, and the end of the file. -/
def FILE.left (fp : FILE) : ℕ := fp.rest.length + if fp.feof then 0 else 1

theorem loop_left (max_len : ℕ) (s : OneJson) (rest : Bytes) :
    (jrd_file_get_one_json.loop max_len s rest).fp.left ≤ rest.length := by
  induction rest generalizing s with
  | nil =>
      rw [jrd_file_get_one_json.loop]
      split_ifs <;> exact le_rfl
  | cons c rest ih =>
      have hon : ∀ s, (jrd_file_get_one_json.loop max_len s rest).fp.left ≤ (c :: rest).length :=
        fun s => (ih s).trans (Nat.le_succ _)
      have hdone : ∀ s : OneJson, (s.done ⟨rest, false⟩).fp.left ≤ (c :: rest).length := fun s => le_rfl
      rw [jrd_file_get_one_json.loop]
      dsimp only
      by_cases hslash : c = 47
      · rw [if_pos hslash]
        split_ifs <;> exact hon _
      · rw [if_neg hslash]
        split_ifs <;> first | exact hon _ | exact hdone _

/-- A call of the reader gets on in the file. -/
theorem read_left {fp : FILE} (h : fp.feof = false) (max_len : ℕ) :
    (jrd_file_get_one_json fp max_len).fp.left < fp.left := by
  unfold jrd_file_get_one_json
  rw [h, if_neg Bool.false_ne_true]
  have hloop := loop_left max_len ⟨0, [], false, false⟩ fp.rest
  unfold FILE.left at hloop ⊢
  rw [h, if_neg Bool.false_ne_true]
  omega

/-! ## What is read of a record -/

/-- A text in pieces that the buffer holds, the first one with what is there already. -/
def cutText (max_len : ℕ) : Bytes → Bytes → List Bytes
  | buffer, [] => if buffer = [] then [] else [buffer]
  | buffer, c :: text =>
      if buffer.length + 2 = max_len then (buffer ++ [c]) :: cutText max_len [] text
      else cutText max_len (buffer ++ [c]) text

/-- What json-c gets to see of a text: pieces of it without the slashes, each up to a zero byte. -/
def readAs (max_len : ℕ) (text : Bytes) : List Bytes := (cutText max_len [] (kept text)).map cstr

/-- The same, where something of the first text is in the buffer. -/
def bufferedTexts (max_len : ℕ) (buffer : Bytes) : List Bytes → List Bytes
  | [] => []
  | text :: texts => (cutText max_len buffer (kept text)).map cstr ++ texts.flatMap (readAs max_len)

/-- The strings from a call of the reader on. -/
def textsOfRead (max_len n : ℕ) (read : JsonRead) : List Bytes :=
  (if 0 < read.rtn then [cstr read.buffer] else []) ++ readTexts max_len n read.fp

/-- What the reader knows of the place it is at. -/
def OneJson.InPlace (s : OneJson) (rest : Bytes) : Place → Prop
  | .record => s.is_comment_line = false ∧ s.is_one_json_finish = false ∧
      (s.rtnval_pre = 47 → rest.head? ≠ some 47)
  | .comment => s.is_comment_line = true ∧ s.is_one_json_finish = false
  | .tail => s.is_one_json_finish = true

theorem newline_ne_slash : (10 : UInt8) ≠ 47 := by decide

/-- In a record, behind anything but a slash. -/
theorem OneJson.inPlace_record {s : OneJson} {rest : Bytes} (hcomment : s.is_comment_line = false)
    (hfinish : s.is_one_json_finish = false) (hpre : s.rtnval_pre ≠ 47) : s.InPlace rest .record :=
  ⟨hcomment, hfinish, fun h => absurd h hpre⟩

section ReadTexts

variable {max_len : ℕ} {buffer : Bytes} {texts : List Bytes}

theorem bufferedTexts_empty (texts : List Bytes) :
    bufferedTexts max_len [] texts = texts.flatMap (readAs max_len) := by
  cases texts with
  | nil => rfl
  | cons text texts => rw [List.flatMap_cons]; rfl

theorem bufferedTexts_end (buffer : Bytes) (texts : List Bytes) :
    bufferedTexts max_len buffer ([] :: texts)
      = (if buffer = [] then [] else [cstr buffer]) ++ texts.flatMap (readAs max_len) := by
  have hkept : kept [] = [] := rfl
  rw [bufferedTexts, hkept, cutText]
  split_ifs
  · rfl
  · rfl

theorem bufferedTexts_slash :
    bufferedTexts max_len buffer (texts.modifyHead (47 :: ·)) = bufferedTexts max_len buffer texts := by
  cases texts with
  | nil => rfl
  | cons text texts =>
      have hkept : kept (47 :: text) = kept text := List.filter_cons_of_neg (by simp)
      rw [List.modifyHead_cons, bufferedTexts, bufferedTexts, hkept]

theorem bufferedTexts_char {c : UInt8} (hc : c ≠ 47) (htexts : texts ≠ []) :
    bufferedTexts max_len buffer (texts.modifyHead (c :: ·)) =
      if buffer.length + 2 = max_len then cstr (buffer ++ [c]) :: bufferedTexts max_len [] texts
      else bufferedTexts max_len (buffer ++ [c]) texts := by
  obtain ⟨text, texts, rfl⟩ := List.exists_cons_of_ne_nil htexts
  have hkept : kept (c :: text) = c :: kept text := List.filter_cons_of_pos (by simpa using hc)
  rw [List.modifyHead_cons, bufferedTexts, bufferedTexts, bufferedTexts, hkept, cutText]
  split_ifs
  · rw [List.map_cons, List.cons_append]
  · rfl

theorem readTexts_feof (max_len n : ℕ) : readTexts max_len n ⟨[], true⟩ = [] := by
  cases n with
  | zero => rfl
  | succ n => rfl

theorem readTexts_succ (n : ℕ) (rest : Bytes) : readTexts max_len (n + 1) ⟨rest, false⟩
    = textsOfRead max_len n (jrd_file_get_one_json.loop max_len ⟨0, [], false, false⟩ rest) := by
  have hread : jrd_file_get_one_json ⟨rest, false⟩ max_len
      = jrd_file_get_one_json.loop max_len ⟨0, [], false, false⟩ rest := rfl
  rw [readTexts, if_neg Bool.false_ne_true, hread]
  unfold textsOfRead
  dsimp only
  split_ifs
  · rfl
  · rfl

/-- Behind the return at the end of the reader. -/
theorem textsOfRead_done (s : OneJson) (fp : FILE) (n : ℕ) : textsOfRead max_len n (s.done fp)
    = (if s.buffer = [] then [] else [cstr s.buffer]) ++ readTexts max_len n fp := by
  unfold textsOfRead OneJson.done
  dsimp only
  by_cases hbuffer : s.buffer = []
  · rw [if_pos hbuffer, if_neg (by simp [hbuffer])]
  · have hpos := List.length_pos_of_ne_nil hbuffer
    rw [if_neg hbuffer, if_pos (by omega)]

/-- **The strings that are read** from some place on are those of the texts there. -/
theorem textsOfRead_loop {place : Place} {rest : Bytes} {s : OneJson} (hs : s.InPlace rest place) {n : ℕ}
    (hn : rest.length < n) :
    textsOfRead max_len n (jrd_file_get_one_json.loop max_len s rest)
      = bufferedTexts max_len s.buffer (fileTexts place rest) := by
  -- A call ends with the record, or with the buffer. The next one starts in a record.
  have hstart : ∀ {rest}, OneJson.InPlace ⟨0, [], false, false⟩ rest .record :=
    OneJson.inPlace_record rfl rfl (by decide)
  fun_induction fileTexts place rest generalizing s n with
  | case1 place =>
      -- The end of the file, which ends the last record too.
      rw [bufferedTexts_end, List.flatMap_nil, jrd_file_get_one_json.loop]
      by_cases hbuffer : s.buffer = []
      · rw [if_pos hbuffer, if_pos hbuffer]
        exact readTexts_feof max_len n
      · rw [if_neg hbuffer, textsOfRead_done, readTexts_feof]
  | case2 file ih =>
      -- A comment begins.
      rw [loop_slashes]
      exact ih (s := { s with rtnval_pre := 47, is_comment_line := true }) ⟨rfl, hs.2.1⟩
        (by simp only [List.length_cons] at hn; omega)
  | case3 file hslash ih =>
      -- The semicolon behind the record.
      rw [loop_semicolon hs.1]
      exact ih (s := { s with rtnval_pre := 59, is_one_json_finish := true }) rfl
        (by simp only [List.length_cons] at hn; omega)
  | case4 c file hslashes hsemi hblank ih =>
      -- A blank or the end of a line within the record.
      obtain ⟨hcomment, hfinish, -⟩ := hs
      have hn' : file.length < n := by
        simp only [List.length_cons] at hn
        omega
      have hslash : c ≠ 47 := fun h => absurd (h ▸ hblank) (by decide)
      by_cases hline : c = 10
      · subst hline
        rw [loop_newline hfinish]
        exact ih (s := { s with rtnval_pre := 10, is_comment_line := false })
          (OneJson.inPlace_record rfl hfinish newline_ne_slash) hn'
      · have hpassed : c = 32 ∨ c = 13 := by
          simp only [List.mem_cons, List.not_mem_nil, or_false] at hblank
          tauto
        rw [loop_passed hslash hline (Or.inr hpassed)]
        exact ih (s := { s with rtnval_pre := c }) (OneJson.inPlace_record hcomment hfinish hslash) hn'
  | case5 c file hslashes hsemi hblank ih =>
      -- A byte of the record. A slash is not kept in the buffer.
      obtain ⟨hcomment, hfinish, hpre⟩ := hs
      have hn' : file.length < n := by
        simp only [List.length_cons] at hn
        omega
      by_cases hslash : c = 47
      · subst hslash
        have hnext : file.head? ≠ some 47 := by
          intro h
          obtain ⟨file', rfl⟩ := List.head?_eq_some_iff.mp h
          exact hslashes file' rfl rfl
        rw [loop_slash (fun h => hpre h rfl), bufferedTexts_slash]
        exact ih (s := { s with rtnval_pre := 47 }) ⟨hcomment, hfinish, fun _ => hnext⟩ hn'
      · have hc : c ∉ [47, 59, 32, 13, 10] := by
          simp only [List.mem_cons, List.not_mem_nil, or_false, not_or] at hblank ⊢
          exact ⟨hslash, hsemi, hblank⟩
        rw [bufferedTexts_char hslash (fileTexts_ne_nil .record file)]
        split_ifs with hroom
        · -- The buffer is full.
          obtain ⟨m, rfl⟩ : ∃ m, n = m + 1 := ⟨n - 1, by omega⟩
          rw [loop_char_full hc hcomment hfinish hroom]
          unfold textsOfRead
          dsimp only
          rw [if_pos (by simp), readTexts_succ, ih hstart (by simp only [List.length_cons] at hn; omega)]
          rfl
        · rw [loop_char hc hcomment hfinish hroom]
          exact ih (s := { s with rtnval_pre := c, buffer := s.buffer ++ [c] })
            (OneJson.inPlace_record hcomment hfinish hslash) hn'
  | case6 c file ih =>
      -- A byte of a comment, which ends with its line.
      obtain ⟨hcomment, hfinish⟩ := hs
      have hn' : file.length < n := by
        simp only [List.length_cons] at hn
        omega
      by_cases hline : c = 10
      · subst hline
        rw [if_pos rfl] at ih ⊢
        rw [loop_newline hfinish]
        exact ih (s := { s with rtnval_pre := 10, is_comment_line := false })
          (OneJson.inPlace_record rfl hfinish newline_ne_slash) hn'
      · rw [if_neg hline] at ih ⊢
        obtain ⟨s', hbuffer, hfinish', hcomment', hloop⟩ := loop_ignored hline (Or.inl hcomment) file
        rw [hloop, ← hbuffer]
        exact ih (s := s') ⟨hcomment' hcomment, hfinish'.trans hfinish⟩ hn'
  | case7 file ih =>
      -- The end of the line behind a semicolon: the call returns the record.
      obtain ⟨m, rfl⟩ : ∃ m, n = m + 1 := ⟨n - 1, by omega⟩
      have hm : file.length < m := by
        simp only [List.length_cons] at hn
        omega
      rw [loop_line_end hs, textsOfRead_done, readTexts_succ, ih hstart hm, bufferedTexts_end,
        bufferedTexts_empty]
  | case8 c file hline ih =>
      -- What stands between a semicolon and the end of its line.
      obtain ⟨s', hbuffer, hfinish', -, hloop⟩ := loop_ignored hline (Or.inr hs) file
      rw [hloop, ← hbuffer]
      exact ih (s := s') (hfinish'.trans hs) (by simp only [List.length_cons] at hn; omega)

/-- **What is read of a file** is what is read of its records. -/
theorem confTexts_eq (content : Bytes) : confTexts content = (fileRecords content).flatMap (readAs 768) := by
  have hstart : OneJson.InPlace ⟨0, [], false, false⟩ content .record :=
    OneJson.inPlace_record rfl rfl (by decide)
  have hread : textsOfRead 768 (content.length + 1)
      (jrd_file_get_one_json.loop 768 ⟨0, [], false, false⟩ content) =
        bufferedTexts 768 [] (fileTexts .record content) :=
    textsOfRead_loop hstart (Nat.lt_succ_self _)
  have hempty : readAs 768 [] = [] := rfl
  unfold confTexts fileRecords
  rw [readTexts_succ, hread, bufferedTexts_empty]
  -- An empty text is not read.
  induction fileTexts .record content with
  | nil => rfl
  | cons text texts ih =>
      rw [List.flatMap_cons, ih]
      by_cases hnil : text = []
      · rw [List.filter_cons_of_neg (by simpa using hnil), hnil, hempty, List.nil_append]
      · rw [List.filter_cons_of_pos (by simpa using hnil), List.flatMap_cons]

end ReadTexts

/-! ## Going through the records -/

/-- **The loop over the file** ends, and does with its records what `runTexts` says. -/
theorem parser_loop (lib : JsonLib) {n : ℕ} {s : ConfLoop} (hn : s.fp.left < n) :
    loopFor (jrd_oem_parser_req_conf_file.turn lib) n s =
      some ((runTexts lib (readTexts 768 n s.fp)).1,
        s.symtab ++ (runTexts lib (readTexts 768 n s.fp)).2) := by
  induction n generalizing s with
  | zero => exact absurd hn (Nat.not_lt_zero _)
  | succ n ih =>
      by_cases hfeof : s.fp.feof = true
      · have hturn : jrd_oem_parser_req_conf_file.turn lib s = .inl (.ret 0, s.symtab) := by
          unfold jrd_oem_parser_req_conf_file.turn
          rw [if_pos hfeof]
        rw [loopFor_inl hturn, readTexts, if_pos hfeof]
        simp [runTexts]
      have hleft := read_left (by simpa using hfeof : s.fp.feof = false) 768
      have hnext : ∀ symtab, loopFor (jrd_oem_parser_req_conf_file.turn lib) n
          ⟨(jrd_file_get_one_json s.fp 768).fp, symtab⟩ = _ := fun symtab =>
        ih (s := ⟨(jrd_file_get_one_json s.fp 768).fp, symtab⟩) (by dsimp only; omega)
      dsimp only at hnext
      rw [readTexts, if_neg hfeof]
      dsimp only
      by_cases hread : 0 < (jrd_file_get_one_json s.fp 768).rtn
      · rw [if_pos hread, runTexts]
        rcases hrecord : jrd_oem_parser_req_conf_file.record lib
            (cstr (jrd_file_get_one_json s.fp 768).buffer) with outcome | _ | entry
        · have hturn : jrd_oem_parser_req_conf_file.turn lib s = .inl (outcome, s.symtab) := by
            unfold jrd_oem_parser_req_conf_file.turn
            rw [if_neg hfeof]
            dsimp only
            rw [if_pos hread, hrecord]
          rw [loopFor_inl hturn]
          simp
        · have hturn : jrd_oem_parser_req_conf_file.turn lib s
              = .inr ⟨(jrd_file_get_one_json s.fp 768).fp, s.symtab⟩ := by
            unfold jrd_oem_parser_req_conf_file.turn
            rw [if_neg hfeof]
            dsimp only
            rw [if_pos hread, hrecord]
          rw [loopFor_inr hturn, hnext]
        · have hturn : jrd_oem_parser_req_conf_file.turn lib s
              = .inr ⟨(jrd_file_get_one_json s.fp 768).fp, s.symtab ++ [entry]⟩ := by
            unfold jrd_oem_parser_req_conf_file.turn
            rw [if_neg hfeof]
            dsimp only
            rw [if_pos hread, hrecord]
          rw [loopFor_inr hturn, hnext, List.append_assoc, List.singleton_append]
      · have hturn : jrd_oem_parser_req_conf_file.turn lib s
            = .inr ⟨(jrd_file_get_one_json s.fp 768).fp, s.symtab⟩ := by
          unfold jrd_oem_parser_req_conf_file.turn
          rw [if_neg hfeof]
          dsimp only
          rw [if_neg hread]
        rw [loopFor_inr hturn, hnext, if_neg hread]

/-- The call ends by itself, and what is entered for the records that have actions is right. -/
def TextsRight (lib : JsonLib) (texts : List Bytes)
    (run : ConfEnd × List (Bytes × List web_act_info_type)) : Prop :=
  (run.1 = .ret 0 ∨ run.1 = .returned) ∧
    List.Forall₂ (RequestRight lib) (texts.filterMap (actionsOf lib)) (run.2.filter hasActions)

/-- Records that the parser gets through: all are as they should be up to one with nothing in its
list, and behind such a one there are no actions. -/
structure TextsOk (lib : JsonLib) (texts : List Bytes) : Prop where
  records : ∀ pre text post, texts = pre ++ text :: post → (∀ x ∈ pre, ¬ EmptyInfo lib x) →
    RecordOk lib text
  rest : ∀ pre text post, texts = pre ++ text :: post → EmptyInfo lib text →
    ∀ x ∈ post, actionsOf lib x = none

section Texts

variable {lib : JsonLib}

theorem textsOk_nil : TextsOk lib [] := by
  constructor
  · intro pre text post h
    cases pre <;> cases h
  · intro pre text post h
    cases pre <;> cases h

theorem textsOk_cons (text : Bytes) (texts : List Bytes) :
    TextsOk lib (text :: texts) ↔ RecordOk lib text ∧
      (EmptyInfo lib text → ∀ x ∈ texts, actionsOf lib x = none) ∧
      (¬ EmptyInfo lib text → TextsOk lib texts) := by
  constructor
  · intro h
    refine ⟨h.records [] text texts rfl (fun x hx => absurd hx List.not_mem_nil),
      h.rest [] text texts rfl, fun hne => ⟨?_, ?_⟩⟩
    · intro pre t post hsplit hpre
      exact h.records (text :: pre) t post (by rw [hsplit, List.cons_append])
        (List.forall_mem_cons.mpr ⟨hne, hpre⟩)
    · intro pre t post hsplit
      exact h.rest (text :: pre) t post (by rw [hsplit, List.cons_append])
  · rintro ⟨htext, hempty, hrest⟩
    constructor
    · intro pre t post hsplit hpre
      rcases pre with _ | ⟨p, pre⟩
      · cases hsplit
        exact htext
      · cases hsplit
        obtain ⟨hp, hpre⟩ := List.forall_mem_cons.mp hpre
        exact (hrest hp).records pre t post rfl hpre
    · intro pre t post hsplit ht
      rcases pre with _ | ⟨p, pre⟩
      · cases hsplit
        exact hempty ht
      · cases hsplit
        by_cases hp : EmptyInfo lib text
        · exact fun x hx => hempty hp x (List.mem_append_right _ (List.mem_cons_of_mem t hx))
        · exact (hrest hp).rest pre t post rfl ht

theorem actionsOf_none {text : Bytes} (h : recordOf lib text = none) : actionsOf lib text = none := by
  unfold actionsOf
  rw [h, Option.bind_none]

theorem actionsOf_some {text req : Bytes} {info : Option (List Json)}
    (h : recordOf lib text = some (req, info)) :
    actionsOf lib text = if ((info.getD []).filter (isAction lib)).isEmpty then none
      else some (req, (info.getD []).filter (isAction lib)) := by
  unfold actionsOf
  rw [h, Option.bind_some]

theorem actionsOf_eq_none_iff {text req : Bytes} {info_list : List Json}
    (h : recordOf lib text = some (req, some info_list)) :
    actionsOf lib text = none ↔ info_list.filter (isAction lib) = [] := by
  rw [actionsOf_some h, Option.getD_some]
  by_cases hempty : (info_list.filter (isAction lib)).isEmpty = true
  · rw [if_pos hempty]
    exact iff_of_true rfl (List.isEmpty_iff.mp hempty)
  · rw [if_neg hempty]
    exact iff_of_false (Option.some_ne_none _) fun hnil => hempty (List.isEmpty_iff.mpr hnil)

theorem recordOk_some_iff {text req : Bytes} {info_list : List Json}
    (h : recordOf lib text = some (req, some info_list)) :
    RecordOk lib text ↔ ActsOk lib info_list := by
  constructor
  · intro hok
    obtain ⟨l, hl, hacts⟩ := hok _ _ h
    cases hl
    exact hacts
  · intro hacts req' info' h'
    cases h.symm.trans h'
    exact ⟨info_list, rfl, hacts⟩

theorem emptyInfo_some_iff {text req : Bytes} {info_list : List Json}
    (h : recordOf lib text = some (req, some info_list)) :
    EmptyInfo lib text ↔ info_list.head?.bind pointer = none := by
  constructor
  · rintro ⟨req', l', h', hempty⟩
    cases h.symm.trans h'
    exact hempty
  · exact fun hempty => ⟨req, info_list, h, hempty⟩

/-- A text without a record has no empty list, and nothing that could be wrong. -/
theorem recordOk_none {text : Bytes} (h : recordOf lib text = none) :
    ¬ EmptyInfo lib text ∧ RecordOk lib text := by
  constructor
  · rintro ⟨req, l, hsome, -⟩
    exact absurd (hsome.symm.trans h) (Option.some_ne_none _)
  · intro req info hsome
    exact absurd (hsome.symm.trans h) (Option.some_ne_none _)

/-- A list that is gone through is all right if the entries are those of its actions. -/
theorem recordOk_entries_iff {text req : Bytes} {info_list : List Json} {entries : List web_act_info_type}
    (h : recordOf lib text = some (req, some info_list)) (hacts : actLoop lib info_list = .ok entries) :
    RecordOk lib text ↔ List.Forall₂ (ActionRight lib) (info_list.filter (isAction lib)) entries := by
  rw [recordOk_some_iff h, ← actLoop_right_iff, hacts]
  constructor
  · rintro ⟨entries', hok, hright⟩
    cases hok
    exact hright
  · exact fun hright => ⟨entries, rfl, hright⟩

theorem requestRight_entries_iff {req : Bytes} {acts : List Json} {entries : List web_act_info_type} :
    RequestRight lib (req, acts) (req, entries ++ [.invalid]) ↔
      List.Forall₂ (ActionRight lib) acts entries := by
  constructor
  · rintro ⟨-, es, happend, hright⟩
    rwa [List.append_cancel_right happend]
  · exact fun hright => ⟨rfl, entries, rfl, hright⟩

/-- With nothing at the beginning, the list is all right only without actions. -/
theorem actsOk_of_empty {info_list : List Json} (h : info_list.head?.bind pointer = none) :
    ActsOk lib info_list ↔ info_list.filter (isAction lib) = [] := by
  have hstop : info_list.takeWhile (isAction lib) = [] ∧ info_list.dropWhile (isAction lib) = info_list := by
    cases info_list with
    | nil => exact ⟨rfl, rfl⟩
    | cons obj rest =>
        have hno : ¬ isAction lib obj = true := by
          intro hyes
          rw [List.head?_cons, Option.bind_some, pointer_of_isAction hyes] at h
          cases h
        exact ⟨List.takeWhile_cons_of_neg hno, List.dropWhile_cons_of_neg hno⟩
  unfold ActsOk
  rw [hstop.1, hstop.2, List.filter_eq_nil_iff]
  simp

/-- An action that does not get its entry ends the call, and not by a `return`. -/
theorem actLoop_error {info_list : List Json} {e : ConfEnd} (h : actLoop lib info_list = .error e) :
    ¬ (e = .ret 0 ∨ e = .returned) := by
  induction info_list with
  | nil => cases h
  | cons obj rest ih =>
      rw [actLoop] at h
      split at h
      · cases h
      · split at h
        · cases h
        · split at h
          · cases h
            simp
          · split at h
            · cases h
              simp
            · cases h
              simp
            · rcases hrest : actLoop lib rest with e' | es
              · rw [hrest] at h ih
                cases h
                exact ih rfl
              · rw [hrest] at h
                cases h

/-- What a record may do to a run. -/
theorem runTexts_cons (text : Bytes) (texts : List Bytes) :
    (recordOf lib text = none ∧ runTexts lib (text :: texts) = runTexts lib texts) ∨
    (∃ e, ¬ (e = .ret 0 ∨ e = .returned) ∧ runTexts lib (text :: texts) = (e, []) ∧
      ¬ RecordOk lib text) ∨
    (∃ req l, recordOf lib text = some (req, some l) ∧ l.head?.bind pointer = none ∧
      runTexts lib (text :: texts) = (.returned, [])) ∨
    ∃ req l entries, recordOf lib text = some (req, some l) ∧ ¬ l.head?.bind pointer = none ∧
      actLoop lib l = .ok entries ∧
      runTexts lib (text :: texts) =
        ((runTexts lib texts).1, (req, entries ++ [.invalid]) :: (runTexts lib texts).2) := by
  rcases hr : recordOf lib text with _ | ⟨req, info⟩
  · left
    rw [runTexts, record_none hr]
    exact ⟨rfl, rfl⟩
  right
  have hrecord := record_some hr
  rcases info with _ | l
  · left
    refine ⟨.fault, by simp, ?_, ?_⟩
    · rw [runTexts, hrecord]
      rfl
    · intro hok
      obtain ⟨l, hl, -⟩ := hok _ _ hr
      cases hl
  rw [Option.elim_some] at hrecord
  by_cases hempty : l.head?.bind pointer = none
  · right
    left
    rw [if_pos hempty] at hrecord
    exact ⟨req, l, rfl, hempty, by rw [runTexts, hrecord]⟩
  rw [if_neg hempty] at hrecord
  rcases hacts : actLoop lib l with e | entries
  · left
    rw [hacts] at hrecord
    refine ⟨e, actLoop_error hacts, ?_, ?_⟩
    · rw [runTexts, hrecord]
      rfl
    · rw [recordOk_some_iff hr, ← actLoop_right_iff, hacts]
      rintro ⟨entries, hok, -⟩
      cases hok
  · right
    right
    rw [hacts] at hrecord
    refine ⟨req, l, entries, rfl, hempty, hacts, ?_⟩
    rw [runTexts, hrecord]
    rfl

/-- The records that are entered with actions, if one more is entered. -/
theorem filter_hasActions_cons (req : Bytes) (entries : List web_act_info_type)
    (rs : List (Bytes × List web_act_info_type)) :
    ((req, entries ++ [.invalid]) :: rs).filter hasActions =
      if entries = [] then rs.filter hasActions
      else (req, entries ++ [.invalid]) :: rs.filter hasActions := by
  have hmore : hasActions (req, entries ++ [.invalid]) = true ↔ ¬ entries = [] := by
    unfold hasActions
    rw [decide_eq_true_iff, List.length_append, List.length_singleton, ← ne_eq, ← List.length_pos_iff]
    omega
  split_ifs with hentries
  · exact List.filter_cons_of_neg (mt hmore.mp (not_not.mpr hentries))
  · exact List.filter_cons_of_pos (hmore.mpr hentries)

/-- A record that is entered with actions has actions. -/
theorem actionsOf_entered {text req : Bytes} {l : List Json} {entries : List web_act_info_type}
    (hr : recordOf lib text = some (req, some l)) (hacts : actLoop lib l = .ok entries)
    (hne : entries ≠ []) : actionsOf lib text = some (req, l.filter (isAction lib)) := by
  have hfilter : ¬ (l.filter (isAction lib)).isEmpty = true := by
    intro hempty
    have hlen := actLoop_length hacts
    have htake : l.takeWhile (isAction lib) = [] := by
      rw [List.takeWhile_eq_nil_iff]
      intro hpos
      have hall := List.filter_eq_nil_iff.mp (List.isEmpty_iff.mp hempty)
      simpa using hall _ (List.getElem_mem hpos)
    rw [htake, List.length_nil] at hlen
    exact hne (List.length_eq_zero_iff.mp hlen)
  rw [actionsOf_some hr, Option.getD_some, if_neg hfilter]

/-- No more records are entered with actions than there are records with actions. -/
theorem entered_le (texts : List Bytes) :
    ((runTexts lib texts).2.filter hasActions).length ≤ (texts.filterMap (actionsOf lib)).length := by
  induction texts with
  | nil => exact le_rfl
  | cons text texts ih =>
      have hmore : (texts.filterMap (actionsOf lib)).length
          ≤ ((text :: texts).filterMap (actionsOf lib)).length := by
        rcases hactions : actionsOf lib text with _ | r
        · rw [List.filterMap_cons_none hactions]
        · rw [List.filterMap_cons_some hactions]
          exact Nat.le_succ _
      rcases @runTexts_cons lib text texts with
        ⟨-, hrun⟩ | ⟨e, -, hrun, -⟩ | ⟨req, l, -, -, hrun⟩ | ⟨req, l, entries, hr, -, hacts, hrun⟩
      · rw [hrun]
        exact ih.trans hmore
      · rw [hrun]
        exact Nat.zero_le _
      · rw [hrun]
        exact Nat.zero_le _
      · rw [hrun, filter_hasActions_cons]
        split_ifs with hentries
        · exact ih.trans hmore
        · rw [List.filterMap_cons_some (actionsOf_entered hr hacts hentries)]
          exact Nat.succ_le_succ ih

/-- **The records of a file.** -/
theorem textsRight_iff (texts : List Bytes) :
    TextsRight lib texts (runTexts lib texts) ↔ TextsOk lib texts := by
  induction texts with
  | nil => exact iff_of_true ⟨Or.inl rfl, List.Forall₂.nil⟩ textsOk_nil
  | cons text texts ih =>
      rw [textsOk_cons]
      rcases @runTexts_cons lib text texts with
        ⟨hr, hrun⟩ | ⟨e, he, hrun, hbad⟩ | ⟨req, l, hr, hempty, hrun⟩ |
          ⟨req, l, entries, hr, hempty, hacts, hrun⟩
      · -- The record is passed over.
        obtain ⟨hfull, hok⟩ := recordOk_none hr
        rw [hrun, ← ih]
        unfold TextsRight
        rw [List.filterMap_cons_none (actionsOf_none hr)]
        exact ⟨fun h => ⟨hok, fun hempty => absurd hempty hfull, fun _ => h⟩, fun h => h.2.2 hfull⟩
      · rw [hrun]
        exact iff_of_false (fun h => he h.1) (fun h => hbad h.1)
      · -- The list is empty, and nothing more is read.
        have hnothing : EmptyInfo lib text := (emptyInfo_some_iff hr).mpr hempty
        rw [hrun, recordOk_some_iff hr, actsOk_of_empty hempty, ← actionsOf_eq_none_iff hr]
        unfold TextsRight
        rw [List.filter_nil, List.forall₂_nil_right_iff, List.filterMap_eq_nil_iff, List.forall_mem_cons]
        constructor
        · rintro ⟨-, htext, htexts⟩
          exact ⟨htext, fun _ => htexts, fun h => absurd hnothing h⟩
        · rintro ⟨htext, htexts, -⟩
          exact ⟨Or.inr rfl, htext, htexts hnothing⟩
      · have hfull : ¬ EmptyInfo lib text := mt (emptyInfo_some_iff hr).mp hempty
        have hrest : (EmptyInfo lib text → ∀ x ∈ texts, actionsOf lib x = none) ∧
            (¬ EmptyInfo lib text → TextsOk lib texts) ↔ TextsOk lib texts :=
          ⟨fun h => h.2 hfull, fun h => ⟨fun hempty => absurd hempty hfull, fun _ => h⟩⟩
        rw [hrun, hrest, ← ih, recordOk_entries_iff hr hacts]
        unfold TextsRight
        rw [filter_hasActions_cons]
        split_ifs with hentries
        · -- None of the actions is entered, if there are any.
          have hle := @entered_le lib texts
          rw [hentries, List.forall₂_nil_right_iff, ← actionsOf_eq_none_iff hr]
          rcases hactions : actionsOf lib text with _ | r
          · rw [List.filterMap_cons_none hactions]
            exact ⟨fun h => ⟨rfl, h⟩, fun h => h.2⟩
          · refine iff_of_false ?_ (fun h => absurd h.1 (Option.some_ne_none r))
            rintro ⟨-, hright⟩
            have hlen := hright.length_eq
            rw [List.filterMap_cons_some hactions, List.length_cons] at hlen
            omega
        · rw [List.filterMap_cons_some (actionsOf_entered hr hacts hentries), List.forall₂_cons,
            requestRight_entries_iff]
          exact and_left_comm

end Texts

/-! ## The parser -/

/-- What is done with a record that json-c has found. -/
def enterRecord (lib : JsonLib) (r : Bytes × Option (List Json)) :
    Except ConfEnd (Option (Bytes × List web_act_info_type)) :=
  r.2.elim (.error .fault) fun info_list =>
    if info_list.head?.bind pointer = none then .error .returned
    else (actLoop lib info_list).map fun entries => some (r.1, entries ++ [.invalid])

/-- The same as `runTexts`, for the records in the texts. -/
def runRecords (lib : JsonLib) :
    List (Bytes × Option (List Json)) → ConfEnd × List (Bytes × List web_act_info_type)
  | [] => (.ret 0, [])
  | r :: rs =>
      match enterRecord lib r with
      | .error outcome => (outcome, [])
      | .ok none => runRecords lib rs
      | .ok (some entry) => ((runRecords lib rs).1, entry :: (runRecords lib rs).2)

/-- Only what json-c finds in a text matters. -/
theorem runTexts_eq (lib : JsonLib) (texts : List Bytes) :
    runTexts lib texts = runRecords lib (texts.filterMap (recordOf lib)) := by
  induction texts with
  | nil => rfl
  | cons text texts ih =>
      rcases hr : recordOf lib text with _ | ⟨req, info⟩
      · rw [runTexts, record_none hr, List.filterMap_cons_none hr, ← ih]
      · rw [runTexts, record_some hr, List.filterMap_cons_some hr, runRecords, ← ih]
        rfl

/-- json-c finds in what it gets to see of a text the record that is in it. -/
def ReadSame (lib : JsonLib) (text : Bytes) : Prop :=
  (readAs 768 text).filterMap (recordOf lib) = (recordOf lib text).toList

theorem cutText_of_fits {max_len : ℕ} {buffer text : Bytes} (hne : buffer ++ text ≠ [])
    (h : buffer.length + text.length < max_len) : cutText max_len buffer text = [buffer ++ text] := by
  induction text generalizing buffer with
  | nil =>
      rw [List.append_nil] at hne
      rw [cutText, if_neg hne, List.append_nil]
  | cons c text ih =>
      rw [List.length_cons] at h
      rw [cutText]
      split_ifs with hfull
      · -- The last byte fills the buffer.
        obtain rfl : text = [] := List.length_eq_zero_iff.mp (by omega)
        rfl
      · rw [ih (by simp) (by rw [List.length_append, List.length_singleton]; omega), List.append_assoc,
          List.singleton_append]

/-- A record of at most 767 bytes without a slash and without a zero byte is read as it is. -/
theorem readSame_of_fits (lib : JsonLib) {text : Bytes} (hne : text ≠ []) (hlen : text.length ≤ 767)
    (hslash : 47 ∉ text) (hnul : NulFree text) : ReadSame lib text := by
  have hread : readAs 768 text = [text] := by
    have hcut : cutText 768 [] text = [[] ++ text] :=
      cutText_of_fits hne (by rw [List.length_nil]; omega)
    unfold readAs
    rw [(kept_eq_self_iff text).mpr hslash, hcut, List.nil_append, List.map_singleton,
      cstr_of_nulFree hnul]
  unfold ReadSame
  rw [hread]
  rcases hr : recordOf lib text with _ | r
  · rw [List.filterMap_cons_none hr]
    rfl
  · rw [List.filterMap_cons_some hr]
    rfl

theorem runTexts_confTexts {lib : JsonLib} {content : Bytes}
    (hread : ∀ text ∈ fileRecords content, ReadSame lib text) :
    runTexts lib (confTexts content) = runTexts lib (fileRecords content) := by
  rw [runTexts_eq, runTexts_eq, confTexts_eq]
  congr 1
  generalize fileRecords content = texts at hread ⊢
  induction texts with
  | nil => rfl
  | cons text texts ih =>
      obtain ⟨htext, htexts⟩ := List.forall_mem_cons.mp hread
      rw [List.flatMap_cons, List.filterMap_append, htext, ih htexts]
      rcases hr : recordOf lib text with _ | r
      · rw [List.filterMap_cons_none hr]
        rfl
      · rw [List.filterMap_cons_some hr]
        rfl

/-- What is entered for a file: the call ends, and the records of the file have their actions. -/
def ReqConfRight (lib : JsonLib) (content : Bytes) : Prop :=
  ∀ symtab, ∃ run, jrd_oem_parser_req_conf_file lib (some content) symtab
      = some (run.1, symtab ++ run.2) ∧ TextsRight lib (fileRecords content) run

/-- **The parser.** It gets through a file whose records it gets to see, and makes the masks of all
their actions as they should be, exactly if the records are all right. -/
theorem req_conf_right_iff (lib : JsonLib) (content : Bytes)
    (hread : ∀ text ∈ fileRecords content, ReadSame lib text) :
    ReqConfRight lib content ↔ TextsOk lib (fileRecords content) := by
  have hrun : ∀ symtab, jrd_oem_parser_req_conf_file lib (some content) symtab =
      some ((runTexts lib (fileRecords content)).1, symtab ++ (runTexts lib (fileRecords content)).2) := by
    intro symtab
    have hleft : FILE.left ⟨content, false⟩ < content.length + 2 := Nat.lt_succ_self _
    rw [← runTexts_confTexts hread]
    exact parser_loop lib (s := ⟨⟨content, false⟩, symtab⟩) hleft
  rw [← textsRight_iff]
  constructor
  · intro h
    obtain ⟨run, hrun', hright⟩ := h []
    have heq := hrun []
    rw [hrun', Option.some.injEq, Prod.mk.injEq, List.nil_append, List.nil_append] at heq
    rwa [show run = runTexts lib (fileRecords content) from Prod.ext heq.1 heq.2] at hright
  · exact fun h symtab => ⟨_, hrun symtab, h⟩

/-- The text of a record with one action and one id. -/
def textWithId (id : Bytes) : Bytes :=
  bytes "\x7b\"req\":\"a\",\"info\":[\x7b\"module\":\"1\",\"act\":\"2\",\"id\":[\"" ++ id ++ bytes "\"]\x7d]\x7d"

/-- The action in it. -/
def actionWithId (id : Bytes) : Json :=
  .object [(bytes "module", .string (bytes "1")), (bytes "act", .string (bytes "2")),
    (bytes "id", .array [.string id])]

def recordWithId (id : Bytes) : Json :=
  .object [(bytes "req", .string (bytes "a")), (bytes "info", .array [actionWithId id])]

/-- What json-c makes of this text, and of others. -/
def libWithId (id : Bytes) : JsonLib :=
  ⟨fun text => if text = textWithId id then some (recordWithId id) else none, fun _ => []⟩

/-- The id 5, with a comment behind the record. -/
theorem req_conf_right_five :
    ReqConfRight (libWithId (bytes "5")) (textWithId (bytes "5") ++ bytes "; // five\n") := by
  have hrecords : fileRecords (textWithId (bytes "5") ++ bytes "; // five\n") = [textWithId (bytes "5")] := by
    decide +kernel
  have hread : ReadSame (libWithId (bytes "5")) (textWithId (bytes "5")) :=
    readSame_of_fits _ (by decide +kernel) (by decide +kernel) (by decide +kernel) (by decide +kernel)
  apply (req_conf_right_iff _ _ ?_).mpr
  · have hrecord : recordOf (libWithId (bytes "5")) (textWithId (bytes "5"))
        = some (bytes "a", some [actionWithId (bytes "5")]) := by
      have hparse : (libWithId (bytes "5")).json_tokener_parse (textWithId (bytes "5"))
          = some (recordWithId (bytes "5")) := by simp [libWithId]
      unfold recordOf
      rw [hparse]
      rfl
    have hids : headIds (libWithId (bytes "5")) [.string (bytes "5")] = [5] ∧
        allIds (libWithId (bytes "5")) [.string (bytes "5")] = [5] := by decide +kernel
    rw [hrecords, textsOk_cons, recordOk_some_iff hrecord]
    refine ⟨⟨?_, ?_⟩, fun _ x hx => absurd hx List.not_mem_nil, fun _ => textsOk_nil⟩
    · decide +kernel
    · intro obj hobj
      obtain rfl : obj = actionWithId (bytes "5") :=
        List.mem_singleton.mp ((List.takeWhile_sublist _).subset hobj)
      refine ⟨[.string (bytes "5")], rfl, ?_⟩
      unfold IdsOk
      rw [hids.1, hids.2]
      simp [IdFits]
  · rw [hrecords]
    exact fun text htext => List.mem_singleton.mp htext ▸ hread

/-- The bit of the id 128 is in a fifth word. -/
theorem id_128_outside :
    ¬ ReqConfRight (libWithId (bytes "128")) (textWithId (bytes "128") ++ bytes ";\n") := by
  have hrun : (jrd_oem_parser_req_conf_file (libWithId (bytes "128"))
      (some (textWithId (bytes "128") ++ bytes ";\n")) []).map Prod.fst = some .outside := by
    decide +kernel
  intro h
  obtain ⟨run, hrun', hend, -⟩ := h []
  rw [hrun', Option.map_some] at hrun
  rw [Option.some.inj hrun] at hend
  simp at hend

end TestCore.Webs
