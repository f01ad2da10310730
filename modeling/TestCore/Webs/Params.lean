/-
Request parameters: the JSON body of a `/jrd/webapi` request, the form variables
of a `/goform` request, and the two 32-byte slots both are copied to before
`webs_set_login` sees them.

json-c itself is not part of the repository. The model takes its two entry points
as a parameter (`JsonLib`) and keeps the values it hands out as a tree. A JSON
`null` is the `NULL` pointer to the library, so looking up a member that is `null`
is the same as looking up a member that is not there.

The slots are filled by `strncpy`, which leaves no terminator behind a source of
32 bytes or more. What a reader then runs into is fixed by the memory layout: the
second element of the parameter array follows the first one, and some other object
follows the second.
-/
import TestCore.Webs.Base
import TestCore.Webs.Crypt

set_option autoImplicit false

namespace TestCore.Webs

open TestCore.Lib

/-! ## JSON values -/

/-- A value as json-c holds it. -/
inductive Json where
  | null
  | bool (b : Bool)
  | int (i : Int)
  | double (text : Bytes)
  | string (s : Bytes)
  | array (elems : List Json)
  | object (members : List (Bytes × Json))

/-- What the server uses of json-c besides member lookup. -/
structure JsonLib where
  /-- `none` is a pointer for which `is_error` holds. -/
  json_tokener_parse : Bytes → Option Json
  json_object_to_json_string : Json → Bytes

/-- `json_object_object_get`: `NULL` for a missing member, a `null` member, and
anything that is not an object. -/
def json_object_object_get : Json → Bytes → Option Json
  | .object members, key =>
      match members.find? fun m => m.1 = key with
      | none => none
      | some (_, .null) => none
      | some (_, j) => some j
  | _, _ => none

/-- `json_object_get_string`: a value of another type is serialised. -/
def json_object_get_string (lib : JsonLib) : Json → Bytes
  | .string s => cstr s
  | j => lib.json_object_to_json_string j

/-! ## Parameter slots -/

def MAX_PARAM_LENGTH : ℕ := 32

/-- The `u.str` slots of the two elements of a login parameter array. -/
structure LoginParams where
  userName : Bytes
  password : Bytes
  deriving DecidableEq, Repr

/-- What follows the slots in memory. Behind the first one come the second
element's `name` pointer and its `type`, the number `PARAM_STR`; behind the second
one comes whatever the linker put there. -/
structure Layout where
  name1 : Bytes
  after : Bytes
  deriving DecidableEq, Repr

/-- `params[0].u.str` read as a string. -/
def LoginParams.str0 (l : Layout) (p : LoginParams) : Bytes :=
  slotStr p.userName (l.name1 ++ [1, 0, 0, 0])

/-- `params[1].u.str` read as a string. -/
def LoginParams.str1 (l : Layout) (p : LoginParams) : Bytes := slotStr p.password l.after

/-- The slots after both strings have been copied in. -/
def LoginParams.store (userName password : Bytes) : LoginParams :=
  ⟨strncpy userName MAX_PARAM_LENGTH, strncpy password MAX_PARAM_LENGTH⟩

theorem LoginParams.str0_store {u : Bytes} (hu : NulFree u) (hlen : u.length < MAX_PARAM_LENGTH)
    (l : Layout) (p : Bytes) : (LoginParams.store u p).str0 l = u :=
  slotStr_strncpy_fits hu hlen _

theorem LoginParams.str1_store {p : Bytes} (hp : NulFree p) (hlen : p.length < MAX_PARAM_LENGTH)
    (l : Layout) (u : Bytes) : (LoginParams.store u p).str1 l = p :=
  slotStr_strncpy_fits hp hlen _

/-! ## Checking the parameters of a login -/

/-- One `PARAM_STR` parameter of `json_webs_check_params`. -/
def json_check_one_param (object_params : Json) (name : Bytes) : Option Bytes :=
  match json_object_object_get object_params name with
  | some (.string s) => some (cstr s)
  | _ => none

/-- `json_webs_check_params(wp, json_set_login_params, 2)`. -/
def json_webs_check_params (lib : JsonLib) (wp : WebsRec) : Option LoginParams := do
  let object_post_data ← lib.json_tokener_parse wp.postData
  let object_params ← json_object_object_get object_post_data (bytes "params")
  let userName ← json_check_one_param object_params (bytes "UserName")
  let password ← json_check_one_param object_params (bytes "Password")
  some (LoginParams.store userName password)

/-- `websGetVar`: the variable of a request, or the default. -/
def websGetVar (wp : WebsRec) (var defaultGetValue : Bytes) : Bytes :=
  ((wp.cgiVars.find? fun v => v.1 = var).map Prod.snd).getD defaultGetValue

/-- One `PARAM_STR` parameter of `tn_webs_check_params`. -/
def tn_check_one_param (wp : WebsRec) (name : Bytes) : Option Bytes :=
  let arg := websGetVar wp name []
  if arg = [] then none else some arg

/-- `tn_webs_check_params(wp, tn_set_login_params, 2)`. -/
def tn_webs_check_params (wp : WebsRec) : Option LoginParams := do
  let userName ← tn_check_one_param wp (bytes "username")
  let password ← tn_check_one_param wp (bytes "password")
  some (LoginParams.store userName password)

/-- The decryption step of `json_webs_set_login_security`: each slot is read,
decrypted and copied back. -/
def decryptParams (l : Layout) (p : LoginParams) : LoginParams :=
  LoginParams.store (jrd_decrypt (p.str0 l)) (jrd_decrypt (p.str1 l))

/-! ## What an encrypted slot reads back as

A ciphertext of at most 31 bytes (a plaintext of at most 15) fits its slot and
decrypts to the plaintext. A longer one loses its terminator and everything from
the 17th plaintext byte on, and takes in what lies behind the slot. -/

theorem decrypt_slot_short (charSigned : Bool) {s : Bytes} (hs : NulFree s) (hlen : s.length ≤ 15)
    (after : Bytes) :
    jrd_decrypt (slotStr (strncpy (jrd_encrypt charSigned s) MAX_PARAM_LENGTH) after) = s := by
  have hfit : (jrd_encrypt charSigned s).length < MAX_PARAM_LENGTH := by
    rw [jrd_encrypt_length]
    unfold MAX_PARAM_LENGTH
    omega
  have h := jrd_decrypt_jrd_encrypt_append charSigned hs []
  rw [slotStr_strncpy_fits (jrd_encrypt_nulFree charSigned s) hfit]
  simpa [decryptFrom] using h

theorem decrypt_slot_long (charSigned : Bool) {s : Bytes} (hs : NulFree s) (hlen : 16 ≤ s.length)
    (after : Bytes) :
    jrd_decrypt (slotStr (strncpy (jrd_encrypt charSigned s) MAX_PARAM_LENGTH) after)
      = s.take 16 ++ cstr (decryptFrom 16 (cstr after)) := by
  have hfull : MAX_PARAM_LENGTH ≤ (jrd_encrypt charSigned s).length := by
    rw [jrd_encrypt_length]
    unfold MAX_PARAM_LENGTH
    omega
  have htake : (jrd_encrypt charSigned s).take MAX_PARAM_LENGTH
      = jrd_encrypt charSigned (s.take 16) := encryptFrom_take charSigned 0 16 s
  have hlen16 : (s.take 16).length = 16 := by
    rw [List.length_take]
    omega
  rw [slotStr_strncpy_full (jrd_encrypt_nulFree charSigned s) hfull, htake,
    jrd_decrypt_jrd_encrypt_append charSigned (hs.take 16), hlen16]

/-- A long ciphertext is read back wrongly for one of two contents of the memory
behind the slot: a terminator there loses everything from the 17th byte on, and a byte
0x41 adds a byte to a plaintext of 16. -/
theorem decrypt_slot_long_ne (charSigned : Bool) {s : Bytes} (hs : NulFree s)
    (hlen : 16 ≤ s.length) (rest : Bytes) :
    ∃ behind : Bytes, ∃ w : Bytes,
      jrd_decrypt (slotStr (strncpy (jrd_encrypt charSigned s) MAX_PARAM_LENGTH) (behind ++ rest)) = w
        ∧ w ≠ s ∧ NulFree w ∧ w.length < MAX_PARAM_LENGTH := by
  by_cases h16 : s.length = 16
  · have hc : cstr ([0x41, 0] ++ rest) = [0x41] := by simp [cstr]
    have hjunk : (cstr (decryptFrom 16 [0x41])).length = 1 := by decide
    refine ⟨[0x41, 0], _, decrypt_slot_long charSigned hs hlen _, ?_, ?_, ?_⟩
    · rw [hc, List.take_of_length_le (by omega)]
      intro h
      have hnil := List.append_right_eq_self.mp h
      rw [hnil] at hjunk
      cases hjunk
    · exact (hs.take 16).append (cstr_nulFree _)
    · rw [hc, List.length_append, List.length_take, hjunk]
      unfold MAX_PARAM_LENGTH
      omega
  · have hc : cstr ([0] ++ rest) = [] := cstr_zero_cons rest
    have hjunk : cstr (decryptFrom 16 []) = [] := rfl
    refine ⟨[0], _, decrypt_slot_long charSigned hs hlen _, ?_, ?_, ?_⟩
    · rw [hc, hjunk, List.append_nil]
      intro h
      have hl := congrArg List.length h
      rw [List.length_take] at hl
      omega
    · exact (hs.take 16).append (cstr_nulFree _)
    · rw [hc, hjunk, List.append_nil, List.length_take]
      unfold MAX_PARAM_LENGTH
      omega

end TestCore.Webs
