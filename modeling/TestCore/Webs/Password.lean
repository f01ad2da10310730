/-
Changing the password: `webs_set_password` of `webs_define.c` and the three handlers
that reach it, `tn_webs_set_password`, `json_webs_set_password` and
`json_webs_change_password`.

`g_webs_data` is modelled as the memory it occupies. The password has 32 bytes there,
`original_password` follows it and the numbers follow that, and `strcpy` asks none of
them. The handlers differ in how a submitted string gets to `webs_set_password`: a form
variable is handed over as it is, a JSON string goes through a 32-byte slot, and with
`webs_pw_username_encrypt` what is read from the slot is decrypted.

The old password is to be known to whoever sets a new one. `webs_set_password` compares
it, and the new one with the original, only if it is not empty, and never measures the
new one. The main theorem says for which requests that shows.
-/
import TestCore.Lib.Struct
import TestCore.Webs.Params

set_option autoImplicit false

namespace TestCore.Webs

open TestCore.Lib

/-! ## The configuration in memory -/

/-- The fields of `jrd_webs_pridata_t`, up to the last one that is read here. -/
inductive PriField where
  | username
  | password
  | original_password
  | lock_web_ui
  | max_retry_times
  | unlock_time
  | remember_usrpwd
  | usrpwd_changed
  | free_access
  | webs_security
  | webs_security_nologin
  | webs_unconnected_redirect
  | webs_uipwstate
  | webs_recover_time
  | json_method_login_check
  | json_method_token_check
  | webs_pw_username_encrypt
  deriving DecidableEq, Repr

def pridataDecl : Decl PriField where
  fields :=
    [(.username, 32, 1), (.password, 32, 1), (.original_password, 32, 1), (.lock_web_ui, 4, 4),
      (.max_retry_times, 4, 4), (.unlock_time, 4, 4), (.remember_usrpwd, 4, 4),
      (.usrpwd_changed, 4, 4), (.free_access, 4, 4), (.webs_security, 4, 4),
      (.webs_security_nologin, 4, 4), (.webs_unconnected_redirect, 4, 4), (.webs_uipwstate, 4, 4),
      (.webs_recover_time, 4, 4), (.json_method_login_check, 4, 4),
      (.json_method_token_check, 4, 4), (.webs_pw_username_encrypt, 4, 4)]
  align_pos := by simp

/-- `g_webs_data`: the memory from its first byte on, with whatever lies behind it. -/
structure Pridata where
  mem : Bytes
  sized : structSize pridataDecl ≤ mem.length

/-- A field read as a string. -/
def Pridata.str (d : Pridata) (f : PriField) : Bytes := cstr (d.mem.drop (offset pridataDecl f))

/-- A field read as an `int`. It is only compared with 0 and 1. -/
def Pridata.int (arch : Arch) (d : Pridata) (f : PriField) : ℕ :=
  arch.val (readAt d.mem (offset pridataDecl f) 4)

theorem offset_le_structSize (f : PriField) : offset pridataDecl f ≤ structSize pridataDecl := by
  cases f <;> decide

/-- `strcpy` to a field: the string and its terminator, however much room there is. -/
def Pridata.strcpy (d : Pridata) (f : PriField) (src : Bytes) : Pridata where
  mem := writeAt d.mem (offset pridataDecl f) (src ++ [0])
  sized := by
    have hoff := offset_le_structSize f
    have hsized := d.sized
    unfold writeAt
    simp only [List.length_append, List.length_take, List.length_drop]
    omega

/-- A copied string is read back, also when it has run over its field. -/
theorem Pridata.str_strcpy (d : Pridata) (f : PriField) {src : Bytes} (hsrc : NulFree src) :
    (d.strcpy f src).str f = src := by
  have hlen : (d.mem.take (offset pridataDecl f)).length = offset pridataDecl f :=
    List.length_take_of_le ((offset_le_structSize f).trans d.sized)
  have hmem : (d.strcpy f src).mem = d.mem.take (offset pridataDecl f) ++ (src ++ [0])
      ++ d.mem.drop (offset pridataDecl f + (src ++ [0]).length) := rfl
  unfold Pridata.str
  rw [hmem, List.append_assoc, List.drop_left' hlen, List.append_assoc, cstr_append hsrc,
    List.singleton_append, cstr_zero_cons, List.append_nil]

/-! ## `webs_set_password` -/

def WEBS_SET_PSW_SUCCESS : Int := 0
def WEBS_SET_PSW_FAILED : Int := 1
def WEBS_SET_PSW_WRONG_PASSWD : Int := 2
def WEBS_SET_PSW_ORIGINAL_PASSWD : Int := 3
def WEBS_GET_UIPARA_WRONG : Int := 3
def WEBS_SET_SUCCESS : Int := 0

/-- What `webs_set_password` returns and leaves, with the command it runs. -/
structure SetPassword where
  ret : Int
  g_webs_data : Pridata
  cmd : Option Bytes := none

/-- The `cmd[128]` that `snprintf` fills. -/
def smbpasswdCmd (newpasswd : Bytes) : Bytes :=
  let path := bytes "/jrd-resource/resource/jrdcfg/smbpasswd"
  (bytes "echo " ++ newpasswd ++ bytes " > " ++ path ++ bytes ";echo " ++ newpasswd
    ++ bytes " >> " ++ path).take 127

/-- `webs_set_password` from its `strcpy` on. `update` is the result of
`webs_update_database(E_WEBS_PARAM_PASSWORD)`. -/
def storePassword (update : Int) (g_webs_data : Pridata) (newpasswd : Bytes) : SetPassword :=
  let d := g_webs_data.strcpy .password newpasswd
  -- The memory is changed before the database is asked, and stays so if it refuses.
  if update = 0 then ⟨WEBS_SET_PSW_SUCCESS, d, some (smbpasswdCmd newpasswd)⟩
  else ⟨WEBS_SET_PSW_FAILED, d, none⟩

/-- `webs_set_password`. No caller passes `NULL`. -/
def webs_set_password (update : Int) (g_webs_data : Pridata) (oldpasswd newpasswd : Bytes) :
    SetPassword :=
  if newpasswd ≠ [] then
    if oldpasswd ≠ [] then
      if oldpasswd ≠ g_webs_data.str .password then ⟨WEBS_SET_PSW_WRONG_PASSWD, g_webs_data, none⟩
      else if g_webs_data.str .original_password = newpasswd then
        ⟨WEBS_SET_PSW_ORIGINAL_PASSWD, g_webs_data, none⟩
      -- Only here have both comparisons been made.
      else storePassword update g_webs_data newpasswd
    else storePassword update g_webs_data newpasswd
  else ⟨WEBS_GET_UIPARA_WRONG, g_webs_data, none⟩

theorem storePassword_data (update : Int) (d : Pridata) (newpasswd : Bytes) :
    (storePassword update d newpasswd).g_webs_data = d.strcpy .password newpasswd := by
  unfold storePassword
  dsimp only
  split_ifs
  · rfl
  · rfl

/-- **When the password changes.** The new one is given and is another one; and there is
no old one given, or it is right and the new one is not the original. -/
theorem webs_set_password_changes (update : Int) (d : Pridata) (oldpasswd : Bytes)
    {newpasswd : Bytes} (hnew : NulFree newpasswd) :
    (webs_set_password update d oldpasswd newpasswd).g_webs_data.str .password ≠ d.str .password ↔
      newpasswd ≠ [] ∧ newpasswd ≠ d.str .password ∧
        (oldpasswd = [] ∨
          oldpasswd = d.str .password ∧ newpasswd ≠ d.str .original_password) := by
  have hstored : (storePassword update d newpasswd).g_webs_data.str .password = newpasswd := by
    rw [storePassword_data]
    exact d.str_strcpy .password hnew
  unfold webs_set_password
  by_cases hempty : newpasswd = []
  · rw [if_neg (not_not.mpr hempty)]
    exact ⟨fun h => absurd rfl h, fun h => absurd hempty h.1⟩
  -- The order of the tests is that of the source: new, old, current, original.
  rw [if_pos hempty]
  by_cases hold : oldpasswd = []
  · rw [if_neg (not_not.mpr hold), hstored]
    exact ⟨fun h => ⟨hempty, h, Or.inl hold⟩, fun h => h.2.1⟩
  rw [if_pos hold]
  by_cases hwrong : oldpasswd = d.str .password
  · rw [if_neg (not_not.mpr hwrong)]
    by_cases horig : d.str .original_password = newpasswd
    · rw [if_pos horig]
      refine ⟨fun h => absurd rfl h, ?_⟩
      rintro ⟨-, -, h | h⟩
      · exact absurd h hold
      · exact absurd horig.symm h.2
    · rw [if_neg horig, hstored]
      exact ⟨fun h => ⟨hempty, h, Or.inr ⟨hwrong, fun h' => horig h'.symm⟩⟩, fun h => h.2.1⟩
  · rw [if_pos hwrong]
    refine ⟨fun h => absurd rfl h, ?_⟩
    rintro ⟨-, -, h | h⟩
    · exact absurd h hold
    · exact absurd h.1 hwrong

/-! ## The three handlers -/

/-- The slots of `json_set_passwd_params`. -/
structure PasswdParams where
  userName : Bytes
  currPassword : Bytes
  newPassword : Bytes
  deriving DecidableEq, Repr

/-- What follows the second and the third slot: the `name` pointer of the third element
and its `type`, and whatever lies behind the array. -/
structure PasswdLayout where
  name2 : Bytes
  after : Bytes
  deriving DecidableEq, Repr

/-- `json_set_passwd_params[1].u.str` read as a string. -/
def PasswdParams.str1 (l : PasswdLayout) (p : PasswdParams) : Bytes :=
  slotStr p.currPassword (l.name2 ++ [1, 0, 0, 0])

/-- `json_set_passwd_params[2].u.str` read as a string. -/
def PasswdParams.str2 (l : PasswdLayout) (p : PasswdParams) : Bytes := slotStr p.newPassword l.after

/-- The strings of a body that `json_webs_check_params` accepts for
`json_set_passwd_params`. -/
def passwdTexts (lib : JsonLib) (wp : WebsRec) : Option (Bytes × Bytes × Bytes) := do
  let object_post_data ← lib.json_tokener_parse wp.postData
  let object_params ← json_object_object_get object_post_data (bytes "params")
  let userName ← json_check_one_param object_params (bytes "UserName")
  let currPassword ← json_check_one_param object_params (bytes "CurrPassword")
  let newPassword ← json_check_one_param object_params (bytes "NewPassword")
  some (userName, currPassword, newPassword)

/-- `json_webs_check_params(wp, json_set_passwd_params, 3)`: the same strings, each copied to
its slot. -/
def json_check_passwd_params (lib : JsonLib) (wp : WebsRec) : Option PasswdParams :=
  (passwdTexts lib wp).map fun t =>
    ⟨strncpy t.1 MAX_PARAM_LENGTH, strncpy t.2.1 MAX_PARAM_LENGTH, strncpy t.2.2 MAX_PARAM_LENGTH⟩

/-- What the handlers meet outside of the request: json-c, the machine, the memory around
the slots, and the database's answer. -/
structure PasswordEnv where
  lib : JsonLib
  arch : Arch
  layout : PasswdLayout
  update : Int

/-- What a handler writes to the connection. -/
inductive PasswordRsp where
  /-- `{"set_psw_res":…,"error":…}`. -/
  | tn (set_psw_res set_res : Int)
  /-- `json_webs_rsp_err`, or the result if the code is 0. -/
  | json (error_code : Int)
  deriving DecidableEq, Repr

/-- What a handler leaves: the answer, the configuration, and the command that was run. -/
structure PasswordReply where
  rsp : PasswordRsp
  g_webs_data : Pridata
  cmd : Option Bytes := none

/-- `tn_webs_set_password`. -/
def tn_webs_set_password (env : PasswordEnv) (g_webs_data : Pridata) (wp : WebsRec) : PasswordReply :=
  if g_webs_data.int env.arch .webs_security = 1 ∧ wp.token_flag = 0 then
    ⟨.tn WEBS_SET_PSW_SUCCESS 255, g_webs_data, none⟩
  else
    let oldpasswd := cstr (websGetVar wp (bytes "oldPassword") [])
    let newpasswd := cstr (websGetVar wp (bytes "newPassword") [])
    let r := webs_set_password env.update g_webs_data oldpasswd newpasswd
    ⟨.tn r.ret WEBS_SET_SUCCESS, r.g_webs_data, r.cmd⟩

/-- `json_webs_set_password`. -/
def json_webs_set_password (env : PasswordEnv) (g_webs_data : Pridata) (wp : WebsRec) :
    PasswordReply :=
  match json_check_passwd_params env.lib wp with
  | none => ⟨.json (-32700), g_webs_data, none⟩
  | some p =>
      let r := webs_set_password env.update g_webs_data (p.str1 env.layout) (p.str2 env.layout)
      let error_code :=
        if r.ret = WEBS_SET_PSW_WRONG_PASSWD then 10402
        -- `WEBS_SET_PSW_ORIGINAL_PASSWD` has no code of its own here.
        else if r.ret = WEBS_SET_PSW_SUCCESS then 0
        else 10401
      ⟨.json error_code, r.g_webs_data, r.cmd⟩

/-- `json_webs_change_password`. -/
def json_webs_change_password (env : PasswordEnv) (g_webs_data : Pridata) (wp : WebsRec) :
    PasswordReply :=
  match json_check_passwd_params env.lib wp with
  | none => ⟨.json (-32700), g_webs_data, none⟩
  | some p =>
      let r :=
        if g_webs_data.int env.arch .webs_pw_username_encrypt ≠ 0 then
          webs_set_password env.update g_webs_data (jrd_decrypt (p.str1 env.layout))
            (jrd_decrypt (p.str2 env.layout))
        else webs_set_password env.update g_webs_data (p.str1 env.layout) (p.str2 env.layout)
      let error_code :=
        if r.ret = WEBS_SET_PSW_WRONG_PASSWD then 10402
        else if r.ret = WEBS_SET_PSW_SUCCESS then 0
        else if r.ret = WEBS_SET_PSW_ORIGINAL_PASSWD then 10403
        else 10401
      ⟨.json error_code, r.g_webs_data, r.cmd⟩

/-- The ways to `webs_set_password`. -/
inductive PasswordRoute where
  | tn
  | jsonSet
  | jsonChange
  deriving DecidableEq, Repr

def PasswordRoute.handle : PasswordRoute → PasswordEnv → Pridata → WebsRec → PasswordReply
  | .tn => tn_webs_set_password
  | .jsonSet => json_webs_set_password
  | .jsonChange => json_webs_change_password

/-! ## What is submitted, and what is handed over -/

/-- The old and the new password of a request. -/
def PasswordRoute.submitted (env : PasswordEnv) (g_webs_data : Pridata) (wp : WebsRec) :
    PasswordRoute → Option (Bytes × Bytes)
  | .tn => some (cstr (websGetVar wp (bytes "oldPassword") []),
      cstr (websGetVar wp (bytes "newPassword") []))
  | .jsonSet => (passwdTexts env.lib wp).map Prod.snd
  | .jsonChange => (passwdTexts env.lib wp).map fun t =>
      if g_webs_data.int env.arch .webs_pw_username_encrypt ≠ 0 then
        (jrd_decrypt t.2.1, jrd_decrypt t.2.2)
      else t.2

/-- A string after its way through the second slot. -/
def slot1 (l : PasswdLayout) (s : Bytes) : Bytes :=
  slotStr (strncpy s MAX_PARAM_LENGTH) (l.name2 ++ [1, 0, 0, 0])

/-- A string after its way through the third slot. -/
def slot2 (l : PasswdLayout) (s : Bytes) : Bytes := slotStr (strncpy s MAX_PARAM_LENGTH) l.after

/-- The two strings that `webs_set_password` is called with, if it is. -/
def PasswordRoute.handed (env : PasswordEnv) (g_webs_data : Pridata) (wp : WebsRec) :
    PasswordRoute → Option (Bytes × Bytes)
  | .tn =>
      if g_webs_data.int env.arch .webs_security = 1 ∧ wp.token_flag = 0 then none
      else some (cstr (websGetVar wp (bytes "oldPassword") []),
        cstr (websGetVar wp (bytes "newPassword") []))
  | .jsonSet => (passwdTexts env.lib wp).map fun t => (slot1 env.layout t.2.1, slot2 env.layout t.2.2)
  | .jsonChange => (passwdTexts env.lib wp).map fun t =>
      if g_webs_data.int env.arch .webs_pw_username_encrypt ≠ 0 then
        (jrd_decrypt (slot1 env.layout t.2.1), jrd_decrypt (slot2 env.layout t.2.2))
      else (slot1 env.layout t.2.1, slot2 env.layout t.2.2)

/-- Each handler is its way of decoding and then `webs_set_password`. -/
theorem handle_eq (route : PasswordRoute) (env : PasswordEnv) (d : Pridata) (wp : WebsRec) :
    ((route.handle env d wp).g_webs_data, (route.handle env d wp).cmd) =
      match route.handed env d wp with
      | none => (d, none)
      | some (old, new) => ((webs_set_password env.update d old new).g_webs_data,
          (webs_set_password env.update d old new).cmd) := by
  cases route with
  | tn =>
      unfold PasswordRoute.handle PasswordRoute.handed tn_webs_set_password
      by_cases h : d.int env.arch .webs_security = 1 ∧ wp.token_flag = 0
      · simp only [if_pos h]
      · simp only [if_neg h]
  | jsonSet =>
      show ((json_webs_set_password env d wp).g_webs_data, (json_webs_set_password env d wp).cmd) = _
      unfold PasswordRoute.handed json_webs_set_password json_check_passwd_params
      rcases passwdTexts env.lib wp with _ | t
      · rfl
      · rfl
  | jsonChange =>
      show ((json_webs_change_password env d wp).g_webs_data,
        (json_webs_change_password env d wp).cmd) = _
      unfold PasswordRoute.handed json_webs_change_password json_check_passwd_params
      rcases passwdTexts env.lib wp with _ | t
      · rfl
      · by_cases h : d.int env.arch .webs_pw_username_encrypt ≠ 0
        · simp only [Option.map_some, if_pos h]
          rfl
        · simp only [Option.map_some, if_neg h]
          rfl

theorem handle_data (route : PasswordRoute) (env : PasswordEnv) (d : Pridata) (wp : WebsRec) :
    (route.handle env d wp).g_webs_data =
      match route.handed env d wp with
      | none => d
      | some (old, new) => (webs_set_password env.update d old new).g_webs_data := by
  have h := congrArg Prod.fst (handle_eq route env d wp)
  rcases hhanded : route.handed env d wp with _ | ⟨old, new⟩
  · rw [hhanded] at h
    exact h
  · rw [hhanded] at h
    exact h

/-- A slot neither makes an empty string nor loses one. -/
theorem slotStr_strncpy_eq_nil {s : Bytes} (hs : NulFree s) (after : Bytes) :
    slotStr (strncpy s MAX_PARAM_LENGTH) after = [] ↔ s = [] := by
  rcases lt_or_ge s.length MAX_PARAM_LENGTH with hlt | hge
  · rw [slotStr_strncpy_fits hs hlt]
  · obtain ⟨c, s, rfl⟩ : ∃ c t, s = c :: t := by
      apply List.exists_cons_of_ne_nil
      rintro rfl
      exact absurd hge (by decide)
    rw [slotStr_strncpy_full hs hge]
    simp [MAX_PARAM_LENGTH]

/-- The first two characters decide whether a decrypted string is empty. -/
theorem jrd_decrypt_cons_cons_eq_nil (a b : UInt8) (s : Bytes) :
    jrd_decrypt (a :: b :: s) = [] ↔ decryptByte a b (keyAt 0) = 0 := by
  unfold jrd_decrypt decryptFrom cstr
  simp [List.takeWhile_cons]

theorem jrd_decrypt_slotStr_eq_nil {s : Bytes} (hs : NulFree s) (after : Bytes) :
    jrd_decrypt (slotStr (strncpy s MAX_PARAM_LENGTH) after) = [] ↔ jrd_decrypt s = [] := by
  rcases lt_or_ge s.length MAX_PARAM_LENGTH with hlt | hge
  · rw [slotStr_strncpy_fits hs hlt]
  · rw [slotStr_strncpy_full hs hge]
    rcases s with _ | ⟨a, _ | ⟨b, s⟩⟩
    · exact absurd hge (by decide)
    · exact absurd hge (by simp [MAX_PARAM_LENGTH])
    · have htake : (a :: b :: s).take MAX_PARAM_LENGTH ++ cstr after
          = a :: b :: (s.take 30 ++ cstr after) := rfl
      rw [htake, jrd_decrypt_cons_cons_eq_nil, jrd_decrypt_cons_cons_eq_nil]

theorem json_check_one_param_nulFree {object_params : Json} {name s : Bytes}
    (h : json_check_one_param object_params name = some s) : NulFree s := by
  unfold json_check_one_param at h
  split at h
  · rw [← Option.some.inj h]
    exact cstr_nulFree _
  · exact absurd h nofun

theorem passwdTexts_nulFree {lib : JsonLib} {wp : WebsRec} {t : Bytes × Bytes × Bytes}
    (h : passwdTexts lib wp = some t) : NulFree t.2.1 ∧ NulFree t.2.2 := by
  unfold passwdTexts at h
  simp only [Option.bind_eq_bind, Option.bind_eq_some_iff, Option.some.injEq] at h
  obtain ⟨_, -, _, -, _, -, curr, hcurr, new, hnew, rfl⟩ := h
  exact ⟨json_check_one_param_nulFree hcurr, json_check_one_param_nulFree hnew⟩

/-- The strings that are handed over belong to submitted ones that are empty when they are. -/
structure Handed (old new old' new' : Bytes) : Prop where
  old_nil : old' = [] ↔ old = []
  new_nil : new' = [] ↔ new = []
  nulFree : NulFree new'

theorem submitted_of_handed {route : PasswordRoute} {env : PasswordEnv} {d : Pridata} {wp : WebsRec}
    {old' new' : Bytes} (h : route.handed env d wp = some (old', new')) :
    ∃ old new, route.submitted env d wp = some (old, new) ∧ Handed old new old' new' := by
  cases route with
  | tn =>
      rw [PasswordRoute.handed] at h
      split_ifs at h
      obtain ⟨rfl, rfl⟩ := Prod.mk.inj (Option.some.inj h)
      exact ⟨_, _, rfl, Iff.rfl, Iff.rfl, cstr_nulFree _⟩
  | jsonSet =>
      obtain ⟨t, ht, heq⟩ := Option.map_eq_some_iff.mp h
      obtain ⟨hcurr, hnew⟩ := passwdTexts_nulFree ht
      obtain ⟨rfl, rfl⟩ := Prod.mk.inj heq
      refine ⟨t.2.1, t.2.2, ?_, slotStr_strncpy_eq_nil hcurr _, slotStr_strncpy_eq_nil hnew _,
        cstr_nulFree _⟩
      rw [PasswordRoute.submitted, ht]
      rfl
  | jsonChange =>
      obtain ⟨t, ht, heq⟩ := Option.map_eq_some_iff.mp h
      obtain ⟨hcurr, hnew⟩ := passwdTexts_nulFree ht
      rw [PasswordRoute.submitted, ht, Option.map_some]
      by_cases henc : d.int env.arch .webs_pw_username_encrypt ≠ 0
      · rw [if_pos henc] at heq ⊢
        obtain ⟨rfl, rfl⟩ := Prod.mk.inj heq
        exact ⟨_, _, rfl, jrd_decrypt_slotStr_eq_nil hcurr _, jrd_decrypt_slotStr_eq_nil hnew _,
          cstr_nulFree _⟩
      · rw [if_neg henc] at heq ⊢
        obtain ⟨rfl, rfl⟩ := Prod.mk.inj heq
        exact ⟨_, _, rfl, slotStr_strncpy_eq_nil hcurr _, slotStr_strncpy_eq_nil hnew _,
          cstr_nulFree _⟩

/-! ## Who may change the password -/

/-- A request changes the password only if it submits the current one and a new one that is
not empty, is not the original, and fits the field with its terminator. -/
def NeedsOldPassword (route : PasswordRoute) (env : PasswordEnv) (d : Pridata) (wp : WebsRec) : Prop :=
  (route.handle env d wp).g_webs_data.str .password ≠ d.str .password →
    ∃ old new, route.submitted env d wp = some (old, new) ∧ old = d.str .password ∧ new ≠ [] ∧
      new ≠ d.str .original_password ∧ new.length < fieldSize pridataDecl .password

/-- The requests that are not stopped. They hand over a new password `new'` that is another
one, and either submit no old password, so that nothing is compared, or pass both
comparisons although the submitted `new` is too long or one of the two strings was changed
by its slot. -/
def Unguarded (d : Pridata) (old new old' new' : Bytes) : Prop :=
  new' ≠ [] ∧ new' ≠ d.str .password ∧
    (old = [] ∧ (d.str .password ≠ [] ∨ new = d.str .original_password ∨
        fieldSize pridataDecl .password ≤ new.length) ∨
      old ≠ [] ∧ old' = d.str .password ∧ new' ≠ d.str .original_password ∧
        (old ≠ old' ∨ new = d.str .original_password ∨
          fieldSize pridataDecl .password ≤ new.length))

/-- **Changing the password.** The old password is needed, and the new one is held to the
rules, in exactly those requests that are not `Unguarded`. -/
theorem needs_old_password_iff (route : PasswordRoute) (env : PasswordEnv) (d : Pridata)
    (wp : WebsRec) :
    NeedsOldPassword route env d wp ↔
      ∀ old new old' new', route.submitted env d wp = some (old, new) →
        route.handed env d wp = some (old', new') → ¬ Unguarded d old new old' new' := by
  have hdata := handle_data route env d wp
  unfold NeedsOldPassword
  rcases hhanded : route.handed env d wp with _ | ⟨old', new'⟩
  · -- Nothing is handed over, and nothing changes.
    rw [hhanded] at hdata
    rw [hdata]
    exact ⟨fun _ _ _ _ _ _ h => absurd h nofun, fun _ h => absurd rfl h⟩
  rw [hhanded] at hdata
  obtain ⟨old, new, hsub, hold, hnew, hnul⟩ := submitted_of_handed hhanded
  rw [hdata, webs_set_password_changes env.update d old' hnul]
  constructor
  · intro hneeds old₁ new₁ old₁' new₁' hsub₁ hhanded₁
    obtain ⟨rfl, rfl⟩ := Prod.mk.inj (Option.some.inj (hsub.symm.trans hsub₁))
    obtain ⟨rfl, rfl⟩ := Prod.mk.inj (Option.some.inj hhanded₁)
    -- The request changes the password; what the law then says of it contradicts each of the slips.
    rintro ⟨hgiven, hother, ⟨hempty, hbad⟩ | ⟨-, hcurr, horig, hbad⟩⟩
    · obtain ⟨o, n, heq, hcurr, -, horig, hfits⟩ := hneeds ⟨hgiven, hother, Or.inl (hold.mpr hempty)⟩
      obtain ⟨rfl, rfl⟩ := Prod.mk.inj (Option.some.inj (hsub.symm.trans heq))
      rcases hbad with h | h | h
      · exact h (hcurr ▸ hempty)
      · exact horig h
      · omega
    · obtain ⟨o, n, heq, hcurr', -, horig', hfits⟩ :=
        hneeds ⟨hgiven, hother, Or.inr ⟨hcurr, horig⟩⟩
      obtain ⟨rfl, rfl⟩ := Prod.mk.inj (Option.some.inj (hsub.symm.trans heq))
      rcases hbad with h | h | h
      · exact h (hcurr'.trans hcurr.symm)
      · exact horig' h
      · omega
  · rintro hguarded ⟨hgiven, hother, hpass⟩
    have hnot := hguarded old new old' new' hsub rfl
    refine ⟨old, new, hsub, ?_⟩
    unfold Unguarded at hnot
    simp only [not_and, not_or, not_not, not_le] at hnot
    obtain ⟨hnone, hboth⟩ := hnot hgiven hother
    -- An empty string is handed over as an empty one, so what is not empty was not so before.
    have hnew' : new ≠ [] := fun h => hgiven (hnew.mpr h)
    by_cases hempty : old = []
    · obtain ⟨hcurr, horig, hfits⟩ := hnone hempty
      exact ⟨hempty.trans hcurr.symm, hnew', horig, hfits⟩
    · obtain ⟨hcurr, horig⟩ := hpass.resolve_left fun h => hempty (hold.mp h)
      obtain ⟨hsame, horig', hfits⟩ := hboth hempty hcurr horig
      exact ⟨hsame.trans hcurr, hnew', horig', hfits⟩

/-- A field of 32 bytes with a string in it. -/
def slot32 (s : String) : Bytes := strncpy (bytes s) 32

/-- `g_webs_data` with a given password, on which no check is enabled. -/
def passwordData (password : String) : Pridata where
  mem := slot32 "admin" ++ slot32 password ++ slot32 "Default1" ++ List.replicate 200 0
  sized := by
    simp only [List.length_append, List.length_replicate]
    exact le_trans (by decide) (Nat.le_add_left 200 _)

/-- A form with a new password and no old one. -/
def newPasswordOnly : WebsRec where
  ipaddr := bytes "192.168.1.100"
  cgiVars := [(bytes "newPassword", bytes "guessed")]

/-- Without an old password the new one is taken. -/
theorem empty_old_password_suffices :
    ¬ ∀ (route : PasswordRoute) (env : PasswordEnv) (d : Pridata) (wp : WebsRec),
      NeedsOldPassword route env d wp := by
  intro hall
  have hneeds := hall .tn ⟨⟨fun _ => none, fun _ => []⟩, ⟨false, false⟩, ⟨[], []⟩, 0⟩
    (passwordData "Secret01") newPasswordOnly
  obtain ⟨old, new, hsub, hold, -⟩ := hneeds (by decide)
  have hnone : old = [] := (Prod.mk.inj (Option.some.inj hsub)).1.symm.trans (by decide)
  rw [hnone] at hold
  revert hold
  decide

end TestCore.Webs
