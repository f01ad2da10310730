/-
Credentials in memory and in the database: `webs_set_password`, `json_webs_init_password`
and `tn_webs_set_login_userpw` of `webs_define.c`.

Each of them copies to `g_webs_data` first and then asks the database to store, once, twice
or three times, and any of these calls may fail. A failed change should leave the memory as
it was, and a successful one should leave the same new values in the memory and in the
database (`Atomic`). No handler takes a copy back, the last call of a series is not looked
at, and `strcpy` does not stop at the end of a field; the main theorem says which requests
do not show it.

The database library is not part of the repository. A call that returns 0 has stored the
value of the field, a call that returns anything else has stored nothing.
-/
import TestCore.Webs.Password

set_option autoImplicit false

namespace TestCore.Webs

open TestCore.Lib

/-! ## The database -/

/-- The ids of `e_jrd_webs_param_id` that the three functions update. -/
inductive WebsParamId where
  | USER_NAME
  | PASSWORD
  | USRPWD_CHANGED
  | UIPWSTATE
  deriving DecidableEq, Repr

/-- What the database has for these ids. -/
structure Database where
  username : Bytes
  password : Bytes
  usrpwd_changed : ℕ
  webs_uipwstate : ℕ
  deriving DecidableEq, Repr

/-- What the three functions meet outside of the request: json-c, the machine, the memory
behind the slot of `json_init_passwd_params`, and the database library. -/
structure CredentialEnv where
  lib : JsonLib
  arch : Arch
  after : Bytes
  /-- What `webs_update_database` returns. No request updates an id twice. -/
  rc : WebsParamId → Int
  /-- The text that the database has after it has stored a `char` array with this string. -/
  stored : Bytes → Bytes
  /-- A string that ends within the array is stored as it is. -/
  stored_eq : ∀ s : Bytes, NulFree s → s.length < 32 → stored s = s

/-- The database after `webs_update_database`. Two rows of its table have the id `UIPWSTATE`;
the other one is `webs_recover_time`. -/
def webs_update_database (env : CredentialEnv) (d : Pridata) (param_id : WebsParamId)
    (db : Database) : Database :=
  if env.rc param_id = 0 then
    match param_id with
    | .USER_NAME => { db with username := env.stored (d.str .username) }
    | .PASSWORD => { db with password := env.stored (d.str .password) }
    | .USRPWD_CHANGED => { db with usrpwd_changed := d.int env.arch .usrpwd_changed }
    | .UIPWSTATE => { db with webs_uipwstate := d.int env.arch .webs_uipwstate }
  else db

/-- An assignment to an `int` of `g_webs_data`. -/
def Pridata.setInt (arch : Arch) (d : Pridata) (f : PriField) (n : ℕ) : Pridata where
  mem := writeAt d.mem (offset pridataDecl f) (arch.bytes 4 n)
  sized := by
    have hoff := offset_le_structSize f
    have hsized := d.sized
    unfold writeAt
    simp only [List.length_append, List.length_take, List.length_drop]
    omega

/-! ## The three functions -/

/-- `E_WEBS_UI_PW_NEEDED`. -/
def E_WEBS_UI_PW_NEEDED : ℕ := 2

def WEBS_SET_FAILED : Int := 1

/-- What a request leaves: the result, the configuration and the database. -/
structure CredentialReply where
  result : Int
  g_webs_data : Pridata
  db : Database

/-- `webs_set_password` with its one call of `webs_update_database`. The call is made where
`storePassword` begins, after the copy, and 0 is what it returns exactly if the result is
`WEBS_SET_PSW_SUCCESS`. -/
def set_password (env : CredentialEnv) (g_webs_data : Pridata) (db : Database)
    (oldpasswd newpasswd : Bytes) : CredentialReply :=
  let r := webs_set_password (env.rc .PASSWORD) g_webs_data oldpasswd newpasswd
  ⟨r.ret, r.g_webs_data,
    if r.ret = WEBS_SET_PSW_SUCCESS then webs_update_database env r.g_webs_data .PASSWORD db else db⟩

/-- `json_init_passwd_params[0].u.str` of a body that `json_webs_check_params` accepts. -/
def initPasswdText (env : CredentialEnv) (wp : WebsRec) : Option Bytes := do
  let object_post_data ← env.lib.json_tokener_parse wp.postData
  let object_params ← json_object_object_get object_post_data (bytes "params")
  let password ← json_check_one_param object_params (bytes "password")
  some (slotStr (strncpy password MAX_PARAM_LENGTH) env.after)

/-- `json_webs_init_password`. The code is written with a leading zero, so it is octal. -/
def json_webs_init_password (env : CredentialEnv) (g_webs_data : Pridata) (db : Database)
    (wp : WebsRec) : CredentialReply :=
  if g_webs_data.int env.arch .webs_uipwstate = E_WEBS_UI_PW_NEEDED then ⟨0o12101, g_webs_data, db⟩
  else
    match initPasswdText env wp with
    | none => ⟨-32700, g_webs_data, db⟩
    | some text =>
        let password := jrd_decrypt text
        if password ≠ [] then
          let d := g_webs_data.strcpy .password password
          let db := webs_update_database env d .PASSWORD db
          if env.rc .PASSWORD = 0 then
            let d := d.setInt env.arch .webs_uipwstate E_WEBS_UI_PW_NEEDED
            -- What this call returns is not looked at.
            ⟨WEBS_SET_PSW_SUCCESS, d, webs_update_database env d .UIPWSTATE db⟩
          else ⟨0o12101, d, db⟩
        else ⟨0o12101, g_webs_data, db⟩

/-- `tn_webs_set_login_userpw`. -/
def tn_webs_set_login_userpw (env : CredentialEnv) (g_webs_data : Pridata) (db : Database)
    (wp : WebsRec) : CredentialReply :=
  if g_webs_data.int env.arch .webs_security = 1 ∧ wp.token_flag = 0 then ⟨255, g_webs_data, db⟩
  else
    let new_psw := cstr (websGetVar wp (bytes "newPassword") [])
    let new_usr := cstr (websGetVar wp (bytes "newUsername") [])
    if new_psw ≠ [] ∧ new_usr ≠ [] then
      let d := (g_webs_data.strcpy .password new_psw).strcpy .username new_usr
      -- The second update is made also when the first has failed.
      let db := webs_update_database env d .PASSWORD db
      let db := webs_update_database env d .USER_NAME db
      if env.rc .PASSWORD = 0 ∧ env.rc .USER_NAME = 0 then
        let d := d.setInt env.arch .usrpwd_changed 1
        -- What this call returns is not looked at.
        ⟨WEBS_SET_SUCCESS, d, webs_update_database env d .USRPWD_CHANGED db⟩
      else ⟨WEBS_SET_FAILED, d, db⟩
    else ⟨WEBS_GET_UIPARA_WRONG, g_webs_data, db⟩

/-- A request to one of the three. The arguments of `webs_set_password` are pointers to
strings. -/
inductive CredentialRequest where
  | setPassword (oldpasswd newpasswd : Bytes)
  | initPassword (wp : WebsRec)
  | setLoginUserpw (wp : WebsRec)

def CredentialRequest.handle (env : CredentialEnv) (d : Pridata) (db : Database) :
    CredentialRequest → CredentialReply
  | .setPassword oldpasswd newpasswd => set_password env d db (cstr oldpasswd) (cstr newpasswd)
  | .initPassword wp => json_webs_init_password env d db wp
  | .setLoginUserpw wp => tn_webs_set_login_userpw env d db wp

/-! ## Atomic changes -/

/-- The field has the string and its terminator within its own bytes. -/
def Pridata.Holds (d : Pridata) (f : PriField) (s : Bytes) : Prop :=
  readAt d.mem (offset pridataDecl f) (s.length + 1) = s ++ [0] ∧ s.length < fieldSize pridataDecl f

/-- The credentials are as they were. -/
structure Kept (d d' : Pridata) : Prop where
  username : d'.str .username = d.str .username
  password : d'.str .password = d.str .password
  webs_uipwstate : readAt d'.mem (offset pridataDecl .webs_uipwstate) 4
    = readAt d.mem (offset pridataDecl .webs_uipwstate) 4

/-- Memory and database have the new values of a request. -/
def HasNew (env : CredentialEnv) (r : CredentialReply) : CredentialRequest → Prop
  | .setPassword _ newpasswd =>
      r.g_webs_data.Holds .password (cstr newpasswd) ∧ r.db.password = cstr newpasswd
  | .initPassword wp =>
      ∀ text, initPasswdText env wp = some text →
        (r.g_webs_data.Holds .password (jrd_decrypt text) ∧ r.db.password = jrd_decrypt text) ∧
          r.g_webs_data.int env.arch .webs_uipwstate = E_WEBS_UI_PW_NEEDED ∧
          r.db.webs_uipwstate = E_WEBS_UI_PW_NEEDED
  | .setLoginUserpw wp =>
      (r.g_webs_data.Holds .password (cstr (websGetVar wp (bytes "newPassword") [])) ∧
        r.db.password = cstr (websGetVar wp (bytes "newPassword") [])) ∧
      (r.g_webs_data.Holds .username (cstr (websGetVar wp (bytes "newUsername") [])) ∧
        r.db.username = cstr (websGetVar wp (bytes "newUsername") [])) ∧
      r.g_webs_data.int env.arch .usrpwd_changed = 1 ∧ r.db.usrpwd_changed = 1

/-- A change is made in memory and database, or it is not made in memory. -/
def Atomic (env : CredentialEnv) (d : Pridata) (db : Database) (req : CredentialRequest) : Prop :=
  ((req.handle env d db).result ≠ 0 → Kept d (req.handle env d db).g_webs_data) ∧
    ((req.handle env d db).result = 0 → HasNew env (req.handle env d db) req)

/-! ## When a change is atomic -/

/-- The requests that `webs_set_password` does not refuse. -/
def Accepted (d : Pridata) (oldpasswd newpasswd : Bytes) : Prop :=
  newpasswd ≠ [] ∧
    (oldpasswd = [] ∨ oldpasswd = d.str .password ∧ d.str .original_password ≠ newpasswd)

/-- The copy of a password: it is the old one if the database refuses it, and fits its field if
the database takes it. -/
def PasswordFine (env : CredentialEnv) (d : Pridata) (password : Bytes) : Prop :=
  (env.rc .PASSWORD ≠ 0 → password = d.str .password) ∧
    (env.rc .PASSWORD = 0 → password.length < fieldSize pridataDecl .password)

/-- Copying both changes nothing: the user name is the old one, and the password is the old one
as well. If the old user name runs on into the password, the copy of the user name restores
it, and the copied password only has to leave `webs_uipwstate`. -/
def SameUserpw (d : Pridata) (new_usr new_psw : Bytes) : Prop :=
  new_usr = d.str .username ∧
    if new_usr.length < fieldSize pridataDecl .username then new_psw = d.str .password
    else
      ∀ j, offset pridataDecl .webs_uipwstate ≤ j → j < offset pridataDecl .webs_uipwstate + 4 →
        new_usr.length < j → j ≤ offset pridataDecl .password + new_psw.length →
          (new_psw ++ [0])[j - offset pridataDecl .password]? = d.mem[j]?

/-- The requests that are handled atomically. -/
def AtomicWhen (env : CredentialEnv) (d : Pridata) (db : Database) : CredentialRequest → Prop
  | .setPassword oldpasswd newpasswd =>
      Accepted d (cstr oldpasswd) (cstr newpasswd) → PasswordFine env d (cstr newpasswd)
  | .initPassword wp =>
      d.int env.arch .webs_uipwstate ≠ E_WEBS_UI_PW_NEEDED →
        ∀ text, initPasswdText env wp = some text → jrd_decrypt text ≠ [] →
          PasswordFine env d (jrd_decrypt text) ∧
            (env.rc .PASSWORD = 0 →
              env.rc .UIPWSTATE = 0 ∨ db.webs_uipwstate = E_WEBS_UI_PW_NEEDED)
  | .setLoginUserpw wp =>
      let new_psw := cstr (websGetVar wp (bytes "newPassword") [])
      let new_usr := cstr (websGetVar wp (bytes "newUsername") [])
      ¬ (d.int env.arch .webs_security = 1 ∧ wp.token_flag = 0) → new_psw ≠ [] ∧ new_usr ≠ [] →
        if env.rc .PASSWORD = 0 ∧ env.rc .USER_NAME = 0 then
          new_psw.length < fieldSize pridataDecl .password ∧
            new_usr.length < fieldSize pridataDecl .username ∧
            (env.rc .USRPWD_CHANGED = 0 ∨ db.usrpwd_changed = 1)
        else SameUserpw d new_usr new_psw

/-! ## What is kept, and what is held -/

theorem Kept.refl (d : Pridata) : Kept d d := ⟨rfl, rfl, rfl⟩

theorem Kept.trans {d₁ d₂ d₃ : Pridata} (h : Kept d₁ d₂) (h' : Kept d₂ d₃) : Kept d₁ d₃ :=
  ⟨h'.username.trans h.username, h'.password.trans h.password,
    h'.webs_uipwstate.trans h.webs_uipwstate⟩

/-- A string that is copied over itself. -/
theorem kept_strcpy_self (d : Pridata) (f : PriField) : Kept d (d.strcpy f (d.str f)) := by
  have hsized := d.sized
  have hmem : (d.strcpy f (d.str f)).mem = d.mem ∨ (d.strcpy f (d.str f)).mem = d.mem ++ [0] :=
    writeAt_cstr_self ((offset_le_structSize f).trans d.sized)
  have hstr : ∀ g, (d.strcpy f (d.str f)).str g = d.str g := by
    intro g
    have hoff := offset_le_structSize g
    unfold Pridata.str at hmem ⊢
    rcases hmem with hmem | hmem
    · rw [hmem]
    · rw [hmem, List.drop_append_of_le_length (by omega), cstr_append_zero]
  refine ⟨hstr .username, hstr .password, ?_⟩
  rcases hmem with hmem | hmem
  · rw [hmem]
  · rw [hmem, readAt_eq_iff]
    intro j _ hj
    have hin : offset pridataDecl .webs_uipwstate + 4 ≤ structSize pridataDecl := by decide
    exact List.getElem?_append_left (by omega)

/-- A copied string is held if it fits. -/
theorem holds_strcpy (d : Pridata) {f : PriField} {s : Bytes}
    (h : s.length < fieldSize pridataDecl f) : (d.strcpy f s).Holds f s := by
  have hread := @readAt_writeAt d.mem (s ++ [0]) _ ((offset_le_structSize f).trans d.sized)
  rw [List.length_append, List.length_singleton] at hread
  exact ⟨hread, h⟩

theorem Pridata.Holds.str {d : Pridata} {f : PriField} {s : Bytes} (h : d.Holds f s)
    (hs : NulFree s) : d.str f = s := by
  have hsplit := List.take_append_drop (s.length + 1) (d.mem.drop (offset pridataDecl f))
  have hread : (d.mem.drop (offset pridataDecl f)).take (s.length + 1) = s ++ [0] := h.1
  unfold Pridata.str
  rw [← hsplit, hread, List.append_assoc, cstr_append hs, List.singleton_append, cstr_zero_cons,
    List.append_nil]

/-- A store to another place leaves what a field holds. -/
theorem Pridata.Holds.writeAt {d d' : Pridata} {f : PriField} {s b : Bytes} {i : ℕ}
    (h : d.Holds f s) (hmem : d'.mem = TestCore.Lib.writeAt d.mem i b)
    (hin : i + b.length ≤ d.mem.length)
    (hdisj : offset pridataDecl f + fieldSize pridataDecl f ≤ i ∨
      i + b.length ≤ offset pridataDecl f) : d'.Holds f s := by
  have hfits := h.2
  refine ⟨?_, h.2⟩
  rw [hmem, readAt_writeAt_of_disjoint hin (by omega)]
  exact h.1

/-- The numbers lie behind the strings. -/
theorem Pridata.Holds.setInt {arch : Arch} {d : Pridata} {f g : PriField} {s : Bytes} {n : ℕ}
    (h : d.Holds f s) (hg : offset pridataDecl g + 4 ≤ structSize pridataDecl)
    (hdisj : offset pridataDecl f + fieldSize pridataDecl f ≤ offset pridataDecl g) :
    (d.setInt arch g n).Holds f s := by
  have hsized := d.sized
  have hlen := arch.bytes_length 4 n
  exact h.writeAt rfl (by omega) (Or.inl hdisj)

theorem int_setInt (arch : Arch) (d : Pridata) (f : PriField) {n : ℕ} (h : n < 256 ^ 4) :
    (d.setInt arch f n).int arch f = n := by
  have hread := @readAt_writeAt d.mem (arch.bytes 4 n) _ ((offset_le_structSize f).trans d.sized)
  rw [arch.bytes_length] at hread
  unfold Pridata.int
  have hmem : (d.setInt arch f n).mem = writeAt d.mem (offset pridataDecl f) (arch.bytes 4 n) := rfl
  rw [hmem, hread, arch.val_bytes h]

/-- A password that the database has taken is in both. -/
theorem password_stored (env : CredentialEnv) {d : Pridata} {db : Database} {s : Bytes}
    (hrc : env.rc .PASSWORD = 0) (hs : NulFree s) (h : d.Holds .password s) :
    (webs_update_database env d .PASSWORD db).password = s := by
  unfold webs_update_database
  rw [if_pos hrc]
  show env.stored (d.str .password) = s
  rw [h.str hs, env.stored_eq s hs h.2]

theorem username_stored (env : CredentialEnv) {d : Pridata} {db : Database} {s : Bytes}
    (hrc : env.rc .USER_NAME = 0) (hs : NulFree s) (h : d.Holds .username s) :
    (webs_update_database env d .USER_NAME db).username = s := by
  unfold webs_update_database
  rw [if_pos hrc]
  show env.stored (d.str .username) = s
  rw [h.str hs, env.stored_eq s hs h.2]

/-- An update of one id leaves the others. -/
theorem update_password_frame (env : CredentialEnv) (d : Pridata) (db : Database) :
    (webs_update_database env d .PASSWORD db).webs_uipwstate = db.webs_uipwstate ∧
      (webs_update_database env d .PASSWORD db).usrpwd_changed = db.usrpwd_changed := by
  unfold webs_update_database
  split_ifs <;> simp

theorem update_username_frame (env : CredentialEnv) (d : Pridata) (db : Database) :
    (webs_update_database env d .USER_NAME db).password = db.password ∧
      (webs_update_database env d .USER_NAME db).usrpwd_changed = db.usrpwd_changed := by
  unfold webs_update_database
  split_ifs <;> simp

theorem update_uipwstate_frame (env : CredentialEnv) (d : Pridata) (db : Database) :
    (webs_update_database env d .UIPWSTATE db).password = db.password := by
  unfold webs_update_database
  split_ifs <;> simp

theorem update_usrpwd_changed_frame (env : CredentialEnv) (d : Pridata) (db : Database) :
    (webs_update_database env d .USRPWD_CHANGED db).password = db.password ∧
      (webs_update_database env d .USRPWD_CHANGED db).username = db.username := by
  unfold webs_update_database
  split_ifs <;> simp

/-- The last update of `json_webs_init_password`, which may fail unnoticed. -/
theorem uipwstate_stored_iff (env : CredentialEnv) (d : Pridata) (db : Database) {n : ℕ}
    (hn : n < 256 ^ 4) :
    (webs_update_database env (d.setInt env.arch .webs_uipwstate n) .UIPWSTATE db).webs_uipwstate = n ↔
      env.rc .UIPWSTATE = 0 ∨ db.webs_uipwstate = n := by
  unfold webs_update_database
  by_cases hrc : env.rc .UIPWSTATE = 0
  · simp [hrc, int_setInt env.arch d .webs_uipwstate hn]
  · simp [hrc]

/-- The last update of `tn_webs_set_login_userpw`, which may fail unnoticed. -/
theorem usrpwd_changed_stored_iff (env : CredentialEnv) (d : Pridata) (db : Database) {n : ℕ}
    (hn : n < 256 ^ 4) :
    (webs_update_database env (d.setInt env.arch .usrpwd_changed n) .USRPWD_CHANGED db).usrpwd_changed
        = n ↔
      env.rc .USRPWD_CHANGED = 0 ∨ db.usrpwd_changed = n := by
  unfold webs_update_database
  by_cases hrc : env.rc .USRPWD_CHANGED = 0
  · simp [hrc, int_setInt env.arch d .usrpwd_changed hn]
  · simp [hrc]

/-! ## One request -/

theorem atomic_of_failed {env : CredentialEnv} {d : Pridata} {db : Database}
    {req : CredentialRequest} {r : CredentialReply} (hr : req.handle env d db = r)
    (h : r.result ≠ 0) : Atomic env d db req ↔ Kept d r.g_webs_data := by
  unfold Atomic
  rw [hr]
  exact ⟨fun ha => ha.1 h, fun hk => ⟨fun _ => hk, fun h0 => absurd h0 h⟩⟩

theorem atomic_of_success {env : CredentialEnv} {d : Pridata} {db : Database}
    {req : CredentialRequest} {r : CredentialReply} (hr : req.handle env d db = r)
    (h : r.result = 0) : Atomic env d db req ↔ HasNew env r req := by
  unfold Atomic
  rw [hr]
  exact ⟨fun ha => ha.2 h, fun hk => ⟨fun h0 => absurd h h0, fun _ => hk⟩⟩

/-- A request that is refused before anything is copied. -/
theorem atomic_of_refused {env : CredentialEnv} {d : Pridata} {db : Database}
    {req : CredentialRequest} {code : Int} (hr : req.handle env d db = ⟨code, d, db⟩)
    (h : code ≠ 0) : Atomic env d db req :=
  (atomic_of_failed hr h).mpr (Kept.refl d)

theorem webs_set_password_accepted (update : Int) {d : Pridata} {oldpasswd newpasswd : Bytes}
    (h : Accepted d oldpasswd newpasswd) :
    webs_set_password update d oldpasswd newpasswd = storePassword update d newpasswd := by
  obtain ⟨hnew, hold⟩ := h
  unfold webs_set_password
  rw [if_pos hnew]
  by_cases hempty : oldpasswd = []
  · rw [if_neg (not_not.mpr hempty)]
  · obtain ⟨hcurr, horig⟩ := hold.resolve_left hempty
    rw [if_pos hempty, if_neg (not_not.mpr hcurr), if_neg horig]

theorem webs_set_password_refused (update : Int) {d : Pridata} {oldpasswd newpasswd : Bytes}
    (h : ¬ Accepted d oldpasswd newpasswd) :
    ∃ ret, ret ≠ 0 ∧ webs_set_password update d oldpasswd newpasswd = ⟨ret, d, none⟩ := by
  unfold Accepted at h
  unfold webs_set_password
  split_ifs with hnew hold hcurr horig
  · exact ⟨WEBS_SET_PSW_WRONG_PASSWD, by decide, rfl⟩
  · exact ⟨WEBS_SET_PSW_ORIGINAL_PASSWD, by decide, rfl⟩
  · -- Both comparisons are passed, so the request is an accepted one.
    exact absurd ⟨hnew, Or.inr ⟨not_not.mp hcurr, horig⟩⟩ h
  · exact absurd ⟨hnew, Or.inl (not_not.mp hold)⟩ h
  · exact ⟨WEBS_GET_UIPARA_WRONG, by decide, rfl⟩

/-- A copied password leaves the credentials only if it is the one that was there. -/
theorem kept_strcpy_password_iff {d : Pridata} {s : Bytes} (hs : NulFree s) :
    Kept d (d.strcpy .password s) ↔ s = d.str .password := by
  constructor
  · intro h
    exact (d.str_strcpy .password hs).symm.trans h.password
  · rintro rfl
    exact kept_strcpy_self d .password

theorem setPassword_atomic_iff (env : CredentialEnv) (d : Pridata) (db : Database)
    (oldpasswd newpasswd : Bytes) :
    Atomic env d db (.setPassword oldpasswd newpasswd) ↔
      AtomicWhen env d db (.setPassword oldpasswd newpasswd) := by
  have hnul : NulFree (cstr newpasswd) := cstr_nulFree newpasswd
  rw [AtomicWhen]
  by_cases hacc : Accepted d (cstr oldpasswd) (cstr newpasswd)
  · rw [forall_prop_of_true hacc, PasswordFine]
    have hset := webs_set_password_accepted (env.rc .PASSWORD) hacc
    by_cases hrc : env.rc .PASSWORD = 0
    · -- Stored: the field and the database have it if it fits.
      rw [storePassword, if_pos hrc] at hset
      rw [atomic_of_success (by rw [CredentialRequest.handle, set_password, hset]) rfl, HasNew]
      constructor
      · intro h
        exact ⟨fun hne => absurd hrc hne, fun _ => h.1.2⟩
      · intro h
        have hholds := holds_strcpy d (h.2 hrc)
        exact ⟨hholds, password_stored env hrc hnul hholds⟩
    · -- Refused by the database: what was copied stays.
      rw [storePassword, if_neg hrc] at hset
      rw [atomic_of_failed (by rw [CredentialRequest.handle, set_password, hset])
        (by decide : WEBS_SET_PSW_FAILED ≠ 0), kept_strcpy_password_iff hnul]
      exact ⟨fun h => ⟨fun _ => h, fun h0 => absurd h0 hrc⟩, fun h => h.1 hrc⟩
  · obtain ⟨ret, hret, hset⟩ := webs_set_password_refused (env.rc .PASSWORD) hacc
    refine iff_of_true (atomic_of_refused ?_ hret) fun h => absurd h hacc
    have hne : ¬ ret = WEBS_SET_PSW_SUCCESS := hret
    rw [CredentialRequest.handle, set_password, hset]
    simp only [if_neg hne]

theorem initPassword_atomic_iff (env : CredentialEnv) (d : Pridata) (db : Database) (wp : WebsRec) :
    Atomic env d db (.initPassword wp) ↔ AtomicWhen env d db (.initPassword wp) := by
  have hcode : (0o12101 : Int) ≠ 0 := by decide
  rw [AtomicWhen]
  by_cases hstate : d.int env.arch .webs_uipwstate = E_WEBS_UI_PW_NEEDED
  · refine iff_of_true (atomic_of_refused ?_ hcode) fun h => absurd hstate h
    rw [CredentialRequest.handle, json_webs_init_password, if_pos hstate]
  rw [forall_prop_of_true hstate]
  rcases htext : initPasswdText env wp with _ | text
  · refine iff_of_true (atomic_of_refused ?_ (by decide : (-32700 : Int) ≠ 0))
      fun _ h => absurd h nofun
    rw [CredentialRequest.handle, json_webs_init_password, if_neg hstate, htext]
  have hone : ∀ p : Bytes → Prop, (∀ t, some text = some t → p t) ↔ p text := by simp
  rw [hone]
  by_cases hempty : jrd_decrypt text = []
  · refine iff_of_true (atomic_of_refused ?_ hcode) fun h => absurd hempty h
    rw [CredentialRequest.handle, json_webs_init_password, if_neg hstate, htext]
    exact if_neg (not_not.mpr hempty)
  rw [forall_prop_of_true hempty, PasswordFine]
  have hnul : NulFree (jrd_decrypt text) := cstr_nulFree _
  by_cases hrc : env.rc .PASSWORD = 0
  · have hhandle : CredentialRequest.handle env d db (.initPassword wp)
        = ⟨WEBS_SET_PSW_SUCCESS, (d.strcpy .password (jrd_decrypt text)).setInt env.arch
            .webs_uipwstate E_WEBS_UI_PW_NEEDED,
          webs_update_database env ((d.strcpy .password (jrd_decrypt text)).setInt env.arch
            .webs_uipwstate E_WEBS_UI_PW_NEEDED) .UIPWSTATE
            (webs_update_database env (d.strcpy .password (jrd_decrypt text)) .PASSWORD db)⟩ := by
      rw [CredentialRequest.handle, json_webs_init_password, if_neg hstate, htext]
      exact (if_pos hempty).trans (if_pos hrc)
    have hneeded : E_WEBS_UI_PW_NEEDED < 256 ^ 4 := by decide
    rw [atomic_of_success hhandle rfl, HasNew, htext, hone, uipwstate_stored_iff env _ _ hneeded,
      (update_password_frame env _ db).1, update_uipwstate_frame]
    constructor
    · intro h
      exact ⟨⟨fun hne => absurd hrc hne, fun _ => h.1.1.2⟩, fun _ => h.2.2⟩
    · intro h
      have hholds := holds_strcpy d (h.1.2 hrc)
      exact ⟨⟨hholds.setInt (by decide) (by decide), password_stored env hrc hnul hholds⟩,
        int_setInt env.arch _ .webs_uipwstate hneeded, h.2 hrc⟩
  · have hhandle : CredentialRequest.handle env d db (.initPassword wp)
        = ⟨0o12101, d.strcpy .password (jrd_decrypt text),
          webs_update_database env (d.strcpy .password (jrd_decrypt text)) .PASSWORD db⟩ := by
      rw [CredentialRequest.handle, json_webs_init_password, if_neg hstate, htext]
      exact (if_pos hempty).trans (if_neg hrc)
    rw [atomic_of_failed hhandle hcode, kept_strcpy_password_iff hnul]
    exact ⟨fun h => ⟨⟨fun _ => h, fun h0 => absurd h0 hrc⟩, fun h0 => absurd h0 hrc⟩,
      fun h => h.1.1 hrc⟩

/-! ## User name and password together -/

/-- The password after both copies, if the user name ends in its field. -/
theorem holds_password_after {d : Pridata} {usr psw : Bytes}
    (husr : usr.length < fieldSize pridataDecl .username)
    (h : d.Holds .password psw) : (d.strcpy .username usr).Holds .password psw := by
  have hsized := d.sized
  have hsize : fieldSize pridataDecl .username = offset pridataDecl .password := by decide
  have hoff : offset pridataDecl .username = 0 := by decide
  have hin : offset pridataDecl .password ≤ structSize pridataDecl := by decide
  refine h.writeAt rfl ?_ (Or.inr ?_)
  · rw [List.length_append, List.length_singleton]
    omega
  · rw [List.length_append, List.length_singleton]
    omega

theorem str_password_after {d : Pridata} {usr : Bytes} (husr : NulFree usr) :
    (d.strcpy .username usr).str .password =
      if usr.length < fieldSize pridataDecl .username then d.str .password
      else usr.drop (offset pridataDecl .password) := by
  have hsized := d.sized
  have hsize : fieldSize pridataDecl .username = offset pridataDecl .password := by decide
  have hoff : offset pridataDecl .username = 0 := by decide
  have hmem : (d.strcpy .username usr).mem = (usr ++ [0]) ++ d.mem.drop (usr ++ [0]).length := by
    show writeAt d.mem (offset pridataDecl .username) (usr ++ [0]) = _
    rw [hoff, writeAt_zero]
  have hlen : (usr ++ [0]).length = usr.length + 1 := by simp
  rw [hsize]
  unfold Pridata.str
  rw [hmem]
  split_ifs with hfits
  · rw [List.drop_append, List.drop_of_length_le (by omega), List.nil_append, List.drop_drop]
    congr 2
    omega
  · have hnul : NulFree (usr.drop (offset pridataDecl .password)) :=
      fun c hc => husr c (List.mem_of_mem_drop hc)
    rw [List.append_assoc, List.drop_append_of_le_length (by omega), cstr_append hnul,
      List.singleton_append, cstr_zero_cons, List.append_nil]

/-- A byte after both copies, when the user name is the old one: the user name puts back what
it covers, and behind it the password shows. -/
theorem byte_after_copies {d : Pridata} {usr psw : Bytes} (husr : usr = d.str .username) {j : ℕ}
    (hlow : offset pridataDecl .password ≤ j) (hj : j < d.mem.length) :
    ((d.strcpy .password psw).strcpy .username usr).mem[j]? = d.mem[j]? ↔
      (usr.length < j → j ≤ offset pridataDecl .password + psw.length →
        (psw ++ [0])[j - offset pridataDecl .password]? = d.mem[j]?) := by
  have hoff : offset pridataDecl .username = 0 := by decide
  have hpw : offset pridataDecl .password ≤ d.mem.length :=
    (offset_le_structSize .password).trans d.sized
  have hlen : ∀ s : Bytes, (s ++ [0]).length = s.length + 1 := by simp
  have hmem : ((d.strcpy .password psw).strcpy .username usr).mem
      = writeAt (writeAt d.mem (offset pridataDecl .password) (psw ++ [0])) 0 (usr ++ [0]) := by
    rw [← hoff]
    rfl
  have hold : (writeAt d.mem 0 (usr ++ [0]))[j]? = d.mem[j]? := by
    have hstr : usr = cstr (d.mem.drop 0) := by rw [husr, Pridata.str, hoff]
    rw [hstr]
    rcases writeAt_cstr_self (Nat.zero_le d.mem.length) with h | h
    · rw [h]
    · rw [h, List.getElem?_append_left hj]
  rw [getElem?_writeAt (Nat.zero_le _), if_neg (Nat.not_lt_zero j)] at hold
  rw [hmem, getElem?_writeAt (Nat.zero_le _), if_neg (Nat.not_lt_zero j), getElem?_writeAt hpw,
    if_neg (Nat.not_lt.mpr hlow)]
  simp only [hlen] at hold ⊢
  by_cases hcovered : j < 0 + (usr.length + 1)
  · rw [if_pos hcovered] at hold ⊢
    exact ⟨fun _ h => absurd h (by omega), fun _ => hold⟩
  · rw [if_neg hcovered]
    by_cases hpsw : j < offset pridataDecl .password + (psw.length + 1)
    · rw [if_pos hpsw]
      exact ⟨fun h _ _ => h, fun h => h (by omega) (by omega)⟩
    · rw [if_neg hpsw]
      exact ⟨fun _ _ h => absurd h (by omega), fun _ => rfl⟩

/-- **When both copies together change nothing.** -/
theorem kept_userpw_iff {d : Pridata} {usr psw : Bytes} (husr : NulFree usr) (hpsw : NulFree psw) :
    Kept d ((d.strcpy .password psw).strcpy .username usr) ↔ SameUserpw d usr psw := by
  have hname : ((d.strcpy .password psw).strcpy .username usr).str .username = usr :=
    Pridata.str_strcpy _ .username husr
  have hpass := @str_password_after (d.strcpy .password psw) usr husr
  have hbyte : ∀ j, offset pridataDecl .webs_uipwstate ≤ j →
      j < offset pridataDecl .webs_uipwstate + 4 →
      offset pridataDecl .password ≤ j ∧ j < d.mem.length := by
    intro j hlow hhigh
    have hsized := d.sized
    have hin : offset pridataDecl .webs_uipwstate + 4 ≤ structSize pridataDecl := by decide
    have hord : offset pridataDecl .password ≤ offset pridataDecl .webs_uipwstate := by decide
    exact ⟨by omega, by omega⟩
  unfold SameUserpw
  rw [d.str_strcpy .password hpsw] at hpass
  by_cases hfits : usr.length < fieldSize pridataDecl .username
  · rw [if_pos hfits] at hpass ⊢
    constructor
    · intro h
      exact ⟨hname.symm.trans h.username, hpass.symm.trans h.password⟩
    · -- Each of the two strings is copied over itself.
      rintro ⟨rfl, rfl⟩
      have hfirst := kept_strcpy_self d .password
      have hsecond := kept_strcpy_self (d.strcpy .password (d.str .password)) .username
      rw [hfirst.username] at hsecond
      exact hfirst.trans hsecond
  · rw [if_neg hfits] at hpass ⊢
    constructor
    · intro h
      have hsame : usr = d.str .username := hname.symm.trans h.username
      refine ⟨hsame, ?_⟩
      intro j hlow hhigh
      obtain ⟨hpw, hlen⟩ := hbyte j hlow hhigh
      exact (byte_after_copies hsame hpw hlen).mp (readAt_eq_iff.mp h.webs_uipwstate j hlow hhigh)
    · rintro ⟨hsame, hui⟩
      refine ⟨hname.trans hsame, ?_, ?_⟩
      · -- The old password is the tail of the old user name.
        have hsize : fieldSize pridataDecl .username = offset pridataDecl .password := by decide
        have hstr : usr = cstr d.mem := hsame
        have htail := @cstr_drop d.mem (offset pridataDecl .password) (by rw [← hstr]; omega)
        rw [hpass, Pridata.str, htail, ← hstr]
      · apply readAt_eq_iff.mpr
        intro j hlow hhigh
        obtain ⟨hpw, hlen⟩ := hbyte j hlow hhigh
        exact (byte_after_copies hsame hpw hlen).mpr (hui j hlow hhigh)

theorem setLoginUserpw_atomic_iff (env : CredentialEnv) (d : Pridata) (db : Database)
    (wp : WebsRec) :
    Atomic env d db (.setLoginUserpw wp) ↔ AtomicWhen env d db (.setLoginUserpw wp) := by
  rw [AtomicWhen]
  by_cases hgate : d.int env.arch .webs_security = 1 ∧ wp.token_flag = 0
  · refine iff_of_true (atomic_of_refused ?_ (by decide : (255 : Int) ≠ 0)) fun h => absurd hgate h
    rw [CredentialRequest.handle, tn_webs_set_login_userpw, if_pos hgate]
  have hhandle : CredentialRequest.handle env d db (.setLoginUserpw wp) = _ :=
    tn_webs_set_login_userpw.eq_1 env d db wp
  have hnew : ∀ r, HasNew env r (.setLoginUserpw wp) = _ := fun r => HasNew.eq_3 env r wp
  have hpsw : NulFree (cstr (websGetVar wp (bytes "newPassword") [])) := cstr_nulFree _
  have husr : NulFree (cstr (websGetVar wp (bytes "newUsername") [])) := cstr_nulFree _
  rw [forall_prop_of_true hgate]
  rw [if_neg hgate] at hhandle
  generalize cstr (websGetVar wp (bytes "newPassword") []) = psw at *
  generalize cstr (websGetVar wp (bytes "newUsername") []) = usr at *
  simp only at hhandle ⊢
  by_cases hgiven : psw ≠ [] ∧ usr ≠ []
  · rw [if_pos hgiven] at hhandle
    rw [forall_prop_of_true hgiven]
    by_cases hrc : env.rc .PASSWORD = 0 ∧ env.rc .USER_NAME = 0
    · have hone : 1 < 256 ^ 4 := by decide
      rw [if_pos hrc] at hhandle ⊢
      rw [atomic_of_success hhandle rfl, hnew, usrpwd_changed_stored_iff env _ _ hone,
        (update_usrpwd_changed_frame env _ _).1, (update_usrpwd_changed_frame env _ _).2,
        (update_username_frame env _ _).1, (update_username_frame env _ _).2,
        (update_password_frame env _ _).2]
      constructor
      · intro h
        exact ⟨h.1.1.2, h.2.1.1.2, h.2.2.2⟩
      · rintro ⟨hfits, hfits', hchanged⟩
        have hholds := holds_password_after hfits' (holds_strcpy d hfits)
        have hholds' := holds_strcpy (d.strcpy .password psw) hfits'
        exact ⟨⟨hholds.setInt (by decide) (by decide), password_stored env hrc.1 hpsw hholds⟩,
          ⟨hholds'.setInt (by decide) (by decide), username_stored env hrc.2 husr hholds'⟩,
          int_setInt env.arch _ .usrpwd_changed hone, hchanged⟩
    · rw [if_neg hrc] at hhandle ⊢
      rw [atomic_of_failed hhandle (by decide : WEBS_SET_FAILED ≠ 0)]
      exact kept_userpw_iff husr hpsw
  · rw [if_neg hgiven] at hhandle
    exact iff_of_true (atomic_of_refused hhandle (by decide : WEBS_GET_UIPARA_WRONG ≠ 0))
      fun h => absurd h hgiven

/-- **Credential changes.** A request is handled atomically exactly if no copy shows that the
database has refused it, none is longer than its field, and no update fails unnoticed. -/
theorem credential_change_atomic_iff (env : CredentialEnv) (d : Pridata) (db : Database)
    (req : CredentialRequest) : Atomic env d db req ↔ AtomicWhen env d db req := by
  cases req with
  | setPassword oldpasswd newpasswd => exact setPassword_atomic_iff env d db oldpasswd newpasswd
  | initPassword wp => exact initPassword_atomic_iff env d db wp
  | setLoginUserpw wp => exact setLoginUserpw_atomic_iff env d db wp

/-- A database that takes nothing, under json-c that parses nothing. -/
def refusingDatabase : CredentialEnv where
  lib := ⟨fun _ => none, fun _ => []⟩
  arch := ⟨false, false⟩
  after := []
  rc := fun _ => -1
  stored := fun s => s
  stored_eq := fun _ _ _ => rfl

/-- The database refuses the new password, the result says so, and the new password is in force. -/
theorem refused_password_in_force :
    ¬ ∀ (env : CredentialEnv) (d : Pridata) (db : Database) (req : CredentialRequest),
      Atomic env d db req := by
  intro hall
  have hatomic := hall refusingDatabase (passwordData "Secret01")
    ⟨bytes "admin", bytes "Secret01", 0, 0⟩ (.setPassword (bytes "Secret01") (bytes "Secret02"))
  have hkept := (hatomic.1 (by decide)).password
  revert hkept
  decide

end TestCore.Webs
