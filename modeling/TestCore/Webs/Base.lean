/-
The data the web server's modules share: the connection record `websRec` of
`webs.h`, the configuration `g_webs_data` of `webs_define.h`, the enumerations the
login code answers with, and the symbol tables of `sym.c`.

Only the fields some modelled function reads or writes are kept. Strings are the
bytes before the terminator; a pointer that may be `NULL` is an `Option`. An `int`
that is only ever tested against zero keeps its type, because the test (`if (x)`)
accepts every non-zero value.

`sym.c` is a chained hash table. Its enumeration goes chain by chain, so the table
of `Lib/Table.lean` with the chain index as rank is the same table seen from the
outside: `symEnter` overwrites in place or appends to the chain `hashIndex` picks,
and `symFirst`/`symNext` walk `entries`.
-/
import TestCore.Lib.CString
import TestCore.Lib.Table

set_option autoImplicit false

namespace TestCore.Webs

open TestCore.Lib

/-! ## Enumerations -/

/-- `exploreTypeE`: the browser families a session key distinguishes. -/
inductive ExploreType where
  | unknown
  | ie
  | chrome
  | firefox
  | safari
  | opera
  | edge
  deriving DecidableEq, Repr

/-- The number the enumerator stands for. -/
def ExploreType.toNat : ExploreType → ℕ
  | .unknown => 0
  | .ie => 1
  | .chrome => 2
  | .firefox => 3
  | .safari => 4
  | .opera => 5
  | .edge => 6

/-- `e_login_status_type`: what a login reports to the session manager. -/
inductive LoginStatus where
  | success
  | fail
  | otherHasLogin
  | forceLoginSuccess
  deriving DecidableEq, Repr

/-- `webs_login_state`, the results `webs_set_login` can return. -/
inductive WebsLoginState where
  | failed
  | other
  | sucess
  | limit
  | alreadyLogin
  deriving DecidableEq, Repr

/-- `e_jrd_webs_password_state`. -/
inductive UiPwState where
  | default
  | notNeeded
  | needed
  deriving DecidableEq, Repr

/-! ## The connection record and the configuration -/

/-- `websRec`: one request on one connection. `postData` has `lenPostData` bytes;
the string functions that read it are taken to stop there. -/
structure WebsRec where
  ipaddr : Bytes
  userAgent : Option Bytes := none
  url : Bytes := []
  path : Bytes := []
  query : Bytes := []
  postData : Bytes := []
  referer : Option Bytes := none
  token : Option Bytes := none
  cer_key : Option Bytes := none
  token_flag : Int := 0
  cgiVars : List (Bytes × Bytes) := []
  /-- `flags & WEBS_COOKIE`. -/
  cookie : Bool := false
  cookiebuf : Bytes := []
  nSessionid : ℕ := 0
  isDownloadfile : Bool := false
  b_default_unredirect : Bool := false
  deriving DecidableEq, Repr

/-- `jrd_webs_pridata_t`, the part of the configuration the login and the access
checks read. -/
structure WebsData where
  username : Bytes
  password : Bytes
  lock_web_ui : Int := 1
  max_retry_times : Int := 5
  unlock_time : Int := 300
  webs_recover_time : Int := 0
  webs_security : Int := 0
  webs_uipwstate : UiPwState := .needed
  json_method_login_check : Int := 1
  json_method_token_check : Int := 1
  webs_pw_username_encrypt : Int := 0
  deriving DecidableEq, Repr

/-! ## Symbol tables (`sym.c`) -/

/-- `hashIndex`: each character shifted up by 0, 7, 14, 21, 4, 11, … bits, summed
in an `unsigned int`, modulo the number of chains. The characters are unsigned; a `char` with a sign
gives names with bytes from 128 on other chains. -/
def hashIndex (hash_size : ℕ) (name : Bytes) : ℕ :=
  let sum := name.foldl (fun (acc : ℕ × ℕ) c =>
    ((acc.1 + (c.toNat <<< acc.2)) % 2 ^ 32, (acc.2 + 7) % 24)) (0, 0)
  sum.1 % hash_size

/-- `symEnter`. -/
def symEnter {ν : Type} (hash_size : ℕ) (t : Table Bytes ν) (name : Bytes) (v : ν) :
    Table Bytes ν :=
  t.enter (hashIndex hash_size) name v

/-- `symLookup`: the empty name is never found. -/
def symLookup {ν : Type} (t : Table Bytes ν) (name : Bytes) : Option ν :=
  if name = [] then none else t.lookup name

/-- `symDelete`: `-1` when there is nothing to delete. -/
def symDelete {ν : Type} (t : Table Bytes ν) (name : Bytes) : Table Bytes ν × Int :=
  if (t.lookup name).isSome then (t.delete name, 0) else (t, -1)

theorem lookup_symEnter {ν : Type} (n : ℕ) (t : Table Bytes ν) (name k : Bytes) (v : ν) :
    (symEnter n t name v).lookup k = if k = name then some v else t.lookup k :=
  t.lookup_enter _ _ _ _

theorem symLookup_of_ne_nil {ν : Type} (t : Table Bytes ν) {name : Bytes} (h : name ≠ []) :
    symLookup t name = t.lookup name := if_neg h

theorem lookup_symDelete {ν : Type} (t : Table Bytes ν) (name k : Bytes) :
    (symDelete t name).1.lookup k = if k = name then none else t.lookup k := by
  unfold symDelete
  by_cases h : (t.lookup name).isSome
  · rw [if_pos h]
    exact t.lookup_delete name k
  · rw [if_neg h]
    by_cases hk : k = name
    · rw [if_pos hk, hk]
      simpa using h
    · rw [if_neg hk]

end TestCore.Webs
