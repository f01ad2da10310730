/-
The state of the server process, and what surrounds it.

`Server` gathers the globals of `webs_define.c` and `security.c` that the login, the
session and the access code share, together with the two kinds of timers that act
on them: the detached `Login_fail_time_count` threads, each with the point it has
reached, and the two periodic timers. Time is a counter of clock units; a second
is `Platform.second` of them. A thread that sleeps for a second is due a second
later but may run any time after that.

`Platform` is what the code is built and linked with: json-c, the memory behind
the parameter slots, the signedness of `char`, the server's own address and name.
-/
import TestCore.Webs.Session
import TestCore.Webs.Params

set_option autoImplicit false

namespace TestCore.Webs

open TestCore.Lib

/-- What the build, the libraries and the host fix. -/
structure Platform where
  lib : JsonLib
  /-- Behind the slots of `json_set_login_params`. -/
  jsonLayout : Layout
  /-- Behind the slots of `tn_set_login_params`. -/
  tnLayout : Layout
  websIpaddr : Bytes
  websHost : Bytes
  /-- Clock units in a second. -/
  second : ℕ
  /-- Behind the terminator of `wp->referer`. -/
  behindReferer : ℕ → UInt8 := fun _ => 0

/-- Where a `Login_fail_time_count` thread is. -/
inductive FailThread where
  /-- Created, and not run yet. -/
  | created
  /-- In the `sleep(1)` of round `i`, due at `wake`. -/
  | sleeping (i wake : ℕ)
  deriving DecidableEq, Repr

/-- The globals of the server. -/
structure Server where
  g_webs_data : WebsData
  g_sessionsTable : Sessions := EGOSM_Init
  g_login_fail_count : Int := 0
  g_login_fail_time_count : Int := 0
  jrd_webs_token_str : Bytes := []
  /-- `login_check_timer` is running. -/
  login_check_timer : Bool := false
  login_timer_start : Bool := false
  /-- When `timer_check_login_time` is due next, if it is running. -/
  timer_check_login_time : Option ℕ := none
  /-- `json_get_login_state_params[2].u.val`: ticks of that timer so far. -/
  login_state_val : Int := 0
  /-- The threads that have not finished. -/
  fail_threads : List FailThread := []
  now : ℕ := 0
  deriving DecidableEq

/-- `set_timer_clean`. -/
def set_timer_clean (st : Server) : Server := { st with login_check_timer := false }

end TestCore.Webs
