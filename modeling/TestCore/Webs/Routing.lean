/-
Which of the two core applications a JSON request goes to.

`websFormHandler` reads the method of the body, copies the first 63 characters of it to
`func_name`, and has `websLocalappApiHandler` look these up in `localAppTab`; the descriptor it
decides on is kept in `wp->sock_fd`, which is a `char`. `websJRDJsonHandler` runs after it, and
puts the request on the queue with whatever `wp->sock_fd` is then.

A request is routed right if the descriptor on the queue is `local_fd` for a registered method,
and `remote_fd` otherwise. Three things can go wrong: the name is cut, the descriptor does not fit
the `char`, and a body without a method leaves `wp->sock_fd` as it was -- which is zero on a new
connection, and the route of an earlier request on one that is kept alive.
-/
import TestCore.Webs.Handler
import TestCore.Webs.TxQueue

set_option autoImplicit false

namespace TestCore.Webs

open TestCore.Lib

/-! ## The handlers -/

/-- What a route depends on: the two sockets, `localAppTab`, and whether a `char` has a sign. -/
structure Router where
  local_fd : ℤ
  remote_fd : ℤ
  localAppTab : Table Bytes ℤ
  charSigned : Bool

/-- The value a `char` has after an `int` is assigned to it. -/
def toChar (charSigned : Bool) (n : ℤ) : ℤ :=
  if charSigned then (n + 128) % 256 - 128 else n % 256

/-- `websLocalappApiHandler`: what it sets `wp->sock_fd` to. -/
def websLocalappApiHandler (rt : Router) (formName : Bytes) : ℤ :=
  match symLookup rt.localAppTab formName with
  | none => toChar rt.charSigned rt.remote_fd
  | some _ => toChar rt.charSigned rt.local_fd

/-- `snprintf(func_name,sizeof(func_name),"%s",formName)`, with room for 64 characters. -/
def func_name (formName : Bytes) : Bytes := (cstr formName).take 63

/-- The name that `websFormHandler` looks up, if it gets that far. -/
def formNameOf (lib : JsonLib) (wp : WebsRec) : Option Bytes :=
  if isWebapi wp.path then bodyMethod lib wp.postData
  else if startsWith wp.path (bytes "/goform") then goformName wp.path
  else none

/-- `wp->sock_fd` after `websFormHandler`. A form function does not touch it. -/
def formSockFd (rt : Router) (lib : JsonLib) (wp : WebsRec) (sock_fd : ℤ) : ℤ :=
  match formNameOf lib wp with
  | none => sock_fd
  | some formName =>
      if formName ∈ webs_post_req_tbl then sock_fd
      else websLocalappApiHandler rt (func_name formName)

def E_JSON_MSG_REQ : ℤ := 0

/-- The call of `webs_creat_q_and_put_q` that `websJRDJsonHandler` makes; `usr_p` is the address
of the record. -/
def jsonPut (wp : WebsRec) (usr_p : ℕ) (sock_fd : ℤ) : TxRequest :=
  ⟨some sock_fd, E_JSON_MSG_REQ, usr_p, wp.postData.length + 1, wp.postData ++ [0]⟩

/-- `websUrlHandlerRequest`, as far as `wp->sock_fd` and the queue are concerned. -/
def routeRequest (rt : Router) (pl : Platform) (st : Server) (wp : WebsRec) (usr_p : ℕ)
    (sock_fd : ℤ) : ℤ × Option TxRequest :=
  let wp := condenseRequest wp
  if badRequest wp then (sock_fd, none)
  else
    let access := websSecurityHandler pl st wp
    if access.ret ≠ 0 then (sock_fd, none)
    else
      let sock_fd := formSockFd rt pl.lib access.wp sock_fd
      match websFormHandler pl.lib access.wp with
      | .passed =>
          (sock_fd, if isWebapi access.wp.path then some (jsonPut access.wp usr_p sock_fd) else none)
      | _ => (sock_fd, none)

/-- The socket that is meant for a method. -/
def Router.target (rt : Router) (method : Option Bytes) : ℤ :=
  if (method.bind (symLookup rt.localAppTab)).isSome then rt.local_fd else rt.remote_fd

/-! ## What is put on the queue -/

section Route

variable {rt : Router} {pl : Platform} {st : Server} {wp : WebsRec} {usr_p : ℕ} {sock_fd : ℤ}

/-- The gate leaves path and body alone. -/
theorem websSecurityHandler_keeps (pl : Platform) (st : Server) (wp : WebsRec) :
    (websSecurityHandler pl st wp).wp.path = wp.path ∧
      (websSecurityHandler pl st wp).wp.postData = wp.postData := by
  rcases hpath : isWebapi wp.path with _ | _
  · rw [websSecurityHandler_page pl st hpath]
    unfold securityPage
    dsimp only
    split_ifs <;> exact ⟨rfl, rfl⟩
  · rw [websSecurityHandler_webapi pl st hpath]
    exact securityJson_keeps pl st (markDownload wp)

/-- A request is put on the queue here exactly if `websUrlHandlerRequest` does it, and with the
same bytes. -/
theorem routeRequest_queued :
    (websUrlHandlerRequest pl st wp).1
      = .queued (wp.postData ++ [0]) ↔ (routeRequest rt pl st wp usr_p sock_fd).2.isSome := by
  have hbody : (websSecurityHandler pl st (condenseRequest wp)).wp.postData = wp.postData :=
    (websSecurityHandler_keeps pl st (condenseRequest wp)).2
  unfold websUrlHandlerRequest routeRequest websJRDJsonHandler
  dsimp only
  rcases websFormHandler pl.lib (websSecurityHandler pl st (condenseRequest wp)).wp with _ | _ | _
  · dsimp only
    rw [hbody]
    split_ifs <;> simp
  · dsimp only
    split_ifs <;> simp
  · dsimp only
    split_ifs <;> simp

/-- The handlers pass a request that is put on the queue, which has a JSON path. The name, if
there is one, is no form function's. -/
theorem routeRequest_some {r : TxRequest}
    (hput : (routeRequest rt pl st wp usr_p sock_fd).2 = some r) :
    r = jsonPut wp usr_p (match bodyMethod pl.lib wp.postData with
      | none => sock_fd
      | some method => websLocalappApiHandler rt (func_name method)) := by
  obtain ⟨hpath, hbody⟩ := websSecurityHandler_keeps pl st (condenseRequest wp)
  have hbody' : (condenseRequest wp).postData = wp.postData := rfl
  unfold routeRequest at hput
  dsimp only at hput
  rcases hpassed : websFormHandler pl.lib (websSecurityHandler pl st (condenseRequest wp)).wp
    with _ | _ | _
  · rw [hpassed] at hput
    split_ifs at hput with hbad hret hwebapi
    rw [← Option.some.inj hput]
    unfold formSockFd formNameOf
    unfold websFormHandler at hpassed
    rw [if_pos hwebapi] at hpassed ⊢
    rw [hbody, hbody'] at hpassed ⊢
    have hjson : ∀ fd, jsonPut (websSecurityHandler pl st (condenseRequest wp)).wp usr_p fd
        = jsonPut wp usr_p fd := by
      intro fd
      unfold jsonPut
      rw [hbody, hbody']
    rw [hjson]
    rcases hmethod : bodyMethod pl.lib wp.postData with _ | method
    · rfl
    · rw [hmethod] at hpassed
      have hform : method ∉ webs_post_req_tbl := by
        intro hmem
        unfold callForm at hpassed
        simp [hmem] at hpassed
      simp only [if_neg hform]
  · rw [hpassed] at hput
    split_ifs at hput
  · rw [hpassed] at hput
    split_ifs at hput

/-! ## When the route is right -/

/-- An `int` that a `char` can hold, for numbers that are not negative. -/
def FitsChar (charSigned : Bool) (n : ℤ) : Prop := n < if charSigned then 128 else 256

instance (charSigned : Bool) (n : ℤ) : Decidable (FitsChar charSigned n) :=
  inferInstanceAs (Decidable (_ < _))

/-- Two descriptors are the same `char` if they agree in the last byte. -/
theorem toChar_eq_iff {charSigned : Bool} {n k : ℤ} (hk : 0 ≤ k) :
    toChar charSigned n = k ↔ FitsChar charSigned k ∧ (256 : ℤ) ∣ n - k := by
  unfold toChar FitsChar
  rcases charSigned with _ | _
  · simp only [Bool.false_eq_true, if_false]
    omega
  · simp only [if_true]
    omega

/-- What a right route needs: of a body without a method, that the record has `remote_fd` in it
already; of a method, that its socket fits a `char`, and that the name as it is looked up is
registered exactly if the whole name is -- unless the two sockets are the same `char`. -/
def Router.RoutesRight (rt : Router) (sock_fd : ℤ) : Option Bytes → Prop
  | none => sock_fd = rt.remote_fd
  | some method =>
      FitsChar rt.charSigned (rt.target (some method)) ∧
        (((symLookup rt.localAppTab (func_name method)).isSome ↔
          (symLookup rt.localAppTab method).isSome) ∨ (256 : ℤ) ∣ rt.local_fd - rt.remote_fd)

theorem websLocalappApiHandler_eq (rt : Router) (formName : Bytes) :
    websLocalappApiHandler rt formName = toChar rt.charSigned (rt.target (some formName)) := by
  unfold websLocalappApiHandler Router.target
  rw [Option.bind_some]
  rcases symLookup rt.localAppTab formName with _ | v
  · rfl
  · rfl

/-- Two names have the same target exactly if both are registered or neither is. -/
theorem target_congr (hne : rt.local_fd ≠ rt.remote_fd) (m m' : Bytes) :
    rt.target (some m) = rt.target (some m') ↔
      ((symLookup rt.localAppTab m).isSome ↔ (symLookup rt.localAppTab m').isSome) := by
  unfold Router.target
  simp only [Option.bind_some]
  split_ifs with h h'
  · simp [h, h']
  · simp [h, h', hne]
  · rename_i h'
    simp [h, h', hne.symm]
  · rename_i h'
    simp [h, h']

theorem target_nonneg (hlocal : 0 ≤ rt.local_fd) (hremote : 0 ≤ rt.remote_fd) (m : Option Bytes) :
    0 ≤ rt.target m := by
  unfold Router.target
  split_ifs
  · exact hlocal
  · exact hremote

/-- The targets of two names are the same `char` if they are the same, or all targets are. -/
theorem dvd_target_iff (hne : rt.local_fd ≠ rt.remote_fd) (m m' : Bytes) :
    (256 : ℤ) ∣ rt.target (some m) - rt.target (some m') ↔
      (((symLookup rt.localAppTab m).isSome ↔ (symLookup rt.localAppTab m').isSome) ∨
        (256 : ℤ) ∣ rt.local_fd - rt.remote_fd) := by
  rw [← target_congr hne m m']
  constructor
  · intro h
    by_cases heq : rt.target (some m) = rt.target (some m')
    · exact Or.inl heq
    · right
      unfold Router.target at h heq
      split_ifs at h heq
      · exact absurd rfl heq
      · exact h
      · rw [← neg_sub]
        exact (dvd_neg).mpr h
      · exact absurd rfl heq
  · rintro (h | h)
    · rw [h, sub_self]
      exact dvd_zero _
    · unfold Router.target
      split_ifs
      · rw [sub_self]
        exact dvd_zero _
      · exact h
      · rw [← neg_sub]
        exact (dvd_neg).mpr h
      · rw [sub_self]
        exact dvd_zero _

end Route

section Route

variable (rt : Router) (pl : Platform) (st : Server) (wp : WebsRec) (usr_p : ℕ) (sock_fd : ℤ)

/-- The element a put leaves behind holds the record's descriptor. -/
theorem put_sock_fd {q link : Link} {s : TxWorld} {r : TxRequest} {local_fd : ℤ}
    (hlink : link ≠ NULL) :
    ((webs_creat_q_and_put_q q local_fd s link r).1.item link).sock_fd = r.wp.getD local_fd := by
  unfold webs_creat_q_and_put_q
  rw [if_neg hlink]
  dsimp only
  rw [Function.update_self]
  rfl

/-- **The route of a request.** The descriptor in the queued element is the one that is meant for
the method exactly if `RoutesRight`; and it is the one the transmit thread sends the element
with. -/
theorem routed_iff (r : TxRequest) (hlocal : 0 ≤ rt.local_fd) (hremote : 0 ≤ rt.remote_fd)
    (hne : rt.local_fd ≠ rt.remote_fd)
    (hput : (routeRequest rt pl st wp usr_p sock_fd).2 = some r)
    (q link : Link) (hlink : link ≠ NULL) (s : TxWorld) :
    (((webs_creat_q_and_put_q q rt.local_fd s link r).1.item link).sock_fd
        = rt.target (bodyMethod pl.lib wp.postData) ↔
      rt.RoutesRight sock_fd (bodyMethod pl.lib wp.postData)) ∧
    ∀ (hdr : ℤ → ℕ → Bytes) (t : TxWorld), t.phase = .sending link →
      t.item link = (webs_creat_q_and_put_q q rt.local_fd s link r).1.item link →
      ∃ temp_buf, (jrd_sock_tx_thread hdr q t true).sent = t.sent ++
        [(((webs_creat_q_and_put_q q rt.local_fd s link r).1.item link).sock_fd, temp_buf)] := by
  refine ⟨?_, ?_⟩
  · rw [put_sock_fd hlink, routeRequest_some hput]
    rcases bodyMethod pl.lib wp.postData with _ | method
    · -- Nobody has decided anything.
      exact Iff.rfl
    · show websLocalappApiHandler rt (func_name method) = _ ↔ _
      rw [websLocalappApiHandler_eq, toChar_eq_iff (target_nonneg hlocal hremote _),
        dvd_target_iff hne]
      exact Iff.rfl
  · intro hdr t hphase hitem
    refine ⟨(t.item link).wire hdr |>.2, ?_⟩
    rw [tx_send hphase, ← hitem]
    rfl

/-- The requests of one connection; the record is kept between them. -/
structure ConnRequest where
  pl : Platform
  st : Server
  wp : WebsRec
  usr_p : ℕ

/-- `wp->sock_fd` from one request to the next. `hAllocEntry` clears a new record. -/
def connStep (sock_fd : ℤ) (c : ConnRequest) : ℤ :=
  (routeRequest rt c.pl c.st c.wp c.usr_p sock_fd).1

/-- `websFormHandler` leaves the descriptor alone, or stores one of the two. -/
theorem formSockFd_cases (lib : JsonLib) :
    formSockFd rt lib wp sock_fd = sock_fd ∨
      formSockFd rt lib wp sock_fd = toChar rt.charSigned rt.local_fd ∨
      formSockFd rt lib wp sock_fd = toChar rt.charSigned rt.remote_fd := by
  unfold formSockFd websLocalappApiHandler
  rcases formNameOf lib wp with _ | formName
  · exact Or.inl rfl
  · dsimp only
    split_ifs
    · exact Or.inl rfl
    · rcases symLookup rt.localAppTab (func_name formName) with _ | v
      · exact Or.inr (Or.inr rfl)
      · exact Or.inr (Or.inl rfl)

/-- Nothing but `websFormHandler` touches the descriptor, and not every request gets there. -/
theorem routeRequest_sock_fd :
    (routeRequest rt pl st wp usr_p sock_fd).1 = sock_fd ∨
      (routeRequest rt pl st wp usr_p sock_fd).1
        = formSockFd rt pl.lib (websSecurityHandler pl st (condenseRequest wp)).wp sock_fd := by
  unfold routeRequest
  dsimp only
  rcases websFormHandler pl.lib (websSecurityHandler pl st (condenseRequest wp)).wp with _ | _ | _ <;>
    split_ifs <;> simp

/-- What a record can have in it before a request. -/
theorem conn_sock_fd (cs : List ConnRequest) :
    run (connStep rt) 0 cs = 0 ∨ run (connStep rt) 0 cs = toChar rt.charSigned rt.local_fd ∨
      run (connStep rt) 0 cs = toChar rt.charSigned rt.remote_fd := by
  apply run_invariant (I := fun sock_fd => sock_fd = 0 ∨
    sock_fd = toChar rt.charSigned rt.local_fd ∨ sock_fd = toChar rt.charSigned rt.remote_fd)
  · intro sock_fd c h
    unfold connStep
    rcases routeRequest_sock_fd rt c.pl c.st c.wp c.usr_p sock_fd with hsame | hform
    · rw [hsame]
      exact h
    · rw [hform]
      rcases formSockFd_cases rt _ sock_fd c.pl.lib with hsame | hset
      · rw [hsame]
        exact h
      · exact Or.inr hset
  · exact Or.inl rfl

end Route

/-- One method is registered, and the descriptors are small. -/
def simRouter : Router where
  local_fd := 9
  remote_fd := 8
  localAppTab := symEnter 61 Table.empty (bytes "GetSimStatus") 0
  charSigned := false

/-- A registered method goes to the local application. -/
theorem sim_status_routed :
    ∃ r, (routeRequest simRouter (methodPlatform "GetSimStatus") (checkServer 1 0)
        (webapiPost (methodBody "GetSimStatus")) 4096 0).2 = some r ∧
      ((webs_creat_q_and_put_q 1 9 (TxWorld.init 1 noLinks noItem) 10 r).1.item 10).sock_fd = 9 := by
  have hput : (routeRequest simRouter (methodPlatform "GetSimStatus") (checkServer 1 0)
      (webapiPost (methodBody "GetSimStatus")) 4096 0).2
      = some (jsonPut (webapiPost (methodBody "GetSimStatus")) 4096 9) := by decide
  refine ⟨_, hput, ?_⟩
  have hroute := (routed_iff simRouter (methodPlatform "GetSimStatus") (checkServer 1 0)
    (webapiPost (methodBody "GetSimStatus")) 4096 0 _ (by decide) (by decide) (by decide) hput 1 10
    (by decide) (TxWorld.init 1 noLinks noItem)).1
  have hmethod : bodyMethod (methodPlatform "GetSimStatus").lib
      (webapiPost (methodBody "GetSimStatus")).postData = some (bytes "GetSimStatus") := by
    decide
  rw [hmethod] at hroute
  have htarget : simRouter.target (some (bytes "GetSimStatus")) = 9 := by decide
  rw [htarget] at hroute
  apply hroute.mpr
  unfold Router.RoutesRight
  decide

/-- On a new connection, a body that is not JSON goes to descriptor 0. -/
theorem unparsed_body_misrouted :
    ¬ ∀ (rt : Router) (pl : Platform) (st : Server) (wp : WebsRec) (usr_p : ℕ) (r : TxRequest),
      0 ≤ rt.local_fd → 0 ≤ rt.remote_fd → rt.local_fd ≠ rt.remote_fd →
      (routeRequest rt pl st wp usr_p 0).2 = some r →
      ∀ (q link : Link) (s : TxWorld), link ≠ NULL →
        ((webs_creat_q_and_put_q q rt.local_fd s link r).1.item link).sock_fd
          = rt.target (bodyMethod pl.lib wp.postData) := by
  intro hall
  have hput : (routeRequest simRouter (methodPlatform "GetSimStatus") (checkServer 1 0)
      (webapiPost (bytes "reboot")) 4096 0).2
      = some (jsonPut (webapiPost (bytes "reboot")) 4096 0) := by decide
  have h := hall simRouter (methodPlatform "GetSimStatus") (checkServer 1 0)
    (webapiPost (bytes "reboot")) 4096 _ (by decide) (by decide) (by decide) hput 1 10
    (TxWorld.init 1 noLinks noItem) (by decide)
  rw [put_sock_fd (by decide)] at h
  revert h
  decide

end TestCore.Webs
