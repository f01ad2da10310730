/-
Reading the body of a form, and the variables it becomes.

The `WEBS_POST_CLEN` state of `websReadEvent` takes the body as the socket hands it out,
in reads of at most `WEBS_SOCKET_BUFSIZ` bytes, until `clen` bytes are there. The first
read becomes `postData`. Every later one is appended to `postData`, and also, as a string,
to the query of the URL; `websSetEnv` then puts `postData` behind the query once more. So
what the later reads hold is seen twice, the first time glued to the end of the query.

Parsing is a homomorphism: the pairs of `a & b` are those of `a` followed by those of `b`.
The extra text is therefore harmless exactly when it leaves the pairs of the query as they
are (`form_variables_segmentation_iff`).

The variable `QUERY_STRING` is the query as it stands before `postData` is put behind it,
so it shows the later reads too. It is not one of the form's variables and is left out of
the comparison.

The last part takes the counter, the buffer and its length as the separate fields they are,
and shows that they stay in step: one body makes one request, with all of the body
(`websReadEvent_reassembles_body`).
-/
import TestCore.Lib.Run
import TestCore.Webs.Base
import TestCore.Webs.Url

set_option autoImplicit false

namespace TestCore.Webs

open TestCore.Lib

/-! ## Reading the body -/

def WEBS_SOCKET_BUFSIZ : ℕ := 256

/-- What the `WEBS_POST_CLEN` state works on. -/
structure PostRec where
  query : Bytes
  /-- `flags & WEBS_CGI_REQUEST`. -/
  cgi : Bool
  clen : ℕ
  postData : Option Bytes := none
  deriving DecidableEq, Repr

/-- One read in the `WEBS_POST_CLEN` state. The body of a CGI request goes to the file
that becomes the standard input of the program. -/
def postRead (wp : PostRec) (text : Bytes) : PostRec :=
  let wp :=
    if wp.cgi then wp
    else
      match wp.postData with
      | some postData =>
          { wp with query := wp.query ++ cstr text, postData := some (postData ++ text) }
      | none => { wp with postData := some text }
  { wp with clen := wp.clen - text.length }

/-- `websReadEvent` in the `WEBS_POST_CLEN` state, over the reads the socket answers
with: the request as `websUrlHandlerRequest` gets it, or `none` while more is to come. -/
def websReadEvent (wp : PostRec) : List Bytes → Option PostRec
  | [] => none
  | text :: texts =>
      let wp := postRead wp text
      if 0 < wp.clen then websReadEvent wp texts else some wp

/-- The reads deliver `clen` bytes: `websGetInput` asks for `WEBS_SOCKET_BUFSIZ` bytes or
for what is left, and gets that much or less, but something. -/
def Delivers : ℕ → List Bytes → Prop
  | clen, [] => clen = 0
  | clen, text :: texts =>
      0 < text.length ∧ text.length ≤ min WEBS_SOCKET_BUFSIZ clen ∧
        Delivers (clen - text.length) texts

instance decidableDelivers : (clen : ℕ) → (texts : List Bytes) → Decidable (Delivers clen texts)
  | clen, [] => inferInstanceAs (Decidable (clen = 0))
  | clen, text :: texts =>
      haveI := decidableDelivers (clen - text.length) texts
      inferInstanceAs (Decidable (_ ∧ _ ∧ _))

theorem Delivers.length {clen : ℕ} {texts : List Bytes} (h : Delivers clen texts) :
    texts.flatten.length = clen := by
  induction texts generalizing clen with
  | nil => exact h.symm
  | cons text texts ih =>
      obtain ⟨hpos, hle, hrest⟩ := h
      have hlen := ih hrest
      have hcap : text.length ≤ clen := hle.trans (min_le_right _ _)
      rw [List.flatten_cons, List.length_append, hlen]
      omega

theorem Delivers.of_append {clen : ℕ} {before after : List Bytes}
    (h : Delivers clen (before ++ after)) : Delivers (clen - before.flatten.length) after := by
  induction before generalizing clen with
  | nil => simpa using h
  | cons text before ih =>
      have hrest := ih h.2.2
      rw [List.flatten_cons, List.length_append, ← Nat.sub_sub]
      exact hrest

theorem Delivers.ne_nil {clen : ℕ} {texts : List Bytes} (h : Delivers clen texts) :
    ∀ text ∈ texts, text ≠ [] := by
  induction texts generalizing clen with
  | nil => simp
  | cons text texts ih =>
      intro t ht
      rcases List.mem_cons.mp ht with rfl | ht
      · exact List.length_pos_iff.mp h.1
      · exact ih h.2.2 t ht

/-- What the later reads add to the query. -/
def laterText (texts : List Bytes) : Bytes := (texts.tail.map cstr).flatten

theorem laterText_nulFree (texts : List Bytes) : NulFree (laterText texts) := by
  intro c hc
  unfold laterText at hc
  obtain ⟨s, hs, hcs⟩ := List.mem_flatten.mp hc
  obtain ⟨text, -, rfl⟩ := List.mem_map.mp hs
  exact cstr_nulFree text c hcs

/-- Reads that deliver the whole body are all taken, and the last one ends it. -/
theorem websReadEvent_all {wp : PostRec} {texts : List Bytes} (hne : texts ≠ [])
    (htexts : ∀ text ∈ texts, text ≠ []) (hlen : texts.flatten.length = wp.clen) :
    websReadEvent wp texts = some (texts.foldl postRead wp) := by
  induction texts generalizing wp with
  | nil => exact absurd rfl hne
  | cons text texts ih =>
      rw [List.flatten_cons, List.length_append] at hlen
      have hclen : (postRead wp text).clen = wp.clen - text.length := by
        unfold postRead
        rcases wp.cgi with _ | _
        · rcases wp.postData with _ | postData <;> rfl
        · rfl
      unfold websReadEvent
      dsimp only
      rw [hclen, List.foldl_cons]
      rcases texts with _ | ⟨text', texts⟩
      · have hdone : wp.clen - text.length = 0 := by
          simp only [List.flatten_nil, List.length_nil] at hlen
          omega
        rw [hdone, if_neg (by simp), List.foldl_nil]
      · -- Another read follows and is not empty, so something is left to read.
        have hpos : 0 < text'.length := List.length_pos_iff.mpr (htexts text' (by simp))
        have hmore : 0 < wp.clen - text.length := by
          rw [List.flatten_cons, List.length_append] at hlen
          omega
        rw [if_pos hmore]
        apply ih
        · simp
        · intro t ht
          exact htexts t (List.mem_cons_of_mem text ht)
        · rw [hclen]
          omega

/-- Once there is `postData`, a read goes to both places. -/
theorem foldl_postRead_more (q p : Bytes) (n : ℕ) (texts : List Bytes) :
    texts.foldl postRead ⟨q, false, n, some p⟩
      = ⟨q ++ (texts.map cstr).flatten, false, n - texts.flatten.length,
          some (p ++ texts.flatten)⟩ := by
  induction texts generalizing q p n with
  | nil => simp
  | cons text texts ih =>
      have hstep : postRead ⟨q, false, n, some p⟩ text
          = ⟨q ++ cstr text, false, n - text.length, some (p ++ text)⟩ := rfl
      rw [List.foldl_cons, hstep, ih]
      simp [Nat.sub_sub]

theorem foldl_postRead_cgi (q : Bytes) (n : ℕ) (texts : List Bytes) :
    texts.foldl postRead ⟨q, true, n, none⟩ = ⟨q, true, n - texts.flatten.length, none⟩ := by
  induction texts generalizing n with
  | nil => simp
  | cons text texts ih =>
      have hstep : postRead ⟨q, true, n, none⟩ text = ⟨q, true, n - text.length, none⟩ := rfl
      rw [List.foldl_cons, hstep, ih]
      simp [Nat.sub_sub]

/-- The request after its whole body: the query with the later reads behind it, and the
body. A CGI request keeps its query. -/
theorem websReadEvent_body (q : Bytes) (cgi : Bool) {texts : List Bytes} (hne : texts ≠ [])
    (htexts : ∀ text ∈ texts, text ≠ []) :
    websReadEvent ⟨q, cgi, texts.flatten.length, none⟩ texts
      = some (if cgi then ⟨q, true, 0, none⟩
          else ⟨q ++ laterText texts, false, 0, some texts.flatten⟩) := by
  rw [websReadEvent_all hne htexts rfl]
  rcases cgi with _ | _
  · rcases texts with _ | ⟨text, texts⟩
    · exact absurd rfl hne
    · have hstep : postRead ⟨q, false, (text :: texts).flatten.length, none⟩ text
          = ⟨q, false, (text :: texts).flatten.length - text.length, some text⟩ := rfl
      rw [List.foldl_cons, hstep, foldl_postRead_more]
      simp [laterText]
  · rw [foldl_postRead_cgi]
    simp

/-! ## The variables -/

/-- The loop of `websSetEnv` over one token of the query: split at the first `=` and
decode both sides; a keyword without `=` is taken as it is. -/
def queryPair (keyword : Bytes) : Bytes × Bytes :=
  if 61 ∈ keyword then
    (websDecodeUrl (keyword.takeWhile (· ≠ 61)), websDecodeUrl ((keyword.dropWhile (· ≠ 61)).drop 1))
  else (keyword, [])

/-- The pairs of a query that become variables: those whose keyword is not empty. -/
def queryPairs (query : Bytes) : List (Bytes × Bytes) :=
  ((strtok (· == 38) (cstr query)).map queryPair).filter fun p => !p.1.isEmpty

/-- The query once `websSetEnv` has put the posted data behind it. -/
def PostRec.mergedQuery (wp : PostRec) : Bytes :=
  match wp.postData with
  | none => wp.query
  | some postData => if wp.query ≠ [] then wp.query ++ 38 :: postData else wp.query ++ postData

/-- `calcPrime(WEBS_SYM_INIT)`. -/
def CGI_VARS_HASH_SIZE : ℕ := 61

abbrev CgiVars := Table Bytes Bytes

/-- `websSetVar`. -/
def websSetVar (vars : CgiVars) (var value : Bytes) : CgiVars :=
  symEnter CGI_VARS_HASH_SIZE vars var value

/-- A variable that is there already gets the new value appended, up to 255 bytes. -/
def appendVar (old : Option Bytes) (value : Bytes) : Bytes :=
  match old with
  | some valCheck => (valCheck ++ 32 :: value).take 255
  | none => value

/-- One pair of the query. -/
def setQueryVar (vars : CgiVars) (p : Bytes × Bytes) : CgiVars :=
  websSetVar vars p.1 (appendVar (symLookup vars p.1) p.2)

/-- What the variables that do not come from the query are set to. -/
structure HostEnv where
  websHost : Bytes
  websHostUrl : Bytes
  ipaddr : Bytes
  path : Bytes
  websPort : ℕ
  ifaddr : Bytes
  protoVersion : Bytes

/-- The variables `websSetEnv` sets first, in order. -/
def HostEnv.vars (env : HostEnv) (query : Bytes) : List (Bytes × Bytes) :=
  [(bytes "QUERY_STRING", query), (bytes "GATEWAY_INTERFACE", bytes "CGI/1.1"),
    (bytes "SERVER_HOST", env.websHost), (bytes "SERVER_NAME", env.websHost),
    (bytes "SERVER_URL", env.websHostUrl), (bytes "REMOTE_HOST", env.ipaddr),
    (bytes "REMOTE_ADDR", env.ipaddr), (bytes "PATH_INFO", env.path),
    (bytes "SERVER_PORT", bytes (toString env.websPort)), (bytes "SERVER_ADDR", env.ifaddr),
    (bytes "SERVER_SOFTWARE", bytes "GoAhead-Webs/2.5.0"),
    (bytes "SERVER_PROTOCOL", env.protoVersion)]

/-- `websSetEnv` for a form that is not a multipart one: the variables afterwards. -/
def websSetEnv (env : HostEnv) (vars : CgiVars) (wp : PostRec) : CgiVars :=
  let vars := (env.vars wp.query).foldl (fun vars p => websSetVar vars p.1 p.2) vars
  (queryPairs wp.mergedQuery).foldl setQueryVar vars

/-- **Parsing is a homomorphism.** -/
theorem queryPairs_amp {a : Bytes} (ha : NulFree a) (b : Bytes) :
    queryPairs (a ++ 38 :: b) = queryPairs a ++ queryPairs b := by
  have hamp : NulFree (a ++ [38]) := ha.append (by simp [NulFree])
  have hcstr : cstr (a ++ 38 :: b) = a ++ 38 :: cstr b := by
    have h := cstr_append hamp b
    simpa using h
  unfold queryPairs
  rw [hcstr, cstr_of_nulFree ha, strtok_append_cons _ _ _ (by rfl), List.map_append,
    List.filter_append]

/-- The pairs of a form are those of its query and those of its body. -/
theorem queryPairs_mergedQuery {wp : PostRec} (hq : NulFree wp.query) {body : Bytes}
    (hbody : wp.postData = some body) :
    queryPairs wp.mergedQuery = queryPairs wp.query ++ queryPairs body := by
  unfold PostRec.mergedQuery
  rw [hbody]
  dsimp only
  by_cases hempty : wp.query = []
  · rw [if_neg (not_not.mpr hempty), hempty]
    rfl
  · rw [if_pos hempty]
    exact queryPairs_amp hq body

/-- A variable after the loop depends on what it was and on the pairs that name it. -/
theorem lookup_setQueryVars {k : Bytes} (hk : k ≠ []) (ps : List (Bytes × Bytes))
    {vars vars' : CgiVars} (h : vars.lookup k = vars'.lookup k) :
    (ps.foldl setQueryVar vars).lookup k = (ps.foldl setQueryVar vars').lookup k := by
  induction ps generalizing vars vars' with
  | nil => exact h
  | cons p ps ih =>
      apply ih
      unfold setQueryVar websSetVar
      rw [lookup_symEnter, lookup_symEnter]
      by_cases hp : k = p.1
      · rw [if_pos hp, if_pos hp, ← hp, symLookup_of_ne_nil _ hk, symLookup_of_ne_nil _ hk, h]
      · rw [if_neg hp, if_neg hp, h]

/-- Only `QUERY_STRING` shows the query. -/
theorem lookup_hostVars (env : HostEnv) (vars : CgiVars) (q q' : Bytes) {k : Bytes}
    (hk : k ≠ bytes "QUERY_STRING") :
    ((env.vars q).foldl (fun vars p => websSetVar vars p.1 p.2) vars).lookup k
      = ((env.vars q').foldl (fun vars p => websSetVar vars p.1 p.2) vars).lookup k := by
  unfold HostEnv.vars websSetVar
  simp only [List.foldl_cons, List.foldl_nil, lookup_symEnter, if_neg hk]

/-! ## Segmentation -/

/-- The variables of the form: the body arrives, and the variables that `websSetEnv` creates
from the query and the body are the same as when it arrives in one piece. For a request
that is no CGI request they are the pairs of the query followed by those of the body. -/
def SegmentationFree (wp : PostRec) (texts : List Bytes) : Prop :=
  ∃ wp1 wp2, websReadEvent wp texts = some wp1 ∧
    websReadEvent wp [texts.flatten] = some wp2 ∧
    queryPairs wp1.mergedQuery = queryPairs wp2.mergedQuery ∧
    (wp.cgi = false →
      queryPairs wp1.mergedQuery = queryPairs wp.query ++ queryPairs texts.flatten) ∧
    ∀ env vars k, k ≠ [] → k ≠ bytes "QUERY_STRING" →
      (websSetEnv env vars wp1).lookup k = (websSetEnv env vars wp2).lookup k

/-- **Segmentation is invisible exactly when the later reads leave the pairs of the query
alone.** -/
theorem form_variables_segmentation_iff (q : Bytes) (hq : NulFree q) (cgi : Bool) (clen : ℕ)
    (hclen : 0 < clen) (texts : List Bytes) (htexts : Delivers clen texts) :
    SegmentationFree ⟨q, cgi, clen, none⟩ texts ↔
      cgi = true ∨ queryPairs (q ++ laterText texts) = queryPairs q := by
  have hlen := htexts.length
  have hne : texts ≠ [] := by
    rintro rfl
    simp at hlen
    omega
  have hbody : texts.flatten ≠ [] := by
    apply List.length_pos_iff.mp
    omega
  have hread := websReadEvent_body q cgi hne htexts.ne_nil
  have hwhole := websReadEvent_body q cgi (List.cons_ne_nil texts.flatten [])
    (by simpa using hbody)
  have hflat : [texts.flatten].flatten = texts.flatten := by simp
  rw [hflat] at hwhole
  rw [hlen] at hread hwhole
  -- Equal pairs make equal variables, up to the one that shows the query itself.
  have hvars : ∀ wp1 wp2 : PostRec, queryPairs wp1.mergedQuery = queryPairs wp2.mergedQuery →
      ∀ env vars k, k ≠ [] → k ≠ bytes "QUERY_STRING" →
        (websSetEnv env vars wp1).lookup k = (websSetEnv env vars wp2).lookup k := by
    intro wp1 wp2 hpairs env vars k hk hqs
    unfold websSetEnv
    dsimp only
    rw [hpairs]
    exact lookup_setQueryVars hk _ (lookup_hostVars env vars _ _ hqs)
  rcases cgi with _ | _
  · have hnone : laterText [texts.flatten] = [] := rfl
    rw [if_neg (by decide)] at hread hwhole
    rw [hnone, List.append_nil] at hwhole
    have hmany : queryPairs (PostRec.mergedQuery ⟨q ++ laterText texts, false, 0, some texts.flatten⟩)
        = queryPairs (q ++ laterText texts) ++ queryPairs texts.flatten :=
      queryPairs_mergedQuery (hq.append (laterText_nulFree texts)) rfl
    have hone : queryPairs (PostRec.mergedQuery ⟨q, false, 0, some texts.flatten⟩)
        = queryPairs q ++ queryPairs texts.flatten := queryPairs_mergedQuery hq rfl
    constructor
    · rintro ⟨wp1, wp2, h1, h2, -, hpairs, -⟩
      right
      rw [hread, Option.some.injEq] at h1
      have heq := hpairs rfl
      rw [← h1, hmany] at heq
      exact List.append_cancel_right heq
    · rintro (hcgi | hsame)
      · cases hcgi
      · have heq : queryPairs (PostRec.mergedQuery
            ⟨q ++ laterText texts, false, 0, some texts.flatten⟩)
            = queryPairs (PostRec.mergedQuery ⟨q, false, 0, some texts.flatten⟩) := by
          rw [hmany, hone, hsame]
        refine ⟨_, _, hread, hwhole, heq, fun _ => ?_, hvars _ _ heq⟩
        rw [hmany, hsame]
  · refine ⟨fun _ => Or.inl rfl, fun _ => ?_⟩
    exact ⟨_, _, hread, hwhole, rfl, by simp, hvars _ _ rfl⟩

/-- Two reads, the second of which adds nothing to the query but a `&`. -/
theorem form_variables_trailing_amp :
    SegmentationFree ⟨bytes "x=0", false, 8, none⟩ [bytes "a=1&b=2", bytes "&"] := by
  have hq : NulFree (bytes "x=0") := by decide
  apply (form_variables_segmentation_iff (bytes "x=0") hq false 8 (by decide)
    [bytes "a=1&b=2", bytes "&"] (by decide)).mpr
  right
  decide

/-- The body `a=1&b=2` in two reads: `b` is `2 2`. -/
theorem form_variables_split_body :
    ¬ ∀ (q : Bytes) (cgi : Bool) (clen : ℕ) (texts : List Bytes), NulFree q → 0 < clen →
      Delivers clen texts → SegmentationFree ⟨q, cgi, clen, none⟩ texts := by
  intro hall
  have hq : NulFree [] := by simp [NulFree]
  obtain ⟨wp1, wp2, h1, -, -, hpairs, -⟩ :=
    hall [] false 7 [bytes "a=1&", bytes "b=2"] hq (by decide) (by decide)
  have hread : websReadEvent ⟨[], false, 7, none⟩ [bytes "a=1&", bytes "b=2"]
      = some ⟨bytes "b=2", false, 0, some (bytes "a=1&b=2")⟩ := by decide
  have heq := hpairs rfl
  rw [hread, Option.some.injEq] at h1
  rw [← h1] at heq
  revert heq
  decide

/-! ## One request for one body

`PostRec` keeps the body as one list and the bytes still to come as a natural number. In
the source these are three fields that each read updates on its own: the counter `clen`,
an `int`, the buffer `postData`, and `lenPostData`, the place in it where the next read
goes. Below the same state is taken with these three fields, and with the requests it has
handed to `websUrlHandlerRequest`. -/

/-- The fields of `webs_t` the `WEBS_POST_CLEN` state works on. -/
structure PostWp where
  query : Bytes
  /-- `flags & WEBS_CGI_REQUEST`. -/
  cgi : Bool
  clen : ℤ
  /-- The bytes of the block `postData` points to, as far as they have been written. -/
  postData : Option Bytes := none
  lenPostData : ℕ := 0
  deriving DecidableEq, Repr

/-- The number of bytes `websGetInput` asks the socket for. -/
def PostWp.askedFor (wp : PostWp) : ℤ :=
  if (WEBS_SOCKET_BUFSIZ : ℤ) < wp.clen then WEBS_SOCKET_BUFSIZ else wp.clen

/-- The `WEBS_POST_CLEN` case of `websReadEvent` up to the test of `clen`. -/
def PostWp.take (wp : PostWp) (text : Bytes) : PostWp :=
  let wp :=
    if wp.cgi then wp
    else
      match wp.postData with
      | some postData =>
          { wp with
            query := wp.query ++ cstr text
            -- `memcpy` to `&postData[lenPostData]`, behind which the block ends.
            postData := some (postData.take wp.lenPostData ++ text)
            lenPostData := wp.lenPostData + text.length }
      | none => { wp with postData := some text, lenPostData := text.length }
  { wp with clen := wp.clen - text.length }

/-- A connection whose body is being read, and the requests it has handed on. -/
structure PostConn where
  wp : PostWp
  handed : List PostWp := []

/-- One read. While `clen` is positive the loop goes on with the next read, or waits for
the socket to become readable again. -/
def PostConn.read (conn : PostConn) (text : Bytes) : PostConn :=
  let wp := conn.wp.take text
  if 0 < wp.clen then { conn with wp := wp }
  else { wp := wp, handed := conn.handed ++ [wp] }

theorem PostConn.read_more {conn : PostConn} {text : Bytes} (h : 0 < (conn.wp.take text).clen) :
    conn.read text = ⟨conn.wp.take text, conn.handed⟩ := if_pos h

theorem PostConn.read_last {conn : PostConn} {text : Bytes}
    (h : ¬ 0 < (conn.wp.take text).clen) :
    conn.read text = ⟨conn.wp.take text, conn.handed ++ [conn.wp.take text]⟩ := if_neg h

/-- The body of `n` bytes is about to be read. -/
def PostConn.start (query : Bytes) (cgi : Bool) (n : ℕ) : PostConn :=
  { wp := { query := query, cgi := cgi, clen := n } }

/-- Where the reading stands after the bytes `got` of `n`. -/
structure ReadSoFar (n : ℕ) (got : Bytes) (conn : PostConn) : Prop where
  cgi : conn.wp.cgi = false
  clen : conn.wp.clen = (n : ℤ) - got.length
  postData : conn.wp.postData = if got = [] then none else some got
  lenPostData : conn.wp.lenPostData = got.length
  handed : conn.handed = if got.length < n then [] else [conn.wp]

/-- A read of something that is still to come. -/
theorem ReadSoFar.read {n : ℕ} {got : Bytes} {conn : PostConn} (h : ReadSoFar n got conn)
    {text : Bytes} (hne : text ≠ []) (hle : got.length + text.length ≤ n) :
    ReadSoFar n (got ++ text) (conn.read text) := by
  have hpos : 0 < text.length := List.length_pos_iff.mpr hne
  have hempty : conn.handed = [] := by
    rw [h.handed, if_pos (by omega)]
  have htake : (conn.wp.take text).cgi = false ∧
      (conn.wp.take text).clen = (n : ℤ) - (got ++ text).length ∧
      (conn.wp.take text).postData = some (got ++ text) ∧
      (conn.wp.take text).lenPostData = (got ++ text).length := by
    have hclen : (n : ℤ) - (got ++ text).length = conn.wp.clen - text.length := by
      rw [h.clen, List.length_append]
      push_cast
      ring
    unfold PostWp.take
    rw [hclen, h.cgi, h.postData]
    by_cases hgot : got = []
    · rw [if_pos hgot, hgot]
      exact ⟨rfl, rfl, rfl, rfl⟩
    · rw [if_neg hgot]
      refine ⟨rfl, rfl, ?_, ?_⟩
      · simp [h.lenPostData]
      · simp [h.lenPostData]
  obtain ⟨hcgi, hclen, hdata, hlen⟩ := htake
  have hcat : (got ++ text).length = got.length + text.length := List.length_append
  by_cases hmore : got.length + text.length < n
  · rw [PostConn.read_more (by omega)]
    refine ⟨hcgi, hclen, ?_, hlen, ?_⟩
    · rw [if_neg (by simp [hne])]
      exact hdata
    · rw [if_pos (by omega)]
      exact hempty
  · rw [PostConn.read_last (by omega)]
    refine ⟨hcgi, hclen, ?_, hlen, ?_⟩
    · rw [if_neg (by simp [hne])]
      exact hdata
    · rw [if_neg (by omega), hempty]
      rfl

/-- What is read of a body that is being delivered. -/
theorem ReadSoFar.run {n : ℕ} {got : Bytes} {conn : PostConn} (h : ReadSoFar n got conn)
    (texts after : List Bytes) (hall : Delivers (n - got.length) (texts ++ after)) :
    ReadSoFar n (got ++ texts.flatten) (run PostConn.read conn texts) := by
  induction texts generalizing got conn with
  | nil => simpa using h
  | cons text texts ih =>
      obtain ⟨hpos, hle, hrest⟩ := hall
      have hcap : text.length ≤ n - got.length := hle.trans (min_le_right _ _)
      have hnext := h.read (List.length_pos_iff.mp hpos) (by omega)
      have hleft : n - (got ++ text).length = n - got.length - text.length := by
        rw [List.length_append]
        omega
      have := ih hnext (by rw [hleft]; exact hrest)
      rw [run_cons, List.flatten_cons, ← List.append_assoc]
      exact this

/-! ### The two records -/

/-- The part of the record that `PostRec` keeps. -/
def PostWp.toRec (wp : PostWp) : PostRec := ⟨wp.query, wp.cgi, wp.clen.toNat, wp.postData⟩

/-- `lenPostData` bytes are in the buffer. -/
def PostWp.Filled (wp : PostWp) : Prop :=
  ∀ postData, wp.postData = some postData → postData.length = wp.lenPostData

theorem PostWp.toRec_take {wp : PostWp} (hwp : wp.Filled) (text : Bytes) :
    (wp.take text).toRec = postRead wp.toRec text ∧ (wp.take text).Filled := by
  obtain ⟨q, cgi, clen, postData, lenPostData⟩ := wp
  have hclen : (clen - text.length).toNat = clen.toNat - text.length := by omega
  unfold PostWp.toRec postRead PostWp.take PostWp.Filled
  rcases cgi with _ | _
  · rcases postData with _ | postData
    · simp [hclen]
    · have hfill : postData.length = lenPostData := hwp postData rfl
      simp [hclen, ← hfill]
  · exact ⟨by simp [hclen], hwp⟩

/-- What `websReadEvent` returns is the first request handed on. -/
theorem websReadEvent_eq_handed {conn : PostConn} (hnone : conn.handed = [])
    (hwp : conn.wp.Filled) (texts : List Bytes) :
    websReadEvent conn.wp.toRec texts
      = (run PostConn.read conn texts).handed.head?.map PostWp.toRec := by
  induction texts generalizing conn with
  | nil =>
      rw [run_nil, hnone]
      rfl
  | cons text texts ih =>
      obtain ⟨hrec, hfilled⟩ := PostWp.toRec_take hwp text
      have hclen : 0 < (conn.wp.take text).toRec.clen ↔ 0 < (conn.wp.take text).clen := by
        have htoRec : (conn.wp.take text).toRec.clen = (conn.wp.take text).clen.toNat := rfl
        omega
      rw [websReadEvent, ← hrec, run_cons]
      by_cases hmore : 0 < (conn.wp.take text).clen
      · rw [if_pos (hclen.mpr hmore), PostConn.read_more hmore]
        exact @ih ⟨conn.wp.take text, conn.handed⟩ hnone hfilled
      · rw [if_neg (mt hclen.mp hmore), PostConn.read_last hmore, hnone]
        -- Later reads only add requests behind this one.
        have hkeep : ∀ (c : PostConn) (t : Bytes), c.handed.head? = some (conn.wp.take text) →
            (c.read t).handed.head? = some (conn.wp.take text) := by
          intro c t hc
          by_cases hlast : 0 < (c.wp.take t).clen
          · rw [PostConn.read_more hlast]
            exact hc
          · rw [PostConn.read_last hlast, List.head?_append, hc]
            rfl
        have hhead := run_invariant hkeep (s := ⟨conn.wp.take text, [] ++ [conn.wp.take text]⟩) rfl
          texts
        rw [hhead]
        rfl

/-! ### The whole body -/

/-- Nothing has been handed on as long as something is to come. -/
theorem ReadSoFar.handed_nil_iff {n : ℕ} {got : Bytes} {conn : PostConn}
    (h : ReadSoFar n got conn) : conn.handed = [] ↔ got.length < n := by
  rw [h.handed]
  by_cases hmore : got.length < n
  · rw [if_pos hmore]
    exact ⟨fun _ => hmore, fun _ => rfl⟩
  · rw [if_neg hmore]
    exact ⟨fun hnil => absurd hnil (List.cons_ne_nil _ _), fun hlt => absurd hlt hmore⟩

/-- A read is no longer than what is asked for. -/
theorem ReadSoFar.le_askedFor {n : ℕ} {got : Bytes} {conn : PostConn} (h : ReadSoFar n got conn)
    {text : Bytes} (hpos : 0 < text.length)
    (hle : text.length ≤ min WEBS_SOCKET_BUFSIZ (n - got.length)) :
    (text.length : ℤ) ≤ conn.wp.askedFor := by
  have hbuf := hle.trans (min_le_left _ _)
  have hleft := hle.trans (min_le_right _ _)
  unfold PostWp.askedFor
  rw [h.clen]
  split_ifs
  · omega
  · omega

/-- What is to come has a length exactly if there is something to come. -/
theorem Delivers.flatten_pos_iff {clen : ℕ} {before after : List Bytes}
    (h : Delivers clen (before ++ after)) : 0 < after.flatten.length ↔ after ≠ [] := by
  constructor
  · rintro hpos rfl
    exact absurd hpos (lt_irrefl 0)
  · intro hafter
    obtain ⟨text, rest, rfl⟩ := List.exists_cons_of_ne_nil hafter
    have hne := List.length_pos_iff.mpr (h.ne_nil text (by simp))
    rw [List.flatten_cons, List.length_append]
    omega

/-- **A posted body becomes one request.** Whatever the reads that deliver a body of `n`
bytes are, the request is handed on exactly once, at the last of them, with all of the body
and its length; `clen` never goes below zero and no read is longer than what `websGetInput`
asks for. -/
theorem websReadEvent_reassembles_body (q : Bytes) (n : ℕ) (hn : 0 < n) (texts : List Bytes)
    (htexts : Delivers n texts) :
    (∃ wp, (run PostConn.read (PostConn.start q false n) texts).handed = [wp] ∧
      wp.postData = some texts.flatten ∧ wp.lenPostData = n) ∧
    ∀ before after, texts = before ++ after →
      0 ≤ (run PostConn.read (PostConn.start q false n) before).wp.clen ∧
      ((run PostConn.read (PostConn.start q false n) before).handed = [] ↔ after ≠ []) ∧
      ∀ text rest, after = text :: rest →
        (text.length : ℤ) ≤ (run PostConn.read (PostConn.start q false n) before).wp.askedFor := by
  have hstart : ReadSoFar n [] (PostConn.start q false n) := by
    refine ⟨rfl, by simp [PostConn.start], rfl, rfl, ?_⟩
    rw [List.length_nil, if_pos hn]
    rfl
  have hlen := htexts.length
  have hsofar : ∀ before after, texts = before ++ after →
      ReadSoFar n before.flatten (run PostConn.read (PostConn.start q false n) before) := by
    rintro before after rfl
    exact hstart.run before after (by simpa using htexts)
  constructor
  · have hend := hsofar texts [] (by simp)
    have hne : texts.flatten ≠ [] := by
      apply List.length_pos_iff.mp
      omega
    refine ⟨(run PostConn.read (PostConn.start q false n) texts).wp, ?_, ?_, ?_⟩
    · rw [hend.handed, if_neg (by omega)]
    · rw [hend.postData, if_neg hne]
    · rw [hend.lenPostData, hlen]
  · rintro before after rfl
    have hread := hsofar before after rfl
    rw [List.flatten_append, List.length_append] at hlen
    refine ⟨?_, ?_, ?_⟩
    · rw [hread.clen]
      omega
    · rw [hread.handed_nil_iff, ← htexts.flatten_pos_iff]
      omega
    · rintro text rest rfl
      obtain ⟨hpos, hle, -⟩ := htexts.of_append
      exact hread.le_askedFor hpos hle

/-- A body with a newline and a NUL in it, in two reads. -/
theorem websReadEvent_reassembles_nul :
    Delivers 5 [[97, 10], [0, 98, 0]] ∧
      ∃ wp, (run PostConn.read (PostConn.start [] false 5) [[97, 10], [0, 98, 0]]).handed = [wp] ∧
        wp.postData = some [97, 10, 0, 98, 0] ∧ wp.lenPostData = 5 := by
  have h : Delivers 5 [[97, 10], [0, 98, 0]] := by decide
  exact ⟨h, (websReadEvent_reassembles_body [] 5 (by decide) _ h).1⟩

end TestCore.Webs
