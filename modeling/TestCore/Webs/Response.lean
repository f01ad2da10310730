/-
What the browser gets: `json_webs_rsp_result` and `json_webs_rsp_err` of `webs_define.c`, and
the loop of `jrd_webs_tx_thread` of `sock_clt.c` that passes on a message of the core
application.

Both send through `websWrite`, which formats. The loop passes its text as the argument of `%s`,
in pieces that the formatter has room for, and so loses nothing. The two responses pass theirs
as the format: a `%` in it is taken for a directive, and what is over 3071 characters is
dropped, while the header has announced the whole length.

json-c is not part of the repository. Its texts are strings, and they have a `%` exactly if a
key or a string has one; it does not escape that character.
-/
import TestCore.Webs.Format
import TestCore.Webs.Params

set_option autoImplicit false

namespace TestCore.Webs

open TestCore.Lib

/-! ## JSON texts -/

mutual

/-- A key or a string of the value has the character. -/
def Json.Mentions (c : UInt8) : Json → Prop
  | .string s => c ∈ cstr s
  | .double text => c ∈ cstr text
  | .array elems => elemsMention c elems
  | .object members => membersMention c members
  | _ => False

def elemsMention (c : UInt8) : List Json → Prop
  | [] => False
  | j :: elems => j.Mentions c ∨ elemsMention c elems

def membersMention (c : UInt8) : List (Bytes × Json) → Prop
  | [] => False
  | (key, j) :: members => c ∈ cstr key ∨ j.Mentions c ∨ membersMention c members

end

/-- What is known of the texts of json-c. -/
structure JsonLib.Writes (lib : JsonLib) : Prop where
  nulFree : ∀ j, NulFree (lib.json_object_to_json_string j)
  percent : ∀ j, 37 ∈ lib.json_object_to_json_string j ↔ j.Mentions 37

/-- `json_object_object_add`: a member of that name is replaced. -/
def json_object_object_add (members : List (Bytes × Json)) (key : Bytes) (j : Json) :
    List (Bytes × Json) :=
  if members.any fun m => m.1 = key then members.map fun m => if m.1 = key then (key, j) else m
  else members ++ [(key, j)]

/-! ## The responses -/

/-- The value of a result parameter. -/
inductive RspParam where
  | int (val : ℤ)
  | str (s : Bytes)
  deriving DecidableEq, Repr

def RspParam.json : RspParam → Json
  | .int val => .int val
  | .str s => .string s

/-- `result_object`. -/
def resultMembers (rsp_params : List (Bytes × RspParam)) : List (Bytes × Json) :=
  rsp_params.foldl (fun members p => json_object_object_add members p.1 p.2.json) []

/-- The errors with a text of their own: the code, and how it and the message are sent. -/
def errorTable : List (ℤ × String × String) :=
  [(10101, "010101", "Username or Password is not correct."),
    (10102, "010102", "Other user is login."),
    (10103, "010103", "Login times is used out."),
    (10201, "010201", "Logout failed."),
    (10301, "010301", "Get login state failed."),
    (10401, "010401", "Change password failed."),
    (10402, "010402", "The current password is wrong."),
    (10403, "010403", "The current password is the same as default password."),
    (10501, "010501", "This method is wrong."),
    (10601, "010601", "Username or Password is not correct."),
    (10602, "010602", "Login times is used out. "),
    (11201, "011201", "Set UIPwState Failed. "),
    (11101, "011101", "Get UIPwState Failed. "),
    (11001, "011001", "Set PasswordSaveInfo Failed."),
    (10901, "010901", "get PasswordSaveInfo Failed."),
    (-32700, "-32700", "Parse error"),
    (-32697, "-32697", "Authentication Failure"),
    (-32699, "-32699", "Authentication Failure"),
    (-32698, "-32698", "Request need login"),
    -- Octal in the source.
    (0o12101, "012101", "Init password failed")]

/-- The code and the message of an error. -/
def errorTexts (error_code : ℤ) : String × String :=
  ((errorTable.find? fun e => e.1 = error_code).map Prod.snd).getD ("-1", "failed")

/-- `json_webs_create_error_object`. -/
def json_webs_create_error_object (error_code : ℤ) : List (Bytes × Json) :=
  [(bytes "code", .string (bytes (errorTexts error_code).1)),
    (bytes "message", .string (bytes (errorTexts error_code).2))]

/-- A response. -/
inductive JsonRsp where
  | result (id : Bytes) (rsp_params : List (Bytes × RspParam))
  | err (error_code : ℤ) (id : Bytes)
  deriving DecidableEq, Repr

/-- `rsp_object`. -/
def JsonRsp.object : JsonRsp → Json
  | .result id rsp_params =>
      .object [(bytes "jsonrpc", .string (bytes "2.0")),
        (bytes "result", .object (resultMembers rsp_params)), (bytes "id", .string id)]
  | .err error_code id =>
      .object [(bytes "jsonrpc", .string (bytes "2.0")),
        (bytes "error", .object (json_webs_create_error_object error_code)), (bytes "id", .string id)]

/-- `websJsonHeader` with `E_CUST_DEFAULT`. -/
def websJsonHeader (m : FmtArch) (content_len : ℕ) : Option Bytes := do
  let status ← websWrite m (bytes "HTTP/1.1 200 OK\n") []
  let type ← websWrite m (bytes "Content-Type: application/json\n") []
  let frame ← websWrite m (bytes "X-Frame-Options: SAMEORIGIN\n") []
  let xss ← websWrite m (bytes "x-xss-protection: 1; mode=block\n") []
  let length ← websWrite m (bytes "Content-Length: %d\n") [.int content_len]
  let empty ← websWrite m (bytes "\n") []
  some (status ++ type ++ frame ++ xss ++ length ++ empty)

/-- `json_webs_rsp_result` and `json_webs_rsp_err`: the header and the body that are sent. -/
def JsonRsp.send (lib : JsonLib) (m : FmtArch) (rsp : JsonRsp) : Option (Bytes × Bytes) := do
  let format_data_buf := lib.json_object_to_json_string rsp.object
  let header ← websJsonHeader m format_data_buf.length
  let body ← websWrite m format_data_buf []
  some (header, body)

/-! ## Verbatim responses -/

/-- The header of a body of `n` bytes. -/
def jsonHeaderText (n : ℕ) : Bytes :=
  bytes "HTTP/1.1 200 OK\n" ++ bytes "Content-Type: application/json\n"
    ++ bytes "X-Frame-Options: SAMEORIGIN\n" ++ bytes "x-xss-protection: 1; mode=block\n"
    ++ (bytes "Content-Length: " ++ dec n ++ bytes "\n") ++ bytes "\n"

/-- The body is the JSON text, and the header announces its length. -/
def Verbatim (lib : JsonLib) (m : FmtArch) (rsp : JsonRsp) : Prop :=
  ∃ body, rsp.send lib m = some (jsonHeaderText body.length, body) ∧
    body = lib.json_object_to_json_string rsp.object

/-- Neither the id nor a name or a string among the results has a `%`. -/
def JsonRsp.NoPercent : JsonRsp → Prop
  | .result id rsp_params => 37 ∉ cstr id ∧ ¬ membersMention 37 (resultMembers rsp_params)
  | .err _ id => 37 ∉ cstr id

theorem errorTexts_plain (error_code : ℤ) :
    37 ∉ bytes (errorTexts error_code).1 ∧ 37 ∉ bytes (errorTexts error_code).2 := by
  have htable : ∀ e ∈ errorTable, 37 ∉ bytes e.2.1 ∧ 37 ∉ bytes e.2.2 := by decide
  unfold errorTexts
  rcases hfind : errorTable.find? fun e => decide (e.1 = error_code) with _ | e
  · rw [hfind]
    exact ⟨by decide, by decide⟩
  · rw [hfind]
    exact htable e (List.mem_of_find?_eq_some hfind)

theorem mem_of_mem_cstr {c : UInt8} {s : Bytes} (h : c ∈ cstr s) : c ∈ s :=
  (List.takeWhile_sublist _).subset h

/-- The texts of the server itself have no `%`. -/
theorem object_mentions (rsp : JsonRsp) : ¬ rsp.object.Mentions 37 ↔ rsp.NoPercent := by
  have hplain : ∀ s : Bytes, 37 ∉ s → 37 ∉ cstr s := fun s hs h => hs (mem_of_mem_cstr h)
  have hkey : ∀ s : Bytes, 37 ∉ s → (37 ∈ cstr s) = False := fun s hs => eq_false (hplain s hs)
  rcases rsp with ⟨id, rsp_params⟩ | ⟨error_code, id⟩
  · simp only [JsonRsp.object, JsonRsp.NoPercent, Json.Mentions, membersMention,
      hkey (bytes "jsonrpc") (by decide), hkey (bytes "2.0") (by decide),
      hkey (bytes "result") (by decide), hkey (bytes "id") (by decide)]
    tauto
  · obtain ⟨hcode, hmessage⟩ := errorTexts_plain error_code
    simp only [JsonRsp.object, JsonRsp.NoPercent, Json.Mentions, membersMention,
      json_webs_create_error_object, hkey (bytes "jsonrpc") (by decide),
      hkey (bytes "2.0") (by decide), hkey (bytes "error") (by decide),
      hkey (bytes "id") (by decide), hkey (bytes "code") (by decide),
      hkey (bytes "message") (by decide), hkey _ hcode, hkey _ hmessage]
    tauto

/-- The header is written as it is meant. -/
theorem websJsonHeader_eq (m : FmtArch) {n : ℕ} (hn : n ≤ 3071) :
    websJsonHeader m n = some (jsonHeaderText n) := by
  have htexts : ∀ t ∈ [bytes "HTTP/1.1 200 OK\n", bytes "Content-Type: application/json\n",
      bytes "X-Frame-Options: SAMEORIGIN\n", bytes "x-xss-protection: 1; mode=block\n", bytes "\n"],
      37 ∉ t ∧ 0 ∉ t ∧ t.length ≤ 3071 := by decide
  have hplain : ∀ t ∈ [bytes "HTTP/1.1 200 OK\n", bytes "Content-Type: application/json\n",
      bytes "X-Frame-Options: SAMEORIGIN\n", bytes "x-xss-protection: 1; mode=block\n", bytes "\n"],
      websWrite m t [] = some t := by
    intro t ht
    obtain ⟨hpercent, hnul, hlen⟩ := htexts t ht
    exact (websWrite_eq_iff m (nulFree_iff.mpr hnul)).mpr ⟨hpercent, hlen⟩
  have hlength : websWrite m (bytes "Content-Length: %d\n") [.int n]
      = some (bytes "Content-Length: " ++ dec n ++ bytes "\n") := by
    have hfmt : bytes "Content-Length: %d\n" = bytes "Content-Length: " ++ 37 :: 100 :: bytes "\n" := by
      decide
    have hdec : decInt (n : ℤ) = dec n := by
      have hnonneg : ¬ (n : ℤ) < 0 := by omega
      unfold decInt
      rw [if_neg hnonneg, Int.natAbs_natCast]
    have hshort : (dec n).length ≤ 4 := by
      unfold dec decDigits
      rw [digitText_length]
      split_ifs
      · decide
      · rw [List.length_reverse, Nat.digits_length_le_iff (by norm_num)]
        omega
    rw [hfmt, websWrite_number m (by decide) (by decide) (by decide)
      (by decide) (by omega) (by omega), hdec, List.take_of_length_le]
    have h1 : (bytes "Content-Length: ").length = 16 := by decide
    have h2 : (bytes "\n").length = 1 := by decide
    rw [List.length_append, List.length_append, h1, h2]
    omega
  unfold websJsonHeader
  rw [hplain (bytes "HTTP/1.1 200 OK\n") (by simp),
    hplain (bytes "Content-Type: application/json\n") (by simp),
    hplain (bytes "X-Frame-Options: SAMEORIGIN\n") (by simp),
    hplain (bytes "x-xss-protection: 1; mode=block\n") (by simp),
    hplain (bytes "\n") (by simp), hlength]
  rfl

/-- **JSON responses.** They are sent as json-c has made them, with their length, exactly if
nothing that the client or the results put there has a `%` and the text has at most 3071
characters. -/
theorem json_rsp_verbatim_iff {lib : JsonLib} (hlib : lib.Writes) (m : FmtArch) (rsp : JsonRsp) :
    Verbatim lib m rsp ↔
      rsp.NoPercent ∧ (lib.json_object_to_json_string rsp.object).length ≤ 3071 := by
  have hnul := hlib.nulFree rsp.object
  rw [← object_mentions, ← hlib.percent, ← websWrite_eq_iff m hnul]
  constructor
  · rintro ⟨body, hsend, rfl⟩
    unfold JsonRsp.send at hsend
    simp only [Option.bind_eq_bind, Option.bind_eq_some_iff, Option.some.injEq, Prod.mk.injEq] at hsend
    obtain ⟨header, -, body, hbody, -, rfl⟩ := hsend
    exact hbody
  · intro hbody
    have hlen := ((websWrite_eq_iff m hnul).mp hbody).2
    refine ⟨_, ?_, rfl⟩
    unfold JsonRsp.send
    simp only [websJsonHeader_eq m hlen, hbody, Option.bind_eq_bind, Option.bind_some]

/-! ## A writer

The texts of json-c for values whose strings need no escapes. -/

def jsonQuote (s : Bytes) : Bytes := 34 :: (cstr s ++ [34])

mutual

def Json.text : Json → Bytes
  | .null => bytes "null"
  | .bool b => if b then bytes "true" else bytes "false"
  | .int i => decInt i
  | .double text => cstr text
  | .string s => jsonQuote s
  | .array elems => bytes "[" ++ (elemsText elems ++ bytes " ]")
  | .object members => bytes "\x7b" ++ (membersText members ++ bytes " \x7d")

def elemsText : List Json → Bytes
  | [] => []
  | j :: elems => bytes " " ++ (j.text ++ ((if elems = [] then [] else bytes ",") ++ elemsText elems))

def membersText : List (Bytes × Json) → Bytes
  | [] => []
  | (key, j) :: members =>
      bytes " " ++ (jsonQuote key ++ (bytes ": " ++ (j.text
        ++ ((if members = [] then [] else bytes ",") ++ membersText members))))

end

theorem decInt_plain (n : ℤ) : 37 ∉ decInt n := by
  have hdec : 37 ∉ dec n.natAbs := fun h => absurd (mem_dec h).1 (by decide)
  unfold decInt
  split_ifs
  · simp [hdec]
  · exact hdec

theorem mem_jsonQuote (s : Bytes) : 37 ∈ jsonQuote s ↔ 37 ∈ cstr s := by
  simp [jsonQuote]

theorem jsonQuote_nulFree (s : Bytes) : NulFree (jsonQuote s) := by
  have hq : NulFree [34] := by decide
  exact (hq.append (cstr_nulFree s)).append hq

mutual

theorem Json.mem_text : ∀ j : Json, 37 ∈ j.text ↔ j.Mentions 37
  | .null => by simp [Json.text, Json.Mentions, bytes]
  | .bool b => by cases b <;> simp [Json.text, Json.Mentions, bytes]
  | .int i => by simp [Json.text, Json.Mentions, decInt_plain]
  | .double text => by simp [Json.text, Json.Mentions]
  | .string s => by simp [Json.text, Json.Mentions, mem_jsonQuote]
  | .array elems => by
      have hopen : 37 ∉ bytes "[" := by decide
      have hclose : 37 ∉ bytes " ]" := by decide
      simp [Json.text, Json.Mentions, hopen, hclose, mem_elemsText elems]
  | .object members => by
      have hopen : 37 ∉ bytes "\x7b" := by decide
      have hclose : 37 ∉ bytes " \x7d" := by decide
      simp [Json.text, Json.Mentions, hopen, hclose, mem_membersText members]

theorem mem_elemsText : ∀ elems : List Json, 37 ∈ elemsText elems ↔ elemsMention 37 elems
  | [] => by simp [elemsText, elemsMention]
  | j :: elems => by
      have hblank : 37 ∉ bytes " " := by decide
      have hcomma : 37 ∉ (if elems = [] then [] else bytes ",") := by
        split_ifs <;> decide
      simp [elemsText, elemsMention, hblank, hcomma, Json.mem_text j, mem_elemsText elems]

theorem mem_membersText : ∀ members : List (Bytes × Json),
    37 ∈ membersText members ↔ membersMention 37 members
  | [] => by simp [membersText, membersMention]
  | (key, j) :: members => by
      have hblank : 37 ∉ bytes " " := by decide
      have hcolon : 37 ∉ bytes ": " := by decide
      have hcomma : 37 ∉ (if members = [] then [] else bytes ",") := by
        split_ifs <;> decide
      simp [membersText, membersMention, hblank, hcolon, hcomma, mem_jsonQuote, Json.mem_text j,
        mem_membersText members]

end

mutual

theorem Json.text_nulFree : ∀ j : Json, NulFree j.text
  | .null => by rw [Json.text]; decide
  | .bool b => by cases b <;> (rw [Json.text]; decide)
  | .int i => by rw [Json.text]; exact decInt_nulFree i
  | .double text => by rw [Json.text]; exact cstr_nulFree text
  | .string s => by rw [Json.text]; exact jsonQuote_nulFree s
  | .array elems => by
      have hopen : NulFree (bytes "[") := by decide
      have hclose : NulFree (bytes " ]") := by decide
      rw [Json.text]
      exact hopen.append ((elemsText_nulFree elems).append hclose)
  | .object members => by
      have hopen : NulFree (bytes "\x7b") := by decide
      have hclose : NulFree (bytes " \x7d") := by decide
      rw [Json.text]
      exact hopen.append ((membersText_nulFree members).append hclose)

theorem elemsText_nulFree : ∀ elems : List Json, NulFree (elemsText elems)
  | [] => by rw [elemsText]; decide
  | j :: elems => by
      have hblank : NulFree (bytes " ") := by decide
      have hcomma : NulFree (if elems = [] then [] else bytes ",") := by
        split_ifs <;> decide
      rw [elemsText]
      exact hblank.append (j.text_nulFree.append (hcomma.append (elemsText_nulFree elems)))

theorem membersText_nulFree : ∀ members : List (Bytes × Json), NulFree (membersText members)
  | [] => by rw [membersText]; decide
  | (key, j) :: members => by
      have hblank : NulFree (bytes " ") := by decide
      have hcolon : NulFree (bytes ": ") := by decide
      have hcomma : NulFree (if members = [] then [] else bytes ",") := by
        split_ifs <;> decide
      rw [membersText]
      exact hblank.append ((jsonQuote_nulFree key).append (hcolon.append (j.text_nulFree.append
        (hcomma.append (membersText_nulFree members)))))

end

/-- json-c with this writer. -/
def textLib : JsonLib where
  json_tokener_parse := fun _ => none
  json_object_to_json_string := Json.text

theorem textLib_writes : textLib.Writes := ⟨Json.text_nulFree, Json.mem_text⟩

/-- The answer to a request for the login state. -/
theorem login_state_verbatim :
    textLib.Writes ∧ Verbatim textLib ⟨⟨false, false⟩, true⟩
      (.result (bytes "13.8") [(bytes "State", .int 1)]) := by
  refine ⟨textLib_writes, (json_rsp_verbatim_iff textLib_writes _ _).mpr ⟨⟨by decide, ?_⟩, ?_⟩⟩
  · simp [resultMembers, json_object_object_add, RspParam.json, membersMention, Json.Mentions, bytes,
      cstr]
  · show (Json.text _).length ≤ 3071
    decide

/-- An id with a `%` in it. -/
def percentRsp : JsonRsp := .result (bytes "%%") []

/-- One of the two characters of the id is sent, and the header has announced both. -/
theorem percent_in_id_is_lost :
    ¬ ∀ (lib : JsonLib), lib.Writes → ∀ (m : FmtArch) (rsp : JsonRsp), Verbatim lib m rsp := by
  intro hall
  obtain ⟨body, hsend, hbody⟩ := hall textLib textLib_writes ⟨⟨false, false⟩, true⟩ percentRsp
  have hmem : 37 ∈ textLib.json_object_to_json_string percentRsp.object := by
    show 37 ∈ Json.text _
    decide
  unfold JsonRsp.send at hsend
  simp only [Option.bind_eq_bind, Option.bind_eq_some_iff, Option.some.injEq, Prod.mk.injEq] at hsend
  obtain ⟨header, -, out, hout, -, rfl⟩ := hsend
  have hlt := websWrite_percent hmem hout
  rw [hbody] at hlt
  exact lt_irrefl _ hlt

/-! ## Messages of the core application

The loop of `jrd_webs_tx_thread` cuts the data of a message into pieces of `WEBS_BUFSIZE-1`. -/

/-- One `memcpy(send_data, ptr, len)`, with the pointer as an offset into the data. -/
structure Chunk where
  ptr : ℕ
  len : ℕ
  deriving DecidableEq, Repr

/-- `send_time`. -/
def sendTime (data_len : ℕ) : ℕ :=
  data_len / (WEBS_BUFSIZE - 1) + if data_len % (WEBS_BUFSIZE - 1) ≠ 0 then 1 else 0

/-- The turns of the loop from `i` on, of which `left` are left. -/
def jrd_webs_tx_thread.loop (data_len : ℕ) : (left i ptr : ℕ) → List Chunk
  | 0, _, _ => []
  | left + 1, i, ptr =>
      if i + 1 = sendTime data_len then
        ⟨ptr, data_len - i * (WEBS_BUFSIZE - 1)⟩ :: jrd_webs_tx_thread.loop data_len left (i + 1) ptr
      else
        ⟨ptr, WEBS_BUFSIZE - 1⟩ ::
          jrd_webs_tx_thread.loop data_len left (i + 1) (ptr + (WEBS_BUFSIZE - 1))

def sendChunks (data_len : ℕ) : List Chunk :=
  jrd_webs_tx_thread.loop data_len (sendTime data_len) 0 0

/-- The bytes that a copy takes from the data. -/
def Chunk.bytes (data : Bytes) (c : Chunk) : Bytes := (data.drop c.ptr).take c.len

/-- The string in `send_data` after `memset` and the copy, with whatever lies behind it. -/
def Chunk.send_data (data behind : Bytes) (c : Chunk) : Bytes :=
  cstr (writeAt (List.replicate WEBS_BUFSIZE 0) 0 (c.bytes data) ++ behind)

/-- What the calls of `websWrite(wp, "%s", send_data)` send. -/
def jrd_webs_tx_thread (m : FmtArch) (behind data : Bytes) : Option (List Bytes) :=
  (sendChunks data.length).mapM fun c =>
    websWrite m (bytes "%s") [.str (some (c.send_data data behind))]

theorem sendTime_bounds (n : ℕ) :
    n ≤ sendTime n * 3071 ∧ ∀ i, i < sendTime n → i * 3071 < n := by
  have hdiv := Nat.div_add_mod n 3071
  have hmod := Nat.mod_lt n (by norm_num : 0 < 3071)
  have htime : sendTime n = n / 3071 + if n % 3071 ≠ 0 then 1 else 0 := rfl
  rw [htime]
  split_ifs with h
  · exact ⟨by omega, fun i hi => by omega⟩
  · exact ⟨by omega, fun i hi => by omega⟩

/-- **The pieces.** From a turn on, they are what is left of the data, and each fits `send_data`
with a terminator. -/
theorem loop_chunks (data : Bytes) :
    ∀ {left i ptr : ℕ}, i + left = sendTime data.length → ptr = i * 3071 →
      ((jrd_webs_tx_thread.loop data.length left i ptr).map (Chunk.bytes data)).flatten
          = data.drop ptr ∧
        ∀ c ∈ jrd_webs_tx_thread.loop data.length left i ptr,
          c.len ≤ 3071 ∧ c.ptr + c.len ≤ data.length := by
  obtain ⟨hall, hbefore⟩ := sendTime_bounds data.length
  have hsize : WEBS_BUFSIZE - 1 = 3071 := rfl
  intro left
  induction left with
  | zero =>
      rintro i ptr hi rfl
      rw [Nat.add_zero] at hi
      rw [hi, jrd_webs_tx_thread.loop, List.drop_of_length_le hall]
      exact ⟨rfl, fun c hc => absurd hc List.not_mem_nil⟩
  | succ left ih =>
      rintro i ptr hi rfl
      have hlt := hbefore i (by omega)
      unfold jrd_webs_tx_thread.loop
      rw [hsize]
      by_cases hlast : i + 1 = sendTime data.length
      · -- The last piece: all that is left.
        obtain rfl : left = 0 := by omega
        rw [if_pos hlast, jrd_webs_tx_thread.loop]
        refine ⟨?_, ?_⟩
        · rw [List.map_singleton, List.flatten_singleton]
          exact List.take_of_length_le (by rw [List.length_drop])
        · intro c hc
          rw [List.mem_singleton.mp hc]
          rw [← hlast] at hall
          exact ⟨by show data.length - i * 3071 ≤ 3071; omega,
            by show i * 3071 + (data.length - i * 3071) ≤ data.length; omega⟩
      · rw [if_neg hlast]
        have hnext := hbefore (i + 1) (by omega)
        obtain ⟨hrest, hfits⟩ := @ih (i + 1) (i * 3071 + 3071) (by omega) (by omega)
        refine ⟨?_, ?_⟩
        · rw [List.map_cons, List.flatten_cons, hrest, ← List.drop_drop]
          exact List.take_append_drop 3071 _
        · intro c hc
          rcases List.mem_cons.mp hc with rfl | hc
          · exact ⟨le_rfl, by show i * 3071 + 3071 ≤ data.length; omega⟩
          · exact hfits c hc

/-- A piece is sent as it is. -/
theorem websWrite_chunk (m : FmtArch) (behind : Bytes) {data : Bytes} (hdata : NulFree data)
    {c : Chunk} (hlen : c.len ≤ 3071) :
    websWrite m (bytes "%s") [.str (some (c.send_data data behind))] = some (c.bytes data) := by
  have hnul : NulFree (c.bytes data) :=
    fun x hx => hdata x (List.mem_of_mem_drop (List.mem_of_mem_take hx))
  have hshort : (c.bytes data).length ≤ 3071 := (List.length_take_le _ _).trans hlen
  have hsent : c.send_data data behind = c.bytes data := by
    obtain ⟨n, hn⟩ : ∃ n, WEBS_BUFSIZE - (c.bytes data).length = n + 1 :=
      ⟨WEBS_BUFSIZE - (c.bytes data).length - 1, by
        have hsize : WEBS_BUFSIZE = 3072 := rfl
        omega⟩
    unfold Chunk.send_data
    rw [writeAt_zero, List.drop_replicate, hn, List.append_assoc, cstr_append hnul, List.replicate_succ,
      List.cons_append, cstr_zero_cons, List.append_nil]
  rw [hsent, websWrite_string m hnul, List.take_of_length_le hshort]

theorem mapM_eq_some {α β : Type} {f : α → Option β} {g : α → β} {l : List α}
    (h : ∀ x ∈ l, f x = some (g x)) : l.mapM f = some (l.map g) := by
  induction l with
  | nil => rfl
  | cons x l ih =>
      rw [List.mapM_cons, h x List.mem_cons_self, ih fun y hy => h y (List.mem_cons_of_mem x hy)]
      rfl

/-- **The relay.** The pieces that are sent are the data of the message, one after the other,
and no copy goes over the end of `send_data` or of the data. -/
theorem relay_verbatim (m : FmtArch) (behind : Bytes) {data : Bytes} (hdata : NulFree data) :
    (∃ pieces, jrd_webs_tx_thread m behind data = some pieces ∧ pieces.flatten = data) ∧
      ∀ c ∈ sendChunks data.length, c.len ≤ WEBS_BUFSIZE ∧ c.ptr + c.len ≤ data.length := by
  obtain ⟨hflat, hfits⟩ := @loop_chunks data (sendTime data.length) 0 0 (Nat.zero_add _)
    (Nat.zero_mul _).symm
  refine ⟨⟨(sendChunks data.length).map (Chunk.bytes data), ?_, hflat⟩, ?_⟩
  · apply mapM_eq_some
    intro c hc
    exact websWrite_chunk m behind hdata (hfits c hc).1
  · intro c hc
    obtain ⟨hlen, hptr⟩ := hfits c hc
    exact ⟨hlen.trans (by decide), hptr⟩

/-- A message one byte longer than a piece. -/
theorem relay_two_pieces :
    NulFree (List.replicate 3072 120) ∧
      ∃ pieces, jrd_webs_tx_thread ⟨⟨false, false⟩, true⟩ [] (List.replicate 3072 120) = some pieces ∧
        pieces.flatten = List.replicate 3072 120 := by
  have hnul : NulFree (List.replicate 3072 120) := by
    intro c hc
    rw [List.eq_of_mem_replicate hc]
    decide
  exact ⟨hnul, (relay_verbatim ⟨⟨false, false⟩, true⟩ [] hnul).1⟩

end TestCore.Webs
