/-
Form requests on their way to the core application: `websJRDtnHandler` and `jrd_write_file` of
`sock_clt.c`.

The handler puts the name of the request, a part of the query and the POST body one behind the
other into `jrd_web_swap_buf` and queues what is there. Two requests carry a file instead of a
body: the body goes to a file in `/tmp/jrd_dir/` whose name is a variable of the request, and
the name of the file goes into the message. Nothing of this is measured, and the name is not
looked at. The first main theorem says which file names are harmless, the second one which
requests fit the buffer.

The model keeps the buffer as memory, with whatever lies behind it: `strcat` writes where it
finds a zero, and behind the end of the buffer that may be anywhere. `Y858_JSON_RESTORE` and
`JRD_DEBUG_CATCH_LOG` are not defined.
-/
import TestCore.Lib.Search
import TestCore.Lib.Wire
import TestCore.Webs.Params

set_option autoImplicit false

namespace TestCore.Webs

open TestCore.Lib

def JRD_SOCK_WEB_TX_BUF_SIZE : ℕ := 8192

/-- What the handler meets outside of the request. -/
structure TnEnv where
  /-- `sizeof(jrd_sock_hdr_t)`. -/
  hdrSize : ℕ
  hdrSize_lt : hdrSize < JRD_SOCK_WEB_TX_BUF_SIZE
  json_method_token_check : Int
  jrd_webs_token_str_extern : Bytes
  /-- The memory behind `jrd_web_swap_buf`. -/
  behind : Bytes
  /-- The file system: whether a file can be opened, how many of `n` bytes are written at
  once, and whether it can be closed. -/
  fopen : Bytes → Bool
  fwrite : ℕ → ℕ
  fclose : Bool
  /-- `malloc` of the copy for the queue succeeds. -/
  malloc : Bool

def TnEnv.JRD_WEB_SWAP_BUF_SIZE (env : TnEnv) : ℕ := JRD_SOCK_WEB_TX_BUF_SIZE - env.hdrSize

/-! ## Files -/

/-- The loop of `jrd_write_file`: whether all of `numLeft` bytes get written. A turn writes
at least one byte, so that as many turns as there are bytes are enough. -/
def jrd_write_file.loop (fwrite : ℕ → ℕ) : (fuel numLeft : ℕ) → Bool
  | 0, numLeft => numLeft = 0
  | fuel + 1, numLeft =>
      if numLeft = 0 then true
      else
        let numWrite := min (fwrite numLeft) numLeft
        if numWrite = 0 then false else jrd_write_file.loop fwrite fuel (numLeft - numWrite)

/-- `jrd_write_file`. -/
def jrd_write_file (env : TnEnv) (file_path_name data : Bytes) : Int :=
  if env.fopen file_path_name then
    if jrd_write_file.loop env.fwrite data.length data.length then
      if env.fclose then 0 else -1
    else -1
  else -1

/-! ## The swap buffer -/

/-- `jrd_web_swap_buf` and what lies behind it, the pointer into it, and the end of the
highest bytes that were written. -/
structure Swap where
  mem : Bytes
  data_ptr : ℕ := 0
  top : ℕ := 0
  deriving DecidableEq, Repr

def Swap.write (s : Swap) (at_ : ℕ) (b : Bytes) : Swap :=
  { s with mem := writeAt s.mem at_ b, top := max s.top (at_ + b.length) }

/-- `data_ptr += sprintf(data_ptr, "%s", text)`. -/
def Swap.sprintf (s : Swap) (text : Bytes) : Swap :=
  { s.write s.data_ptr (text ++ [0]) with data_ptr := s.data_ptr + text.length }

/-- `strcat(data_ptr, text); data_ptr += strlen(text)`. -/
def Swap.strcat (s : Swap) (text : Bytes) : Swap :=
  { s.write (s.data_ptr + (cstr (s.mem.drop s.data_ptr)).length) (text ++ [0]) with
    data_ptr := s.data_ptr + text.length }

/-- `memcpy(data_ptr, b, len); data_ptr += len`. -/
def Swap.memcpy (s : Swap) (b : Bytes) : Swap :=
  { s.write s.data_ptr b with data_ptr := s.data_ptr + b.length }

/-! ## The handler -/

/-- `gstrchr(&path[1], '/') + 1`. -/
def tnReqName (path : Bytes) : Option Bytes :=
  (findSub [47] (path.drop 1)).map fun i => (path.drop 1).drop (i + 1)

/-- `JRD_WEB_FILTER_REQ` or `JRD_WEB_PICOPOINT_REQ`. The terminators are compared too. -/
def isUploadReq (req_name : Bytes) : Bool :=
  req_name = bytes "uploadBackupSettings" || req_name = bytes "activatePicopoint"

/-- The token of an upload. -/
def tnToken (wp : WebsRec) : Bytes :=
  let token := cstr (websGetVar wp (bytes "_TclRequestVerificationToken") [])
  if token ≠ [] then jrd_decrypt token
  else
    match wp.token with
    | some token => token
    | none => token

/-- How the block for the two upload requests ends. -/
inductive TnUpload where
  /-- `WEBS_TOKEN_ERROR` is answered, and 1 returned. -/
  | tokenError
  /-- There is no file name, and 0 is returned. -/
  | noFilename
  /-- `jrd_write_file` was called with this path and failed, and 0 is returned. -/
  | writeFailed (file_name : Bytes)
  /-- The file is written. -/
  | written (file_name post_key_file_name : Bytes)
  deriving DecidableEq, Repr

/-- The block for the two upload requests. -/
def tnUpload (env : TnEnv) (wp : WebsRec) : TnUpload :=
  if env.json_method_token_check ≠ 0 ∧ env.jrd_webs_token_str_extern ≠ tnToken wp then .tokenError
  else
    let fn := cstr (websGetVar wp (bytes "filename") [])
    if fn = [] then .noFilename
    else
      let file_name := bytes "/tmp/jrd_dir/" ++ fn
      if jrd_write_file env file_name wp.postData ≠ 0 then .writeFailed file_name
      else .written file_name (bytes "filename=" ++ file_name)

/-- The part of the query that is appended: up to the character before `rand=0.`, and nothing
if that is not there or comes first. -/
def tnQuery (query : Bytes) : Option Bytes :=
  match findSub (bytes "rand=0.") query with
  | some (i + 1) => some (query.take i)
  | _ => none

/-- `cp` after the three searches: where the first of the three dummy keys is that occurs. -/
def dummyKeyAt (text : Bytes) : Option ℕ :=
  ((findSub (bytes "d=1") text).or (findSub (bytes "some=a") text)).or
    (findSub (bytes "page_reboot=login.html") text)

/-- What is appended for the body: nothing if there is none or a dummy key is at its
beginning, and the key with its terminator if it was written to a file. -/
def tnPost (postData : Bytes) (key : Option Bytes) : Option Bytes :=
  if postData = [] ∨ dummyKeyAt (cstr postData) = some 0 then none
  else
    match key with
    | none => some postData
    | some post_key_file_name => some (post_key_file_name ++ [0])

/-- The buffer before anything is put there. -/
def TnEnv.swap (env : TnEnv) : Swap :=
  { mem := List.replicate env.JRD_WEB_SWAP_BUF_SIZE 0 ++ env.behind }

/-- One more piece, with its separator. -/
def Swap.piece (s : Swap) : Option Bytes → Swap
  | none => s
  | some b => (s.strcat (bytes "&")).memcpy b

/-- The assembly of the message. -/
def tnAssemble (env : TnEnv) (wp : WebsRec) (req_name query : Bytes) (key : Option Bytes) : Swap :=
  ((env.swap.sprintf req_name).piece (tnQuery query)).piece (tnPost wp.postData key)

/-- What a call has done. -/
structure TnRun where
  ret : Int
  /-- The path that `jrd_write_file` was called with. -/
  file_name : Option Bytes := none
  /-- `post_key_file_name`, once a file name is in it. -/
  key : Option Bytes := none
  /-- The end of the highest bytes written to `jrd_web_swap_buf`. -/
  top : ℕ := 0
  data_len : Option ℕ := none
  /-- What is put on the queue. -/
  queued : Option Bytes := none
  deriving DecidableEq, Repr

/-- `websJRDtnHandler` from the `memset` on. `data_len` is a `uint32`. -/
def tnForward (env : TnEnv) (wp : WebsRec) (req_name query : Bytes) (file_name key : Option Bytes) :
    TnRun :=
  let s := tnAssemble env wp req_name query key
  let data_len := (s.data_ptr + 1) % 2 ^ 32
  let run : TnRun := ⟨0, file_name, key, s.top, some data_len, none⟩
  if env.malloc then { run with ret := 1, queued := some (s.mem.take data_len) } else run

/-- `websJRDtnHandler`. -/
def websJRDtnHandler (env : TnEnv) (wp : WebsRec) (path query : Bytes) : TnRun :=
  match tnReqName path with
  | none => { ret := 0 }
  | some req_name =>
      if isUploadReq req_name then
        match tnUpload env wp with
        | .tokenError => { ret := 1 }
        | .noFilename => { ret := 0 }
        | .writeFailed file_name => { ret := 0, file_name := some file_name }
        | .written file_name key => tnForward env wp req_name query (some file_name) (some key)
      else tnForward env wp req_name query none none

/-! ## Where an uploaded file goes -/

/-- A file directly in `/tmp/jrd_dir/`. -/
def InUploadDir (file_name : Bytes) : Prop :=
  ∃ name, file_name = bytes "/tmp/jrd_dir/" ++ name ∧ name ≠ [] ∧ 47 ∉ name ∧
    name ≠ bytes "." ∧ name ≠ bytes ".."

/-- The file that is written lies in the directory, and both strings fit their 128 bytes. -/
def UploadInPlace (run : TnRun) : Prop :=
  (∀ file_name, run.file_name = some file_name → InUploadDir file_name ∧ file_name.length < 128) ∧
    ∀ key, run.key = some key → key.length < 128

/-- The requests that get as far as `jrd_write_file`, with their file name. -/
def Uploads (env : TnEnv) (wp : WebsRec) (path fn : Bytes) : Prop :=
  (∃ req_name, tnReqName path = some req_name ∧ isUploadReq req_name = true) ∧
    ¬ (env.json_method_token_check ≠ 0 ∧ env.jrd_webs_token_str_extern ≠ tnToken wp) ∧
    fn = cstr (websGetVar wp (bytes "filename") []) ∧ fn ≠ []

theorem tnForward_names (env : TnEnv) (wp : WebsRec) (req_name query : Bytes)
    (file_name key : Option Bytes) :
    (tnForward env wp req_name query file_name key).file_name = file_name ∧
      (tnForward env wp req_name query file_name key).key = key := by
  unfold tnForward
  split_ifs
  · exact ⟨rfl, rfl⟩
  · exact ⟨rfl, rfl⟩

/-- What an upload does. -/
theorem websJRDtnHandler_uploads {env : TnEnv} {wp : WebsRec} {path fn : Bytes} (query : Bytes)
    (h : Uploads env wp path fn) :
    (websJRDtnHandler env wp path query).file_name = some (bytes "/tmp/jrd_dir/" ++ fn) ∧
      (websJRDtnHandler env wp path query).key =
        if jrd_write_file env (bytes "/tmp/jrd_dir/" ++ fn) wp.postData = 0 then
          some (bytes "filename=" ++ (bytes "/tmp/jrd_dir/" ++ fn))
        else none := by
  obtain ⟨⟨req_name, hreq, hup⟩, htoken, hfn, hne⟩ := h
  have hupload : tnUpload env wp = _ := tnUpload.eq_1 env wp
  rw [if_neg htoken, ← hfn] at hupload
  simp only [if_neg hne] at hupload
  unfold websJRDtnHandler
  simp only [hreq, hup, if_true]
  by_cases hwrite : jrd_write_file env (bytes "/tmp/jrd_dir/" ++ fn) wp.postData = 0
  · rw [if_neg (not_not.mpr hwrite)] at hupload
    rw [hupload, if_pos hwrite]
    exact tnForward_names env wp req_name query _ _
  · rw [if_pos hwrite] at hupload
    rw [hupload, if_neg hwrite]
    exact ⟨rfl, rfl⟩

/-- Other requests write no file. -/
theorem websJRDtnHandler_no_upload {env : TnEnv} {wp : WebsRec} {path query : Bytes}
    (h : ∀ fn, ¬ Uploads env wp path fn) :
    (websJRDtnHandler env wp path query).file_name = none ∧
      (websJRDtnHandler env wp path query).key = none := by
  unfold websJRDtnHandler
  rcases hreq : tnReqName path with _ | req_name
  · exact ⟨rfl, rfl⟩
  simp only
  by_cases hup : isUploadReq req_name = true
  · simp only [hup, if_true]
    unfold tnUpload
    by_cases htoken : env.json_method_token_check ≠ 0 ∧ env.jrd_webs_token_str_extern ≠ tnToken wp
    · rw [if_pos htoken]
      exact ⟨rfl, rfl⟩
    · by_cases hfn : cstr (websGetVar wp (bytes "filename") []) = []
      · rw [if_neg htoken]
        simp [hfn]
      · exact absurd ⟨⟨req_name, hreq, hup⟩, htoken, rfl, hfn⟩ (h _)
  · rw [if_neg hup]
    exact tnForward_names env wp req_name query none none

/-- **Uploaded files.** They stay in their directory, and the strings in their buffers, exactly
for the file names that are one name in a directory and not too long: 114 characters for the
path, and 105 once the key is made of it. -/
theorem upload_in_place_iff (env : TnEnv) (wp : WebsRec) (path query : Bytes) :
    UploadInPlace (websJRDtnHandler env wp path query) ↔
      ∀ fn, Uploads env wp path fn →
        (47 ∉ fn ∧ fn ≠ bytes "." ∧ fn ≠ bytes "..") ∧ fn.length ≤ 114 ∧
          (jrd_write_file env (bytes "/tmp/jrd_dir/" ++ fn) wp.postData = 0 → fn.length ≤ 105) := by
  have hdir : (bytes "/tmp/jrd_dir/").length = 13 := by decide
  have hkey : (bytes "filename=").length = 9 := by decide
  unfold UploadInPlace
  by_cases hex : ∃ fn, Uploads env wp path fn
  · obtain ⟨fn, hfn⟩ := hex
    -- The request has one file name.
    have hone : ∀ p : Bytes → Prop, (∀ fn', Uploads env wp path fn' → p fn') ↔ p fn := by
      intro p
      refine ⟨fun h => h fn hfn, fun h fn' hfn' => ?_⟩
      rw [hfn'.2.2.1, ← hfn.2.2.1]
      exact h
    obtain ⟨hfile, hkeyval⟩ := websJRDtnHandler_uploads query hfn
    rw [hone, hfile, hkeyval]
    constructor
    · rintro ⟨hpath, hfits⟩
      obtain ⟨⟨name, hname, -, hslash, hdot, hdots⟩, hlen⟩ := hpath _ rfl
      obtain rfl := List.append_cancel_left hname
      rw [List.length_append, hdir] at hlen
      refine ⟨⟨hslash, hdot, hdots⟩, by omega, ?_⟩
      intro hwrite
      have hlen' := hfits _ (if_pos hwrite)
      rw [List.length_append, List.length_append, hdir, hkey] at hlen'
      omega
    · rintro ⟨⟨hslash, hdot, hdots⟩, hlen, hlen'⟩
      refine ⟨?_, ?_⟩
      · rintro _ ⟨⟩
        refine ⟨⟨fn, rfl, hfn.2.2.2, hslash, hdot, hdots⟩, ?_⟩
        rw [List.length_append, hdir]
        omega
      · intro key hk
        split_ifs at hk with hwrite
        obtain rfl := Option.some.inj hk
        have hshort := hlen' hwrite
        rw [List.length_append, List.length_append, hdir, hkey]
        omega
  · have hnone : ∀ fn, ¬ Uploads env wp path fn := fun fn hfn => hex ⟨fn, hfn⟩
    obtain ⟨hfile, hkeyval⟩ := @websJRDtnHandler_no_upload env wp path query hnone
    rw [hfile, hkeyval]
    exact ⟨fun _ fn hfn => absurd hfn (hnone fn),
      fun _ => ⟨fun _ h => absurd h nofun, fun _ h => absurd h nofun⟩⟩

/-- A server whose files can be written, with a token in force. -/
def uploadEnv : TnEnv where
  hdrSize := 8
  hdrSize_lt := by decide
  json_method_token_check := 1
  jrd_webs_token_str_extern := bytes "4711"
  behind := []
  fopen := fun _ => true
  fwrite := fun n => n
  fclose := true
  malloc := true

/-- A backup that is uploaded under a name with `..` in it. -/
def uploadOutside : WebsRec where
  ipaddr := bytes "192.168.1.100"
  token := some (bytes "4711")
  postData := bytes "root::0:0"
  cgiVars := [(bytes "filename", bytes "../../etc/passwd")]

/-- The file is written to `/etc/passwd`. -/
theorem upload_leaves_directory :
    ¬ ∀ (env : TnEnv) (wp : WebsRec) (path query : Bytes),
      UploadInPlace (websJRDtnHandler env wp path query) := by
  intro hall
  have hplace := hall uploadEnv uploadOutside (bytes "/goform/uploadBackupSettings") []
  have hfn : Uploads uploadEnv uploadOutside (bytes "/goform/uploadBackupSettings")
      (bytes "../../etc/passwd") :=
    ⟨⟨bytes "uploadBackupSettings", by decide, by decide⟩, by decide,
      by decide, by decide⟩
  have hfile := (websJRDtnHandler_uploads [] hfn).1
  obtain ⟨⟨name, hname, -, hslash, -⟩, -⟩ := hplace.1 _ hfile
  obtain rfl := List.append_cancel_left hname
  exact hslash (by decide)

/-! ## What is assembled -/

/-- A piece with its separator. -/
def tnPiece : Option Bytes → Bytes
  | none => []
  | some b => bytes "&" ++ b

/-- The text of a message: the name of the request, the query and the body. -/
def tnText (wp : WebsRec) (req_name query : Bytes) (key : Option Bytes) : Bytes :=
  req_name ++ tnPiece (tnQuery query) ++ tnPiece (tnPost wp.postData key)

/-- The requests that are forwarded, with their name and the key of an uploaded file. -/
def Forwards (env : TnEnv) (wp : WebsRec) (path req_name : Bytes) (file_name key : Option Bytes) :
    Prop :=
  tnReqName path = some req_name ∧
    (isUploadReq req_name = false ∧ file_name = none ∧ key = none ∨
      isUploadReq req_name = true ∧ ∃ f k, tnUpload env wp = .written f k ∧
        file_name = some f ∧ key = some k)

/-- Nothing is written behind the end of the buffer, and no more is forwarded than it has. -/
def InSwapBuf (env : TnEnv) (run : TnRun) : Prop :=
  run.top ≤ env.JRD_WEB_SWAP_BUF_SIZE ∧
    ∀ data_len, run.data_len = some data_len → data_len ≤ env.JRD_WEB_SWAP_BUF_SIZE

/-- A request is forwarded, or it does not touch the buffer. -/
theorem websJRDtnHandler_cases (env : TnEnv) (wp : WebsRec) (path query : Bytes) :
    (∃ req_name file_name key, Forwards env wp path req_name file_name key ∧
      websJRDtnHandler env wp path query = tnForward env wp req_name query file_name key) ∨
    ((∀ req_name file_name key, ¬ Forwards env wp path req_name file_name key) ∧
      (websJRDtnHandler env wp path query).top = 0 ∧
      (websJRDtnHandler env wp path query).data_len = none) := by
  unfold websJRDtnHandler Forwards
  rcases hreq : tnReqName path with _ | req_name
  · right
    exact ⟨fun _ _ _ h => absurd h.1 nofun, rfl, rfl⟩
  simp only [Option.some.injEq]
  by_cases hup : isUploadReq req_name = true
  · simp only [hup, if_true]
    rcases hwritten : tnUpload env wp with _ | _ | f | ⟨f, k⟩
    case written => exact Or.inl ⟨req_name, some f, some k, ⟨rfl, Or.inr ⟨hup, f, k, rfl, rfl, rfl⟩⟩, rfl⟩
    -- Each of the other three ends of the block is a return.
    all_goals
      right
      refine ⟨?_, rfl, rfl⟩
      rintro _ _ _ ⟨rfl, ⟨hno, -⟩ | ⟨-, f, k, h, -⟩⟩
      · exact absurd hup (by simp [hno])
      · exact absurd h nofun
  · left
    rw [if_neg hup]
    exact ⟨req_name, none, none, ⟨rfl, Or.inl ⟨by simpa using hup, rfl, rfl⟩⟩, rfl⟩

theorem forwards_unique {env : TnEnv} {wp : WebsRec} {path req_name req_name' : Bytes}
    {file_name file_name' key key' : Option Bytes} (h : Forwards env wp path req_name file_name key)
    (h' : Forwards env wp path req_name' file_name' key') : req_name' = req_name ∧ key' = key := by
  obtain ⟨hreq, hkey⟩ := h
  obtain ⟨hreq', hkey'⟩ := h'
  obtain rfl := Option.some.inj (hreq'.symm.trans hreq)
  refine ⟨rfl, ?_⟩
  rcases hkey with ⟨hno, -, rfl⟩ | ⟨hyes, f, k, hw, -, rfl⟩
  · rcases hkey' with ⟨-, -, rfl⟩ | ⟨hyes', -⟩
    · rfl
    · exact absurd hyes' (by simp [hno])
  · rcases hkey' with ⟨hno', -⟩ | ⟨-, f', k', hw', -, rfl⟩
    · exact absurd hyes (by simp [hno'])
    · rw [hw] at hw'
      rw [(TnUpload.written.inj hw').2]

/-! ## The pointer -/

/-- The pointer moves by the length of what is appended, wherever that is written. -/
theorem piece_data_ptr (s : Swap) (piece : Option Bytes) :
    (s.piece piece).data_ptr = s.data_ptr + (tnPiece piece).length := by
  rcases piece with _ | b
  · rfl
  · show s.data_ptr + (bytes "&").length + b.length = s.data_ptr + (bytes "&" ++ b).length
    rw [List.length_append]
    omega

theorem piece_data_ptr_le_top {s : Swap} (h : s.data_ptr ≤ s.top) (piece : Option Bytes) :
    (s.piece piece).data_ptr ≤ (s.piece piece).top := by
  rcases piece with _ | b
  · exact h
  · exact le_max_right _ _

theorem tnAssemble_data_ptr (env : TnEnv) (wp : WebsRec) (req_name query : Bytes)
    (key : Option Bytes) :
    (tnAssemble env wp req_name query key).data_ptr = (tnText wp req_name query key).length := by
  unfold tnAssemble tnText
  have hname : (env.swap.sprintf req_name).data_ptr = req_name.length := Nat.zero_add _
  rw [piece_data_ptr, piece_data_ptr, hname, List.length_append, List.length_append]

theorem tnAssemble_data_ptr_le_top (env : TnEnv) (wp : WebsRec) (req_name query : Bytes)
    (key : Option Bytes) :
    (tnAssemble env wp req_name query key).data_ptr ≤ (tnAssemble env wp req_name query key).top := by
  unfold tnAssemble
  apply piece_data_ptr_le_top
  apply piece_data_ptr_le_top
  have htop : (env.swap.sprintf req_name).top = max 0 (0 + (req_name ++ [0]).length) := rfl
  have hptr : (env.swap.sprintf req_name).data_ptr = 0 + req_name.length := rfl
  rw [htop, hptr, List.length_append]
  omega

/-! ## As long as there is room

The buffer is zero behind what has been put there, and `strcat` finds the pointer where it is. -/

structure Swap.Clean (size : ℕ) (behind : Bytes) (text : Bytes) (s : Swap) : Prop where
  room : text.length < size
  mem : s.mem = text ++ (List.replicate (size - text.length) 0 ++ behind)
  ptr : s.data_ptr = text.length
  top : s.top ≤ text.length + 1

theorem drop_zeros (n k : ℕ) (h : k ≤ n) (behind : Bytes) :
    (List.replicate n (0 : UInt8) ++ behind).drop k = List.replicate (n - k) 0 ++ behind := by
  rw [List.drop_append_of_le_length (by simpa using h), List.drop_replicate]

section Clean

variable {size : ℕ} {behind text b : Bytes} {s : Swap}

theorem Swap.Clean.memcpy (h : s.Clean size behind text) (hb : text.length + b.length < size) :
    (s.memcpy b).Clean size behind (text ++ b) := by
  have hmem : (s.memcpy b).mem = writeAt s.mem s.data_ptr b := rfl
  have htop : (s.memcpy b).top = max s.top (s.data_ptr + b.length) := rfl
  have hptr : (s.memcpy b).data_ptr = s.data_ptr + b.length := rfl
  have hold := h.top
  refine ⟨by simpa using hb, ?_, ?_, ?_⟩
  · rw [hmem, h.mem, h.ptr, writeAt_append, drop_zeros _ _ (by omega), List.length_append,
      Nat.sub_add_eq]
  · rw [hptr, h.ptr, List.length_append]
  · rw [htop, h.ptr, List.length_append]
    omega

/-- A string with its terminator: the terminator is one of the zeros that are there. -/
theorem Swap.Clean.terminated (h : s.Clean size behind text) (hb : text.length + b.length < size) :
    Swap.Clean size behind (text ++ b)
      { s.write s.data_ptr (b ++ [0]) with data_ptr := s.data_ptr + b.length } := by
  have hold := h.top
  refine ⟨by simpa using hb, ?_, ?_, ?_⟩
  · show writeAt s.mem s.data_ptr (b ++ [0]) = _
    obtain ⟨n, hn⟩ : ∃ n, size - (text ++ b).length = n + 1 :=
      ⟨size - (text ++ b).length - 1, by rw [List.length_append]; omega⟩
    have hdrop : size - text.length - (b ++ [0]).length = n := by
      rw [List.length_append] at hn
      rw [List.length_append, List.length_singleton]
      omega
    have hle : (b ++ [(0 : UInt8)]).length ≤ size - text.length := by
      rw [List.length_append, List.length_singleton]
      omega
    rw [h.mem, h.ptr, writeAt_append, drop_zeros _ _ hle, hdrop, hn, List.replicate_succ]
    simp
  · show s.data_ptr + b.length = _
    rw [h.ptr, List.length_append]
  · show max s.top (s.data_ptr + (b ++ [0]).length) ≤ _
    rw [h.ptr, List.length_append, List.length_append, List.length_singleton]
    omega

theorem Swap.Clean.strcat (h : s.Clean size behind text) (hb : text.length + b.length < size) :
    (s.strcat b).Clean size behind (text ++ b) := by
  have hzero : cstr (s.mem.drop s.data_ptr) = [] := by
    have hroom := h.room
    obtain ⟨n, hn⟩ : ∃ n, size - text.length = n + 1 := ⟨size - text.length - 1, by omega⟩
    rw [h.mem, h.ptr, List.drop_left, hn, List.replicate_succ, List.cons_append, cstr_zero_cons]
  have hstrcat : s.strcat b
      = { s.write s.data_ptr (b ++ [0]) with data_ptr := s.data_ptr + b.length } := by
    unfold Swap.strcat
    rw [hzero, List.length_nil, Nat.add_zero]
  rw [hstrcat]
  exact h.terminated hb

theorem Swap.Clean.piece (h : s.Clean size behind text) {piece : Option Bytes}
    (hb : text.length + (tnPiece piece).length < size) :
    (s.piece piece).Clean size behind (text ++ tnPiece piece) := by
  rcases piece with _ | b
  · have hnil : text ++ tnPiece none = text := List.append_nil text
    rw [hnil]
    exact h
  · have hlen : (tnPiece (some b)).length = (bytes "&").length + b.length := List.length_append
    have hsep := @Swap.Clean.strcat size behind text (bytes "&") s h (by omega)
    have hboth := @Swap.Clean.memcpy size behind _ b _ hsep (by rw [List.length_append]; omega)
    rw [List.append_assoc] at hboth
    exact hboth

end Clean

/-- **The assembly.** What fits is in the buffer as it is meant to be. -/
theorem tnAssemble_clean {env : TnEnv} {wp : WebsRec} {req_name query : Bytes} {key : Option Bytes}
    (h : (tnText wp req_name query key).length < env.JRD_WEB_SWAP_BUF_SIZE) :
    (tnAssemble env wp req_name query key).Clean env.JRD_WEB_SWAP_BUF_SIZE env.behind
      (tnText wp req_name query key) := by
  have hlen : (tnText wp req_name query key).length = req_name.length +
      (tnPiece (tnQuery query)).length + (tnPiece (tnPost wp.postData key)).length := by
    unfold tnText
    rw [List.length_append, List.length_append]
  have hstart : env.swap.Clean env.JRD_WEB_SWAP_BUF_SIZE env.behind [] :=
    ⟨by rw [List.length_nil]; omega, rfl, rfl, Nat.zero_le _⟩
  have hname : (env.swap.sprintf req_name).Clean env.JRD_WEB_SWAP_BUF_SIZE env.behind req_name :=
    hstart.terminated (by rw [List.length_nil]; omega)
  have hquery := hname.piece (by omega : req_name.length + (tnPiece (tnQuery query)).length < _)
  exact hquery.piece (by rw [List.length_append]; omega)

theorem tnForward_len (env : TnEnv) (wp : WebsRec) (req_name query : Bytes)
    (file_name key : Option Bytes) :
    (tnForward env wp req_name query file_name key).top = (tnAssemble env wp req_name query key).top ∧
      (tnForward env wp req_name query file_name key).data_len
        = some (((tnText wp req_name query key).length + 1) % 2 ^ 32) := by
  unfold tnForward
  rw [← tnAssemble_data_ptr env wp req_name query key]
  split_ifs
  · exact ⟨rfl, rfl⟩
  · exact ⟨rfl, rfl⟩

/-- **Request assembly.** The handler stays in its buffer exactly for the requests whose text
fits there with its terminator. -/
theorem in_swap_buf_iff (env : TnEnv) (wp : WebsRec) (path query : Bytes) :
    InSwapBuf env (websJRDtnHandler env wp path query) ↔
      ∀ req_name file_name key, Forwards env wp path req_name file_name key →
        (tnText wp req_name query key).length + 1 ≤ env.JRD_WEB_SWAP_BUF_SIZE := by
  unfold InSwapBuf
  rcases websJRDtnHandler_cases env wp path query with
    ⟨req_name, file_name, key, hfwd, hrun⟩ | ⟨hnone, htop, hlen⟩
  · have hptr := tnAssemble_data_ptr env wp req_name query key
    have hle := tnAssemble_data_ptr_le_top env wp req_name query key
    have hsize : env.JRD_WEB_SWAP_BUF_SIZE < 2 ^ 32 - 1 :=
      lt_of_le_of_lt (Nat.sub_le _ _) (by decide)
    obtain ⟨htopeq, hleneq⟩ := tnForward_len env wp req_name query file_name key
    rw [hrun, htopeq, hleneq]
    constructor
    · rintro ⟨htop, hlen⟩ req_name' file_name' key' hfwd'
      obtain ⟨rfl, rfl⟩ := forwards_unique hfwd hfwd'
      -- The pointer is within what was written, so that `data_len` has not wrapped around.
      have hwrap := hlen _ rfl
      rw [Nat.mod_eq_of_lt (by omega)] at hwrap
      omega
    · intro h
      have hfits := h req_name file_name key hfwd
      have hclean := tnAssemble_clean (by omega :
        (tnText wp req_name query key).length < env.JRD_WEB_SWAP_BUF_SIZE)
      have htop := hclean.top
      refine ⟨by omega, ?_⟩
      rintro _ ⟨⟩
      rw [Nat.mod_eq_of_lt (by omega)]
      omega
  · rw [htop, hlen]
    exact ⟨fun _ req_name file_name key h => absurd h (hnone req_name file_name key),
      fun _ => ⟨Nat.zero_le _, fun _ h => absurd h nofun⟩⟩

/-- A form request with a body of 9000 characters. -/
def longBody : WebsRec where
  ipaddr := bytes "192.168.1.100"
  postData := List.replicate 9000 120

/-- The body is copied over the end of the buffer. -/
theorem long_body_leaves_buffer :
    ¬ ∀ (env : TnEnv) (wp : WebsRec) (path query : Bytes),
      InSwapBuf env (websJRDtnHandler env wp path query) := by
  intro hall
  obtain ⟨-, hlen⟩ := hall uploadEnv longBody (bytes "/goform/setWps") []
  have hrun : websJRDtnHandler uploadEnv longBody (bytes "/goform/setWps") []
      = tnForward uploadEnv longBody (bytes "setWps") [] none none := by
    have hname : tnReqName (bytes "/goform/setWps") = some (bytes "setWps") := by decide
    have hother : isUploadReq (bytes "setWps") = false := by decide
    unfold websJRDtnHandler
    simp [hname, hother]
  -- None of the dummy keys can be in a body of letters x.
  have hnone : ∀ pat : Bytes, ∀ c ∈ pat, c ≠ 120 → findSub pat longBody.postData = none := by
    intro pat c hc hne
    exact findSub_eq_none_of_not_mem hc fun hmem => hne (List.eq_of_mem_replicate hmem)
  have hpost : tnPost longBody.postData none = some longBody.postData := by
    have hne : longBody.postData ≠ [] := List.cons_ne_nil 120 (List.replicate 8999 120)
    have hcstr : cstr longBody.postData = longBody.postData := by
      refine cstr_of_nulFree fun c hc => ?_
      rw [List.eq_of_mem_replicate hc]
      decide
    unfold tnPost dummyKeyAt
    rw [hcstr, hnone (bytes "d=1") 61 (by decide) (by decide),
      hnone (bytes "some=a") 61 (by decide) (by decide),
      hnone (bytes "page_reboot=login.html") 61 (by decide) (by decide)]
    simp [hne]
  have htext : (tnText longBody (bytes "setWps") [] none).length = 9007 := by
    unfold tnText
    rw [hpost]
    simp only [List.length_append, tnPiece, longBody, List.length_replicate]
    decide
  have hbad := hlen _ (by rw [hrun, (tnForward_len uploadEnv longBody _ _ _ _).2, htext])
  exact absurd hbad (by decide)

end TestCore.Webs
