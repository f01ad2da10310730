/-
The scanner of multipart bodies: `extractUploadedFileContent` of `webs.c`.

`endPart` goes from delimiter to delimiter. A turn of the loop finds the delimiter at or behind
it, skips the rest of that line, copies the next line to `buf`, skips the header and looks for
the delimiter behind the content. The text is searched as a C string, up to a zero byte; the
content as a block of memory, up to the end of the body.

The loop is given turn by turn, since it need not end: where `Content-Disposition` follows a
delimiter and no newline does, `endPart` is what it was. And the two bytes that are taken off the
content, for the line end before the next delimiter, need not be there. `Trouble` is what a body
must have in it for one of the two.
-/
import TestCore.Lib.Loop
import TestCore.Lib.Search
import TestCore.Lib.Wire

set_option autoImplicit false

namespace TestCore.Webs

open TestCore.Lib

/-! ## Searching -/

/-- `gstrstr`: how far into the string the first occurrence is. -/
def gstrstr (b find : Bytes) : Option ℕ := findSub find (cstr b)

/-- `gstrchr`. -/
def gstrchr (b : Bytes) (c : UInt8) : Option ℕ := findSub [c] (cstr b)

/-- How the comparison in `xmemstr` ends. -/
inductive MemCmp where
  | equal
  | differs
  /-- The memory ends before the pattern. -/
  | short
  deriving DecidableEq, Repr

/-- The inner loop of `xmemstr`. -/
def xmemstr.compare : (locFind locMem : Bytes) → MemCmp
  | [], _ => .equal
  | _ :: _, [] => .short
  | f :: locFind, c :: locMem => if c = f then xmemstr.compare locFind locMem else .differs

/-- The outer loop of `xmemstr`, for a pattern with the first character `firstFindCh`. -/
def xmemstr.scan (firstFindCh : UInt8) (find : Bytes) : (memBlk : Bytes) → Option ℕ
  | [] => none
  | chMem :: memBlk =>
      if chMem = firstFindCh then
        match xmemstr.compare find memBlk with
        | .equal => some 0
        | .short => none
        | .differs => (xmemstr.scan firstFindCh find memBlk).map (· + 1)
      else (xmemstr.scan firstFindCh find memBlk).map (· + 1)

/-- `xmemstr`: the offset in `memBlk`, which has `memSize` bytes. -/
def xmemstr (memBlk find : Bytes) : Option ℕ :=
  match find with
  | [] => some 0
  | firstFindCh :: find => xmemstr.scan firstFindCh find memBlk

theorem compare_equal_iff {find mem : Bytes} : xmemstr.compare find mem = .equal ↔ find <+: mem := by
  induction find generalizing mem with
  | nil => simp [xmemstr.compare]
  | cons f find ih =>
      rcases mem with _ | ⟨c, mem⟩
      · simp [xmemstr.compare]
      · rw [xmemstr.compare, List.cons_prefix_cons]
        split_ifs with hc
        · rw [ih]
          simp [hc]
        · simp [Ne.symm hc]

theorem compare_short {find mem : Bytes} (h : xmemstr.compare find mem = .short) :
    mem.length < find.length := by
  induction find generalizing mem with
  | nil =>
      rw [xmemstr.compare] at h
      cases h
  | cons f find ih =>
      rcases mem with _ | ⟨c, mem⟩
      · simp
      · rw [xmemstr.compare] at h
        split_ifs at h
        exact Nat.succ_lt_succ (ih h)

theorem scan_eq_findSub (f : UInt8) (find mem : Bytes) :
    xmemstr.scan f find mem = findSub (f :: find) mem := by
  induction mem with
  | nil => rfl
  | cons c mem ih =>
      rw [xmemstr.scan, findSub, ih]
      by_cases hc : c = f
      · rw [if_pos hc, hc]
        rcases hcmp : xmemstr.compare find mem with _ | _ | _
        · have hpre : f :: find <+: f :: mem :=
            List.cons_prefix_cons.mpr ⟨rfl, compare_equal_iff.mp hcmp⟩
          rw [if_pos hpre]
        · have hno : ¬ f :: find <+: f :: mem := by
            intro hpre
            rw [compare_equal_iff.mpr (List.cons_prefix_cons.mp hpre).2] at hcmp
            cases hcmp
          rw [if_neg hno]
        · -- The pattern does not fit here, and even less further on.
          have hlt := compare_short hcmp
          have hno : ¬ f :: find <+: f :: mem := by
            intro hpre
            have := hpre.length_le
            simp only [List.length_cons] at this
            omega
          rw [if_neg hno, findSub_short (by simp only [List.length_cons]; omega)]
          rfl
      · have hno : ¬ f :: find <+: c :: mem :=
          fun hpre => hc (List.cons_prefix_cons.mp hpre).1.symm
        rw [if_neg hc, if_neg hno]

/-- **`xmemstr` finds the first occurrence.** -/
theorem xmemstr_eq_findSub (memBlk find : Bytes) : xmemstr memBlk find = findSub find memBlk := by
  rcases find with _ | ⟨f, find⟩
  · exact (findSub_at_start (List.nil_prefix)).symm
  · exact scan_eq_findSub f find memBlk

/-! ## The scanner -/

def MAX_LINE : ℕ := 1024

/-- The search for the empty line: what stands behind the first newline that is followed by
another one, or by a carriage return and another one. It goes from newline to newline and gives
up at a zero byte. -/
def headerEnd : Bytes → Option Bytes
  | [] => none
  | c :: rest =>
      if c = 0 then none
      else if c = 10 then
        match rest with
        | 10 :: part => some part
        | 13 :: 10 :: part => some part
        | _ => headerEnd rest
      else headerEnd rest

/-- What the loop works on. A pointer into the body is what is to come from there. -/
@[ext] structure Extract where
  /-- `none` is `NULL`. -/
  endPart : Option Bytes
  firstUploadFile : Bool
  /-- `*lenContent`, once it is set. -/
  lenContent : Option ℤ
  /-- `none` is `NULL`. `balloc` is `malloc`, taken to give a block of any size from 0 on. -/
  fileContent : Option Bytes
  query : Option Bytes
  /-- The memory from `buf` on. -/
  buf : Bytes
  deriving DecidableEq, Repr

/-- How a call ends. -/
inductive ExtractEnd where
  | returned (s : Extract)
  /-- `balloc` and `memcpy` with a size that is not one. -/
  | badSize (lenContent : ℤ)
  deriving DecidableEq, Repr

/-- The value in quotes, from `off` on. -/
def quotedAt (buf : Bytes) (off : ℕ) : Option Bytes :=
  (gstrchr (buf.drop off) 34).map fun n => (buf.drop off).take n

/-- `tmpNameStr` for a file, with `filename=` at `i`. -/
def fileStr (buf : Bytes) (i : ℕ) : Bytes :=
  match quotedAt buf (i + 10) with
  | none => []
  | some name => if name = [] then [] else bytes "filename=" ++ name.take (MAX_LINE - 1)

/-- `tmpNameStr` for a parameter, with `form-data; name=` at `i`. -/
def paramStr (buf : Bytes) (i : ℕ) (part : Bytes) (len : ℤ) : Bytes :=
  match quotedAt buf (i + 17) with
  | none => []
  | some name =>
      if name = [] then []
      else
        let tmpNameStr := name.take (MAX_LINE - 1) ++ bytes "="
        if 0 < len then
          let room := MAX_LINE - tmpNameStr.length
          tmpNameStr ++ (cstr part).take (if len < room then len.toNat else room - 1)
        else tmpNameStr

/-- `tmpNameStr` is appended to the query, behind a `&` if there is something in it. -/
def appendQuery (query : Option Bytes) (tmpNameStr : Bytes) : Option Bytes :=
  if tmpNameStr = [] then query
  else
    match query with
    | none => some tmpNameStr
    | some q => some (if q = [] then tmpNameStr else q ++ bytes "&" ++ tmpNameStr)

/-- What a part with the line in `buf` adds to the query. -/
def lineToken (buf : Bytes) (firstUploadFile : Bool) (part : Bytes) (len : ℤ) : Bytes :=
  match gstrstr buf (bytes "filename=") with
  | some i => if firstUploadFile then [] else fileStr buf i
  | none =>
      match gstrstr buf (bytes "form-data; name=") with
      | none => []
      | some i => paramStr buf i part len

/-- The content begins at `part`, and the delimiter is `k` bytes behind it. -/
def Extract.part (s : Extract) (part : Bytes) (k : ℕ) : ExtractEnd ⊕ Extract :=
  let s := { s with endPart := some (part.drop k) }
  match gstrstr s.buf (bytes "filename=") with
  | some i =>
      if s.firstUploadFile then .inr s
      else
        -- exclude the ending \r\n
        let lenContent : ℤ := k - 2
        if lenContent < 0 then .inl (.badSize lenContent)
        else
          .inr { s with
            firstUploadFile := true
            lenContent := some lenContent
            fileContent := some (part.take lenContent.toNat)
            query := appendQuery s.query (fileStr s.buf i) }
  | none =>
      match gstrstr s.buf (bytes "form-data; name=") with
      | none => .inr s
      | some i => .inr { s with query := appendQuery s.query (paramStr s.buf i part (k - 2)) }

/-- One turn of the loop. -/
def extractUploadedFileContent.turn (multiPartBoundary : Bytes) (s : Extract) :
    ExtractEnd ⊕ Extract :=
  match s.endPart with
  | none => .inl (.returned s)
  | some endPart =>
      match gstrstr endPart multiPartBoundary with
      | none => .inl (.returned s)
      | some i =>
          match gstrchr (endPart.drop i) 10 with
          | none => .inr { s with endPart := none }
          | some j =>
              let part := (endPart.drop i).drop (j + 1)
              if gstrstr part (bytes "Content-Disposition") = none then
                .inr { s with endPart := some part }
              else
                match gstrchr part 10 with
                -- There is no `else` to `if (endLine != NULL)`.
                | none => .inr s
                | some n =>
                    let lineLen := if n < MAX_LINE then n else MAX_LINE - 1
                    let s := { s with buf := writeAt s.buf 0 (part.take lineLen ++ [0]) }
                    match headerEnd part with
                    | none => .inr { s with endPart := none }
                    | some part =>
                        match xmemstr part multiPartBoundary with
                        | none => .inr { s with endPart := none }
                        | some k => s.part part k

/-- Before the loop. `wp->postData` may be `NULL`. -/
def Extract.start (postData query : Option Bytes) (buf : Bytes) : Extract :=
  ⟨postData, false, none, none, query, buf⟩

/-- A call that returns leaves the result, the length and the query. Without a
`multiPartBoundary` the whole body goes to the query. -/
def extractUploadedFileContent (multiPartBoundary : Option Bytes) (postData query : Option Bytes)
    (buf : Bytes) (r : Option Bytes × Option ℤ × Option Bytes) : Prop :=
  match multiPartBoundary with
  | none =>
      r = (none, none, match postData with
        | none => query
        | some body =>
            match query with
            | none => some (cstr body)
            | some q => some (if q = [] then cstr body else q ++ bytes "&" ++ cstr body))
  | some boundary =>
      ∃ s, EndsWith (extractUploadedFileContent.turn boundary) (Extract.start postData query buf)
          (.returned s) ∧ r = (s.fileContent, s.lenContent, s.query)

/-! ## What a turn does -/

/-- What stands behind the line of the first delimiter. -/
def afterDelimiter (multiPartBoundary b : Bytes) : Option Bytes :=
  (gstrstr b multiPartBoundary).bind fun i =>
    (gstrchr (b.drop i) 10).map fun j => (b.drop i).drop (j + 1)

/-- The line at `part`, as much of it as there is room for in `buf`. -/
def headLine (part : Bytes) : Bytes :=
  match gstrchr part 10 with
  | none => []
  | some n => part.take (min n (MAX_LINE - 1))

/-- The line says that a file was uploaded. -/
def FileLine (part : Bytes) : Prop := bytes "filename=" <:+: headLine part

instance (part : Bytes) : Decidable (FileLine part) := inferInstanceAs (Decidable (_ <:+: _))

theorem gstrchr_eq_none {b : Bytes} {c : UInt8} : gstrchr b c = none ↔ c ∉ cstr b :=
  findSub_singleton_eq_none

theorem gstrstr_eq_none {b find : Bytes} : gstrstr b find = none ↔ ¬ find <:+: cstr b :=
  findSub_eq_none_iff_not_within

/-- The text after the delimiter is part of the same C string. -/
theorem afterDelimiter_suffix {B b part : Bytes} (h : afterDelimiter B b = some part) :
    cstr part <:+ cstr b ∧ part.length < b.length := by
  obtain ⟨i, hi, hrest⟩ := Option.bind_eq_some_iff.mp h
  obtain ⟨j, hj, rfl⟩ := Option.map_eq_some_iff.mp hrest
  obtain ⟨hile, -, -⟩ := findSub_eq_some.mp hi
  have hdrop := cstr_drop hile
  have hjlt := (findSub_singleton_eq_some hj).1
  have hcstr : ∀ b : Bytes, (cstr b).length ≤ b.length := fun b => (List.takeWhile_prefix _).length_le
  have hle := hcstr (b.drop i)
  rw [hdrop, List.length_drop] at hjlt
  rw [List.length_drop] at hle
  have hsuffix : cstr ((b.drop i).drop (j + 1)) = (cstr b).drop (i + (j + 1)) := by
    rw [cstr_drop (by rw [hdrop, List.length_drop]; omega), hdrop, List.drop_drop]
  refine ⟨?_, ?_⟩
  · rw [hsuffix]
    exact List.drop_suffix _ _
  · simp only [List.length_drop]
    have := hcstr b
    omega

/-- What stands behind the empty line is shorter than the text, which has a newline. -/
theorem headerEnd_suffix {part content : Bytes} (h : headerEnd part = some content) :
    content <:+ part ∧ content.length < part.length ∧ 10 ∈ cstr part := by
  -- The recursion goes from character to character.
  fun_induction headerEnd part with
  | case1 => cases h
  | case2 => cases h
  | case3 rest =>
      rw [← Option.some.inj h, cstr_cons (by decide)]
      refine ⟨⟨[10, 10], rfl⟩, ?_, by simp⟩
      simp only [List.length_cons]
      omega
  | case4 rest =>
      rw [← Option.some.inj h, cstr_cons (by decide)]
      refine ⟨⟨[10, 13, 10], rfl⟩, ?_, by simp⟩
      simp only [List.length_cons]
      omega
  | case5 rest _ _ _ ih =>
      obtain ⟨hsuffix, hlt, -⟩ := ih h
      rw [cstr_cons (by decide)]
      exact ⟨hsuffix.trans (List.suffix_cons _ _), hlt.trans (Nat.lt_succ_self _), by simp⟩
  | case6 c rest hc _ ih =>
      obtain ⟨hsuffix, hlt, hmem⟩ := ih h
      rw [cstr_cons hc]
      exact ⟨hsuffix.trans (List.suffix_cons _ _), hlt.trans (Nat.lt_succ_self _),
        List.mem_cons_of_mem _ hmem⟩

/-- At `b` the scanner reads a part: the line behind the delimiter is at `part`, its content at
`content`, and the next delimiter `k` bytes behind that. -/
structure PartAt (B b part content : Bytes) (k : ℕ) : Prop where
  line : afterDelimiter B b = some part
  disposition : bytes "Content-Disposition" <:+: cstr part
  header : headerEnd part = some content
  delimiter : findSub B content = some k

/-- The scanner goes on behind a part with less to come. -/
theorem PartAt.shorter {B b part content : Bytes} {k : ℕ} (h : PartAt B b part content k) :
    (content.drop k).length < b.length := by
  have h1 := (afterDelimiter_suffix h.line).2
  have h2 := (headerEnd_suffix h.header).2.1
  rw [List.length_drop]
  omega

section Turn

variable {B b part content : Bytes} {s : Extract} {k : ℕ}

/-- `buf` with the line of `part` in it. -/
def Extract.withLine (s : Extract) (part : Bytes) : Extract :=
  { s with buf := writeAt s.buf 0 (headLine part ++ [0]) }

/-- Without another line behind a delimiter the loop is over. -/
theorem turn_no_line (hs : s.endPart = some b) (h : afterDelimiter B b = none) :
    extractUploadedFileContent.turn B s = .inl (.returned s) ∨
      extractUploadedFileContent.turn B s = .inr { s with endPart := none } := by
  unfold extractUploadedFileContent.turn
  unfold afterDelimiter at h
  rw [hs]
  dsimp only
  rcases hi : gstrstr b B with _ | i
  · exact Or.inl rfl
  · rw [hi, Option.bind_some, Option.map_eq_none_iff] at h
    right
    dsimp only
    rw [h]

/-- The turn, from the line behind a delimiter on. -/
theorem turn_line (hs : s.endPart = some b) (h : afterDelimiter B b = some part) :
    extractUploadedFileContent.turn B s =
      if ¬ bytes "Content-Disposition" <:+: cstr part then .inr { s with endPart := some part }
      else if 10 ∉ cstr part then .inr s
      else
        match headerEnd part with
        | none => .inr { s.withLine part with endPart := none }
        | some content =>
            match findSub B content with
            | none => .inr { s.withLine part with endPart := none }
            | some k => (s.withLine part).part content k := by
  obtain ⟨i, hi, hrest⟩ := Option.bind_eq_some_iff.mp h
  obtain ⟨j, hj, hpart⟩ := Option.map_eq_some_iff.mp hrest
  unfold extractUploadedFileContent.turn
  rw [hs]
  dsimp only
  rw [hi]
  dsimp only
  rw [hj]
  dsimp only
  rw [hpart]
  by_cases hdisp : bytes "Content-Disposition" <:+: cstr part
  · rw [if_neg (fun hnone => gstrstr_eq_none.mp hnone hdisp), if_neg (not_not.mpr hdisp)]
    rcases hn : gstrchr part 10 with _ | n
    · rw [if_pos (gstrchr_eq_none.mp hn)]
    · have hmem : ¬ 10 ∉ cstr part := by
        intro hno
        rw [gstrchr_eq_none.mpr hno] at hn
        cases hn
      rw [if_neg hmem]
      -- The length of the line is cut to what `buf` has room for.
      have hline : part.take (if n < MAX_LINE then n else MAX_LINE - 1) = headLine part := by
        unfold headLine
        rw [hn]
        dsimp only
        congr 1
        unfold MAX_LINE
        split_ifs <;> omega
      dsimp only
      rw [hline]
      rcases headerEnd part with _ | content
      · rfl
      · dsimp only
        rw [xmemstr_eq_findSub]
        rcases findSub B content with _ | k
        · rfl
        · rfl
  · rw [if_pos (gstrstr_eq_none.mpr hdisp), if_pos hdisp]

theorem headLine_nulFree (part : Bytes) : NulFree (headLine part) := by
  unfold headLine
  rcases hn : gstrchr part 10 with _ | n
  · exact nofun
  · have hlt := (findSub_singleton_eq_some hn).1
    have htake : part.take (min n (MAX_LINE - 1)) = (cstr part).take (min n (MAX_LINE - 1)) := by
      obtain ⟨more, hmore⟩ : ∃ more, part = cstr part ++ more :=
        ⟨_, (List.takeWhile_append_dropWhile).symm⟩
      conv_lhs => rw [hmore]
      exact List.take_append_of_le_length (by omega)
    show NulFree (part.take (min n (MAX_LINE - 1)))
    rw [htake]
    exact (cstr_nulFree part).take _

/-- The string in `buf` is the line. -/
theorem cstr_withLine (s : Extract) (part : Bytes) : cstr (s.withLine part).buf = headLine part := by
  unfold Extract.withLine writeAt
  dsimp only
  rw [List.take_zero, List.nil_append, List.append_assoc, cstr_append (headLine_nulFree part),
    List.singleton_append, cstr_zero_cons, List.append_nil]

/-- What a part does to the scanner: it goes on at the next delimiter, with the line's token behind
its query, and keeps the content of the first part with a file, less two bytes. -/
theorem part_cases (s : Extract) (part content : Bytes) (k : ℕ) :
    (FileLine part ∧ s.firstUploadFile = false ∧ k < 2 ∧
      (s.withLine part).part content k = .inl (.badSize (k - 2))) ∨
    ∃ s', (s.withLine part).part content k = .inr s' ∧ s'.endPart = some (content.drop k) ∧
      s'.buf = (s.withLine part).buf ∧
      s'.firstUploadFile = (s.firstUploadFile || decide (FileLine part)) ∧
      s'.query = appendQuery s.query
        (lineToken (s.withLine part).buf s.firstUploadFile content (k - 2)) ∧
      (if FileLine part ∧ s.firstUploadFile = false then
        2 ≤ k ∧ s'.lenContent = some ((k - 2 : ℕ) : ℤ) ∧ s'.fileContent = some (content.take (k - 2))
      else s'.lenContent = s.lenContent ∧ s'.fileContent = s.fileContent) := by
  unfold Extract.part lineToken
  dsimp only
  have hfile : gstrstr (s.withLine part).buf (bytes "filename=") = none ↔ ¬ FileLine part := by
    rw [gstrstr_eq_none, cstr_withLine]
    exact Iff.rfl
  have hseen : (s.withLine part).firstUploadFile = s.firstUploadFile := rfl
  rcases hi : gstrstr (s.withLine part).buf (bytes "filename=") with _ | i
  · -- It is not a file.
    have hno := hfile.mp hi
    right
    dsimp only
    rcases gstrstr (s.withLine part).buf (bytes "form-data; name=") with _ | i
    · exact ⟨_, rfl, rfl, rfl, by simp [hseen, hno], rfl, by simp [hno]; exact ⟨rfl, rfl⟩⟩
    · exact ⟨_, rfl, rfl, rfl, by simp [hseen, hno], rfl, by simp [hno]; exact ⟨rfl, rfl⟩⟩
  · have hyes : FileLine part := by
      by_contra hno
      rw [hfile.mpr hno] at hi
      cases hi
    dsimp only
    rw [hseen]
    rcases hfirst : s.firstUploadFile with _ | _
    · rw [if_neg (by decide)]
      by_cases hk : k < 2
      · left
        rw [if_pos (by omega)]
        exact ⟨hyes, rfl, hk, rfl⟩
      · right
        rw [if_neg (by omega)]
        have hcast : ((k : ℤ) - 2) = ((k - 2 : ℕ) : ℤ) := by omega
        refine ⟨_, rfl, rfl, rfl, by simp [hyes], rfl, ?_⟩
        rw [if_pos ⟨hyes, rfl⟩]
        dsimp only
        rw [hcast, Int.toNat_natCast]
        exact ⟨by omega, rfl, rfl⟩
    · right
      rw [if_pos rfl]
      refine ⟨_, rfl, rfl, rfl, by simp, rfl, ?_⟩
      rw [if_neg (by simp)]
      exact ⟨rfl, rfl⟩

/-- The call returns. -/
def Returns (B : Bytes) (s : Extract) : Prop :=
  ∃ r, EndsWith (extractUploadedFileContent.turn B) s (.returned r)

theorem returns_inr {t : Extract} (h : extractUploadedFileContent.turn B s = .inr t) :
    Returns B s ↔ Returns B t :=
  exists_congr fun _ => endsWith_inr h

/-- Without `endPart` the call returns what it has. -/
theorem endsWith_null (hs : s.endPart = none) :
    EndsWith (extractUploadedFileContent.turn B) s (.returned s) := by
  have hturn : extractUploadedFileContent.turn B s = .inl (.returned s) := by
    unfold extractUploadedFileContent.turn
    rw [hs]
  exact (endsWith_inl hturn).mpr rfl

/-- A turn that gives up `endPart` is the last but one. -/
theorem endsWith_last {t : Extract}
    (h : extractUploadedFileContent.turn B s = .inr { t with endPart := none }) :
    EndsWith (extractUploadedFileContent.turn B) s (.returned { t with endPart := none }) :=
  (endsWith_inr h).mpr (endsWith_null rfl)

/-- A call that does not return either goes on for ever or uses a size that is not one. -/
theorem returns_iff : Returns B s ↔
    Ends (extractUploadedFileContent.turn B) s ∧
      ∀ n, ¬ EndsWith (extractUploadedFileContent.turn B) s (.badSize n) := by
  constructor
  · rintro ⟨r, hr⟩
    refine ⟨⟨_, hr⟩, fun n hn => ?_⟩
    cases hr.unique hn
  · rintro ⟨⟨e, he⟩, hno⟩
    rcases e with r | n
    · exact ⟨r, he⟩
    · exact absurd he (hno n)

end Turn

/-! ## When the scanner returns -/

/-- What keeps the scanner from returning; `seen` tells whether it has come by a file. -/
inductive Trouble (B : Bytes) : (seen : Bool) → (b : Bytes) → Prop where
  /-- `Content-Disposition` is mentioned behind a delimiter, and there is no newline. -/
  | stuck {seen : Bool} {b part : Bytes} (line : afterDelimiter B b = some part)
      (disposition : bytes "Content-Disposition" <:+: cstr part) (newline : 10 ∉ cstr part) :
      Trouble B seen b
  /-- The first part with a file has less than two bytes before the next delimiter. -/
  | touching {b part content : Bytes} {k : ℕ} (here : PartAt B b part content k)
      (file : FileLine part) (short : k < 2) : Trouble B false b
  /-- There is trouble behind a part. -/
  | behind {seen : Bool} {b part content : Bytes} {k : ℕ} (here : PartAt B b part content k)
      (rest : Trouble B (seen || decide (FileLine part)) (content.drop k)) : Trouble B seen b

section Returns

variable {B b part content : Bytes} {s : Extract} {k : ℕ}

theorem PartAt.turn (h : PartAt B b part content k) (hs : s.endPart = some b) :
    extractUploadedFileContent.turn B s = (s.withLine part).part content k := by
  have hnewline := (headerEnd_suffix h.header).2.2
  rw [turn_line hs h.line, if_neg (not_not.mpr h.disposition), if_neg (not_not.mpr hnewline),
    h.header]
  dsimp only
  rw [h.delimiter]

theorem Trouble.not_returns {seen : Bool} (h : Trouble B seen b) (hs : s.endPart = some b)
    (hseen : s.firstUploadFile = seen) : ¬ Returns B s := by
  induction h generalizing s with
  | stuck line disposition newline =>
      have hback : extractUploadedFileContent.turn B s = .inr s := by
        rw [turn_line hs line, if_neg (not_not.mpr disposition), if_pos newline]
      rw [returns_iff]
      rintro ⟨hends, -⟩
      exact not_ends_of_back hback hends
  | touching here file short =>
      rename_i b part content k
      rcases part_cases s part content k with ⟨-, -, -, hbad⟩ | ⟨s', hturn, -, -, -, -, hkept⟩
      · rw [returns_iff]
        rintro ⟨-, hno⟩
        apply hno (k - 2)
        rw [← here.turn hs] at hbad
        exact (endsWith_inl hbad).mpr rfl
      · rw [if_pos ⟨file, hseen⟩] at hkept
        omega
  | behind here rest ih =>
      rename_i seen b part content k
      rcases part_cases s part content k with ⟨-, -, -, hbad⟩ | ⟨s', hturn, hnext, -, hseen', -⟩
      · rw [← here.turn hs] at hbad
        rintro ⟨r, hr⟩
        cases (endsWith_inl hbad).mp hr
      · rw [← here.turn hs] at hturn
        rw [returns_inr hturn]
        exact ih hnext (by rw [hseen', hseen])

/-- With no mention of `Content-Disposition` to come, the scanner goes from delimiter to delimiter
and returns what it has. -/
theorem endsWith_no_disposition (hs : s.endPart = some b)
    (hno : ¬ bytes "Content-Disposition" <:+: cstr b) :
    ∃ r, EndsWith (extractUploadedFileContent.turn B) s (.returned r) ∧
      r.fileContent = s.fileContent ∧ r.lenContent = s.lenContent ∧ r.query = s.query := by
  -- By induction on what is to come.
  induction hlen : b.length using Nat.strong_induction_on generalizing b s with
  | _ n ih =>
    rcases hline : afterDelimiter B b with _ | part
    · rcases turn_no_line hs hline with hturn | hturn
      · exact ⟨s, (endsWith_inl hturn).mpr rfl, rfl, rfl, rfl⟩
      · exact ⟨_, endsWith_last hturn, rfl, rfl, rfl⟩
    · obtain ⟨hsuffix, hlt⟩ := afterDelimiter_suffix hline
      have hno' : ¬ bytes "Content-Disposition" <:+: cstr part :=
        fun hin => hno (hin.trans hsuffix.isInfix)
      have hturn : extractUploadedFileContent.turn B s = .inr { s with endPart := some part } := by
        rw [turn_line hs hline, if_pos hno']
      have hnext : ({ s with endPart := some part } : Extract).endPart = some part := rfl
      obtain ⟨r, hr, hkept⟩ := ih part.length (by omega) hnext hno' rfl
      exact ⟨r, (endsWith_inr hturn).mpr hr, hkept⟩

theorem returns_of_not_trouble {seen : Bool} (h : ¬ Trouble B seen b) (hs : s.endPart = some b)
    (hseen : s.firstUploadFile = seen) : Returns B s := by
  induction hlen : b.length using Nat.strong_induction_on generalizing b s seen with
  | _ n ih =>
    rcases hline : afterDelimiter B b with _ | part
    · rcases turn_no_line hs hline with hturn | hturn
      · exact ⟨s, (endsWith_inl hturn).mpr rfl⟩
      · exact ⟨_, endsWith_last hturn⟩
    have hturn := turn_line hs hline
    by_cases hdisp : bytes "Content-Disposition" <:+: cstr part
    · have hnewline : 10 ∈ cstr part := by
        by_contra hno
        exact h (.stuck hline hdisp hno)
      rw [if_neg (not_not.mpr hdisp), if_neg (not_not.mpr hnewline)] at hturn
      rcases hheader : headerEnd part with _ | content
      · rw [hheader] at hturn
        exact ⟨_, endsWith_last hturn⟩
      rcases hdelim : findSub B content with _ | k
      · rw [hheader] at hturn
        dsimp only at hturn
        rw [hdelim] at hturn
        exact ⟨_, endsWith_last hturn⟩
      -- A part is read.
      have here : PartAt B b part content k := ⟨hline, hdisp, hheader, hdelim⟩
      rcases part_cases s part content k with ⟨hfile, hfirst, hshort, -⟩ |
        ⟨s', hs', hnext, -, hseen', -⟩
      · rw [hseen] at hfirst
        rw [hfirst] at h
        exact absurd (.touching here hfile hshort) h
      · rw [← here.turn hs] at hs'
        rw [returns_inr hs']
        refine ih (content.drop k).length ?_ (fun hrest => h (.behind here hrest)) hnext ?_ rfl
        · rw [← hlen]
          exact here.shorter
        · rw [hseen', hseen]
    · rw [if_pos hdisp] at hturn
      obtain ⟨r, hr, -⟩ := @endsWith_no_disposition B part { s with endPart := some part } rfl hdisp
      exact ⟨r, (endsWith_inr hturn).mpr hr⟩

/-- **The scanner.** For every body and every boundary: its loop ends, and with no size below
zero, exactly if the body makes no trouble. -/
theorem extract_ends_iff (B body : Bytes) (query : Option Bytes) (buf : Bytes) :
    (Ends (extractUploadedFileContent.turn B) (Extract.start (some body) query buf) ∧
      ∀ n, ¬ EndsWith (extractUploadedFileContent.turn B) (Extract.start (some body) query buf)
        (.badSize n)) ↔ ¬ Trouble B false body := by
  rw [← returns_iff]
  constructor
  · intro hreturns htrouble
    exact htrouble.not_returns rfl rfl hreturns
  · intro hno
    exact returns_of_not_trouble hno rfl rfl

end Returns

/-- A delimiter, and behind it a line that does not end. -/
def unendedPart : Bytes := bytes "--B" ++ [13, 10] ++ bytes "Content-Disposition: form-data"

/-- A body that ends within its first part keeps the loop going. -/
theorem unended_part_hangs :
    ¬ ∀ (B body : Bytes) (query : Option Bytes) (buf : Bytes), B ≠ [] →
      Ends (extractUploadedFileContent.turn B) (Extract.start (some body) query buf) ∧
        ∀ n, ¬ EndsWith (extractUploadedFileContent.turn B) (Extract.start (some body) query buf)
          (.badSize n) := by
  intro hall
  have hback : extractUploadedFileContent.turn (bytes "--B")
      (Extract.start (some unendedPart) none (List.replicate 1024 0))
      = .inr (Extract.start (some unendedPart) none (List.replicate 1024 0)) := by
    decide +kernel
  exact not_ends_of_back hback
    (hall (bytes "--B") unendedPart none (List.replicate 1024 0) (by decide +kernel)).1

/-- A file with the next delimiter right behind its header. -/
def touchingPart : Bytes :=
  bytes "--B" ++ [13, 10] ++ bytes "Content-Disposition: form-data; name=\"f\"; filename=\"a\"" ++
    [13, 10, 13, 10] ++ bytes "--B--" ++ [13, 10]

example : extractUploadedFileContent.turn (bytes "--B")
    (Extract.start (some touchingPart) none (List.replicate 1024 0)) = .inl (.badSize (-2)) := by
  decide +kernel

end TestCore.Webs
