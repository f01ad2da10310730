/-
The order of the URL handlers (`handler.c`, `initWebs` of `main.c`).

Access control rests on an order: `websSecurityHandler` has to see a request before any other
handler does. It is registered with `WEBS_HANDLER_FIRST`, the default handler with
`WEBS_HANDLER_LAST`, and the array of the handlers is sorted again at every registration. The
comparison looks at the flag of its first argument before it looks at the second one. So two
handlers that are both to be first compare as less than each other, and `qsort` promises nothing
about an array that has both. `initWebs` registers two of them.
-/
import TestCore.Lib.CString
import TestCore.Lib.Qsort

set_option autoImplicit false

namespace TestCore.Webs

open TestCore.Lib

/-! ## Registration -/

/-- The handlers of the server. -/
inductive HandlerFn where
  | websSecurityHandler
  | websFormHandler
  | websJRDtnHandler
  | websJRDJsonHandler
  | websJRDXMLHandler
  | websCgiHandler
  | websDefaultHandler
  | websHomePageHandler
  | websPublishHandler
  deriving DecidableEq, Repr

/-- `websUrlHandlerType`. -/
structure WebsUrlHandler where
  urlPrefix : Bytes
  webDir : Bytes := []
  arg : ℤ := 0
  handler : HandlerFn
  flags : UInt32 := 0
  deriving DecidableEq, Repr

def WEBS_HANDLER_FIRST : UInt32 := 0x1
def WEBS_HANDLER_LAST : UInt32 := 0x2

def WebsUrlHandler.len (s : WebsUrlHandler) : ℕ := s.urlPrefix.length

/-- `s->flags & WEBS_HANDLER_FIRST`. -/
def WebsUrlHandler.first (s : WebsUrlHandler) : Bool := s.flags &&& WEBS_HANDLER_FIRST ≠ 0

/-- `s->flags & WEBS_HANDLER_LAST`. -/
def WebsUrlHandler.last (s : WebsUrlHandler) : Bool := s.flags &&& WEBS_HANDLER_LAST ≠ 0

def websUrlHandlerSort (s1 s2 : WebsUrlHandler) : ℤ :=
  if s1.first ∨ s2.last then -1
  else if s2.first ∨ s1.last then 1
  else
    let rc := strcmp s1.urlPrefix s2.urlPrefix
    if rc = 0 ∧ s1.len < s2.len then 1
    else if rc = 0 ∧ s2.len < s1.len then -1
    else -rc

/-- `websUrlHandlerDefine`: one more entry, and `qsort`. -/
def websUrlHandlerDefine (qsort : List WebsUrlHandler → List WebsUrlHandler)
    (websUrlHandler : List WebsUrlHandler) (s : WebsUrlHandler) : List WebsUrlHandler :=
  qsort (websUrlHandler ++ [s])

def securityHandler : WebsUrlHandler :=
  { urlPrefix := [], handler := .websSecurityHandler, flags := WEBS_HANDLER_FIRST }

def defaultHandler : WebsUrlHandler :=
  { urlPrefix := [], handler := .websDefaultHandler, flags := WEBS_HANDLER_LAST }

/-- The registrations of `initWebs`. -/
def initWebs : List WebsUrlHandler :=
  [securityHandler,
    { urlPrefix := [], handler := .websFormHandler, flags := WEBS_HANDLER_FIRST },
    { urlPrefix := bytes "/goform", handler := .websJRDtnHandler },
    { urlPrefix := bytes "/jrd/webapi", handler := .websJRDJsonHandler },
    { urlPrefix := bytes "/vodafoneapi", handler := .websJRDXMLHandler },
    { urlPrefix := bytes "/cgi-bin", handler := .websCgiHandler },
    defaultHandler,
    { urlPrefix := bytes "/", handler := .websHomePageHandler }]

/-! ## What is asked of the order -/

/-- The security handler before all the others, the default handler after them. -/
def SecurityFirst (websUrlHandler : List WebsUrlHandler) : Prop :=
  websUrlHandler.head? = some securityHandler ∧ websUrlHandler.getLast? = some defaultHandler

/-- The comparison is consistent on some registrations, and every `qsort` puts the security handler
first and the default handler last, in whatever order they are made. -/
def OrderKept (regs : List WebsUrlHandler) : Prop :=
  ConsistentOn websUrlHandlerSort regs ∧
    ∀ order : List WebsUrlHandler, order.Perm regs → ∀ qsort, QsortContract websUrlHandlerSort qsort →
      SecurityFirst (order.foldl (websUrlHandlerDefine qsort) [])

/-- No other handler has one of the two flags. -/
def FlagsAlone (regs : List WebsUrlHandler) : Prop :=
  ∀ s ∈ regs, (s.first = true → s = securityHandler) ∧ (s.last = true → s = defaultHandler)

/-! ## The comparison -/

theorem sort_of_first {s1 s2 : WebsUrlHandler} (h : s1.first = true ∨ s2.last = true) :
    websUrlHandlerSort s1 s2 = -1 := if_pos h

theorem sort_of_last {s1 s2 : WebsUrlHandler} (h : ¬ (s1.first = true ∨ s2.last = true))
    (h' : s2.first = true ∨ s1.last = true) : websUrlHandlerSort s1 s2 = 1 := by
  unfold websUrlHandlerSort
  rw [if_neg h, if_pos h']

/-- The lengths never decide. -/
theorem sort_of_neither {s1 s2 : WebsUrlHandler} (h : ¬ (s1.first = true ∨ s2.last = true))
    (h' : ¬ (s2.first = true ∨ s1.last = true)) :
    websUrlHandlerSort s1 s2 = - strcmp s1.urlPrefix s2.urlPrefix := by
  -- Equal strings have equal lengths, so the two tests behind `strcmp` never hold.
  have hlen : strcmp s1.urlPrefix s2.urlPrefix = 0 → s1.len = s2.len := by
    intro hzero
    unfold WebsUrlHandler.len
    rw [strcmp_eq_zero hzero]
  unfold websUrlHandlerSort
  rw [if_neg h, if_neg h']
  dsimp only
  rw [if_neg, if_neg]
  · rintro ⟨hzero, hlt⟩
    have heq := hlen hzero
    omega
  · rintro ⟨hzero, hlt⟩
    have heq := hlen hzero
    omega

/-- Which handlers compare as not greater. -/
theorem sort_le_iff (s1 s2 : WebsUrlHandler) :
    websUrlHandlerSort s1 s2 ≤ 0 ↔ s1.first = true ∨ s2.last = true ∨
      (¬ s2.first = true ∧ ¬ s1.last = true ∧ strcmp s2.urlPrefix s1.urlPrefix ≤ 0) := by
  by_cases h : s1.first = true ∨ s2.last = true
  · rw [sort_of_first h]
    rcases h with h | h
    · simp [h]
    · simp [h]
  · by_cases h' : s2.first = true ∨ s1.last = true
    · rw [sort_of_last h h']
      constructor
      · intro hle
        exact absurd hle (by decide)
      · rintro (hf | hl | ⟨hf, hl, -⟩)
        · exact absurd (Or.inl hf) h
        · exact absurd (Or.inr hl) h
        · exact absurd h' (not_or.mpr ⟨hf, hl⟩)
    · rw [sort_of_neither h h', strcmp_swap s2.urlPrefix, neg_neg]
      rw [not_or] at h h'
      constructor
      · intro hle
        exact Or.inr (Or.inr ⟨h'.1, h'.2, hle⟩)
      · rintro (hf | hl | ⟨-, -, hle⟩)
        · exact absurd hf h.1
        · exact absurd hl h.2
        · exact hle

@[simp] theorem securityHandler_first : securityHandler.first = true := by decide

@[simp] theorem securityHandler_last : securityHandler.last = false := by decide

@[simp] theorem defaultHandler_first : defaultHandler.first = false := by decide

@[simp] theorem defaultHandler_last : defaultHandler.last = true := by decide

section Consistent

variable {regs : List WebsUrlHandler}

/-- Another handler with one of the flags compares as less than the one that has it, and that
one as less than it. -/
theorem flagsAlone_of_consistentOn (hsec : securityHandler ∈ regs) (hdef : defaultHandler ∈ regs)
    (hcons : ConsistentOn websUrlHandlerSort regs) : FlagsAlone regs := by
  intro s hs
  refine ⟨fun hfirst => ?_, fun hlast => ?_⟩
  · by_contra hne
    have hsign := hcons.opposite s hs securityHandler hsec hne
    rw [sort_of_first (Or.inl hfirst), sort_of_first (Or.inl securityHandler_first)] at hsign
    exact absurd hsign (by decide)
  · by_contra hne
    have hsign := hcons.opposite s hs defaultHandler hdef hne
    rw [sort_of_first (Or.inr defaultHandler_last), sort_of_first (Or.inr hlast)] at hsign
    exact absurd hsign (by decide)

/-- With the flags alone, only one of two handlers is to come before the other. -/
theorem FlagsAlone.not_both (halone : FlagsAlone regs) {a b : WebsUrlHandler} (ha : a ∈ regs)
    (hb : b ∈ regs) (hne : a ≠ b) (h : a.first = true ∨ b.last = true) :
    ¬ (b.first = true ∨ a.last = true) := by
  rintro (hbf | hal)
  · -- `b` is the security handler: `a` is not, and `b` does not ask to be last.
    have hb' : b = securityHandler := (halone b hb).1 hbf
    rcases h with haf | hbl
    · exact hne (((halone a ha).1 haf).trans hb'.symm)
    · rw [hb', securityHandler_last] at hbl
      exact absurd hbl (by decide)
  · have ha' : a = defaultHandler := (halone a ha).2 hal
    rcases h with haf | hbl
    · rw [ha', defaultHandler_first] at haf
      exact absurd haf (by decide)
    · exact hne (ha'.trans ((halone b hb).2 hbl).symm)

theorem FlagsAlone.opposite (halone : FlagsAlone regs) {a b : WebsUrlHandler} (ha : a ∈ regs)
    (hb : b ∈ regs) (hne : a ≠ b) :
    (websUrlHandlerSort a b).sign = - (websUrlHandlerSort b a).sign := by
  by_cases h : a.first = true ∨ b.last = true
  · rw [sort_of_first h, sort_of_last (halone.not_both ha hb hne h) h]
    rfl
  · by_cases h' : b.first = true ∨ a.last = true
    · rw [sort_of_last h h', sort_of_first h']
      rfl
    · rw [sort_of_neither h h', sort_of_neither h' h, strcmp_swap a.urlPrefix, neg_neg, Int.sign_neg]

theorem FlagsAlone.trans (halone : FlagsAlone regs) {a b c : WebsUrlHandler} (hb : b ∈ regs)
    (hab : websUrlHandlerSort a b ≤ 0) (hbc : websUrlHandlerSort b c ≤ 0) :
    websUrlHandlerSort a c ≤ 0 := by
  rw [sort_le_iff] at hab hbc ⊢
  by_contra hac
  rw [not_or, not_or] at hac
  obtain ⟨haf, hcl, hrest⟩ := hac
  rcases hab with hf | hbl | ⟨hbf, hal, hba⟩
  · exact haf hf
  · -- `b` is the default handler, and that is less than `c` only if `c` is it, too.
    have hb' : b = defaultHandler := (halone b hb).2 hbl
    rcases hbc with hf | hl | ⟨-, hbl', -⟩
    · rw [hb', defaultHandler_first] at hf
      exact absurd hf (by decide)
    · exact hcl hl
    · exact hbl' hbl
  · -- No flag decides between `a` and `b`; without one between `b` and `c`, the prefixes do.
    rcases hbc with hf | hl | ⟨hcf, hbl', hcb⟩
    · exact hbf hf
    · exact hcl hl
    · exact hrest ⟨hcf, hal, strcmp_trans hcb hba⟩

/-- **The comparison is consistent exactly when the flags are alone.** -/
theorem consistentOn_iff (hsec : securityHandler ∈ regs) (hdef : defaultHandler ∈ regs) :
    ConsistentOn websUrlHandlerSort regs ↔ FlagsAlone regs := by
  refine ⟨flagsAlone_of_consistentOn hsec hdef, fun halone => ⟨?_, ?_⟩⟩
  · intro a ha b hb hne
    exact halone.opposite ha hb hne
  · intro a _ b hb c _ hab hbc
    exact halone.trans hb hab hbc

end Consistent

/-! ## The array -/

/-- A sorted array has the security handler in front. -/
theorem head_of_sorted {regs arr : List WebsUrlHandler} (hsec : securityHandler ∈ regs)
    (halone : FlagsAlone regs) (hperm : arr.Perm regs)
    (hsorted : arr.Pairwise fun a b => websUrlHandlerSort a b ≤ 0) :
    arr.head? = some securityHandler := by
  rcases arr with _ | ⟨s, arr⟩
  · exact absurd (hperm.mem_iff.mpr hsec) List.not_mem_nil
  · by_contra hne
    have hs : s ≠ securityHandler := fun heq => hne (congrArg some heq)
    have hmem : securityHandler ∈ arr :=
      (List.mem_cons.mp (hperm.mem_iff.mpr hsec)).resolve_left fun heq => hs heq.symm
    have hle := (List.pairwise_cons.mp hsorted).1 _ hmem
    rw [sort_le_iff] at hle
    rcases hle with hf | hl | ⟨hf, -, -⟩
    · exact hs ((halone s (hperm.mem_iff.mp List.mem_cons_self)).1 hf)
    · rw [securityHandler_last] at hl
      exact absurd hl (by decide)
    · exact hf securityHandler_first

/-- And the default handler at the end. -/
theorem getLast_of_sorted {regs arr : List WebsUrlHandler} (hdef : defaultHandler ∈ regs)
    (halone : FlagsAlone regs) (hperm : arr.Perm regs)
    (hsorted : arr.Pairwise fun a b => websUrlHandlerSort a b ≤ 0) :
    arr.getLast? = some defaultHandler := by
  induction arr using List.reverseRecOn with
  | nil => exact absurd (hperm.mem_iff.mpr hdef) List.not_mem_nil
  | append_singleton arr s _ =>
      rw [List.getLast?_append, List.getLast?_singleton]
      by_contra hne
      have hs : s ≠ defaultHandler := fun heq => hne (congrArg some heq)
      have hmem : defaultHandler ∈ arr := by
        rcases List.mem_append.mp (hperm.mem_iff.mpr hdef) with h | h
        · exact h
        · exact absurd (List.mem_singleton.mp h).symm hs
      have hle := (List.pairwise_append.mp hsorted).2.2 _ hmem s (List.mem_singleton_self s)
      rw [sort_le_iff] at hle
      rcases hle with hf | hl | ⟨-, hl, -⟩
      · rw [defaultHandler_first] at hf
        exact absurd hf (by decide)
      · exact hs ((halone s (hperm.mem_iff.mp (by simp))).2 hl)
      · exact hl defaultHandler_last

/-- **The order is kept exactly when no other handler has one of the two flags.** -/
theorem orderKept_iff {regs : List WebsUrlHandler} (hsec : securityHandler ∈ regs)
    (hdef : defaultHandler ∈ regs) : OrderKept regs ↔ FlagsAlone regs := by
  rw [← consistentOn_iff hsec hdef]
  refine ⟨fun h => h.1, fun hcons => ⟨hcons, ?_⟩⟩
  -- Every order of registration, and every function that meets the contract of `qsort`.
  intro order horder qsort hqsort
  have halone := (consistentOn_iff hsec hdef).mp hcons
  obtain ⟨hperm, hsorted⟩ := foldl_sorted hqsort hcons (List.nil_subset regs)
    (fun s hs => horder.mem_iff.mp hs) List.Pairwise.nil
  rw [List.nil_append] at hperm
  exact ⟨head_of_sorted hsec halone (hperm.trans horder) hsorted,
    getLast_of_sorted hdef halone (hperm.trans horder) hsorted⟩

/-- The registrations of `initWebs`, with no flag on the form handler. -/
def oneFirst : List WebsUrlHandler :=
  [securityHandler, { urlPrefix := bytes "/goform", handler := .websJRDtnHandler }, defaultHandler,
    { urlPrefix := bytes "/", handler := .websHomePageHandler }]

theorem orderKept_oneFirst :
    securityHandler ∈ oneFirst ∧ defaultHandler ∈ oneFirst ∧
      (∃ qsort, QsortContract websUrlHandlerSort qsort) ∧ OrderKept oneFirst := by
  have hsec : securityHandler ∈ oneFirst := by decide
  have hdef : defaultHandler ∈ oneFirst := by decide
  refine ⟨hsec, hdef, exists_qsort ?_, (orderKept_iff hsec hdef).mpr ?_⟩
  · intro s
    rw [sort_le_iff]
    by_cases hf : s.first = true
    · exact Or.inl hf
    · by_cases hl : s.last = true
      · exact Or.inr (Or.inl hl)
      · refine Or.inr (Or.inr ⟨hf, hl, ?_⟩)
        have hswap := strcmp_swap s.urlPrefix s.urlPrefix
        omega
  · unfold FlagsAlone
    decide

/-- `initWebs` registers the form handler to be first too, and then each of the two is less than the
other. -/
theorem not_orderKept_initWebs : ¬ OrderKept initWebs := by
  rintro ⟨hcons, -⟩
  have hsign := hcons.opposite securityHandler (by decide)
    { urlPrefix := [], handler := .websFormHandler, flags := WEBS_HANDLER_FIRST } (by decide)
    (by decide)
  exact absurd hsign (by decide)

end TestCore.Webs
