/-
The queues of `queue.c`: a ring of links through the queue itself.

A queue is a link of its own and a count. In an empty queue both pointers of this link are to
itself; otherwise the links of the items follow it, in both directions, and the last of them
leads back to it. `QRep h q l` says that the queue at `q` holds the items whose links are `l`.

The file is compiled with `FEATURE_Q_NO_SELF_QPTR`: an item starts with its link, and the
address of the one is that of the other. The lock of the queue itself is left out, since a call
that holds it does nothing but what is here.
-/
import TestCore.Lib.Chain

set_option autoImplicit false

namespace TestCore.Webs

open TestCore.Lib

/-! ## The operations -/

/-- The address of a `q_link_type`. -/
abbrev Link := ℕ

def NULL : Link := 0

/-- The links in memory, and the count of one queue. -/
structure QMem where
  next_ptr : Link → Link
  prev_ptr : Link → Link
  cnt : ℤ

def q_init (h : QMem) (q : Link) : QMem :=
  { next_ptr := Function.update h.next_ptr q q
    prev_ptr := Function.update h.prev_ptr q q
    cnt := 0 }

def q_link (h : QMem) (link : Link) : QMem :=
  { h with
    next_ptr := Function.update h.next_ptr link NULL
    prev_ptr := Function.update h.prev_ptr link NULL }

def q_put (h : QMem) (q link : Link) : QMem :=
  let next_ptr := Function.update h.next_ptr link q
  let prev_ptr := Function.update h.prev_ptr link (h.prev_ptr q)
  { next_ptr := Function.update next_ptr (prev_ptr q) link
    prev_ptr := Function.update prev_ptr q link
    cnt := h.cnt + 1 }

/-- `q_get`: the links afterwards, and the item, or `NULL`. -/
def q_get (h : QMem) (q : Link) : QMem × Link :=
  let link := h.next_ptr q
  if 0 < h.cnt then
    let next_ptr := Function.update h.next_ptr q (h.next_ptr link)
    ({ next_ptr := Function.update next_ptr link NULL
       prev_ptr := Function.update h.prev_ptr (next_ptr link) q
       cnt := h.cnt - 1 }, link)
  else (h, NULL)

/-! ## The items of a queue -/

/-- The queue at `q` holds the items `l`. -/
structure QRep (h : QMem) (q : Link) (l : List Link) : Prop where
  forth : Chain h.next_ptr q (q :: l) q
  back : Chain h.prev_ptr q (q :: l.reverse) q
  nodup : (q :: l).Nodup
  nonnull : NULL ∉ l
  cnt : h.cnt = l.length

theorem qrep_init (h : QMem) (q : Link) : QRep (q_init h q) q [] := by
  have hself : ∀ f : Link → Link, Chain (Function.update f q q) q [q] q := by
    intro f
    refine ⟨rfl, ?_⟩
    rw [Function.update_self]
    rfl
  exact ⟨hself _, hself _, by simp, by simp, rfl⟩

/-- The link of an item that is not queued does not matter. -/
theorem QRep.link {h : QMem} {q : Link} {l : List Link} (hl : QRep h q l) {e : Link} (heq : e ≠ q)
    (he : e ∉ l) : QRep (q_link h e) q l := by
  have hforth : e ∉ q :: l := by simp [heq, he]
  have hback : e ∉ q :: l.reverse := by simp [heq, he]
  exact ⟨hl.forth.update hforth NULL, hl.back.update hback NULL, hl.nodup, hl.nonnull, hl.cnt⟩

/-- The first item, or the queue itself. -/
theorem QRep.next_ptr {h : QMem} {q : Link} {l : List Link} (hl : QRep h q l) :
    h.next_ptr q = l.headD q := hl.forth.2.head

/-- The last item, or the queue itself. -/
theorem QRep.prev_ptr {h : QMem} {q : Link} {l : List Link} (hl : QRep h q l) :
    h.prev_ptr q = l.getLastD q := by
  rw [hl.back.2.head]
  rcases List.eq_nil_or_concat' l with rfl | ⟨front, x, rfl⟩
  · rfl
  · simp

/-- An item that is put comes last. -/
theorem QRep.put {h : QMem} {q : Link} {l : List Link} (hl : QRep h q l) {e : Link} (heq : e ≠ q)
    (he : e ∉ l) (hnull : e ≠ NULL) : QRep (q_put h q e) q (l ++ [e]) := by
  have hlast := hl.prev_ptr
  have hprev : Function.update h.prev_ptr e (h.prev_ptr q) q = h.prev_ptr q :=
    Function.update_of_ne heq.symm _ _
  have hnew : e ∉ q :: l := by simp [heq, he]
  obtain ⟨front, t, ht⟩ : ∃ front t, q :: l = front ++ [t] :=
    ((List.eq_nil_or_concat' (q :: l)).resolve_left (List.cons_ne_nil q l))
  have hq : l.getLastD q = t := by
    rw [← List.getLastD_cons (a := q), ht, List.getLastD_concat]
  have hdisjoint : t ∉ front := by
    have hnodup := hl.nodup
    rw [ht, ← List.concat_eq_append, List.nodup_concat] at hnodup
    exact hnodup.1
  unfold q_put
  refine ⟨?_, ?_, ?_, ?_, ?_⟩
  · -- Forth: the last link is turned to the new one, and this to the queue.
    dsimp only
    rw [hprev, hlast, hq, ← List.cons_append, ht]
    have hforth := hl.forth.update hnew q
    rw [ht] at hforth hnew
    have hlonger := hforth.concat hdisjoint hnew
    rw [Function.update_self] at hlonger
    exact hlonger
  · -- Back: the queue leads to the new link, and this to the old last one.
    dsimp only
    rw [List.reverse_append, List.reverse_singleton, List.singleton_append]
    refine ⟨rfl, Function.update_self _ _ _, ?_⟩
    rw [Function.update_of_ne heq, Function.update_self]
    have hrest := hl.back.2.update (x := e) (by simp [he]) (h.prev_ptr q)
    apply hrest.update
    have hnodup := (List.nodup_cons.mp hl.nodup).1
    simp [hnodup]
  · rw [← List.cons_append, ← List.concat_eq_append, List.nodup_concat]
    exact ⟨hnew, hl.nodup⟩
  · rw [List.mem_append, List.mem_singleton]
    rintro (hmem | hmem)
    · exact hl.nonnull hmem
    · exact hnull hmem.symm
  · dsimp only
    rw [hl.cnt, List.length_append]
    rfl

/-- From an empty queue there is nothing to get. -/
theorem QRep.get_nil {h : QMem} {q : Link} (hl : QRep h q []) : q_get h q = (h, NULL) := by
  have hcnt : h.cnt = 0 := hl.cnt
  unfold q_get
  rw [if_neg (by omega)]

/-- Otherwise one gets the first item. -/
theorem QRep.get {h : QMem} {q x : Link} {l : List Link} (hl : QRep h q (x :: l)) :
    (q_get h q).2 = x ∧ QRep (q_get h q).1 q l := by
  have hcnt := hl.cnt
  rw [List.length_cons] at hcnt
  have hx : h.next_ptr q = x := hl.next_ptr
  obtain ⟨hq, hnodup⟩ := List.nodup_cons.mp hl.nodup
  obtain ⟨hxl, hnodup'⟩ := List.nodup_cons.mp hnodup
  have hxq : x ≠ q := by
    rintro rfl
    exact hq (by simp)
  have hql : q ∉ l := fun hmem => hq (List.mem_cons_of_mem x hmem)
  have hnext : h.next_ptr x = l.headD q := (hl.forth.2.2).head
  unfold q_get
  dsimp only
  rw [if_pos (by omega), hx, Function.update_of_ne hxq]
  refine ⟨rfl, ?_, ?_, ?_, ?_, ?_⟩
  · dsimp only
    refine ⟨rfl, ?_⟩
    rw [Function.update_of_ne hxq.symm, Function.update_self]
    exact (hl.forth.2.2.update hql (h.next_ptr x)).update hxl NULL
  · -- The link behind `x` leads back to the queue.
    dsimp only
    have hback := hl.back
    rw [List.reverse_cons, ← List.cons_append] at hback
    obtain ⟨b, hfront, -⟩ := (chain_append _ _ _ _ _).mp hback
    rw [hnext]
    rcases l with _ | ⟨y, l⟩
    · exact hfront.retarget (l := []) (by simp) q
    · rw [List.reverse_cons, ← List.cons_append] at hfront ⊢
      apply hfront.retarget
      have hyl := (List.nodup_cons.mp hnodup').1
      have hyq : y ≠ q := by
        rintro rfl
        exact hql (by simp)
      simp [hyl, hyq]
  · exact List.nodup_cons.mpr ⟨hql, hnodup'⟩
  · exact fun hmem => hl.nonnull (List.mem_cons_of_mem x hmem)
  · dsimp only
    rw [hcnt]
    push_cast
    ring

end TestCore.Webs
