/-
Hash tables of chains in memory.

The table has a pointer to the first node of each chain (`heads`), and `nodes` are the nodes of the
chains. An operation changes one chain: it is taken out (`Buckets.split`), gets other nodes or another
first one, and is put back (`Buckets.join`), which asks of the other chains only that nothing was written
to their nodes. Two things happen to a chain: a node is hung behind the last one, or taken out
(`Chain.unlink`).
-/
import TestCore.Lib.Chain

set_option autoImplicit false

namespace TestCore.Lib

section Buckets

variable {π : Type*}

/-- From each of the `heads` on there are the nodes of its chain; no two chains have one in common. -/
structure Buckets (next : π → π) (null : π) (heads : List π) (nodes : List (List π)) : Prop where
  chains : List.Forall₂ (fun p l => Chain next p l null) heads nodes
  nonnull : null ∉ nodes.flatten
  nodup : nodes.flatten.Nodup

variable {next next' : π → π} {null : π} {heads : List π} {nodes pre post : List (List π)} {l l' : List π}

/-- A table of null pointers has no nodes. -/
theorem buckets_empty (next : π → π) (null : π) (n : ℕ) :
    Buckets next null (List.replicate n null) (List.replicate n []) where
  chains := by
    induction n with
    | zero => exact List.Forall₂.nil
    | succ n ih => exact List.Forall₂.cons rfl ih
  nonnull := by simp
  nodup := by simp

theorem Buckets.length_eq (h : Buckets next null heads nodes) : nodes.length = heads.length :=
  h.chains.length_eq.symm

theorem mem_flatten_middle {x : π} :
    x ∈ (pre ++ l :: post).flatten ↔ x ∈ l ∨ x ∈ pre.flatten ++ post.flatten := by
  rw [List.flatten_append, List.flatten_cons, List.mem_append, List.mem_append, List.mem_append]
  exact or_left_comm

/-- The nodes of one chain are different ones, and none of them is in another chain. -/
theorem Buckets.nodup_chain (h : Buckets next null heads (pre ++ l :: post)) :
    l.Nodup ∧ ∀ x ∈ l, x ∉ pre.flatten ++ post.flatten := by
  have hnodup := h.nodup
  rw [List.flatten_append, List.flatten_cons] at hnodup
  obtain ⟨-, hrest, hpre⟩ := List.nodup_append.mp hnodup
  obtain ⟨hl, -, hpost⟩ := List.nodup_append.mp hrest
  refine ⟨hl, fun x hx hmem => ?_⟩
  rcases List.mem_append.mp hmem with hmem | hmem
  · exact hpre x hmem x (List.mem_append_left _ hx) rfl
  · exact hpost x hx x hmem rfl

theorem Buckets.nonnull_chain (h : Buckets next null heads (pre ++ l :: post)) : null ∉ l := fun hx =>
  h.nonnull (mem_flatten_middle.mpr (Or.inl hx))

/-- One of the chains. -/
theorem Buckets.split (h : Buckets next null heads nodes) {i : ℕ} {p : π} (hi : heads[i]? = some p) :
    ∃ pre l post, nodes = pre ++ l :: post ∧ pre.length = i ∧ Chain next p l null := by
  obtain ⟨hlt, hp⟩ := List.getElem?_eq_some_iff.mp hi
  have hlen := h.length_eq
  refine ⟨nodes.take i, nodes[i], nodes.drop (i + 1), ?_, ?_, ?_⟩
  · rw [← List.drop_eq_getElem_cons, List.take_append_drop]
  · rw [List.length_take]
    omega
  · have hchain := (List.forall₂_iff_get.mp h.chains).2 i hlt (by omega)
    rw [List.get_eq_getElem, List.get_eq_getElem, hp] at hchain
    exact hchain

/-- The first node of the chain that has so many before it. -/
theorem Buckets.head (h : Buckets next null heads (pre ++ l :: post)) :
    ∃ p, heads[pre.length]? = some p ∧ Chain next p l null := by
  have hlen := h.length_eq
  rw [List.length_append, List.length_cons] at hlen
  have hlt : pre.length < heads.length := by omega
  have hlt' : pre.length < (pre ++ l :: post).length := by
    rw [List.length_append, List.length_cons]
    omega
  have hchain := (List.forall₂_iff_get.mp h.chains).2 pre.length hlt hlt'
  rw [List.get_eq_getElem, List.get_eq_getElem, List.getElem_append_right le_rfl] at hchain
  simp only [Nat.sub_self, List.getElem_cons_zero] at hchain
  exact ⟨_, List.getElem?_eq_getElem hlt, hchain⟩

/-- A part of a chain, to its end, is a chain from its first node on. -/
theorem Buckets.rest {a b : List π} (h : Buckets next null heads (pre ++ (a ++ b) :: post)) :
    Chain next (b.headD null) b null := by
  obtain ⟨p, -, hchain⟩ := h.head
  obtain ⟨c, -, hrest⟩ := (chain_append next p null a b).mp hchain
  have hhead := hrest.head
  rwa [hhead] at hrest

/-- A chain is replaced, and nothing is written to the nodes of the others. -/
theorem Buckets.join (h : Buckets next null heads (pre ++ l :: post)) {p : π} (hchain : Chain next' p l' null)
    (hsame : ∀ x ∈ pre.flatten ++ post.flatten, next' x = next x) (hnull : null ∉ l')
    (hnodup : (pre ++ l' :: post).flatten.Nodup) :
    Buckets next' null (heads.set pre.length p) (pre ++ l' :: post) where
  chains := by
    have hlen : heads.length = pre.length + (post.length + 1) := by
      rw [← h.length_eq, List.length_append, List.length_cons]
    have hlen' : (pre ++ l' :: post).length = pre.length + (post.length + 1) := by
      rw [List.length_append, List.length_cons]
    refine List.forall₂_iff_get.mpr ⟨by rw [List.length_set, hlen, hlen'], fun i hi hi' => ?_⟩
    have hi₀ : i < heads.length := by rwa [List.length_set] at hi
    have hold := (List.forall₂_iff_get.mp h.chains).2 i hi₀ (by rw [h.length_eq]; exact hi₀)
    simp only [List.get_eq_getElem] at hold ⊢
    rw [List.getElem_set]
    rcases lt_trichotomy i pre.length with hlow | rfl | hhigh
    · rw [if_neg (by omega), List.getElem_append_left hlow]
      rw [List.getElem_append_left hlow] at hold
      exact hold.frame fun x hx =>
        hsame x (List.mem_append_left _ (List.mem_flatten_of_mem (List.getElem_mem hlow) hx))
    · rw [if_pos rfl, List.getElem_append_right le_rfl]
      simpa using hchain
    · obtain ⟨k, rfl⟩ := Nat.exists_eq_add_of_lt hhigh
      have hk : k < post.length := by omega
      rw [if_neg (by omega), List.getElem_append_right (by omega)]
      rw [List.getElem_append_right (by omega)] at hold
      simp only [show pre.length + k + 1 - pre.length = k + 1 by omega, List.getElem_cons_succ] at hold ⊢
      exact hold.frame fun x hx =>
        hsame x (List.mem_append_right _ (List.mem_flatten_of_mem (List.getElem_mem hk) hx))
  nonnull := by
    have hnonnull := h.nonnull
    rw [List.flatten_append, List.flatten_cons, List.mem_append, List.mem_append] at hnonnull ⊢
    rintro (hx | hx | hx)
    · exact hnonnull (Or.inl hx)
    · exact hnull hx
    · exact hnonnull (Or.inr (Or.inr hx))
  nodup := hnodup

/-! ## Ranks -/

/-- Each node is in the chain that it ranks in. -/
def Ranked (rank : π → ℕ) (nodes : List (List π)) : Prop :=
  ∀ i l, nodes[i]? = some l → ∀ x ∈ l, rank x = i

theorem ranked_replicate (rank : π → ℕ) (n : ℕ) : Ranked rank (List.replicate n ([] : List π)) := by
  intro i l hl x hx
  rw [List.getElem?_replicate] at hl
  split_ifs at hl
  rw [← Option.some.inj hl] at hx
  exact absurd hx List.not_mem_nil

variable {rank rank' : π → ℕ}

theorem Ranked.eq_of_mem (h : Ranked rank (pre ++ l :: post)) {x : π} (hx : x ∈ l) : rank x = pre.length :=
  h pre.length l (by rw [List.getElem?_append_right le_rfl]; simp) x hx

theorem Ranked.lt_of_mem (h : Ranked rank (pre ++ l :: post)) {x : π} (hx : x ∈ pre.flatten) :
    rank x < pre.length := by
  obtain ⟨l₀, hl₀, hx⟩ := List.mem_flatten.mp hx
  obtain ⟨i, hi, rfl⟩ := List.getElem_of_mem hl₀
  rw [h i pre[i] (by rw [List.getElem?_append_left hi, List.getElem?_eq_getElem hi]) x hx]
  exact hi

theorem Ranked.gt_of_mem (h : Ranked rank (pre ++ l :: post)) {x : π} (hx : x ∈ post.flatten) :
    pre.length < rank x := by
  obtain ⟨l₀, hl₀, hx⟩ := List.mem_flatten.mp hx
  obtain ⟨i, hi, rfl⟩ := List.getElem_of_mem hl₀
  have hat : (pre ++ l :: post)[pre.length + 1 + i]? = some post[i] := by
    rw [List.getElem?_append_right (by omega), show pre.length + 1 + i - pre.length = i + 1 by omega,
      List.getElem?_cons_succ, List.getElem?_eq_getElem hi]
  rw [h _ _ hat x hx]
  omega

/-- A chain is replaced, and the others keep their ranks. -/
theorem Ranked.replace (h : Ranked rank (pre ++ l :: post)) (hl' : ∀ x ∈ l', rank' x = pre.length)
    (hsame : ∀ x ∈ pre.flatten ++ post.flatten, rank' x = rank x) : Ranked rank' (pre ++ l' :: post) := by
  intro i l₀ hi x hx
  rcases lt_trichotomy i pre.length with hlow | rfl | hhigh
  · rw [List.getElem?_append_left hlow] at hi
    have hmem : x ∈ pre.flatten := List.mem_flatten_of_mem (List.mem_of_getElem? hi) hx
    rw [hsame x (List.mem_append_left _ hmem)]
    exact h i l₀ (by rw [List.getElem?_append_left hlow, hi]) x hx
  · rw [List.getElem?_append_right le_rfl, Nat.sub_self, List.getElem?_cons_zero] at hi
    rw [← Option.some.inj hi] at hx
    exact hl' x hx
  · obtain ⟨k, rfl⟩ := Nat.exists_eq_add_of_lt hhigh
    rw [List.getElem?_append_right (by omega), show pre.length + k + 1 - pre.length = k + 1 by omega,
      List.getElem?_cons_succ] at hi
    have hmem : x ∈ post.flatten := List.mem_flatten_of_mem (List.mem_of_getElem? hi) hx
    rw [hsame x (List.mem_append_right _ hmem)]
    refine h _ l₀ ?_ x hx
    rw [List.getElem?_append_right (by omega), show pre.length + k + 1 - pre.length = k + 1 by omega,
      List.getElem?_cons_succ, hi]

/-- An element goes behind those that rank as low, before the others. -/
theorem orderedInsert_append {α : Type*} {f : α → ℕ} {a : α} {front back : List α}
    (hfront : ∀ x ∈ front, f x ≤ f a) (hback : ∀ x ∈ back, f a < f x) :
    (front ++ back).orderedInsert (fun x y => f x < f y) a = front ++ a :: back := by
  induction front with
  | nil =>
      rcases back with _ | ⟨b, back⟩
      · rfl
      · rw [List.nil_append, List.orderedInsert_cons, if_pos (hback b List.mem_cons_self)]
        rfl
  | cons x front ih =>
      have hx := hfront x List.mem_cons_self
      rw [List.cons_append, List.orderedInsert_cons, if_neg (by omega),
        ih fun y hy => hfront y (List.mem_cons_of_mem x hy)]
      rfl

variable [DecidableEq π]

/-- What the chains are without a node. -/
theorem Buckets.map_filter {a b : List π} {x : π} (h : Buckets next null heads (pre ++ (a ++ x :: b) :: post)) :
    (pre ++ (a ++ x :: b) :: post).map (List.filter (· ≠ x)) = pre ++ (a ++ b) :: post := by
  obtain ⟨hnodup, hother⟩ := h.nodup_chain
  have hkeep : ∀ l : List π, x ∉ l → l.filter (· ≠ x) = l := fun l hl =>
    List.filter_eq_self.mpr fun y hy => decide_eq_true fun heq => hl (heq ▸ hy)
  have houter : ∀ ls : List (List π), x ∉ ls.flatten → ls.map (List.filter (· ≠ x)) = ls := by
    intro ls hls
    have hid : ls.map (List.filter (· ≠ x)) = ls.map id := List.map_congr_left fun l hl =>
      hkeep l fun hx => hls (List.mem_flatten_of_mem hl hx)
    rw [hid, List.map_id]
  have hx : x ∉ pre.flatten ++ post.flatten := hother x (by simp)
  rw [List.mem_append, not_or] at hx
  rw [List.nodup_middle, List.nodup_cons, List.mem_append, not_or] at hnodup
  rw [List.map_append, List.map_cons, houter pre hx.1, houter post hx.2, List.filter_append,
    List.filter_cons, if_neg (by simp), hkeep a hnodup.1.1, hkeep b hnodup.1.2]

/-- A node in the middle of a chain is taken out by a write to the one before it. -/
theorem Chain.unlink {p y x : π} {a b : List π} (h : Chain next p (a ++ [y] ++ x :: b) null)
    (hnodup : (a ++ [y] ++ x :: b).Nodup) :
    Chain (Function.update next y (next x)) p (a ++ [y] ++ b) null := by
  obtain ⟨c, hfirst, -, hrest⟩ := (chain_append next p null (a ++ [y]) (x :: b)).mp h
  have hy : y ∉ a := by
    have hay := (List.nodup_append.mp hnodup).1
    rw [← List.concat_eq_append, List.nodup_concat] at hay
    exact hay.1
  have hyb : y ∉ b := fun hmem => by
    have hdisjoint := (List.nodup_append.mp hnodup).2.2 y (by simp) y (List.mem_cons_of_mem x hmem)
    exact hdisjoint rfl
  exact (chain_append _ _ _ _ _).mpr ⟨next x, hfirst.retarget hy _, hrest.update hyb _⟩

/-- A node becomes the last one. -/
theorem Chain.snoc {p y e : π} {a : List π} (h : Chain next p (a ++ [y]) null) (hy : y ∉ a)
    (he : e ∉ a ++ [y]) :
    Chain (Function.update (Function.update next e null) y e) p (a ++ [y] ++ [e]) null := by
  have hne : e ≠ y := fun heq => he (by simp [heq])
  have hlonger := (h.update he null).concat hy he
  rwa [Function.update_self] at hlonger

end Buckets

end TestCore.Lib
